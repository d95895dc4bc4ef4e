import DesktopSearch.Parser.Session
import DesktopSearch.Proofs.Parser.Lookup
import Mathlib.Data.List.Nodup

/-!
# A parser in a long session

What a parser has looked up are lists of its present store, whatever it was used for before
(`Parser.StandsAt`), so that it replies like one that was never used. The inquiries of a stretch of commands
with one store are about lists that were not known before and are known from then on (`Parser.Asks`), and
two such stretches are one such stretch. Hence a store is asked for a list once at most, even if it did not
answer.

`Parser.run_like_fresh` puts both together, and adds that a text is read with nothing but the lists that have
been looked up by then.
-/

namespace DesktopSearch

/-! ## What has been looked up -/

namespace Lookups

variable {l : Lookups} {d : Directory}

/-- Every list that has been looked up is that of a directory. -/
structure IsPartOf (l : Lookups) (d : Directory) : Prop where
  tags : ∀ tags ∈ l.tags, tags = d.tags
  people : ∀ people ∈ l.people, people = (d.names, d.addresses)

theorem isPartOf_empty (d : Directory) : ({} : Lookups).IsPartOf d := ⟨by simp, by simp⟩

theorem IsPartOf.complete_eq (h : l.IsPartOf d) : l.complete d = d := by
  obtain ⟨tags, people⟩ := l
  obtain ⟨htags, hpeople⟩ := h
  unfold complete
  cases tags <;> cases people <;> simp_all

theorem IsPartOf.learn (h : l.IsPartOf d) (i : Inquiry) : (l.learn d i).IsPartOf d := by
  obtain ⟨tags, people⟩ := l
  obtain ⟨htags, hpeople⟩ := h
  cases i with
  | tags => exact ⟨by cases tags <;> simp_all [Lookups.learn], hpeople⟩
  | people => exact ⟨htags, by cases people <;> simp_all [Lookups.learn]⟩

/-- Looking up a list shows what was to be found in it before. -/
theorem complete_learn (l : Lookups) (d : Directory) (i : Inquiry) :
    (l.learn d i).complete d = l.complete d := by
  obtain ⟨tags, people⟩ := l
  cases i with
  | tags => cases tags <;> rfl
  | people => cases people <;> rfl

theorem knows_learn_iff (i j : Inquiry) :
    (l.learn d i).knows j = true ↔ l.knows j = true ∨ j = i := by
  obtain ⟨tags, people⟩ := l
  cases i <;> cases j <;> cases tags <;> cases people <;> simp [learn, knows]

/-- A list that has been looked up is the same whatever the directory has become. -/
theorem agreeOn_complete {i : Inquiry} (h : l.knows i = true) (d e : Directory) :
    (l.complete d).AgreeOn (l.complete e) i := by
  obtain ⟨tags, people⟩ := l
  cases i with
  | tags =>
    cases tags with
    | none => simp [knows] at h
    | some tags => exact rfl
  | people =>
    cases people with
    | none => simp [knows] at h
    | some people => exact ⟨rfl, rfl⟩

end Lookups

namespace Parser

variable {p q r : Parser}

/-! ## Inquiries of a stretch -/

/-- Between two states of a parser with one store these inquiries were sent, each for a list that was not
known before and is known afterwards. -/
structure Asks (p : Parser) (sent : List Inquiry) (q : Parser) : Prop where
  store : q.store = p.store
  nodup : sent.Nodup
  unknown : ∀ i ∈ sent, p.lookups.knows i = false
  known : ∀ i ∈ sent, q.lookups.knows i = true
  keeps : ∀ i, p.lookups.knows i = true → q.lookups.knows i = true
  learns : p.store.isSome → ∀ i, q.lookups.knows i = true → p.lookups.knows i = true ∨ i ∈ sent

theorem Asks.nothing (hstore : q.store = p.store) (hlookups : q.lookups = p.lookups) :
    p.Asks [] q where
  store := hstore
  nodup := List.nodup_nil
  unknown := by simp
  known := by simp
  keeps _ h := hlookups ▸ h
  learns _ _ h := Or.inl (hlookups ▸ h)

theorem Asks.append {is js : List Inquiry} (hp : p.Asks is q) (hq : q.Asks js r) :
    p.Asks (is ++ js) r where
  store := hq.store.trans hp.store
  nodup := by
    refine List.nodup_append.2 ⟨hp.nodup, hq.nodup, fun i hi j hj hij => ?_⟩
    subst hij
    have hknown := hp.known i hi
    rw [hq.unknown i hj] at hknown
    contradiction
  unknown := by
    refine List.forall_mem_append.2 ⟨hp.unknown, fun i hi => ?_⟩
    refine Bool.eq_false_iff.2 fun hknown => ?_
    have hkept := hp.keeps i hknown
    rw [hq.unknown i hi] at hkept
    contradiction
  known := List.forall_mem_append.2 ⟨fun i hi => hq.keeps i (hp.known i hi), hq.known⟩
  keeps i h := hq.keeps i (hp.keeps i h)
  learns hstore i h := by
    rw [List.mem_append, ← or_assoc]
    exact (hq.learns (hp.store ▸ hstore) i h).imp (hp.learns hstore i) id

theorem asks_inquire (p : Parser) (i : Inquiry) : p.Asks (p.inquire i).1 (p.inquire i).2 := by
  unfold inquire
  split
  · exact .nothing rfl rfl
  · rename_i hunknown
    rw [Bool.not_eq_true] at hunknown
    have hlearns := fun j => Lookups.knows_learn_iff (l := p.lookups) (d := .ofStore p.store) i j
    by_cases hstore : p.store.isSome
    · rw [if_pos hstore]
      exact ⟨rfl, by simp, by simpa using hunknown,
        by simpa using (hlearns i).2 (Or.inr rfl), fun j hj => (hlearns j).2 (Or.inl hj),
        fun _ j hj => by simpa using (hlearns j).1 hj⟩
    · rw [if_neg hstore]
      exact ⟨rfl, List.nodup_nil, by simp, by simp, fun j hj => (hlearns j).2 (Or.inl hj),
        fun hsome => absurd hsome hstore⟩

theorem asks_ask : ∀ (p : Parser) (is : List Inquiry), p.Asks (p.ask is).1 (p.ask is).2
  | _, [] => .nothing rfl rfl
  | p, i :: is => (asks_inquire p i).append (asks_ask (p.inquire i).2 is)

theorem asks_accept (p : Parser) (parsed? : Option Parsed) :
    p.Asks (p.accept parsed?).2.1 (p.accept parsed?).2.2 := by
  cases parsed? with
  | none => exact .nothing rfl rfl
  | some parsed =>
    have h := asks_ask p parsed.inquiries
    exact ⟨h.store, h.nodup, h.unknown, h.known, h.keeps, h.learns⟩

/-- Whether a command gives the parser another store. -/
def Command.setsStore : Command → Bool
  | setStore _ => true
  | _ => false

theorem asks_step {c : Command} (h : c.setsStore = false) (p : Parser) :
    p.Asks (p.step c).2.1 (p.step c).2.2 := by
  cases c with
  | read flags cursor text => exact asks_accept p _
  | list l => exact asks_ask p [l.inquiry]
  | setNow now => exact .nothing rfl rfl
  | setStore store => simp [Command.setsStore] at h

theorem asks_run : ∀ {cs : List Command}, (∀ c ∈ cs, c.setsStore = false) → ∀ p : Parser,
    p.Asks (p.sent cs) (p.run cs)
  | [], _, p => .nothing rfl rfl
  | c :: cs, h, p => by
    rw [List.forall_mem_cons] at h
    exact (asks_step h.1 p).append (asks_run h.2 (p.step c).2.2)

/-! ## Asking -/

/-- Asking changes nothing but what has been looked up. -/
theorem inquire_eq (p : Parser) (i : Inquiry) :
    ∃ l, (p.inquire i).2 = { p with lookups := l } ∧
      l.complete (.ofStore p.store) = p.directory ∧
      (p.lookups.IsPartOf (.ofStore p.store) → l.IsPartOf (.ofStore p.store)) ∧
      l.knows i = true := by
  unfold inquire
  split
  · rename_i hknown
    exact ⟨p.lookups, rfl, rfl, id, hknown⟩
  · exact ⟨_, rfl, Lookups.complete_learn _ _ i, fun h => h.learn i,
      (Lookups.knows_learn_iff i i).2 (Or.inr rfl)⟩

theorem ask_eq : ∀ (p : Parser) (is : List Inquiry),
    ∃ l, (p.ask is).2 = { p with lookups := l } ∧
      l.complete (.ofStore p.store) = p.directory ∧
      (p.lookups.IsPartOf (.ofStore p.store) → l.IsPartOf (.ofStore p.store)) ∧
      ∀ i ∈ is, l.knows i = true
  | p, [] => ⟨p.lookups, rfl, rfl, id, by simp⟩
  | p, i :: is => by
    obtain ⟨l, hl, hdirectory, hpart, hknown⟩ := inquire_eq p i
    obtain ⟨m, hm, hdirectory', hpart', hknown'⟩ := ask_eq (p.inquire i).2 is
    have hkeeps := (asks_ask (p.inquire i).2 is).keeps
    rw [hl] at hm hdirectory' hpart' hkeeps
    refine ⟨m, ?_, hdirectory'.trans hdirectory, fun h => hpart' (hpart h), ?_⟩
    · change ((p.inquire i).2.ask is).2 = _
      rw [hl, hm]
    · rw [List.forall_mem_cons]
      rw [hm] at hkeeps
      exact ⟨hkeeps i hknown, hknown'⟩

/-! ## Replies -/

/-- A parser with given settings, store and time, all of whose lists are those of the store. -/
structure StandsAt (p : Parser) (s : Settings) (store? : Option Store) (t : Instant) : Prop where
  settings : p.settings = s
  store : p.store = store?
  now : p.now = t
  lookups : p.lookups.IsPartOf (.ofStore store?)

/-- The store after a command. -/
def Command.storeAfter (store : Option Store) : Command → Option Store
  | setStore new => some new
  | _ => store

/-- The time after a command. -/
def Command.nowAfter (now : Instant) : Command → Instant
  | setNow new => new
  | _ => now

section

variable {settings : Settings} {store : Option Store} {now : Instant}

theorem standsAt_fresh (settings : Settings) (store : Option Store) (now : Instant) :
    (fresh settings store now).StandsAt settings store now :=
  ⟨rfl, rfl, rfl, Lookups.isPartOf_empty _⟩

theorem StandsAt.directory_eq (h : p.StandsAt settings store now) : p.directory = .ofStore store := by
  unfold Parser.directory
  rw [h.store]
  exact h.lookups.complete_eq

theorem StandsAt.ask (h : p.StandsAt settings store now) (is : List Inquiry) :
    (p.ask is).2.StandsAt settings store now := by
  obtain ⟨l, hl, -, hpart, -⟩ := ask_eq p is
  rw [hl]
  exact ⟨h.settings, h.store, h.now, h.store ▸ hpart (h.store ▸ h.lookups)⟩

theorem StandsAt.accept (h : p.StandsAt settings store now) (parsed? : Option Parsed) :
    (p.accept parsed?).2.2.StandsAt settings store now := by
  cases parsed? with
  | none => exact ⟨h.settings, h.store, h.now, h.lookups⟩
  | some parsed =>
    have hasked := h.ask parsed.inquiries
    exact ⟨hasked.settings, hasked.store, hasked.now, hasked.lookups⟩

theorem StandsAt.read (h : p.StandsAt settings store now) (flags : ParserFlags) (cursor : Option Nat)
    (text : String) : (p.read flags cursor text).2.2.StandsAt settings store now :=
  h.accept _

theorem StandsAt.step (h : p.StandsAt settings store now) (c : Command) :
    (p.step c).2.2.StandsAt settings (c.storeAfter store) (c.nowAfter now) := by
  cases c with
  | read flags cursor text => exact h.read flags cursor text
  | list l => exact h.ask [l.inquiry]
  | setNow now => exact ⟨h.settings, h.store, rfl, h.lookups⟩
  | setStore store => exact ⟨h.settings, rfl, h.now, Lookups.isPartOf_empty _⟩

theorem StandsAt.run : ∀ {p : Parser} {store : Option Store} {now : Instant} (cs : List Command),
    p.StandsAt settings store now → (p.run cs).StandsAt settings
      (cs.foldl Command.storeAfter store) (cs.foldl Command.nowAfter now)
  | _, _, _, [], h => h
  | _, _, _, c :: cs, h => StandsAt.run cs (h.step c)

/-- Two parsers that stand at the same point reply alike. -/
theorem StandsAt.reply_eq (hp : p.StandsAt settings store now) (hq : q.StandsAt settings store now)
    (c : Command) : (p.step c).1 = (q.step c).1 := by
  have hdirectory := hp.directory_eq.trans hq.directory_eq.symm
  cases c with
  | read flags cursor text =>
    have hparse : parse? ⟨p.settings, flags, p.directory⟩ p.now cursor text =
        parse? ⟨q.settings, flags, q.directory⟩ q.now cursor text := by
      rw [hp.settings, hq.settings, hp.now, hq.now, hdirectory]
    simp only [Parser.step, Parser.read, accept_fst, accept_proposals, hparse]
  | list l =>
    simp only [Parser.step, Parser.list, (hp.ask _).directory_eq, (hq.ask _).directory_eq]
  | setNow now => rfl
  | setStore store => rfl

end

/-- A text is read with the lists that have been looked up when it has been read. -/
theorem read_eq_of_lookups (p : Parser) (flags : ParserFlags) (cursor : Option Nat)
    (text : String) :
    (p.read flags cursor text).1 =
      (parse? ⟨p.settings, flags, (p.read flags cursor text).2.2.lookups.complete {}⟩ p.now cursor
        text).map Parsed.query := by
  rw [read, accept_fst]
  refine congrArg (Option.map Parsed.query) (parse?_congr fun parsed hparsed i hi => ?_)
  obtain ⟨l, hl, hdirectory, -, hknown⟩ := ask_eq p parsed.inquiries
  have hlookups : (p.accept (some parsed)).2.2.lookups = l := by
    rw [accept, hl]
  change p.directory.AgreeOn _ i
  rw [hparsed, hlookups, ← hdirectory]
  exact Lookups.agreeOn_complete (hknown i hi) _ _

/-- Whatever a parser was used for, it replies to a command like a parser that was never used, with the
store and the time that were set last. While it has the same store it sends every inquiry once at most, and
with a store it comes to know exactly the lists that it sends inquiries for. A text is read with the lists
that are known afterwards and with no others. -/
theorem run_like_fresh (settings : Settings) (store : Option Store) (now : Instant)
    (cs : List Command) :
    let p := (fresh settings store now).run cs
    (∀ c, (p.step c).1 =
      ((fresh settings (cs.foldl Command.storeAfter store) (cs.foldl Command.nowAfter now)).step
        c).1) ∧
    (∀ ds : List Command, (∀ d ∈ ds, d.setsStore = false) →
      (∀ i, (p.sent ds).count i ≤ 1) ∧
        (p.store.isSome → ∀ i, (p.run ds).lookups.knows i = true ↔
          p.lookups.knows i = true ∨ i ∈ p.sent ds)) ∧
    ∀ flags cursor text, (p.read flags cursor text).1 =
      (parse? ⟨p.settings, flags, (p.read flags cursor text).2.2.lookups.complete {}⟩ p.now cursor
        text).map Parsed.query := by
  intro p
  have hp := (standsAt_fresh settings store now).run cs
  refine ⟨hp.reply_eq (standsAt_fresh _ _ _), fun ds hds => ?_, read_eq_of_lookups p⟩
  have hasks := asks_run hds p
  refine ⟨fun i => List.nodup_iff_count_le_one.1 hasks.nodup i, fun hstore i => ⟨hasks.learns hstore i, ?_⟩⟩
  rintro (hknown | hsent)
  · exact hasks.keeps i hknown
  · exact hasks.known i hsent

/-- A store that does not answer is asked once for the tags and once for the people, though the tags had
been looked up before there was a store. -/
theorem run_like_fresh_unanswered :
    let now : Instant :=
      .midnight ⟨2024, 2, 29, by decide, by decide, by decide, by decide, by decide, by decide⟩
    let unanswered : Store := fun _ => .error (.store "unreachable")
    let p := (fresh .english none now).run [.list .tags, .setStore unanswered]
    let ds : List Command := [.list .tags, .list .names, .setNow now, .list .addresses, .list .tags]
    p.store.isSome ∧ (∀ d ∈ ds, d.setsStore = false) ∧ p.sent ds = [.tags, .people] ∧
      (∀ i, (p.sent ds).count i ≤ 1) ∧
      ∀ i, (p.run ds).lookups.knows i = true ↔ p.lookups.knows i = true ∨ i ∈ p.sent ds := by
  intro now unanswered p ds
  have hds : ∀ d ∈ ds, d.setsStore = false := by simp [ds, Command.setsStore]
  obtain ⟨hcount, hknown⟩ :=
    (run_like_fresh .english none now [.list .tags, .setStore unanswered]).2.1 ds hds
  exact ⟨rfl, hds, rfl, hcount, hknown rfl⟩

end Parser

end DesktopSearch
