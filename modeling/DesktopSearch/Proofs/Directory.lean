import DesktopSearch.Parser.Session
import Mathlib.Data.List.Sort
import Mathlib.Data.Prod.Lex
import Mathlib.Data.String.Basic
import Mathlib.Order.Bounds.Basic

/-!
# What labels name

A list of labels is made by sorting entries and keeping the first one of each label. It is strictly
increasing (`Labels.pairwise_ofEntries`), so that an entry is the only one with its label and is found by
halving (`Labels.bisect_eq_find?`), and it holds an entry exactly if no entry with the label comes before
it (`Labels.mem_ofEntries_iff`). Hence the list
depends on which entries there are and not on where they stand or how often (`Labels.ofEntries_congr`).

`Directory.labels_of_rows` says the same of the rows of a store : a label names the least resource that a
row binds together with it, people are looked up by their names and their addresses in the order of the
domain, and stores with the same rows make the same lists.
-/

namespace DesktopSearch

/-! ## Lists of labels -/

namespace Labels

variable {es fs : List (String × Uri)} {a b e f : String × Uri} {label : String} {u : Uri}

/-- An entry as a pair of texts, in the order of its label and then of its resource. -/
def sortKey (e : String × Uri) : Lex (String × String) := toLex (e.1, e.2.text)

theorem sortKey_injective : Function.Injective sortKey := by
  rintro ⟨label, ⟨text⟩⟩ ⟨label', ⟨text'⟩⟩ h
  obtain ⟨rfl, rfl⟩ := Prod.mk.inj (toLex.injective h)
  rfl

theorem le_iff : le a b = true ↔ sortKey a ≤ sortKey b := by
  rw [sortKey, sortKey, Prod.Lex.toLex_le_toLex, le]
  simp

theorem le_of_sortKey_le (h : sortKey a ≤ sortKey b) : a.1 ≤ b.1 :=
  ((Prod.Lex.toLex_le_toLex.1 h).elim le_of_lt fun h => le_of_eq h.1)

theorem pairwise_mergeSort (es : List (String × Uri)) :
    (es.mergeSort le).Pairwise fun a b => sortKey a ≤ sortKey b := by
  have htrans (a b c : String × Uri) (hab : le a b = true) (hbc : le b c = true) : le a c = true :=
    le_iff.2 ((le_iff.1 hab).trans (le_iff.1 hbc))
  have htotal (a b : String × Uri) : (le a b || le b a) = true := by
    simpa [le_iff] using le_total (sortKey a) (sortKey b)
  have hsorted := List.pairwise_mergeSort htrans htotal es
  exact hsorted.imp le_iff.1

/-- An entry takes away the one behind it if that has the same label. -/
theorem firstOfEach_cons (a : String × Uri) (es : List (String × Uri)) :
    firstOfEach (a :: es) = a ::
      match firstOfEach es with
      | [] => []
      | c :: others => if a.1 = c.1 then others else c :: others := by
  cases es with
  | nil => rfl
  | cons b es =>
    rw [firstOfEach]
    cases firstOfEach (b :: es) with
    | nil => rfl
    | cons c others => exact (apply_ite (List.cons a) (a.1 = c.1) others (c :: others)).symm

/-- What is known of the first entries of a sorted list : they are entries of the list, their labels are
strictly increasing, and every entry has one with its label that does not come behind it. -/
structure AreFirst (fs es : List (String × Uri)) : Prop where
  subset : fs ⊆ es
  increasing : fs.Pairwise fun a b => a.1 < b.1
  first : ∀ e ∈ es, ∃ f ∈ fs, f.1 = e.1 ∧ sortKey f ≤ sortKey e

theorem areFirst_firstOfEach (h : es.Pairwise fun a b => sortKey a ≤ sortKey b) :
    AreFirst (firstOfEach es) es := by
  induction es with
  | nil => exact ⟨List.Subset.refl _, List.Pairwise.nil, by simp⟩
  | cons a es ih =>
    obtain ⟨hle, hes⟩ := List.pairwise_cons.1 h
    obtain ⟨hsubset, hincreasing, hfirst⟩ := ih hes
    rw [firstOfEach_cons]
    cases hrest : firstOfEach es with
    | nil =>
      rw [hrest] at hfirst
      refine ⟨List.cons_subset_cons a (List.nil_subset es), List.pairwise_singleton _ a,
        List.forall_mem_cons.2 ⟨⟨a, List.mem_cons_self, rfl, le_refl _⟩, fun e he => ?_⟩⟩
      obtain ⟨f, hf, -⟩ := hfirst e he
      exact absurd hf List.not_mem_nil
    | cons c others =>
      rw [hrest] at hsubset hincreasing hfirst
      obtain ⟨hothers, hincreasing'⟩ := List.pairwise_cons.1 hincreasing
      have hac : a.1 ≤ c.1 := le_of_sortKey_le (hle c (hsubset List.mem_cons_self))
      have habove : ∀ f ∈ others, a.1 < f.1 := fun f hf => hac.trans_lt (hothers f hf)
      dsimp only
      split
      · rename_i hsame
        refine ⟨List.cons_subset_cons a (List.Subset.trans (List.subset_cons_self c others) hsubset),
          List.pairwise_cons.2 ⟨habove, hincreasing'⟩,
          List.forall_mem_cons.2 ⟨⟨a, List.mem_cons_self, rfl, le_refl _⟩, fun e he => ?_⟩⟩
        obtain ⟨f, hf, hlabel, hfe⟩ := hfirst e he
        -- The entry that goes is represented by the one in front.
        rcases List.mem_cons.1 hf with rfl | hf
        · exact ⟨a, List.mem_cons_self, hsame.trans hlabel, hle e he⟩
        · exact ⟨f, List.mem_cons_of_mem a hf, hlabel, hfe⟩
      · rename_i hother
        have hlt : a.1 < c.1 := lt_of_le_of_ne hac hother
        refine ⟨List.cons_subset_cons a hsubset,
          List.pairwise_cons.2 ⟨List.forall_mem_cons.2 ⟨hlt, habove⟩, hincreasing⟩,
          List.forall_mem_cons.2 ⟨⟨a, List.mem_cons_self, rfl, le_refl _⟩, fun e he => ?_⟩⟩
        obtain ⟨f, hf, hfe⟩ := hfirst e he
        exact ⟨f, List.mem_cons_of_mem a hf, hfe⟩

theorem areFirst_ofEntries (es : List (String × Uri)) : AreFirst (ofEntries es) es := by
  obtain ⟨hsubset, hincreasing, hfirst⟩ := areFirst_firstOfEach (pairwise_mergeSort es)
  exact ⟨fun e he => List.mem_mergeSort.1 (hsubset he), hincreasing,
    fun e he => hfirst e (List.mem_mergeSort.2 he)⟩

/-- The labels are strictly increasing. -/
theorem pairwise_ofEntries (es : List (String × Uri)) :
    ((ofEntries es).map Prod.fst).Pairwise (· < ·) :=
  List.pairwise_map.2 (areFirst_ofEntries es).increasing

/-- A strictly increasing list has one entry for a label. -/
theorem eq_of_label_eq (h : es.Pairwise fun a b => a.1 < b.1) (he : e ∈ es) (hf : f ∈ es)
    (hlabel : e.1 = f.1) : e = f := by
  have hnodup : (es.map Prod.fst).Nodup := List.pairwise_map.2 (h.imp fun hlt => ne_of_lt hlt)
  exact List.inj_on_of_nodup_map hnodup he hf hlabel

/-- The list has the least entries of their labels. -/
theorem mem_ofEntries_iff :
    e ∈ ofEntries es ↔ e ∈ es ∧ ∀ f ∈ es, f.1 = e.1 → sortKey e ≤ sortKey f := by
  obtain ⟨hsubset, hincreasing, hfirst⟩ := areFirst_ofEntries es
  constructor
  · intro he
    refine ⟨hsubset he, fun f hf hlabel => ?_⟩
    obtain ⟨g, hg, hlabel', hle⟩ := hfirst f hf
    rwa [eq_of_label_eq hincreasing hg he (hlabel'.trans hlabel)] at hle
  · rintro ⟨he, hleast⟩
    obtain ⟨g, hg, hlabel, hle⟩ := hfirst e he
    rwa [sortKey_injective (le_antisymm hle (hleast g (hsubset hg) hlabel))] at hg

/-- The list depends on which entries there are only. -/
theorem ofEntries_congr (h : ∀ e, e ∈ es ↔ e ∈ fs) : ofEntries es = ofEntries fs := by
  have hirrefl : Std.Irrefl fun a b : String × Uri => a.1 < b.1 := ⟨fun a => lt_irrefl a.1⟩
  refine List.Pairwise.eq_of_mem_iff (areFirst_ofEntries es).increasing
    (areFirst_ofEntries fs).increasing ?_
  simp only [mem_ofEntries_iff, h, implies_true]

theorem find?_eq_some_iff (h : es.Pairwise fun a b => a.1 < b.1) :
    find? es label = some u ↔ (label, u) ∈ es := by
  rw [find?, Option.map_eq_some_iff]
  constructor
  · rintro ⟨e, he, rfl⟩
    have hlabel : e.1 = label := by simpa using List.find?_some he
    rw [← hlabel]
    exact List.mem_of_find?_eq_some he
  · intro hmem
    have hsome : (List.find? (·.1 == label) es).isSome :=
      List.find?_isSome.2 ⟨(label, u), hmem, by simp⟩
    obtain ⟨e, he⟩ := Option.isSome_iff_exists.1 hsome
    have hlabel : e.1 = label := by simpa using List.find?_some he
    exact ⟨e, he, by rw [eq_of_label_eq h (List.mem_of_find?_eq_some he) hmem hlabel]⟩

/-- Looks a label up by halving the list. -/
def bisect (label : String) (es : Labels) : Option Uri :=
  match h : es.drop (es.length / 2) with
  | [] => none
  | e :: after =>
    if e.1 = label then some e.2
    else if e.1 < label then bisect label after
    else bisect label (es.take (es.length / 2))
termination_by es.length
decreasing_by
  all_goals
    have hlength := congrArg List.length h
    simp only [List.length_drop, List.length_cons, List.length_take] at hlength ⊢
    omega

/-- In a strictly increasing list only the entries behind a smaller label can have the label. -/
theorem mem_append_cons_of_lt {before after : List (String × Uri)}
    (h : (before ++ e :: after).Pairwise fun a b => a.1 < b.1) (hlt : e.1 < label) :
    (label, u) ∈ before ++ e :: after ↔ (label, u) ∈ after := by
  have hbefore := (List.pairwise_append.1 h).2.2
  refine ⟨fun hmem => ?_, fun hmem => List.mem_append_right _ (List.mem_cons_of_mem e hmem)⟩
  rcases List.mem_append.1 hmem with hmem | hmem
  · exact absurd (hlt.trans (hbefore _ hmem e List.mem_cons_self)) (lt_irrefl e.1)
  · rcases List.mem_cons.1 hmem with rfl | hmem
    · exact absurd hlt (lt_irrefl label)
    · exact hmem

/-- And only those before a larger label. -/
theorem mem_append_cons_of_gt {before after : List (String × Uri)}
    (h : (before ++ e :: after).Pairwise fun a b => a.1 < b.1) (hlt : label < e.1) :
    (label, u) ∈ before ++ e :: after ↔ (label, u) ∈ before := by
  have hafter := (List.pairwise_cons.1 (List.pairwise_append.1 h).2.1).1
  refine ⟨fun hmem => ?_, List.mem_append_left _⟩
  rcases List.mem_append.1 hmem with hmem | hmem
  · exact hmem
  · rcases List.mem_cons.1 hmem with rfl | hmem
    · exact absurd hlt (lt_irrefl label)
    · exact absurd (hlt.trans (hafter _ hmem)) (lt_irrefl label)

/-- Halving finds the entry of a strictly increasing list that has the label. -/
theorem bisect_eq_find? (h : es.Pairwise fun a b => a.1 < b.1) (label : String) :
    bisect label es = find? es label := by
  refine Option.ext fun u => ?_
  rw [find?_eq_some_iff h]
  fun_induction bisect label es with
  | case1 es hnil =>
    have hlength := congrArg List.length hnil
    rw [List.length_drop, List.length_nil] at hlength
    obtain rfl := List.length_eq_zero_iff.1 (show es.length = 0 by omega)
    simp
  | case2 es e after hsplit hlabel =>
    have he : e ∈ es := List.mem_of_mem_drop (hsplit ▸ List.mem_cons_self)
    constructor
    · intro hu
      rwa [← hlabel, ← Option.some.inj hu]
    · intro hu
      rw [eq_of_label_eq h he hu hlabel]
  | case3 es e after hsplit _ hlt ih =>
    have hes : es.take (es.length / 2) ++ e :: after = es := by rw [← hsplit, List.take_append_drop]
    rw [← hes] at h
    rw [ih (List.pairwise_cons.1 (List.pairwise_append.1 h).2.1).2, ← mem_append_cons_of_lt h hlt, hes]
  | case4 es e after hsplit hne hge ih =>
    have hes : es.take (es.length / 2) ++ e :: after = es := by rw [← hsplit, List.take_append_drop]
    have hlt : label < e.1 := lt_of_le_of_ne (not_lt.1 hge) (Ne.symm hne)
    rw [ih (h.sublist (List.take_sublist _ es))]
    rw [← hes] at h
    rw [← mem_append_cons_of_gt h hlt, hes]

/-- A label names the least of the resources that entries have it with. -/
theorem find?_ofEntries_iff : find? (ofEntries es) label = some u ↔
    IsLeast {text | (label, (⟨text⟩ : Uri)) ∈ es} u.text := by
  rw [find?_eq_some_iff (areFirst_ofEntries es).increasing, mem_ofEntries_iff]
  refine and_congr_right fun _ => ⟨fun h text htext => ?_, fun h f hf hlabel => ?_⟩
  · simpa [sortKey, Prod.Lex.toLex_le_toLex] using h (label, ⟨text⟩) htext rfl
  · obtain ⟨label', ⟨text⟩⟩ := f
    obtain rfl : label' = label := hlabel
    simpa [sortKey, Prod.Lex.toLex_le_toLex] using h hf

/-- A label that some entry has names something. -/
theorem find?_ofEntries_eq_none_iff :
    find? (ofEntries es) label = none ↔ {text | (label, (⟨text⟩ : Uri)) ∈ es} = ∅ := by
  rw [Set.eq_empty_iff_forall_notMem, find?, Option.map_eq_none_iff, List.find?_eq_none]
  constructor
  · intro h text htext
    obtain ⟨f, hf, hlabel, -⟩ := (areFirst_ofEntries es).first _ htext
    exact h f hf (by simp [hlabel])
  · intro h e he hlabel
    obtain rfl : e.1 = label := by simpa using hlabel
    exact h e.2.text ((areFirst_ofEntries es).subset he)

end Labels

/-! ## Rows -/

namespace Row

/-- The resources that rows bind to one variable, together with a label that they bind to another. -/
def resources (rows : List Row) (resource name label : String) : Set String :=
  {text | ∃ row ∈ rows, row.binding? name = some label ∧ row.binding? resource = some text}

/-- The same, but an empty label is as good as none. -/
def filledResources (rows : List Row) (resource name label : String) : Set String :=
  {text | label ≠ "" ∧ text ∈ resources rows resource name label}

end Row

/-- The answer is the least resource of a set, or nothing if the set is empty. -/
structure IsLeastOf (answer : Option Uri) (texts : Set String) : Prop where
  some_iff : ∀ u, answer = some u ↔ IsLeast texts u.text
  none_iff : answer = none ↔ texts = ∅

/-- The second answer counts where the first one is none. -/
theorem IsLeastOf.or {answer other : Option Uri} {texts others : Set String}
    (h : IsLeastOf answer texts) (h' : IsLeastOf other others) :
    (texts.Nonempty → IsLeastOf (answer.or other) texts) ∧
      (texts = ∅ → IsLeastOf (answer.or other) others) := by
  cases answer with
  | none => exact ⟨fun hsome => absurd (h.none_iff.1 rfl) hsome.ne_empty, fun _ => h'⟩
  | some u => exact ⟨fun _ => h, fun hempty => absurd (h.none_iff.2 hempty) (by simp)⟩

namespace Directory

variable {rows : List Row} {resource name label : String} {u : Uri} {row : Row}

theorem pair?_eq_some_iff : pair? resource name row = some (label, u) ↔
    row.binding? name = some label ∧ row.binding? resource = some u.text := by
  obtain ⟨text⟩ := u
  simp [pair?, Option.bind_eq_some_iff]

theorem filledPair?_eq_some_iff : filledPair? resource name row = some (label, u) ↔
    label ≠ "" ∧ row.binding? name = some label ∧ row.binding? resource = some u.text := by
  rw [filledPair?, Option.filter_eq_some_iff, pair?_eq_some_iff, and_comm]
  simp

/-- A label is looked up among the entries that rows make with it. -/
theorem isLeastOf_entries {f : Row → Option (String × Uri)} {texts : Set String}
    (h : ∀ text, (∃ row ∈ rows, f row = some (label, ⟨text⟩)) ↔ text ∈ texts) :
    IsLeastOf (Labels.find? (Labels.ofEntries (rows.filterMap f)) label) texts := by
  have htexts : {text | (label, (⟨text⟩ : Uri)) ∈ rows.filterMap f} = texts := by
    ext text
    rw [← h]
    exact List.mem_filterMap
  rw [← htexts]
  exact ⟨fun u => Labels.find?_ofEntries_iff, Labels.find?_ofEntries_eq_none_iff⟩

theorem isLeastOf_pairs (rows : List Row) (resource name label : String) :
    IsLeastOf (Labels.find? (Labels.ofEntries (rows.filterMap (pair? resource name))) label)
      (Row.resources rows resource name label) :=
  isLeastOf_entries fun text => by simp only [pair?_eq_some_iff]; rfl

theorem isLeastOf_filledPairs (rows : List Row) (resource name label : String) :
    IsLeastOf (Labels.find? (Labels.ofEntries (rows.filterMap (filledPair? resource name))) label)
      (Row.filledResources rows resource name label) := by
  refine isLeastOf_entries fun text => ?_
  simp only [filledPair?_eq_some_iff]
  exact ⟨fun ⟨row, hrow, hlabel, hbinds⟩ => ⟨hlabel, row, hrow, hbinds⟩,
    fun ⟨hlabel, row, hrow, hbinds⟩ => ⟨row, hrow, hlabel, hbinds⟩⟩

/-- Entries of the same rows make the same list. -/
theorem ofEntries_filterMap_congr {rows' : List Row} (h : ∀ row, row ∈ rows ↔ row ∈ rows')
    (f : Row → Option (String × Uri)) :
    Labels.ofEntries (rows.filterMap f) = Labels.ofEntries (rows'.filterMap f) := by
  refine Labels.ofEntries_congr fun e => ?_
  simp only [List.mem_filterMap, h]

/-- Labels are looked up in the rows of a store as in a set. A tag is named by its label, and a person by a
name or an address that is not empty : what a label names is the least of all resources that a row has with
it, or nothing if there is none. As the value of a property a label names a person by name, or else by
address, and where addresses are asked for the other way round. All lists of labels are strictly increasing,
so that they can be searched by halving, and stores with the same rows, wherever and how often they have
them, make the same directory. -/
theorem labels_of_rows (store : Option Store) :
    let tags := Store.rows store Inquiry.tags.text
    let people := Store.rows store Inquiry.people.text
    let d := ofStore store
    (∀ label, IsLeastOf (d.tags.find? label) (Row.resources tags "tag" "label" label) ∧
      IsLeastOf (d.names.find? label) (Row.filledResources people "c" "fullname" label) ∧
      IsLeastOf (d.addresses.find? label) (Row.filledResources people "c" "email" label)) ∧
    (∀ span label, let named := Row.filledResources people "c" "fullname" label
      let addressed := Row.filledResources people "c" "email" label
      let value := Term.literal span (.string label)
      (∃ answer, Domain.tag.convert? d value = answer.map (.resource span) ∧
        IsLeastOf answer (Row.resources tags "tag" "label" label)) ∧
      (∃ answer, Domain.contact.convert? d value = answer.map (.resource span) ∧
        (named.Nonempty → IsLeastOf answer named) ∧ (named = ∅ → IsLeastOf answer addressed)) ∧
      ∃ answer, Domain.address.convert? d value = answer.map (.resource span) ∧
        (addressed.Nonempty → IsLeastOf answer addressed) ∧
        (addressed = ∅ → IsLeastOf answer named)) ∧
    (∀ l : LabelList, ((l.entries d).map Prod.fst).Pairwise (· < ·) ∧
      ∀ label, Labels.bisect label (l.entries d) = (l.entries d).find? label) ∧
    ∀ other : Option Store, (∀ (i : Inquiry) (row : Row),
      row ∈ Store.rows store i.text ↔ row ∈ Store.rows other i.text) → ofStore other = d := by
  intro tags people d
  have htags (label : String) :
      IsLeastOf (d.tags.find? label) (Row.resources tags "tag" "label" label) :=
    isLeastOf_pairs tags "tag" "label" label
  have hnames (label : String) :
      IsLeastOf (d.names.find? label) (Row.filledResources people "c" "fullname" label) :=
    isLeastOf_filledPairs people "c" "fullname" label
  have haddresses (label : String) :
      IsLeastOf (d.addresses.find? label) (Row.filledResources people "c" "email" label) :=
    isLeastOf_filledPairs people "c" "email" label
  refine ⟨fun label => ⟨htags label, hnames label, haddresses label⟩, fun span label => ?_,
    fun l => ?_, fun other hrows => ?_⟩
  · exact ⟨⟨_, rfl, htags label⟩, ⟨_, rfl, (hnames label).or (haddresses label)⟩,
      ⟨_, rfl, (haddresses label).or (hnames label)⟩⟩
  · have hentries : ∃ es, l.entries d = Labels.ofEntries es := by cases l <;> exact ⟨_, rfl⟩
    obtain ⟨es, hes⟩ := hentries
    rw [hes]
    exact ⟨Labels.pairwise_ofEntries es, Labels.bisect_eq_find? (Labels.areFirst_ofEntries es).increasing⟩
  · have hpeople := ofEntries_filterMap_congr (hrows .people)
    exact congr (congrArg₂ Directory.mk (ofEntries_filterMap_congr (hrows .tags) _).symm
      (hpeople _).symm) (hpeople _).symm

end Directory

end DesktopSearch
