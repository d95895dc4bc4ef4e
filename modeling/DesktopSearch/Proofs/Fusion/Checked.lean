import DesktopSearch.Proofs.Fusion.Basic
import DesktopSearch.Proofs.Text.Checked

/-!
# Checked fusion

The bounds around an integer are computed in 128 bits and cut to 64 afterwards. `Checked.fuse` repeats
fusion and gives up where one of these sums, products or opposites needs more than 128 bits. It never does
(`Checked.fuse_eq`) : a number of 64 bits is multiplied by no more than 200.
-/

namespace DesktopSearch

/-- The window is a share of the number. -/
theorem Settings.windowPercent_bounds (s : Settings) : 0 ≤ s.windowPercent ∧ s.windowPercent ≤ 100 := by
  unfold windowPercent
  dsimp only
  split
  · decide
  · split
    · omega
    · split <;> decide

namespace Checked

open Text

/-- The integer, if it is one of 128 bits. -/
def wide? (v : Int) : Option Int :=
  if -(Nat.pow 2 127 : Int) ≤ v ∧ v < (Nat.pow 2 127 : Int) then some v else none

/-- The bounds around an integer. -/
def integerWindow (s : Settings) (n : Int) : Option (Int × Int) := do
  let inner ← wide? (100 - s.windowPercent)
  let product ← wide? (n * inner)
  let opposite ← wide? (-product)
  let low ← wide? (-(opposite / 100))
  let outer ← wide? (100 + s.windowPercent)
  let high ← wide? (n * outer)
  return (saturate low, saturate (high / 100))

/-- Adapts a term to a context. Only integers are computed with. -/
def tune (settings : Settings) (flags : ParserFlags) (c : ResourceContext) (t : Term) : Option Term :=
  match t with
  | .literal span (.integer n) => do
    let window ← integerWindow settings n
    return .between c.sizeProperty? (.integer window.1) (.integer window.2) span
  | t => some (DesktopSearch.tune settings flags c t)

mutual

/-- Reads one item of a level. -/
def fuseItem (settings : Settings) (flags : ParserFlags) (s : LevelState) : Item → Option LevelState
  | .or => some { s with connective := .or }
  | .and => some { s with connective := .and }
  | .not span => some (s.negate span)
  | .term t => do
    let tuned ← tune settings flags s.context t
    return { s with context := s.context.after t }.add tuned
  | .level items => do
    let level ← fuseItems settings flags {} items
    return s.add level.fused

/-- Reads the items of a level. -/
def fuseItems (settings : Settings) (flags : ParserFlags) (s : LevelState) :
    List Item → Option LevelState
  | [] => some s
  | i :: is => do
    let next ← fuseItem settings flags s i
    fuseItems settings flags next is

end

/-- Makes one term of a list of terms. -/
def fuse (settings : Settings) (flags : ParserFlags) (ts : List Term) : Option Term := do
  let level ← fuseItems settings flags {} (Item.ofTerms settings ts).1
  return level.fused

/-! ## Nothing is given up -/

/-- Two hundred times a number of 64 bits is far inside. -/
theorem wide?_eq {v : Int} (h : v.natAbs ≤ 200 * 9223372036854775808) : wide? v = some v := by
  have hlimit : (Nat.pow 2 127 : Int) = 170141183460469231731687303715884105728 := by decide
  rw [wide?, hlimit, if_pos]
  omega

theorem natAbs_mul_le {n k : Int} (hn : HasInt64 n) (hk : k.natAbs ≤ 200) :
    (n * k).natAbs ≤ 200 * 9223372036854775808 := by
  rw [hasInt64_iff] at hn
  rw [Int.natAbs_mul, Nat.mul_comm]
  exact Nat.mul_le_mul hk (by omega)

variable {settings : Settings} {flags : ParserFlags}

theorem integerWindow_eq (settings : Settings) {n : Int} (h : HasInt64 n) :
    integerWindow settings n = some (settings.integerWindow n) := by
  obtain ⟨hnonneg, hle⟩ := settings.windowPercent_bounds
  have hinner := natAbs_mul_le h (k := 100 - settings.windowPercent) (by omega)
  have houter := natAbs_mul_le h (k := 100 + settings.windowPercent) (by omega)
  have hopposite : wide? (-(n * (100 - settings.windowPercent))) = some _ := wide?_eq (by omega)
  have hlow : wide? (-(-(n * (100 - settings.windowPercent)) / 100)) = some _ := wide?_eq (by omega)
  have hpercents : wide? (100 - settings.windowPercent) = some _ ∧
      wide? (100 + settings.windowPercent) = some _ :=
    ⟨wide?_eq (by omega), wide?_eq (by omega)⟩
  simp only [integerWindow, Settings.integerWindow, hpercents, wide?_eq hinner, hopposite, hlow,
    wide?_eq houter, Option.bind_eq_bind, Option.bind_some, Option.pure_def]

/-- If the term is an integer, it has 64 bits. -/
def PlainFits (t : Term) : Prop := ∀ n, t.integer? = some n → HasInt64 n

theorem tune_eq {t : Term} (h : PlainFits t) (c : ResourceContext) :
    tune settings flags c t = some (DesktopSearch.tune settings flags c t) := by
  unfold tune
  split
  · rename_i span n
    rw [integerWindow_eq settings (h n rfl)]
    rfl
  · rfl

theorem fuseItems_eq {items : List Item}
    (h : ∀ i ∈ items, ∀ s, fuseItem settings flags s i = some (DesktopSearch.fuseItem settings flags s i))
    (s : LevelState) :
    fuseItems settings flags s items = some (DesktopSearch.fuseItems settings flags s items) := by
  induction items generalizing s with
  | nil => rfl
  | cons i items ih =>
    rw [List.forall_mem_cons] at h
    rw [fuseItems, h.1 s]
    exact ih h.2 _

theorem fuseItem_eq {i : Item} (h : i.Holds PlainFits) (s : LevelState) :
    fuseItem settings flags s i = some (DesktopSearch.fuseItem settings flags s i) := by
  induction h generalizing s with
  | or => rfl
  | and => rfl
  | not span => rfl
  | term t ht =>
    rw [fuseItem, tune_eq ht]
    rfl
  | level items _ ih =>
    rw [fuseItem, fuseItems_eq ih]
    rfl

/-- Fusion is not given up. -/
theorem fuse_eq {ts : List Term} (h : ∀ t ∈ ts, PlainFits t) :
    fuse settings flags ts = some (DesktopSearch.fuse settings flags ts 0).1 := by
  have hitems := Item.holds_ofTerms settings h
  rw [fuse, fuseItems_eq fun i hi => fuseItem_eq (hitems i hi)]
  rfl

end Checked

end DesktopSearch
