/-
  Foundation/Priority.lean --- lines that are served by their priority.

  A line is served only while no line that goes before it, and not the line itself, is in
  service.  Whoever ends a service need not say which: the line that goes before all others
  is the one that was taken up last.  So services nest, and not deeper than there are lines.
-/
import Mathlib.Data.Fintype.Basic
import Mathlib.Data.List.FinRange
import Mathlib.Logic.Function.Basic

set_option autoImplicit false

namespace Microboot.Foundation

/-- The lines that are in service.  A line with a smaller number goes before the others. -/
abbrev Lines (n : Nat) : Type := Fin n → Bool

namespace Lines

variable {n : Nat} {s : Lines n} {i : Fin n}

/-- Nothing is in service. -/
def idle (n : Nat) : Lines n := fun _ => false

/-- The line may be served. -/
def Accepts (s : Lines n) (i : Fin n) : Prop := ∀ j ≤ i, s j = false

instance (s : Lines n) (i : Fin n) : Decidable (s.Accepts i) :=
  inferInstanceAs (Decidable (∀ j ≤ i, s j = false))

/-- The line is served from now on. -/
def enter (s : Lines n) (i : Fin n) : Lines n := Function.update s i true

/-- The line in service that goes before all others. -/
def first? (s : Lines n) : Option (Fin n) := (List.finRange n).find? s

/-- The service of this line ends. -/
def finish (s : Lines n) : Lines n :=
  match s.first? with
  | some i => Function.update s i false
  | none => s

/-- The lines below this number may be served. -/
def level (s : Lines n) : Nat := (s.first?.map Fin.val).getD n

theorem level_le (s : Lines n) : s.level ≤ n := by
  unfold level
  cases s.first? with
  | none => exact Nat.le_refl n
  | some i => exact i.isLt.le

theorem Accepts.lt_level (h : s.Accepts i) : i.val < s.level := by
  unfold level
  cases hfirst : s.first? with
  | none => exact i.isLt
  | some j =>
    have hj : s j = true := List.find?_some hfirst
    exact Nat.lt_of_not_le fun hle => Bool.false_ne_true ((h j hle).symm.trans hj)

/-- A line that is taken up goes before all others. -/
theorem Accepts.first?_enter (h : s.Accepts i) : (s.enter i).first? = some i := by
  unfold first? enter
  rw [List.find?_eq_some_iff_getElem]
  refine ⟨Function.update_self i true s, i.val, by simp, by simp, fun j hj => ?_⟩
  rw [List.getElem_finRange, Bool.not_eq_true']
  have hlt : (⟨j, by omega⟩ : Fin n) < i := hj
  exact (Function.update_of_ne hlt.ne true s).trans (h _ hlt.le)

theorem Accepts.level_enter (h : s.Accepts i) : (s.enter i).level = i.val := by
  unfold level
  rw [h.first?_enter]
  rfl

/-- The end of a service is the end of the one that was taken up last. -/
theorem Accepts.finish_enter (h : s.Accepts i) : (s.enter i).finish = s := by
  unfold finish
  rw [h.first?_enter]
  change Function.update (Function.update s i true) i false = s
  rw [Function.update_idem, ← h i le_rfl, Function.update_eq_self]

end Lines

end Microboot.Foundation
