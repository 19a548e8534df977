/-
  Foundation/Ring.lean --- a queue in a circular buffer.

  The elements of the queue are in cells of the buffer from `t` on, around its end;
  `InRing cells t q` says so.  Pushing writes the cell behind the last element, if
  there is one that is free, and popping moves `t` to the next cell.  When the
  buffer is full, overwriting the oldest element is a pop and a push.

  `keepLast n l` is what a queue keeps that holds `n` elements at most.
-/
import Mathlib.Data.List.Basic
import Mathlib.Data.Nat.ModEq

set_option autoImplicit false

namespace Microboot.Foundation

/-! ## The most recent elements -/

/-- The last `n` elements of a list. -/
def keepLast {α : Type} (n : Nat) (l : List α) : List α := l.drop (l.length - n)

section KeepLast

variable {α : Type} {n : Nat} {l : List α}

theorem keepLast_of_le (h : l.length ≤ n) : keepLast n l = l := by
  rw [keepLast, Nat.sub_eq_zero_of_le h, List.drop_zero]

theorem length_keepLast : (keepLast n l).length = min n l.length := by
  rw [keepLast, List.length_drop]
  omega

/-- Forgetting early forgets nothing that would be kept. -/
theorem keepLast_append (l l' : List α) : keepLast n (keepLast n l ++ l') = keepLast n (l ++ l') := by
  have hlen := length_keepLast (n := n) (l := l)
  by_cases h : l.length ≤ n
  · rw [keepLast_of_le h]
  · have hdrop : keepLast n l ++ l' = (l ++ l').drop (l.length - n) := by
      rw [keepLast, List.drop_append_of_le_length (Nat.sub_le _ _)]
    rw [hdrop, keepLast, keepLast, List.drop_drop, List.length_drop, List.length_append]
    congr 1
    omega

end KeepLast

/-! ## The queue in the buffer -/

/-- The elements of `q` are in the cells from `t` on, around the end of the buffer. -/
structure InRing {α : Type} (cells : List α) (t : Nat) (q : List α) : Prop where
  fits : q.length ≤ cells.length
  cell : ∀ i < q.length, cells[(t + i) % cells.length]? = q[i]?

namespace InRing

variable {α : Type} {cells q : List α} {t n i j : Nat} {x : α}

/-- Two elements are in two cells. -/
theorem index_inj (hi : i < n) (hj : j < n) (h : (t + i) % n = (t + j) % n) : i = j := by
  have hmod : i % n = j % n := Nat.ModEq.add_left_cancel' t h
  rwa [Nat.mod_eq_of_lt hi, Nat.mod_eq_of_lt hj] at hmod

/-- The cell behind the last element is the first one in an empty and in a full
buffer. -/
theorem index_eq_iff (ht : t < n) (hi : i ≤ n) : (t + i) % n = t ↔ i = 0 ∨ i = n := by
  constructor
  · intro h
    rcases Nat.lt_or_eq_of_le hi with hlt | heq
    · left
      apply index_inj (t := t) hlt (Nat.zero_lt_of_lt ht)
      rw [h, Nat.add_zero, Nat.mod_eq_of_lt ht]
    · exact Or.inr heq
  · intro h
    rcases h with rfl | rfl
    · rw [Nat.add_zero, Nat.mod_eq_of_lt ht]
    · rw [Nat.add_mod_right, Nat.mod_eq_of_lt ht]

theorem nil (cells : List α) (t : Nat) : InRing cells t [] where
  fits := Nat.zero_le _
  cell _ h := absurd h (Nat.not_lt_zero _)

/-- An element is pushed into the cell behind the last one. -/
theorem push (h : InRing cells t q) (hroom : q.length < cells.length) (x : α) :
    InRing (cells.set ((t + q.length) % cells.length) x) t (q ++ [x]) := by
  constructor
  · rw [List.length_append, List.length_set]
    exact hroom
  · intro i hi
    rw [List.length_append, List.length_singleton] at hi
    rw [List.length_set]
    rcases Nat.lt_or_eq_of_le (Nat.le_of_lt_succ hi) with hlt | rfl
    · have hne : (t + q.length) % cells.length ≠ (t + i) % cells.length := fun heq =>
        Nat.ne_of_gt hlt (index_inj hroom (Nat.lt_trans hlt hroom) heq)
      rw [List.getElem?_set_ne hne, h.cell i hlt, List.getElem?_append_left hlt]
    · have hpos : 0 < cells.length := Nat.zero_lt_of_lt hroom
      rw [List.getElem?_set_self (Nat.mod_lt _ hpos), List.getElem?_concat_length]

/-- The oldest element is popped. -/
theorem pop (h : InRing cells t (x :: q)) :
    cells[t % cells.length]? = some x ∧ InRing cells ((t + 1) % cells.length) q := by
  have hfits := h.fits
  rw [List.length_cons] at hfits
  refine ⟨?_, Nat.le_of_succ_le hfits, fun i hi => ?_⟩
  · have hfirst := h.cell 0 (by simp)
    simpa using hfirst
  · have hnext := h.cell (i + 1) (by simpa using hi)
    rw [Nat.mod_add_mod, Nat.add_assoc, Nat.add_comm 1 i, hnext]
    rfl

end InRing

end Microboot.Foundation
