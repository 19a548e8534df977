/-
  Foundation/Loop.lean --- counting loops.

  `forUpto n f s` is `for (i = 0; i < n; i++) s = f(i, s)`, and `forUptoM` is the
  same loop over rounds that can fail; both recurse on the number of rounds, so
  the last round stands outermost.  A loop is reasoned about with one invariant
  `P`: `P i` holds in front of round `i`, and `P n` holds of the result.  The
  nested loop over the cells of a grid, row by row, has a rule of its own, whose
  invariant is indexed by the next cell.
-/
import Mathlib.Data.List.Basic

set_option autoImplicit false

namespace Microboot.Foundation

/-! ## One loop -/

/-- `for (i = 0; i < n; i++) s = f(i, s)`. -/
def forUpto {σ : Type} (n : Nat) (f : Nat → σ → σ) (s : σ) : σ :=
  match n with
  | 0 => s
  | n + 1 => f n (forUpto n f s)

/-- The loop over rounds that can fail; the first failure ends it. -/
def forUptoM {ε σ : Type} (n : Nat) (f : Nat → σ → Except ε σ) (s : σ) : Except ε σ :=
  match n with
  | 0 => .ok s
  | n + 1 => forUptoM n f s >>= f n

section Rules

variable {ε σ : Type} {n : Nat} {s : σ}

/-- The invariant rule of a loop. -/
theorem forUpto_inv {f : Nat → σ → σ} (P : Nat → σ → Prop) (h0 : P 0 s)
    (hstep : ∀ i, i < n → ∀ t, P i t → P (i + 1) (f i t)) : P n (forUpto n f s) := by
  induction n with
  | zero => exact h0
  | succ n ih =>
    exact hstep n (Nat.lt_succ_self n) _ (ih fun i hi => hstep i (Nat.lt_succ_of_lt hi))

/-- The invariant rule of a loop that can fail: if every round that starts in the
invariant returns, so does the loop. -/
theorem forUptoM_ok {f : Nat → σ → Except ε σ} (P : Nat → σ → Prop) (h0 : P 0 s)
    (hstep : ∀ i, i < n → ∀ t, P i t → ∃ t', f i t = .ok t' ∧ P (i + 1) t') :
    ∃ t, forUptoM n f s = .ok t ∧ P n t := by
  induction n with
  | zero => exact ⟨s, rfl, h0⟩
  | succ n ih =>
    obtain ⟨t, ht, hP⟩ := ih fun i hi => hstep i (Nat.lt_succ_of_lt hi)
    obtain ⟨t', ht', hP'⟩ := hstep n (Nat.lt_succ_self n) t hP
    exact ⟨t', by rw [forUptoM, ht]; exact ht', hP'⟩

/-- What every round that returns keeps, the loop keeps if it returns. -/
theorem forUptoM_inv {f : Nat → σ → Except ε σ} (P : σ → Prop) (h0 : P s)
    (hstep : ∀ i t t', P t → f i t = .ok t' → P t') {t : σ} (h : forUptoM n f s = .ok t) :
    P t := by
  induction n generalizing t with
  | zero =>
    cases h
    exact h0
  | succ n ih =>
    rw [forUptoM] at h
    cases hfront : forUptoM n f s with
    | error e =>
      rw [hfront] at h
      cases h
    | ok u =>
      rw [hfront] at h
      exact hstep n u t (ih hfront) h

end Rules

/-! ## The cells of a grid, row by row -/

section Grid

variable {ε σ : Type} {w h : Nat} {s : σ}

/-- The invariant rule of a loop over a grid: `P y x` holds in front of the cell in
row `y` and column `x`, and the end of a row is the start of the next. -/
theorem forUpto_grid_inv {f : Nat → Nat → σ → σ} (P : Nat → Nat → σ → Prop) (h0 : P 0 0 s)
    (hcell : ∀ y x, y < h → x < w → ∀ t, P y x t → P y (x + 1) (f y x t))
    (hrow : ∀ y, y < h → ∀ t, P y w t → P (y + 1) 0 t) :
    P h 0 (forUpto h (fun y => forUpto w (f y)) s) := by
  refine forUpto_inv (fun y => P y 0) h0 fun y hy t ht => hrow y hy _ ?_
  exact forUpto_inv (P y) ht fun x hx t ht => hcell y x hy hx t ht

/-- The same rule for cells that can fail. -/
theorem forUptoM_grid_ok {f : Nat → Nat → σ → Except ε σ} (P : Nat → Nat → σ → Prop)
    (h0 : P 0 0 s)
    (hcell : ∀ y x, y < h → x < w → ∀ t, P y x t → ∃ t', f y x t = .ok t' ∧ P y (x + 1) t')
    (hrow : ∀ y, y < h → ∀ t, P y w t → P (y + 1) 0 t) :
    ∃ t, forUptoM h (fun y => forUptoM w (f y)) s = .ok t ∧ P h 0 t := by
  refine forUptoM_ok (fun y => P y 0) h0 fun y hy t ht => ?_
  obtain ⟨t', ht', hP⟩ := forUptoM_ok (P y) ht fun x hx t ht => hcell y x hy hx t ht
  exact ⟨t', ht', hrow y hy t' hP⟩

end Grid

end Microboot.Foundation
