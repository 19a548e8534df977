/-
  Foundation/TwoRuns.lean --- one program, run from two states.

  `Both R x y` says that two computations that can fail end alike: both fail in the
  same way, or both return and `R` relates what they return.  Its rules follow the
  program: sequencing, a choice that both runs make the same way, a loop over one
  list.  `Both.run` is the rule for whole runs, whose steps may be asked to meet a
  condition in each of the two runs.
-/
import Microboot.Foundation.Run

set_option autoImplicit false

namespace Microboot.Foundation

/-- Both computations fail in the same way, or return related values. -/
inductive Both {α β ε : Type} (R : α → β → Prop) : Except ε α → Except ε β → Prop
  | ok {a : α} {b : β} : R a b → Both R (.ok a) (.ok b)
  | error (e : ε) : Both R (.error e) (.error e)

namespace Both

section Rules

variable {α β γ δ ι ε : Type} {R S : α → β → Prop} {x : Except ε α} {y : Except ε β}

theorem mono (hRS : ∀ a b, R a b → S a b) (h : Both R x y) : Both S x y := by
  cases h with
  | ok hR => exact .ok (hRS _ _ hR)
  | error e => exact .error e

/-- A value that does not differ between the runs. -/
theorem of_eq {x y : Except ε α} (h : x = y) : Both Eq x y := by
  subst h
  cases x with
  | ok a => exact .ok rfl
  | error e => exact .error e

theorem bind {T : γ → δ → Prop} {f : α → Except ε γ} {g : β → Except ε δ} (h : Both R x y)
    (hfg : ∀ a b, R a b → Both T (f a) (g b)) : Both T (x >>= f) (y >>= g) := by
  cases h with
  | ok hR => exact hfg _ _ hR
  | error e => exact .error e

theorem map {T : γ → δ → Prop} {f : α → γ} {g : β → δ} (h : Both R x y)
    (hfg : ∀ a b, R a b → T (f a) (g b)) : Both T (f <$> x) (g <$> y) := by
  cases h with
  | ok hR => exact .ok (hfg _ _ hR)
  | error e => exact .error e

theorem ite {p q : Prop} [Decidable p] [Decidable q] {x' : Except ε α} {y' : Except ε β}
    (hpq : p ↔ q) (hthen : p → Both R x y) (helse : ¬ p → Both R x' y') :
    Both R (if p then x else x') (if q then y else y') := by
  by_cases hp : p
  · rw [if_pos hp, if_pos (hpq.mp hp)]
    exact hthen hp
  · rw [if_neg hp, if_neg fun hq => hp (hpq.mpr hq)]
    exact helse hp

/-- A loop over the same list; the relation may count its iterations. -/
theorem foldlM {l l' : List ι} (hl : l = l') (R : Nat → α → β → Prop) {f : α → ι → Except ε α}
    {g : β → ι → Except ε β}
    (hstep : ∀ k < l.length, ∀ i a b, R k a b → Both (R (k + 1)) (f a i) (g b i))
    {a : α} {b : β} (h : R 0 a b) : Both (R l.length) (l.foldlM f a) (l'.foldlM g b) := by
  subst hl
  induction l generalizing R a b with
  | nil => exact .ok h
  | cons i l ih =>
    rw [List.foldlM_cons, List.foldlM_cons]
    exact (hstep 0 (Nat.succ_pos _) i a b h).bind fun a' b' h' =>
      ih (fun k => R (k + 1)) (fun k hk => hstep (k + 1) (Nat.succ_lt_succ hk)) h'

/-- What is read off related values does not differ between the runs. -/
theorem map_eq {f : α → γ} {g : β → γ} (h : Both R x y) (hfg : ∀ a b, R a b → f a = g b) :
    x.map f = y.map g := by
  cases h with
  | ok hR => exact congrArg Except.ok (hfg _ _ hR)
  | error e => rfl

end Rules

/-- Two runs of the same trace: if the step keeps the relation wherever its condition
holds in both states, the runs end alike. -/
theorem run {σ ι ε : Type} {step : σ → ι → Except ε σ} {P : σ → ι → Prop} {R : σ → σ → Prop}
    (hstep : ∀ s t e, R s t → P s e → P t e → Both R (step s e) (step t e)) {trace : List ι}
    {s t : σ} (hs : AllSteps step P s trace) (ht : AllSteps step P t trace) (h : R s t) :
    Both R (trace.foldlM step s) (trace.foldlM step t) := by
  induction trace generalizing s t with
  | nil => exact .ok h
  | cons e trace ih =>
    obtain ⟨hP, hs⟩ := hs
    obtain ⟨hQ, ht⟩ := ht
    rw [List.foldlM_cons, List.foldlM_cons]
    have hfirst := hstep s t e h hP hQ
    cases hs' : step s e with
    | error fault =>
      cases ht' : step t e with
      | error fault' =>
        rw [hs', ht'] at hfirst
        cases hfirst
        exact .error fault
      | ok t' =>
        rw [hs', ht'] at hfirst
        cases hfirst
    | ok s' =>
      cases ht' : step t e with
      | error fault' =>
        rw [hs', ht'] at hfirst
        cases hfirst
      | ok t' =>
        rw [hs', ht'] at hfirst
        rw [hs'] at hs
        rw [ht'] at ht
        cases hfirst with
        | ok h' => exact ih hs ht h'

end Both

/-! ## Computations that may not return -/

section Rel

variable {α β γ δ ι : Type} {R : α → β → Prop} {x : Option α} {y : Option β}

theorem rel_bind {T : γ → δ → Prop} {f : α → Option γ} {g : β → Option δ}
    (h : Option.Rel R x y) (hfg : ∀ a b, R a b → Option.Rel T (f a) (g b)) :
    Option.Rel T (x >>= f) (y >>= g) := by
  cases h with
  | some hR => exact hfg _ _ hR
  | none => exact .none

theorem rel_map {T : γ → δ → Prop} {f : α → γ} {g : β → δ} (h : Option.Rel R x y)
    (hfg : ∀ a b, R a b → T (f a) (g b)) : Option.Rel T (f <$> x) (g <$> y) := by
  cases h with
  | some hR => exact .some (hfg _ _ hR)
  | none => exact .none

theorem rel_foldlM {l : List ι} {f : α → ι → Option α} {g : β → ι → Option β}
    (hstep : ∀ a b i, R a b → Option.Rel R (f a i) (g b i)) {a : α} {b : β} (h : R a b) :
    Option.Rel R (l.foldlM f a) (l.foldlM g b) := by
  induction l generalizing a b with
  | nil => exact .some h
  | cons i l ih =>
    rw [List.foldlM_cons, List.foldlM_cons]
    exact rel_bind (hstep a b i h) fun a' b' h' => ih h'

end Rel

end Microboot.Foundation
