/-
  Foundation/Run.lean --- runs of a labelled transition system.

  `Run Step s₀ trace s` is a finite run from `s₀` to `s` whose steps are labelled
  by `trace`, in order.  The two rules every client needs: what holds at the
  start and is kept by each step holds at the end of every run, and the last
  step of a run starts where a run ends.

  `AllSteps step P s trace` is about a step that is a function and can fail: every
  step of the run is made in a state in which `P` allows it.  Its rules: what such
  steps keep the run keeps, and the parts of a run and two conditions of one.

  `Ensures x Q` is about a program that can fail: what it returns satisfies `Q`.
-/
import Mathlib.Data.List.Basic

set_option autoImplicit false

namespace Microboot.Foundation

/-- A run from `s₀`, with the labels of its steps. -/
inductive Run {σ ε : Type} (Step : σ → ε → σ → Prop) (s₀ : σ) : List ε → σ → Prop
  | nil : Run Step s₀ [] s₀
  | snoc {trace : List ε} {e : ε} {s s' : σ} :
      Run Step s₀ trace s → Step s e s' → Run Step s₀ (trace ++ [e]) s'

namespace Run

variable {σ ε : Type} {Step Step' : σ → ε → σ → Prop} {s₀ s : σ} {trace : List ε} {e : ε}

/-- What holds at the start and is kept by every step holds at the end. -/
theorem invariant {Inv : σ → Prop} (hinit : Inv s₀)
    (hstep : ∀ s e s', Inv s → Step s e s' → Inv s') (h : Run Step s₀ trace s) : Inv s := by
  induction h with
  | nil => exact hinit
  | snoc _ hlast ih => exact hstep _ _ _ ih hlast

/-- A run of steps that are steps of another system, too. -/
theorem imp (hstep : ∀ s e s', Step s e s' → Step' s e s') (h : Run Step s₀ trace s) :
    Run Step' s₀ trace s := by
  induction h with
  | nil => exact .nil
  | snoc _ hlast ih => exact ih.snoc (hstep _ _ _ hlast)

/-- The last step of a run. -/
theorem last (h : Run Step s₀ (trace ++ [e]) s) :
    ∃ s₁, Run Step s₀ trace s₁ ∧ Step s₁ e s := by
  generalize htrace : trace ++ [e] = full at h
  cases h with
  | nil => simp at htrace
  | snoc hrun hlast =>
    obtain ⟨rfl, heq⟩ := List.append_inj' htrace rfl
    cases heq
    exact ⟨_, hrun, hlast⟩

end Run

/-- A run that returns has a first step that does. -/
theorem exists_of_foldlM_cons {σ ε φ : Type} {step : σ → ε → Except φ σ} {s s' : σ} {e : ε}
    {rest : List ε} (hrun : (e :: rest).foldlM step s = .ok s') :
    ∃ s₁, step s e = .ok s₁ ∧ rest.foldlM step s₁ = .ok s' := by
  rw [List.foldlM_cons] at hrun
  cases he : step s e with
  | error fault =>
    rw [he] at hrun
    cases hrun
  | ok s₁ =>
    rw [he] at hrun
    exact ⟨s₁, rfl, hrun⟩

/-- Every step of the run of `trace` from `s`, up to the first that fails, satisfies
`P` in the state it is made in. -/
def AllSteps {σ ε φ : Type} (step : σ → ε → Except φ σ) (P : σ → ε → Prop) :
    σ → List ε → Prop
  | _, [] => True
  | s, e :: trace => P s e ∧
    match step s e with
    | .ok s' => AllSteps step P s' trace
    | .error _ => True

namespace AllSteps

variable {σ ε φ : Type} {step : σ → ε → Except φ σ} {P : σ → ε → Prop} {s s' : σ}
  {trace trace' : List ε}

/-- What every allowed step keeps, the whole run keeps. -/
theorem invariant (Inv : σ → Prop)
    (hstep : ∀ s e s', Inv s → P s e → step s e = .ok s' → Inv s') (hinit : Inv s)
    (h : AllSteps step P s trace) (hrun : trace.foldlM step s = .ok s') : Inv s' := by
  induction trace generalizing s with
  | nil =>
    cases hrun
    exact hinit
  | cons e rest ih =>
    obtain ⟨s₁, he, hrun⟩ := exists_of_foldlM_cons hrun
    obtain ⟨hP, hrest⟩ := h
    rw [he] at hrest
    exact ih (hstep s e s₁ hinit hP he) hrest hrun

/-- The steps behind a part of the run. -/
theorem drop (h : AllSteps step P s (trace ++ trace')) (hrun : trace.foldlM step s = .ok s') :
    AllSteps step P s' trace' := by
  induction trace generalizing s with
  | nil =>
    cases hrun
    exact h
  | cons e rest ih =>
    obtain ⟨s₁, he, hrun⟩ := exists_of_foldlM_cons hrun
    obtain ⟨-, hrest⟩ := h
    rw [he] at hrest
    exact ih hrest hrun

theorem take (h : AllSteps step P s (trace ++ trace')) : AllSteps step P s trace := by
  induction trace generalizing s with
  | nil => exact trivial
  | cons e rest ih =>
    obtain ⟨hP, hrest⟩ := h
    refine ⟨hP, ?_⟩
    cases he : step s e with
    | error fault => exact trivial
    | ok s₁ =>
      rw [he] at hrest
      exact ih hrest

/-- Two conditions that all steps meet. -/
theorem and {Q : σ → ε → Prop} (h : AllSteps step P s trace) (h' : AllSteps step Q s trace) :
    AllSteps step (fun s e => P s e ∧ Q s e) s trace := by
  induction trace generalizing s with
  | nil => exact trivial
  | cons e rest ih =>
    obtain ⟨hP, hrest⟩ := h
    obtain ⟨hQ, hrest'⟩ := h'
    refine ⟨⟨hP, hQ⟩, ?_⟩
    cases he : step s e with
    | error fault => exact trivial
    | ok s₁ =>
      rw [he] at hrest hrest'
      exact ih hrest hrest'

/-- Two conditions that agree on the invariant, which the steps that meet the first
keep, are met by the same runs. -/
theorem iff_of_invariant {Q : σ → ε → Prop} (Inv : σ → Prop)
    (hiff : ∀ s, ∀ e ∈ trace, Inv s → (P s e ↔ Q s e))
    (hstep : ∀ s, ∀ e ∈ trace, ∀ s', Inv s → P s e → step s e = .ok s' → Inv s')
    (hinit : Inv s) :
    AllSteps step P s trace ↔ AllSteps step Q s trace := by
  induction trace generalizing s with
  | nil => exact Iff.rfl
  | cons e rest ih =>
    have hhead := hiff s e List.mem_cons_self hinit
    unfold AllSteps
    cases he : step s e with
    | error fault => exact and_congr_left fun _ => hhead
    | ok s' =>
      calc P s e ∧ AllSteps step P s' rest
          ↔ Q s e ∧ AllSteps step P s' rest := and_congr_left fun _ => hhead
        _ ↔ Q s e ∧ AllSteps step Q s' rest := and_congr_right fun hQ =>
          ih (fun s e he => hiff s e (List.mem_cons_of_mem _ he))
            (fun s e he => hstep s e (List.mem_cons_of_mem _ he))
            (hstep s e List.mem_cons_self s' hinit (hhead.mpr hQ) he)

end AllSteps

/-- If every step from a state in the invariant returns and leads back into it, the
whole run returns and ends in it. -/
theorem foldlM_ok {σ ε φ : Type} {step : σ → ε → Except φ σ} {s : σ} {trace : List ε}
    (P : List ε → σ → Prop) (h0 : P [] s)
    (hstep : ∀ done e t, e ∈ trace → P done t → ∃ t', step t e = .ok t' ∧ P (done ++ [e]) t') :
    ∃ t, trace.foldlM step s = .ok t ∧ P trace t := by
  suffices h : ∀ done, P done s → ∃ t, trace.foldlM step s = .ok t ∧ P (done ++ trace) t from
    h [] h0
  clear h0
  induction trace generalizing s with
  | nil =>
    intro done hdone
    exact ⟨s, rfl, by simpa using hdone⟩
  | cons e rest ih =>
    intro done hdone
    obtain ⟨t, ht, hP⟩ := hstep done e s (by simp) hdone
    obtain ⟨t', ht', hP'⟩ :=
      ih (fun done e' u he' => hstep done e' u (List.mem_cons_of_mem e he')) (done ++ [e]) hP
    refine ⟨t', ?_, by simpa using hP'⟩
    rw [List.foldlM_cons, ht]
    exact ht'

/-- What every step that returns keeps holds at the end of a run that returns. -/
theorem foldlM_invariant {σ ε φ : Type} {step : σ → ε → Except φ σ} (Inv : σ → Prop)
    (hstep : ∀ s e s', Inv s → step s e = .ok s' → Inv s') {trace : List ε} :
    ∀ {s t : σ}, Inv s → trace.foldlM step s = .ok t → Inv t := by
  induction trace with
  | nil =>
    intro s t h hrun
    cases hrun
    exact h
  | cons e rest ih =>
    intro s t h hrun
    obtain ⟨s₁, hs, hrun⟩ := exists_of_foldlM_cons hrun
    exact ih (hstep s e s₁ h hs) hrun

/-- While all steps meet the condition the run is good; a step that does not makes it bad,
and it stays so. -/
theorem AllSteps.good_or_bad {σ ε φ : Type} {step : σ → ε → Except φ σ} {P Q : σ → ε → Prop}
    (Good Bad : σ → Prop)
    (hgood : ∀ s e s', Good s → P s e → Q s e → step s e = .ok s' → Good s')
    (hbad : ∀ s e s', Good s → P s e → ¬ Q s e → step s e = .ok s' → Bad s')
    (hkeep : ∀ s e s', Bad s → step s e = .ok s' → Bad s') {s s' : σ} {trace : List ε}
    (hinit : Good s) (h : AllSteps step P s trace) (hrun : trace.foldlM step s = .ok s') :
    (AllSteps step Q s trace ∧ Good s') ∨ (¬ AllSteps step Q s trace ∧ Bad s') := by
  induction trace generalizing s with
  | nil =>
    cases hrun
    exact .inl ⟨trivial, hinit⟩
  | cons e rest ih =>
    obtain ⟨s₁, he, hrun⟩ := exists_of_foldlM_cons hrun
    obtain ⟨hP, hrest⟩ := h
    rw [he] at hrest
    rw [AllSteps, he]
    by_cases hQ : Q s e
    · obtain ⟨hall, hlast⟩ | ⟨hsome, hlast⟩ := ih (hgood s e s₁ hinit hP hQ he) hrest hrun
      · exact .inl ⟨⟨hQ, hall⟩, hlast⟩
      · exact .inr ⟨fun hall => hsome hall.2, hlast⟩
    · exact .inr ⟨fun hall => hQ hall.1,
        foldlM_invariant Bad hkeep (hbad s e s₁ hinit hP hQ he) hrun⟩

instance decidableAllSteps {σ ε φ : Type} (step : σ → ε → Except φ σ) (P : σ → ε → Prop)
    [∀ s e, Decidable (P s e)] : (s : σ) → (trace : List ε) → Decidable (AllSteps step P s trace)
  | _, [] => inferInstanceAs (Decidable True)
  | s, e :: trace =>
    have : Decidable (match step s e with
      | .ok s' => AllSteps step P s' trace
      | .error _ => True) :=
      match step s e with
      | .ok s' => decidableAllSteps step P s' trace
      | .error _ => inferInstanceAs (Decidable True)
    inferInstanceAs (Decidable (P s e ∧ _))

/-! ## What is returned -/

/-- What `x` returns, if it returns, satisfies `Q`. -/
def Ensures {ε α : Type} (x : Except ε α) (Q : α → Prop) : Prop := ∀ a, x = .ok a → Q a

namespace Ensures

variable {ε α β : Type} {x : Except ε α} {f : α → Except ε β} {Q Q' : α → Prop} {R : β → Prop}

theorem pure {a : α} (ha : Q a) : Ensures (Pure.pure a : Except ε α) Q := by
  intro b h
  cases h
  exact ha

theorem error (e : ε) : Ensures (.error e : Except ε α) Q := fun _ h => by cases h

theorem mono (h : Ensures x Q) (hQ : ∀ a, Q a → Q' a) : Ensures x Q' :=
  fun a ha => hQ a (h a ha)

theorem bind (h : Ensures x Q) (hf : ∀ a, Q a → Ensures (f a) R) : Ensures (x >>= f) R := by
  intro b hb
  cases x with
  | error e => cases hb
  | ok a => exact hf a (h a rfl) b hb

theorem any (x : Except ε α) : Ensures x fun _ => True := fun _ _ => trivial

/-- What a step may do to the state, a loop may. -/
theorem foldlM {step : β → α → Except ε β} {Rel : β → β → Prop} {l : List α}
    (hrefl : ∀ b, Rel b b) (htrans : ∀ b b' b'', Rel b b' → Rel b' b'' → Rel b b'')
    (hstep : ∀ b, ∀ a ∈ l, Ensures (step b a) (Rel b)) (b : β) :
    Ensures (l.foldlM step b) (Rel b) := by
  induction l generalizing b with
  | nil => exact .pure (hrefl b)
  | cons a l ih =>
    rw [List.foldlM_cons]
    refine .bind (hstep b a List.mem_cons_self) fun b' hb' => ?_
    refine (ih (fun c d hd => hstep c d (List.mem_cons_of_mem _ hd)) b').mono fun b'' hb'' => ?_
    exact htrans b b' b'' hb' hb''

end Ensures

end Microboot.Foundation
