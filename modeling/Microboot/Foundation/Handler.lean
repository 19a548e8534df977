/-
  Foundation/Handler.lean --- dialogues that are run against a world.

  A handler says what each request does to a world and what is answered; it may also
  not return.  `runIn` runs a dialogue against a handler, and `Ends` is what comes of a
  run: what is returned, and the world that is left.  The rules follow the program text.

  `Every.ends` connects the two readings of a dialogue: a program that makes certain
  requests only keeps what the handler keeps on those.
-/
import Microboot.Foundation.Device
import Microboot.Foundation.Dialogue

set_option autoImplicit false

namespace Microboot.Foundation

namespace Dialogue

variable {ι ο σ α β : Type} {handle : ι → DevM σ ο}

/-- A run in which the requests are answered by `handle`. -/
def runIn (handle : ι → DevM σ ο) : Dialogue ι ο α → DevM σ α
  | .done a => pure a
  | .cut => fun _ => none
  | .ask i next => handle i >>= fun answer => (next answer).runIn handle

theorem runIn_bind (x : Dialogue ι ο α) (f : α → Dialogue ι ο β) :
    (x >>= f).runIn handle = x.runIn handle >>= fun a => (f a).runIn handle := by
  change (x.andThen f).runIn handle = _
  induction x with
  | done a => exact (pure_bind a fun a => (f a).runIn handle).symm
  | cut => rfl
  | ask i next ih => simp only [andThen, runIn, ih, bind_assoc]

/-- A run from `w` returns `a` and leaves `w'`. -/
def Ends (handle : ι → DevM σ ο) (x : Dialogue ι ο α) (w : σ) (a : α) (w' : σ) : Prop :=
  x.runIn handle w = some (a, w')

namespace Ends

variable {x : Dialogue ι ο α} {f : α → Dialogue ι ο β} {w w₁ w' : σ} {a : α} {b : β}

theorem pure (a : α) (w : σ) : Ends handle (Pure.pure a) w a w := rfl

theorem request_iff {i : ι} {answer : ο} :
    Ends handle (Dialogue.request i) w answer w' ↔ handle i w = some (answer, w') := by
  change (handle i >>= fun answer => Pure.pure answer) w = _ ↔ _
  rw [bind_pure]

theorem request {i : ι} {answer : ο} (h : handle i w = some (answer, w')) :
    Ends handle (Dialogue.request i) w answer w' := request_iff.mpr h

theorem bind (hx : Ends handle x w a w₁) (hf : Ends handle (f a) w₁ b w') :
    Ends handle (x >>= f) w b w' := by
  unfold Ends
  rw [runIn_bind]
  exact (bind_run hx).trans hf

/-- A sequence that ends has parts that end. -/
theorem of_bind (h : Ends handle (x >>= f) w b w') :
    ∃ a w₁, Ends handle x w a w₁ ∧ Ends handle (f a) w₁ b w' := by
  unfold Ends at h
  rw [runIn_bind] at h
  exact exists_of_bind_run h

/-- Behind a part that ends, the run goes on from there. -/
theorem bind_iff (hx : Ends handle x w a w₁) :
    Ends handle (x >>= f) w b w' ↔ Ends handle (f a) w₁ b w' := by
  unfold Ends
  rw [runIn_bind]
  exact iff_of_eq (congrArg (· = some (b, w')) (bind_run hx))

/-- A run ends in one way. -/
theorem unique {a' : α} {w'' : σ} (h : Ends handle x w a w') (h' : Ends handle x w a' w'') :
    a = a' ∧ w' = w'' := by
  cases h.symm.trans h'
  exact ⟨rfl, rfl⟩

/-- The invariant rule of a loop over a list: `P k` holds in front of the round for the
`k`-th element. -/
theorem foldlM {f : β → α → Dialogue ι ο β} {l : List α} (P : Nat → β → σ → Prop)
    (hround : ∀ k (hk : k < l.length) b w, P k b w →
      ∃ b' w', Ends handle (f b l[k]) w b' w' ∧ P (k + 1) b' w')
    (h : P 0 b w) : ∃ b' w', Ends handle (l.foldlM f b) w b' w' ∧ P l.length b' w' := by
  induction l generalizing P b w with
  | nil => exact ⟨b, w, .pure b w, h⟩
  | cons a l ih =>
    obtain ⟨b₁, w₁, hfirst, h₁⟩ := hround 0 (Nat.succ_pos _) b w h
    obtain ⟨b', w', hrest, h'⟩ := ih (fun k => P (k + 1))
      (fun k hk b w => hround (k + 1) (Nat.succ_lt_succ hk) b w) h₁
    refine ⟨b', w', ?_, h'⟩
    rw [List.foldlM_cons]
    exact hfirst.bind hrest

end Ends

/-- What all requests of a program keep, a run of it keeps. -/
theorem Every.ends {P : ι → Prop} {Q : α → Prop} {Inv : σ → Prop} {x : Dialogue ι ο α}
    (h : x.Every P Q)
    (hhandle : ∀ i, P i → ∀ w answer w', handle i w = some (answer, w') → Inv w → Inv w')
    {w w' : σ} {a : α} (hw : Inv w) (hends : Ends handle x w a w') : Q a ∧ Inv w' := by
  induction x generalizing w with
  | done b =>
    cases hends
    exact ⟨h, hw⟩
  | cut => cases hends
  | ask i next ih =>
    obtain ⟨answer, w₁, hfirst, hrest⟩ := exists_of_bind_run hends
    exact ih answer (h.2 answer) (hhandle i h.1 w answer w₁ hfirst hw) hrest

end Dialogue

end Microboot.Foundation
