/-
  Foundation/Dialogue.lean --- programs that ask their surroundings.

  A `Dialogue` is a program whose every contact with the outside is a request,
  and whose continuation depends on nothing but the answers.  What it does is
  then a tree, and `run` walks the path that an environment picks: the answer to
  a request may depend on all the requests in front of it.

  Two predicates transform a postcondition through the tree.  `Every P Q` bounds
  the requests of all runs: each of them satisfies `P`.  `Meets r Q` is about one
  request: every run makes it, or comes to an end in `Q`.  Both follow the
  program's sequencing by an equation, so that a program is taken apart by
  rewriting, and each comes with the statement about `run` it stands for.
-/
import Mathlib.Data.List.Basic

set_option autoImplicit false

namespace Microboot.Foundation

/-- A program over requests `ι` with answers `ο`.  `cut` is a run that is not
followed any further. -/
inductive Dialogue (ι ο α : Type) where
  | done (a : α)
  | cut
  | ask (request : ι) (next : ο → Dialogue ι ο α)

namespace Dialogue

variable {ι ο α β γ : Type} {P : ι → Prop} {r : ι}

/-! ## Sequencing -/

/-- `x`, and then `f` on its result. -/
def andThen : Dialogue ι ο α → (α → Dialogue ι ο β) → Dialogue ι ο β
  | .done a, f => f a
  | .cut, _ => .cut
  | .ask request next, f => .ask request fun answer => (next answer).andThen f

instance : Monad (Dialogue ι ο) where
  pure := .done
  bind := andThen

/-- One request, and its answer. -/
def request (i : ι) : Dialogue ι ο ο := .ask i .done

/-! ## Runs -/

/-- What a run returns, `none` if it is cut, and its requests behind `log`. -/
def runFrom (env : List ι → ι → ο) (log : List ι) : Dialogue ι ο α → Option α × List ι
  | .done a => (some a, log)
  | .cut => (none, log)
  | .ask i next => runFrom env (log ++ [i]) (next (env log i))

/-- The requests of a run against `env`. -/
def requests (env : List ι → ι → ο) (x : Dialogue ι ο α) : List ι := (x.runFrom env []).2

/-! ## All requests of all runs -/

/-- Every request of every run satisfies `P`, and what is returned satisfies
`Q`. -/
def Every (P : ι → Prop) (Q : α → Prop) : Dialogue ι ο α → Prop
  | .done a => Q a
  | .cut => True
  | .ask i next => P i ∧ ∀ answer, (next answer).Every P Q

section Every

variable {Q : α → Prop} {R : β → Prop}

@[simp] theorem every_pure (a : α) : Every P Q (pure a : Dialogue ι ο α) ↔ Q a := Iff.rfl

@[simp] theorem every_cut : Every P Q (.cut : Dialogue ι ο α) ↔ True := Iff.rfl

@[simp] theorem every_request {Q : ο → Prop} (i : ι) :
    Every P Q (request i : Dialogue ι ο ο) ↔ P i ∧ ∀ answer, Q answer := Iff.rfl

@[simp] theorem every_bind (x : Dialogue ι ο α) (f : α → Dialogue ι ο β) :
    Every P R (x >>= f) ↔ x.Every P fun a => (f a).Every P R := by
  change Every P R (x.andThen f) ↔ _
  induction x with
  | done a => rfl
  | cut => rfl
  | ask i next ih => simp only [andThen, Every, ih]

@[simp] theorem every_ite (c : Prop) [Decidable c] (x y : Dialogue ι ο α) :
    Every P Q (if c then x else y) ↔ (c → x.Every P Q) ∧ (¬c → y.Every P Q) := by
  split <;> simp_all

theorem Every.mono {Q' : α → Prop} {x : Dialogue ι ο α} (h : x.Every P Q)
    (hQ : ∀ a, Q a → Q' a) : x.Every P Q' := by
  induction x with
  | done a => exact hQ a h
  | cut => trivial
  | ask i next ih => exact ⟨h.1, fun answer => ih answer (h.2 answer)⟩

/-- A loop over a list asks what its rounds ask. -/
theorem every_foldlM {f : β → α → Dialogue ι ο β} {l : List α}
    (hround : ∀ a ∈ l, ∀ b, (f b a).Every P fun _ => True) (b : β) :
    (l.foldlM f b).Every P fun _ => True := by
  induction l generalizing b with
  | nil => trivial
  | cons a l ih =>
    rw [List.foldlM_cons, every_bind]
    exact (hround a (by simp) b).mono fun b' _ => ih (fun c hc => hround c (by simp [hc])) b'

/-- The requests of a run of a program all of whose requests satisfy `P`. -/
theorem Every.requests {x : Dialogue ι ο α} (h : x.Every P Q) (env : List ι → ι → ο) :
    ∀ i ∈ x.requests env, P i := by
  have hrun : ∀ log, (∀ i ∈ log, P i) → ∀ i ∈ (x.runFrom env log).2, P i := by
    induction x with
    | done a => exact fun log hlog => hlog
    | cut => exact fun log hlog => hlog
    | ask i next ih =>
      intro log hlog
      refine ih (env log i) (h.2 _) (log ++ [i]) fun j hj => ?_
      rcases List.mem_append.mp hj with hj | hj
      · exact hlog j hj
      · rw [List.mem_singleton.mp hj]
        exact h.1
  exact hrun [] (by simp)

end Every

/-! ## A request of every run -/

/-- Every run asks `r`, or returns a value in `Q`. -/
def Meets (r : ι) (Q : α → Prop) : Dialogue ι ο α → Prop
  | .done a => Q a
  | .cut => False
  | .ask i next => i = r ∨ ∀ answer, (next answer).Meets r Q

section Meets

variable {Q : α → Prop} {R : β → Prop}

@[simp] theorem meets_pure (a : α) : Meets r Q (pure a : Dialogue ι ο α) ↔ Q a := Iff.rfl

@[simp] theorem meets_request {Q : ο → Prop} (i : ι) :
    Meets r Q (request i : Dialogue ι ο ο) ↔ i = r ∨ ∀ answer, Q answer := Iff.rfl

@[simp] theorem meets_bind (x : Dialogue ι ο α) (f : α → Dialogue ι ο β) :
    Meets r R (x >>= f) ↔ x.Meets r fun a => (f a).Meets r R := by
  change Meets r R (x.andThen f) ↔ _
  induction x with
  | done a => rfl
  | cut => rfl
  | ask i next ih => simp only [andThen, Meets, ih]

@[simp] theorem meets_ite (c : Prop) [Decidable c] (x y : Dialogue ι ο α) :
    Meets r Q (if c then x else y) ↔ (c → x.Meets r Q) ∧ (¬c → y.Meets r Q) := by
  split <;> simp_all

theorem Meets.mono {Q' : α → Prop} {x : Dialogue ι ο α} (h : x.Meets r Q)
    (hQ : ∀ a, Q a → Q' a) : x.Meets r Q' := by
  induction x with
  | done a => exact hQ a h
  | cut => exact h
  | ask i next ih => exact h.imp_right fun hnext answer => ih answer (hnext answer)

/-- A loop over a list whose rounds all come to an end asks `r` if one of its
rounds does. -/
theorem meets_foldlM {f : β → α → Dialogue ι ο β} {l : List α} {a : α} (ha : a ∈ l)
    (hend : ∀ c ∈ l, ∀ b, (f b c).Meets r fun _ => True)
    (hround : ∀ b, (f b a).Meets r fun _ => False) (b : β) :
    (l.foldlM f b).Meets r fun _ => False := by
  induction l generalizing b with
  | nil => simp at ha
  | cons c l ih =>
    rw [List.foldlM_cons, meets_bind]
    rcases List.mem_cons.mp ha with rfl | hmem
    · exact (hround b).mono fun _ => False.elim
    · exact (hend c (by simp) b).mono fun b' _ =>
        ih hmem (fun d hd => hend d (by simp [hd])) b'

/-- The log that a run starts from stays. -/
theorem mem_runFrom {x : Dialogue ι ο α} {env : List ι → ι → ο} {log : List ι} {i : ι}
    (h : i ∈ log) : i ∈ (x.runFrom env log).2 := by
  induction x generalizing log with
  | done a => exact h
  | cut => exact h
  | ask j next ih => exact ih (env log j) (List.mem_append_left _ h)

theorem Meets.requests {x : Dialogue ι ο α} (h : x.Meets r fun _ => False)
    (env : List ι → ι → ο) : r ∈ x.requests env := by
  have hrun : ∀ log, r ∈ (x.runFrom env log).2 := by
    induction x with
    | done a => exact absurd h id
    | cut => exact absurd h id
    | ask i next ih =>
      intro log
      rcases h with rfl | hnext
      · have hlast : i ∈ log ++ [i] := List.mem_append_right _ (List.mem_singleton.mpr rfl)
        change i ∈ ((next (env log i)).runFrom env (log ++ [i])).2
        exact mem_runFrom hlast
      · exact ih (env log i) (hnext _) _
  exact hrun []

end Meets

end Dialogue

end Microboot.Foundation
