/-
  Foundation/History.lean --- the last event of a kind.

  A history is the list of the events of a run, the oldest first.  A store that
  is written again and again is specified by the last event that decides what it
  holds: `Last P history e` says that `e` is the last event of `history` that
  satisfies `P`.  A store is then compared with its history one event at a time:
  an event that satisfies `P` is the last one, any other leaves the last one as it
  was.
-/
import Mathlib.Data.List.Forall2
import Mathlib.Data.List.Induction

set_option autoImplicit false

namespace Microboot.Foundation

/-- `e` is the last event of the history that satisfies `P`. -/
def Last {ε : Type} (P : ε → Prop) (history : List ε) (e : ε) : Prop :=
  P e ∧ ∃ before after, history = before ++ e :: after ∧ ∀ c ∈ after, ¬ P c

section Last

variable {ε : Type} {P : ε → Prop} {history : List ε} {e e' c : ε}

theorem not_last_nil : ¬ Last P [] e := by
  intro ⟨_, before, after, h, _⟩
  simp at h

/-- One more event: it is the last one, or the last one stays. -/
theorem last_snoc : Last P (history ++ [c]) e ↔ (P c ∧ e = c) ∨ (¬ P c ∧ Last P history e) := by
  constructor
  · intro ⟨he, before, after, h, hafter⟩
    rcases List.eq_nil_or_concat after with rfl | ⟨after, d, rfl⟩
    · obtain ⟨-, hce⟩ := List.append_inj' h rfl
      cases hce
      exact Or.inl ⟨he, rfl⟩
    · rw [List.concat_eq_append, ← List.cons_append, ← List.append_assoc] at h
      obtain ⟨rfl, hcd⟩ := List.append_inj' h rfl
      cases hcd
      have hnot : ¬ P c := hafter c (by simp)
      exact Or.inr ⟨hnot, he, before, after, rfl, fun d hd => hafter d (by simp [hd])⟩
  · intro h
    rcases h with ⟨hc, rfl⟩ | ⟨hc, he, before, after, rfl, hafter⟩
    · exact ⟨hc, history, [], rfl, by simp⟩
    · refine ⟨he, before, after ++ [c], by simp, fun d hd => ?_⟩
      rcases List.mem_append.mp hd with hold | hnew
      · exact hafter d hold
      · rw [List.mem_singleton.mp hnew]
        exact hc

theorem last_snoc_of (hc : P c) : Last P (history ++ [c]) e ↔ e = c := by
  rw [last_snoc]
  simp [hc]

theorem last_snoc_of_not (hc : ¬ P c) : Last P (history ++ [c]) e ↔ Last P history e := by
  rw [last_snoc]
  simp [hc]

/-- One event more in front: it is the last one if no other is of the kind. -/
theorem last_cons : Last P (c :: history) e ↔
    Last P history e ∨ ((∀ d ∈ history, ¬ P d) ∧ P c ∧ e = c) := by
  constructor
  · intro ⟨he, before, after, h, hafter⟩
    cases before with
    | nil =>
      cases h
      exact Or.inr ⟨hafter, he, rfl⟩
    | cons b before =>
      cases h
      exact Or.inl ⟨he, before, after, rfl, hafter⟩
  · intro h
    rcases h with ⟨he, before, after, rfl, hafter⟩ | ⟨hnone, hc, rfl⟩
    · exact ⟨he, c :: before, after, rfl, hafter⟩
    · exact ⟨hc, [], history, rfl, hnone⟩

/-- There is one last event at most. -/
theorem Last.unique (h : Last P history e) (h' : Last P history e') : e = e' := by
  induction history using List.reverseRecOn with
  | nil => exact absurd h not_last_nil
  | append_singleton history c ih =>
    rcases last_snoc.mp h with ⟨-, rfl⟩ | ⟨hc, hold⟩
    · rcases last_snoc.mp h' with ⟨-, rfl⟩ | ⟨hnot, -⟩
      · rfl
      · exact absurd h.1 hnot
    · rcases last_snoc.mp h' with ⟨hc', -⟩ | ⟨-, hold'⟩
      · exact absurd hc' hc
      · exact ih hold hold'

/-- If there is an event of the kind at all, there is a last one. -/
theorem exists_last (h : e ∈ history) (he : P e) : ∃ e', Last P history e' := by
  induction history using List.reverseRecOn with
  | nil => simp at h
  | append_singleton history c ih =>
    by_cases hc : P c
    · exact ⟨c, (last_snoc_of hc).mpr rfl⟩
    · rcases List.mem_append.mp h with hold | hnew
      · obtain ⟨e', hlast⟩ := ih hold
        exact ⟨e', (last_snoc_of_not hc).mpr hlast⟩
      · rw [List.mem_singleton.mp hnew] at he
        exact absurd he hc

theorem exists_of_mem_forall₂ {δ : Type} {R : ε → δ → Prop} {history' : List δ}
    (h : List.Forall₂ R history history') (he : e ∈ history) : ∃ d ∈ history', R e d := by
  induction h with
  | nil => simp at he
  | cons hR _ ih =>
    rcases List.mem_cons.mp he with rfl | he
    · exact ⟨_, List.mem_cons_self, hR⟩
    · obtain ⟨d, hd, hed⟩ := ih he
      exact ⟨d, List.mem_cons_of_mem _ hd, hed⟩

/-- Two histories with related events: the last events of a kind are related. -/
theorem exists_last_of_forall₂ {δ : Type} {R : ε → δ → Prop} {Q : δ → Prop} {history' : List δ}
    {d : δ} (hhistory : List.Forall₂ R history history') (hkind : ∀ e d, R e d → (P e ↔ Q d))
    (h : Last Q history' d) : ∃ e, Last P history e ∧ R e d := by
  induction hhistory with
  | nil => exact absurd h not_last_nil
  | cons hR hrest ih =>
    rcases last_cons.mp h with hlast | ⟨hnone, hd, rfl⟩
    · obtain ⟨e, he, hed⟩ := ih hlast
      exact ⟨e, last_cons.mpr (Or.inl he), hed⟩
    · refine ⟨_, last_cons.mpr (Or.inr ⟨fun c hc hP => ?_, (hkind _ _ hR).mpr hd, rfl⟩), hR⟩
      obtain ⟨c', hc', hcc'⟩ := exists_of_mem_forall₂ hrest hc
      exact hnone c' hc' ((hkind _ _ hcc').mp hP)

theorem Last.mem (h : Last P history e) : e ∈ history := by
  obtain ⟨-, before, after, rfl, -⟩ := h
  simp

end Last

end Microboot.Foundation
