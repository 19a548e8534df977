/-
  Foundation/Trail.lean --- following the successors of a point while they are allowed.

  A loop that moves from `c` to `next c` as long as `c` satisfies `go` leaves a
  `Trail`: the points it has gone on from, and the one at which it stops.  There is
  at most one trail from a point, since nothing is chosen on the way, so no point
  occurs twice on it: the loop would go round for ever.  From a point without a
  trail the loop can therefore make any number of steps, and never stops.
-/
import Mathlib.Data.List.Range
import Mathlib.Data.Finset.Card
import Mathlib.Data.Finset.Range

set_option autoImplicit false

namespace Microboot.Foundation

/-- From `c`, the successors lead through the points of a list, from all of which the
loop goes on, to one at which it stops. -/
inductive Trail {α : Type} (next : α → α) (go : α → Prop) : α → List α → α → Prop
  | here {c : α} : ¬ go c → Trail next go c [] c
  | step {c : α} {cs : List α} {stop : α} :
      go c → Trail next go (next c) cs stop → Trail next go c (c :: cs) stop

namespace Trail

variable {α : Type} {next : α → α} {go : α → Prop} {c d stop stop' : α} {cs cs' : List α}

theorem goes (h : Trail next go c cs stop) : ∀ d ∈ cs, go d := by
  induction h with
  | here _ => nofun
  | step hgo _ ih =>
    intro d hd
    rcases List.mem_cons.mp hd with rfl | hd
    · exact hgo
    · exact ih d hd

/-- There is one trail from a point. -/
theorem unique (h : Trail next go c cs stop) (h' : Trail next go c cs' stop') :
    cs = cs' ∧ stop = stop' := by
  induction h generalizing cs' with
  | here hstop =>
    cases h' with
    | here _ => exact ⟨rfl, rfl⟩
    | step hgo _ => exact absurd hgo hstop
  | step hgo _ ih =>
    cases h' with
    | here hstop => exact absurd hgo hstop
    | step _ hrest =>
      obtain ⟨rfl, rfl⟩ := ih hrest
      exact ⟨rfl, rfl⟩

/-- Behind each of its points a trail is the trail of that point. -/
theorem from_mem (h : Trail next go c cs stop) (hd : d ∈ cs) :
    ∃ ds, Trail next go d ds stop ∧ ds <:+ cs := by
  induction h with
  | here _ => cases hd
  | @step c cs stop hgo hrest ih =>
    rcases List.mem_cons.mp hd with rfl | hd
    · exact ⟨d :: cs, .step hgo hrest, List.suffix_refl _⟩
    · obtain ⟨ds, htrail, hsuffix⟩ := ih hd
      exact ⟨ds, htrail, hsuffix.trans (List.suffix_cons c cs)⟩

/-- No point occurs twice. -/
theorem nodup (h : Trail next go c cs stop) : cs.Nodup := by
  induction h with
  | here _ => exact List.nodup_nil
  | @step c cs stop hgo hrest ih =>
    refine List.nodup_cons.mpr ⟨fun hmem => ?_, ih⟩
    -- the trail of `c` would be a part of the one behind it
    obtain ⟨ds, htrail, hsuffix⟩ := hrest.from_mem hmem
    obtain ⟨rfl, -⟩ := htrail.unique (.step hgo hrest)
    have := hsuffix.length_le
    rw [List.length_cons] at this
    omega

/-- Where the points that are gone on from are numbers below a bound, the bound is
one of the length too. -/
theorem length_le {next : Nat → Nat} {go : Nat → Prop} {c stop bound : Nat} {cs : List Nat}
    (h : Trail next go c cs stop) (hbound : ∀ d, go d → d < bound) : cs.length ≤ bound := by
  have hsub : cs.toFinset ⊆ Finset.range bound := fun d hd =>
    Finset.mem_range.mpr (hbound d (h.goes d (List.mem_toFinset.mp hd)))
  calc cs.length = cs.toFinset.card := (List.toFinset_card_of_nodup h.nodup).symm
    _ ≤ (Finset.range bound).card := Finset.card_le_card hsub
    _ = bound := Finset.card_range bound

/-- A point that is its own successor has no trail, if the loop goes on from it. -/
theorem not_of_fixed (hgo : go c) (hfixed : next c = c) : ¬ Trail next go c cs stop := by
  intro h
  have hnodup := (Trail.step hgo (hfixed.symm ▸ h : Trail next go (next c) cs stop)).nodup
  cases h with
  | here hstop => exact hstop hgo
  | step _ _ => simp at hnodup

/-- From a point without a trail the loop goes on, to another such point. -/
theorem endless (h : ¬∃ cs stop, Trail next go c cs stop) :
    go c ∧ ¬∃ cs stop, Trail next go (next c) cs stop := by
  by_cases hgo : go c
  · exact ⟨hgo, fun ⟨cs, stop, hrest⟩ => h ⟨c :: cs, stop, .step hgo hrest⟩⟩
  · exact absurd ⟨[], c, .here hgo⟩ h

end Trail

end Microboot.Foundation
