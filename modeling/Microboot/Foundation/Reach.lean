/-
  Foundation/Reach.lean --- what a node of a graph reaches through live nodes.

  `ReachIn sub live x y`: there is a path of `sub` from `x` to `y` on which every
  node that is left is live.  A traversal that takes nodes out of the graph as it
  goes needs two facts: a set that is closed under the edges can be taken out
  without changing what is reached outside of it (`reachIn_diff`), and on a finite
  set of live nodes without a cycle the edges are well founded (`acyclic_acc`).

  A graph that is built up stays without a cycle when its edges go up in some order
  (`acyclicIn_of_lt`), or when what is new has edges at one end only
  (`AcyclicIn.of_end`).
-/
import Mathlib.Data.Fintype.EquivFin
import Mathlib.Data.List.Basic
import Mathlib.Logic.Relation
import Mathlib.Order.RelClasses
import Mathlib.Order.WellFounded

set_option autoImplicit false

namespace Microboot.Foundation

open Relation

variable {α : Type} {sub : α → α → Prop} {live live' : α → Prop} {x y : α}

/-- An edge that leaves a live node. -/
def LiveEdge (sub : α → α → Prop) (live : α → Prop) (x y : α) : Prop := live x ∧ sub x y

/-- A path of such edges. -/
def ReachIn (sub : α → α → Prop) (live : α → Prop) : α → α → Prop := ReflTransGen (LiveEdge sub live)

/-- No path of such edges comes back. -/
def AcyclicIn (sub : α → α → Prop) (live : α → Prop) : Prop := ∀ x, ¬ TransGen (LiveEdge sub live) x x

/-- Edges that go up in some order have no cycle. -/
theorem acyclicIn_of_lt {β : Type} [Preorder β] (rank : α → β)
    (h : ∀ x y, LiveEdge sub live x y → rank x < rank y) : AcyclicIn sub live := by
  intro x hcycle
  have hlt : ∀ y, TransGen (LiveEdge sub live) x y → rank x < rank y := by
    intro y hy
    induction hy with
    | single hedge => exact h _ _ hedge
    | tail _ hedge ih => exact ih.trans (h _ _ hedge)
  exact lt_irrefl _ (hlt x hcycle)

/-- A node that no edge enters, or that none leaves, is on no cycle. -/
theorem AcyclicIn.of_end {sub' : α → α → Prop} (h : AcyclicIn sub live) (q : α)
    (hq : (∀ x, ¬ LiveEdge sub' live' x q) ∨ ∀ y, ¬ LiveEdge sub' live' q y)
    (hold : ∀ x y, x ≠ q → y ≠ q → LiveEdge sub' live' x y → LiveEdge sub live x y) :
    AcyclicIn sub' live' := by
  have hne : ∀ x y z, LiveEdge sub' live' x y → LiveEdge sub' live' y z → y ≠ q := by
    rintro x y z hin hout rfl
    exact hq.elim (fun hq => hq x hin) fun hq => hq z hout
  -- between nodes that are entered and left again, the paths are old ones
  have hpath : ∀ x y w z, LiveEdge sub' live' w x → LiveEdge sub' live' y z →
      TransGen (LiveEdge sub' live') x y → TransGen (LiveEdge sub live) x y := by
    intro x y w z hin hout hxy
    induction hxy generalizing z with
    | single hedge => exact .single (hold _ _ (hne _ _ _ hin hedge) (hne _ _ _ hedge hout) hedge)
    | tail hxb hedge ih =>
      obtain ⟨a, -, hab⟩ := (TransGen.tail'_iff).mp hxb
      exact (ih _ hedge).tail (hold _ _ (hne _ _ _ hab hedge) (hne _ _ _ hedge hout) hedge)
  intro x hcycle
  obtain ⟨a, -, hlast⟩ := TransGen.tail'_iff.mp hcycle
  obtain ⟨b, hfirst, -⟩ := TransGen.head'_iff.mp hcycle
  exact h x (hpath x x a b hlast hfirst hcycle)

/-- Fewer edges have no more cycles. -/
theorem AcyclicIn.mono {sub' : α → α → Prop} (h : AcyclicIn sub live)
    (hedge : ∀ x y, LiveEdge sub' live' x y → LiveEdge sub live x y) : AcyclicIn sub' live' :=
  fun x hcycle => h x (TransGen.mono hedge x x hcycle)

theorem reachIn_head :
    ReachIn sub live x y ↔ y = x ∨ ∃ s, LiveEdge sub live x s ∧ ReachIn sub live s y := by
  unfold ReachIn
  rw [ReflTransGen.cases_head_iff]
  exact or_congr_left eq_comm

/-- Only the edges that leave live nodes count. -/
theorem reachIn_congr {sub' : α → α → Prop} (h : ∀ x y, live x → (sub x y ↔ sub' x y)) :
    ReachIn sub live x y ↔ ReachIn sub' live x y := by
  have hedge : LiveEdge sub live = LiveEdge sub' live :=
    funext fun a => funext fun b => propext (and_congr_right fun ha => h a b ha)
  unfold ReachIn
  rw [hedge]

/-- What is not live reaches nothing else. -/
theorem reachIn_of_not_live (h : ¬ live x) : ReachIn sub live x y ↔ y = x := by
  rw [reachIn_head]
  exact or_iff_left fun ⟨_, hedge, _⟩ => h hedge.1

/-- Outside of a closed set nothing changes when the set is taken out. -/
theorem reachIn_diff {C : α → Prop} (hC : ∀ x y, C x → LiveEdge sub live x y → C y)
    (hlive : ∀ x, live' x ↔ live x ∧ ¬ C x) (hy : ¬ C y) :
    ReachIn sub live' x y ↔ ReachIn sub live x y := by
  constructor
  · intro h
    exact ReflTransGen.mono (fun a b hedge => ⟨((hlive a).mp hedge.1).1, hedge.2⟩) _ _ h
  · intro h
    -- from the end of the path: no node on it is in the set
    induction h using ReflTransGen.head_induction_on with
    | refl => exact ReflTransGen.refl
    | head hedge hrest ih =>
      refine ReflTransGen.head ⟨(hlive _).mpr ⟨hedge.1, fun hin => ?_⟩, hedge.2⟩ ih
      have hclosed : ∀ a b, C a → ReachIn sub live a b → C b := by
        intro a b ha hab
        induction hab with
        | refl => exact ha
        | tail _ hlast ih => exact hC _ _ ih hlast
      exact hy (hclosed _ _ (hC _ _ hin hedge) hrest)

/-- Without a cycle among finitely many live nodes, the edges are well founded. -/
theorem acyclic_acc (hfinite : {x | live x}.Finite) (h : AcyclicIn sub live) (x : α) :
    Acc (fun y x => LiveEdge sub live x y) x := by
  have hsubtype : Finite {x // live x} := hfinite.to_subtype
  let below : {x // live x} → {x // live x} → Prop := fun y x => TransGen (LiveEdge sub live) x.1 y.1
  have htrans : IsTrans _ below := ⟨fun a b c hab hbc => hbc.trans hab⟩
  have hirrefl : Std.Irrefl below := ⟨fun a => h a.1⟩
  have hwf : WellFounded below := Finite.wellFounded_of_trans_of_irrefl below
  have hlive : ∀ x : {x // live x}, Acc (fun y x => LiveEdge sub live x y) x.1 := by
    intro x
    induction x using hwf.induction with
    | _ x ih =>
      refine Acc.intro _ fun y hedge => ?_
      by_cases hy : live y
      · exact ih ⟨y, hy⟩ (TransGen.single hedge)
      · exact Acc.intro _ fun z hz => absurd hz.1 hy
  by_cases hx : live x
  · exact hlive ⟨x, hx⟩
  · exact Acc.intro _ fun z hz => absurd hz.1 hx

end Microboot.Foundation
