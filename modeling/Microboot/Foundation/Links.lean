/-
  Foundation/Links.lean --- doubly linked lists.

  Nodes are elements of any type; `next` and `prev` are the two pointers of a node.
  `Links next prev l` says that each node of `l` points to the one behind it, which
  points back.  A node is put between two others, or taken out from between them,
  by writing the pointers around it: `Links.insert` and `Links.remove` ask for no
  more than what these writes did to the nodes of the list.

  `walk` follows one of the pointers from node to node, up to the node in front of
  the end, which is how both directions of a list with sentinels are traversed.
-/
import Mathlib.Data.List.Chain
import Mathlib.Data.List.Nodup

set_option autoImplicit false

namespace Microboot.Foundation

section Links

variable {α : Type} {next prev next' prev' : α → α} {l front back : List α} {a b x : α}

/-- Each node points to the one behind it, which points back. -/
def Links (next prev : α → α) (l : List α) : Prop :=
  l.IsChain fun a b => next a = b ∧ prev b = a

/-- The pointers out of the list, at both of its ends, do not matter. -/
theorem Links.congr (h : Links next prev l) (hnext : ∀ p ∈ l.dropLast, next' p = next p)
    (hprev : ∀ p ∈ l.tail, prev' p = prev p) : Links next' prev' l := by
  unfold Links at h ⊢
  induction l with
  | nil => exact List.isChain_nil
  | cons a l ih =>
    cases l with
    | nil => exact List.isChain_singleton a
    | cons b l =>
      rw [List.isChain_cons_cons] at h ⊢
      rw [List.dropLast_cons_cons] at hnext
      obtain ⟨⟨hab, hba⟩, hrest⟩ := h
      refine ⟨⟨(hnext a (by simp)).trans hab, (hprev b (by simp)).trans hba⟩, ih hrest ?_ ?_⟩
      · exact fun p hp => hnext p (List.mem_cons_of_mem a hp)
      · exact fun p hp => hprev p (List.mem_cons_of_mem b hp)

theorem links_append_cons_cons : Links next prev (front ++ a :: b :: back) ↔
    Links next prev (front ++ [a]) ∧ (next a = b ∧ prev b = a) ∧ Links next prev (b :: back) :=
  List.isChain_append_cons_cons

/-- The pointers between two nodes are written: both parts of the list stay linked. -/
theorem Links.parts (hfront : Links next prev (front ++ [a])) (hback : Links next prev (b :: back))
    (hnodup : (front ++ a :: b :: back).Nodup)
    (hnext : ∀ p ∈ front ++ a :: b :: back, p ≠ a → next' p = next p)
    (hprev : ∀ p ∈ front ++ a :: b :: back, p ≠ b → prev' p = prev p) :
    Links next' prev' (front ++ [a]) ∧ Links next' prev' (b :: back) := by
  obtain ⟨-, hnodup', hdisjoint⟩ := List.nodup_append.mp hnodup
  obtain ⟨hnot, hrest⟩ := List.nodup_cons.mp hnodup'
  obtain ⟨hnot', -⟩ := List.nodup_cons.mp hrest
  have hab : a ≠ b := fun heq => hnot (by simp [heq])
  constructor
  · refine hfront.congr (fun p hp => ?_) fun p hp => ?_
    · rw [List.dropLast_concat] at hp
      exact hnext p (by simp [hp]) (hdisjoint p hp a (by simp))
    · rcases List.mem_append.mp (List.mem_of_mem_tail hp) with hp | hp
      · exact hprev p (by simp [hp]) (hdisjoint p hp b (by simp))
      · rw [List.mem_singleton.mp hp]
        exact hprev a (by simp) hab
  · refine hback.congr (fun p hp => ?_) fun p hp => ?_
    · have hmem := List.dropLast_subset _ hp
      refine hnext p (List.mem_append_right _ (List.mem_cons_of_mem a hmem)) fun heq => ?_
      exact hnot (heq ▸ hmem)
    · rw [List.tail_cons] at hp
      exact hprev p (by simp [hp]) fun heq => hnot' (heq ▸ hp)

/-- A node is put between two others, which need not have been linked before. -/
theorem Links.insert (hfront : Links next prev (front ++ [a])) (hback : Links next prev (b :: back))
    (hnodup : (front ++ a :: b :: back).Nodup)
    (hnext : ∀ p ∈ front ++ a :: b :: back, p ≠ a → next' p = next p)
    (hprev : ∀ p ∈ front ++ a :: b :: back, p ≠ b → prev' p = prev p)
    (ha : next' a = x) (hb : prev' b = x) (hxnext : next' x = b) (hxprev : prev' x = a) :
    Links next' prev' (front ++ a :: x :: b :: back) := by
  obtain ⟨hfront', hback'⟩ := Links.parts hfront hback hnodup hnext hprev
  exact links_append_cons_cons.mpr
    ⟨hfront', ⟨ha, hxprev⟩, List.isChain_cons_cons.mpr ⟨⟨hxnext, hb⟩, hback'⟩⟩

/-- A node is taken out from between two others. -/
theorem Links.remove (h : Links next prev (front ++ a :: x :: b :: back))
    (hnodup : (front ++ a :: b :: back).Nodup)
    (hnext : ∀ p ∈ front ++ a :: b :: back, p ≠ a → next' p = next p)
    (hprev : ∀ p ∈ front ++ a :: b :: back, p ≠ b → prev' p = prev p)
    (ha : next' a = b) (hb : prev' b = a) :
    Links next' prev' (front ++ a :: b :: back) := by
  obtain ⟨hfront, -, hrest⟩ := links_append_cons_cons.mp h
  obtain ⟨-, hback⟩ := List.isChain_cons_cons.mp hrest
  obtain ⟨hfront', hback'⟩ := Links.parts hfront hback hnodup hnext hprev
  exact links_append_cons_cons.mpr ⟨hfront', ⟨ha, hb⟩, hback'⟩

/-- The neighbours of an interior node point to it. -/
theorem Links.interior (h : Links next prev (front ++ a :: x :: b :: back)) :
    prev x = a ∧ next a = x ∧ next x = b ∧ prev b = x := by
  obtain ⟨-, ⟨hax, hxa⟩, hrest⟩ := links_append_cons_cons.mp h
  obtain ⟨⟨hxb, hbx⟩, -⟩ := List.isChain_cons_cons.mp hrest
  exact ⟨hxa, hax, hxb, hbx⟩

/-! ## Walks -/

variable {null : α} [DecidableEq α]

/-- `for (i = start; i && step(i); i = step(i))`: the nodes visited. -/
def walk (step : α → α) (null : α) : Nat → α → Option (List α)
  | 0, _ => none
  | fuel + 1, i =>
    if i ≠ null ∧ step i ≠ null then (walk step null fuel (step i)).map (i :: ·) else some []

/-- A walk along a chain visits all nodes but the last, which points nowhere. -/
theorem walk_eq {step : α → α} {last : α} {fuel : Nat} (hlast : step last = null)
    (hchain : (l ++ [last]).IsChain fun a b => step a = b) (hnull : ∀ p ∈ l ++ [last], p ≠ null)
    (hfuel : l.length < fuel) {start : α} (hstart : (l ++ [last]).head? = some start) :
    walk step null fuel start = some l := by
  induction l generalizing fuel start with
  | nil =>
    obtain ⟨fuel, rfl⟩ := Nat.exists_eq_succ_of_ne_zero (Nat.ne_of_gt hfuel)
    cases hstart
    rw [walk, if_neg fun h => h.2 hlast]
  | cons a l ih =>
    obtain ⟨fuel, rfl⟩ := Nat.exists_eq_succ_of_ne_zero (Nat.ne_of_gt (Nat.zero_lt_of_lt hfuel))
    cases hstart
    obtain ⟨b, hb⟩ : ∃ b, (l ++ [last]).head? = some b := by cases l <;> simp
    have hab : step a = b := (List.isChain_cons.mp hchain).1 b hb
    have hmem : b ∈ a :: l ++ [last] := List.mem_cons_of_mem a (List.mem_of_mem_head? hb)
    have hne : a ≠ null ∧ step a ≠ null := ⟨hnull a (by simp), hab ▸ hnull b hmem⟩
    have hrest := ih (List.isChain_cons.mp hchain).2
      (fun p hp => hnull p (List.mem_cons_of_mem a hp)) (Nat.lt_of_succ_lt_succ hfuel) hb
    rw [walk, if_pos hne, hab, hrest, Option.map_some]

/-- A walk that stops has visited the nodes of every chain that it starts with. -/
theorem walk_prefix {step : α → α} {last : α} {fuel : Nat} {visited : List α}
    (hchain : (l ++ [last]).IsChain fun a b => step a = b) (hnull : ∀ p ∈ l ++ [last], p ≠ null)
    {start : α} (hstart : (l ++ [last]).head? = some start)
    (hwalk : walk step null fuel start = some visited) : l <+: visited := by
  induction l generalizing fuel start visited with
  | nil => exact List.nil_prefix
  | cons a l ih =>
    cases hstart
    obtain ⟨b, hb⟩ : ∃ b, (l ++ [last]).head? = some b := by cases l <;> simp
    have hab : step a = b := (List.isChain_cons.mp hchain).1 b hb
    have hmem : b ∈ a :: l ++ [last] := List.mem_cons_of_mem a (List.mem_of_mem_head? hb)
    cases fuel with
    | zero => rw [walk] at hwalk; cases hwalk
    | succ fuel =>
      rw [walk, if_pos ⟨hnull a (by simp), hab ▸ hnull b hmem⟩, hab] at hwalk
      obtain ⟨rest, hrest, rfl⟩ := Option.map_eq_some_iff.mp hwalk
      refine List.cons_prefix_cons.mpr ⟨rfl, ih (List.isChain_cons.mp hchain).2 ?_ hb hrest⟩
      exact fun p hp => hnull p (List.mem_cons_of_mem a hp)

end Links

end Microboot.Foundation
