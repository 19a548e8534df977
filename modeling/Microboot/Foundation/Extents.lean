/-
  Foundation/Extents.lean --- heap blocks laid out in address order.

  An extent is a header of `hdr` bytes followed by a payload.  A list of extents
  is ordered if each one ends where the next begins, or before.  Ordered lists
  keep every header and every payload apart, and stay ordered under the three
  changes a heap makes: shrinking a block, changing what it is used for, and
  appending one behind the last.  `Tiles` says that they leave no gaps.

  `Threaded` is the other half of such a heap, the singly linked list that
  threads the blocks; it is stated for an arbitrary `next` function.
-/
import Mathlib.Data.List.Basic

set_option autoImplicit false

namespace Microboot.Foundation

/-! ## Extents -/

/-- A block: its header's address, the size of its payload, and whether it is
free. -/
structure Extent where
  pos : Nat
  size : Nat
  free : Bool
  deriving DecidableEq, Repr

namespace Extent

/-- The address behind the payload. -/
def stop (hdr : Nat) (e : Extent) : Nat := e.pos + hdr + e.size

/-- `x` is an address of the header. -/
def InHeader (hdr : Nat) (e : Extent) (x : Nat) : Prop := e.pos ≤ x ∧ x < e.pos + hdr

/-- `x` is an address of the payload. -/
def InPayload (hdr : Nat) (e : Extent) (x : Nat) : Prop := e.pos + hdr ≤ x ∧ x < e.stop hdr

end Extent

/-- The extents are in address order and do not overlap. -/
def Ordered (hdr : Nat) (l : List Extent) : Prop :=
  l.Pairwise fun a b => a.stop hdr ≤ b.pos

section Ordered

variable {hdr : Nat} {l l₁ l₂ : List Extent} {a b e : Extent}

/-- An extent may be appended behind all others. -/
theorem Ordered.snoc (h : Ordered hdr l) (he : ∀ a ∈ l, a.stop hdr ≤ e.pos) :
    Ordered hdr (l ++ [e]) := by
  apply List.pairwise_append.mpr
  refine ⟨h, List.pairwise_singleton _ _, fun a ha b hb => ?_⟩
  rw [List.mem_singleton] at hb
  rw [hb]
  exact he a ha

/-- The last extent ends behind all others. -/
theorem Ordered.stop_le_last (h : Ordered hdr (l ++ [e])) (ha : a ∈ l ++ [e]) :
    a.stop hdr ≤ e.stop hdr := by
  rw [List.mem_append, List.mem_singleton] at ha
  cases ha with
  | inl ha =>
    have hle := (List.pairwise_append.mp h).2.2 a ha e (List.mem_singleton_self e)
    unfold Extent.stop at hle ⊢
    omega
  | inr ha => exact Nat.le_of_eq (congrArg (Extent.stop hdr) ha)

/-- An extent may be replaced by one that is at the same place and no larger. -/
theorem Ordered.replace (h : Ordered hdr (l₁ ++ b :: l₂)) (hpos : e.pos = b.pos)
    (hsize : e.size ≤ b.size) : Ordered hdr (l₁ ++ e :: l₂) := by
  obtain ⟨h₁, h₂, hcross⟩ := List.pairwise_append.mp h
  obtain ⟨hb, h₂⟩ := List.pairwise_cons.mp h₂
  have hstop : e.stop hdr ≤ b.stop hdr := by
    unfold Extent.stop
    omega
  apply List.pairwise_append.mpr
  refine ⟨h₁, List.pairwise_cons.mpr ⟨fun c hc => ?_, h₂⟩, fun a ha c hc => ?_⟩
  · exact Nat.le_trans hstop (hb c hc)
  · rw [List.mem_cons] at hc
    cases hc with
    | inl hc =>
      rw [hc, hpos]
      exact hcross a ha b (by simp)
    | inr hc => exact hcross a ha c (by simp [hc])

/-- Two extents of an ordered list are the same one, or one ends in front of the
other. -/
theorem Ordered.eq_or_apart (h : Ordered hdr l) (ha : a ∈ l) (hb : b ∈ l) :
    a = b ∨ a.stop hdr ≤ b.pos ∨ b.stop hdr ≤ a.pos := by
  induction l with
  | nil => cases ha
  | cons c l ih =>
    obtain ⟨hc, h⟩ := List.pairwise_cons.mp h
    rw [List.mem_cons] at ha hb
    rcases ha with rfl | ha
    · rcases hb with rfl | hb
      · exact Or.inl rfl
      · exact Or.inr (Or.inl (hc b hb))
    · rcases hb with rfl | hb
      · exact Or.inr (Or.inr (hc a ha))
      · exact ih h ha hb

/-- An extent is apart from all others of an ordered list. -/
theorem Ordered.apart_of_mem (h : Ordered hdr (l₁ ++ b :: l₂)) (ha : a ∈ l₁ ++ l₂) :
    a.stop hdr ≤ b.pos ∨ b.stop hdr ≤ a.pos := by
  obtain ⟨-, h₂, hcross⟩ := List.pairwise_append.mp h
  rw [List.mem_append] at ha
  cases ha with
  | inl ha => exact Or.inl (hcross a ha b (by simp))
  | inr ha => exact Or.inr ((List.pairwise_cons.mp h₂).1 a ha)

/-- Extents of an ordered list are told apart by their addresses. -/
theorem Ordered.eq_of_pos (h : Ordered hdr l) (hhdr : 0 < hdr) (ha : a ∈ l) (hb : b ∈ l)
    (hpos : a.pos = b.pos) : a = b := by
  rcases h.eq_or_apart ha hb with heq | hlt | hlt
  · exact heq
  · unfold Extent.stop at hlt
    omega
  · unfold Extent.stop at hlt
    omega

/-- No payload overlaps a header. -/
theorem Ordered.header_apart (h : Ordered hdr l) (ha : a ∈ l) (hb : b ∈ l) {x : Nat}
    (hx : a.InPayload hdr x) : ¬ b.InHeader hdr x := by
  intro hx'
  unfold Extent.InPayload at hx
  unfold Extent.InHeader at hx'
  rcases h.eq_or_apart ha hb with heq | hlt | hlt
  · rw [heq] at hx
    omega
  · omega
  · unfold Extent.stop at hlt
    omega

/-- The payloads are pairwise disjoint. -/
theorem Ordered.payload_apart (h : Ordered hdr l) :
    l.Pairwise fun a b => ∀ x, ¬ (a.InPayload hdr x ∧ b.InPayload hdr x) := by
  apply List.Pairwise.imp _ h
  intro a b hab x hx
  unfold Extent.InPayload at hx
  omega

/-- There are no more extents than addresses. -/
theorem Ordered.length_le (hhdr : 0 < hdr) {lo limit : Nat} (hlo : lo ≤ limit)
    (h : Ordered hdr l) (hfits : ∀ e ∈ l, lo ≤ e.pos ∧ e.stop hdr ≤ limit) :
    lo + l.length ≤ limit := by
  induction l generalizing lo with
  | nil => exact hlo
  | cons e l ih =>
    obtain ⟨he, h⟩ := List.pairwise_cons.mp h
    have hhead := hfits e (by simp)
    have hrest := ih hhead.2 h fun c hc => ⟨he c hc, (hfits c (by simp [hc])).2⟩
    rw [List.length_cons]
    unfold Extent.stop at hrest hhead
    omega

end Ordered

/-! ## Blocks that lie end to end -/

/-- The blocks, each with its header's address and the size of its payload, lie end to
end from `lo` up to `hi`. -/
def Tiles (hdr : Nat) : Nat → List (Nat × Nat) → Nat → Prop
  | lo, [], hi => lo = hi
  | lo, e :: l, hi => e.1 = lo ∧ Tiles hdr (e.1 + hdr + e.2) l hi

section Tiles

variable {hdr lo hi x : Nat} {l l' : List (Nat × Nat)} {e : Nat × Nat}

theorem tiles_append : Tiles hdr lo (l ++ l') hi ↔
    ∃ mid, Tiles hdr lo l mid ∧ Tiles hdr mid l' hi := by
  induction l generalizing lo with
  | nil => simp [Tiles]
  | cons e l ih => simp only [List.cons_append, Tiles, ih, and_assoc, exists_and_left]

/-- The last block ends where all of them end. -/
theorem tiles_snoc : Tiles hdr lo (l ++ [e]) hi ↔
    Tiles hdr lo l e.1 ∧ hi = e.1 + hdr + e.2 := by
  rw [tiles_append]
  constructor
  · rintro ⟨mid, hl, rfl, rfl⟩
    exact ⟨hl, rfl⟩
  · rintro ⟨hl, rfl⟩
    exact ⟨e.1, hl, rfl, rfl⟩

/-- The blocks are between the two ends. -/
theorem Tiles.bounds (h : Tiles hdr lo l hi) :
    lo ≤ hi ∧ ∀ e ∈ l, lo ≤ e.1 ∧ e.1 + hdr + e.2 ≤ hi := by
  induction l generalizing lo with
  | nil => exact ⟨Nat.le_of_eq h, fun e he => absurd he List.not_mem_nil⟩
  | cons e l ih =>
    obtain ⟨rfl, hrest⟩ := h
    obtain ⟨hle, hbounds⟩ := ih hrest
    refine ⟨by omega, fun c hc => ?_⟩
    rcases List.mem_cons.mp hc with rfl | hc
    · exact ⟨Nat.le_refl _, hle⟩
    · have := hbounds c hc
      omega

/-- Every address between the two ends is in exactly one block. -/
theorem Tiles.exists_unique (h : Tiles hdr lo l hi) (hlo : lo ≤ x) (hhi : x < hi) :
    ∃ e ∈ l, (e.1 ≤ x ∧ x < e.1 + hdr + e.2) ∧
      ∀ c ∈ l, c.1 ≤ x → x < c.1 + hdr + c.2 → c = e := by
  induction l generalizing lo with
  | nil =>
    have heq : lo = hi := h
    omega
  | cons e l ih =>
    obtain ⟨rfl, hrest⟩ := h
    have hbounds := hrest.bounds.2
    by_cases hx : x < e.1 + hdr + e.2
    · refine ⟨e, List.mem_cons_self, ⟨hlo, hx⟩, fun c hc hcx _ => ?_⟩
      rcases List.mem_cons.mp hc with rfl | hc
      · rfl
      · have := hbounds c hc
        omega
    · obtain ⟨c, hc, hin, hunique⟩ := ih hrest (Nat.le_of_not_lt hx)
      refine ⟨c, List.mem_cons_of_mem _ hc, hin, fun d hd hdx hxd => ?_⟩
      rcases List.mem_cons.mp hd with rfl | hd
      · exact absurd hxd hx
      · exact hunique d hd hdx hxd

end Tiles

/-! ## The list that threads the blocks -/

/-- Following `next` from the first of these addresses visits them in order and
ends with a null link. -/
def Threaded (next : Nat → Nat) : List Nat → Prop
  | [] => True
  | [p] => next p = 0
  | p :: q :: ps => next p = q ∧ Threaded next (q :: ps)

/-- Only the links of the blocks matter. -/
theorem Threaded.congr {next next' : Nat → Nat} {ps : List Nat} (h : Threaded next ps)
    (heq : ∀ p ∈ ps, next' p = next p) : Threaded next' ps := by
  induction ps with
  | nil => trivial
  | cons p ps ih =>
    cases ps with
    | nil => exact (heq p (by simp)).trans h
    | cons q ps => exact ⟨(heq p (by simp)).trans h.1, ih h.2 fun r hr => heq r (by simp [hr])⟩

/-- A block in the middle is linked to the next one. -/
theorem Threaded.next_eq {next : Nat → Nat} {ps qs : List Nat} {p q : Nat}
    (h : Threaded next (ps ++ p :: q :: qs)) : next p = q := by
  induction ps with
  | nil => exact h.1
  | cons r ps ih =>
    cases ps with
    | nil => exact ih h.2
    | cons s ps => exact ih h.2

/-- A block is appended by linking the last one to it. -/
theorem Threaded.snoc {next next' : Nat → Nat} {ps : List Nat} {p q : Nat}
    (h : Threaded next (ps ++ [p])) (heq : ∀ r ∈ ps, next' r = next r) (hp : next' p = q)
    (hq : next' q = 0) : Threaded next' (ps ++ [p, q]) := by
  induction ps with
  | nil => exact ⟨hp, hq⟩
  | cons r ps ih =>
    cases ps with
    | nil => exact ⟨(heq r (by simp)).trans h.1, ih h.2 fun s hs => heq s (by simp [hs])⟩
    | cons s ps => exact ⟨(heq r (by simp)).trans h.1, ih h.2 fun t ht => heq t (by simp [ht])⟩

end Microboot.Foundation
