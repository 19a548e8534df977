/-
  Kern/Heap.lean --- the allocator is a heap.

  `Heap.Alloc` and `Heap.Free` say what clients of an allocator rely on.  The live
  pointers of `kalloc`, with the sizes in their headers, are the regions of such a
  heap, next to regions of others outside of the arena; `kalloc` and `kfree` take
  regions into use and give them back.
-/
import Microboot.Foundation.Regions
import Microboot.Kern.Alloc

set_option autoImplicit false

namespace Microboot.Kern

open Microboot.Foundation

/-- The payload behind a live pointer. -/
def payload (m : Mem) (p : Nat) : Region := ⟨p, blockSize m (blockOf p)⟩

/-- The payloads of the live pointers, and the regions of others. -/
def Allocator.heap (a : Allocator) (live : List Nat) (others : List Region) : Heap where
  mem := a.mem
  live := live.map (payload a.mem) ++ others

section Heap

variable {limit size p : Nat} {a a' : Allocator} {live : List Nat} {blocks blocks' : List Extent}
  {others : List Region}

/-- The regions of others are apart from each other and from the blocks. -/
structure Outside (limit : Nat) (a : Allocator) (others : List Region) : Prop where
  apart : others.Pairwise Region.Apart
  nodup : others.Nodup
  fits : ∀ r ∈ others, r.start + r.size ≤ 2 ^ 32
  outside : ∀ r ∈ others, r.start + r.size ≤ a.memStart ∨ limit < r.start

theorem payload_eq {b : Extent} (h : Blocks limit a live blocks) (hb : b ∈ blocks) :
    payload a.mem (b.pos + memBlockSize) = ⟨b.pos + memBlockSize, b.size⟩ := by
  have hmem : b ∈ rootBlock a.memStart :: blocks := List.mem_cons_of_mem _ hb
  rw [payload, h.blockOf_eq hmem, (h.holds b hmem).size]

/-- A live payload is that of a block in use. -/
theorem Blocks.payload_of_live (h : Blocks limit a live blocks) (hp : p ∈ live) :
    ∃ b ∈ blocks, b.free = false ∧ p = b.pos + memBlockSize ∧
      payload a.mem p = ⟨b.pos + memBlockSize, b.size⟩ := by
  obtain ⟨b, hb, hused, rfl⟩ := h.used p hp
  exact ⟨b, hb, hused, rfl, payload_eq h hb⟩

/-- Payloads are apart. -/
theorem Blocks.payload_apart (h : Blocks limit a live blocks) {q : Nat} (hp : p ∈ live)
    (hq : q ∈ live) (hne : p ≠ q) : (payload a.mem p).Apart (payload a.mem q) := by
  obtain ⟨b, hb, -, rfl, hpayload⟩ := h.payload_of_live hp
  obtain ⟨c, hc, -, rfl, hpayload'⟩ := h.payload_of_live hq
  rw [hpayload, hpayload']
  rcases h.ordered.eq_or_apart (List.mem_cons_of_mem _ hb) (List.mem_cons_of_mem _ hc) with
    rfl | hlt | hlt
  · exact absurd rfl hne
  · left
    unfold Extent.stop at hlt
    simp only
    omega
  · right
    unfold Extent.stop at hlt
    simp only
    omega

/-- A live payload is inside the arena's part of the memory. -/
theorem Blocks.payload_inside (h : Blocks limit a live blocks) (hp : p ∈ live) :
    a.memStart < (payload a.mem p).start ∧
      (payload a.mem p).start + (payload a.mem p).size ≤ limit := by
  obtain ⟨b, hb, -, rfl, hpayload⟩ := h.payload_of_live hp
  have hstart := h.start_le (List.mem_cons_of_mem _ hb)
  have hstop := h.fits b (List.mem_cons_of_mem _ hb)
  rw [hpayload]
  unfold Extent.stop at hstop
  unfold memBlockSize at hstop ⊢
  simp only
  omega

theorem Blocks.heap_ok (h : Blocks limit a live blocks) (hothers : Outside limit a others) :
    (a.heap live others).Ok := by
  have hlimit := h.limit_le
  have hcross : ∀ r ∈ live.map (payload a.mem), ∀ r' ∈ others, r.Apart r' ∧ r ≠ r' := by
    intro r hr r' hr'
    obtain ⟨p, hp, rfl⟩ := List.mem_map.mp hr
    have hinside := h.payload_inside hp
    have houtside := hothers.outside r' hr'
    unfold Region.Apart
    refine ⟨by omega, fun heq => ?_⟩
    rw [heq] at hinside
    omega
  refine ⟨?_, ?_, fun r hr => ?_⟩
  · refine List.pairwise_append.mpr ⟨?_, hothers.apart, fun r hr r' hr' => (hcross r hr r' hr').1⟩
    refine List.pairwise_map.mpr (h.nodup.imp_of_mem fun hp hq hne => ?_)
    exact h.payload_apart hp hq hne
  · refine List.nodup_append.mpr ⟨?_, hothers.nodup, fun r hr r' hr' => (hcross r hr r' hr').2⟩
    exact h.nodup.map fun p q heq => congrArg Region.start heq
  · rcases List.mem_append.mp hr with hpayload | hother
    · obtain ⟨p, hp, rfl⟩ := List.mem_map.mp hpayload
      have hinside := h.payload_inside hp
      omega
    · exact hothers.fits r hother

/-- Blocks that stay in use keep their payloads. -/
theorem payload_keeps (h : Blocks limit a live blocks) (h' : Blocks limit a' (p :: live) blocks')
    (hkeeps : ∀ b ∈ blocks, b.free = false → b ∈ blocks') :
    live.map (payload a'.mem) = live.map (payload a.mem) := by
  refine List.map_congr_left fun q hq => ?_
  obtain ⟨b, hb, hused, rfl, hpayload⟩ := h.payload_of_live hq
  rw [hpayload, payload_eq h' (hkeeps b hb hused)]

/-- `kalloc` takes a region into use that is large enough. -/
theorem kalloc_alloc (h : Blocks limit a live blocks) (hothers : Outside limit a others)
    (hsize : size < 2 ^ 32) (hfits : AppendFits limit a size)
    (hok : kalloc a size = .ok (a', p)) (hp : p ≠ 0) :
    (a.heap live others).Alloc size (a'.heap (p :: live) others) (payload a'.mem p) := by
  obtain ⟨hsame, ⟨-, -, hnull⟩ | ⟨-, blocks', h', ⟨b, hb, rfl, hroom⟩, hkeeps⟩⟩ :=
    kalloc_blocks h hsize hfits hok
  · exact absurd hnull hp
  have hothers' : Outside limit a' others :=
    ⟨hothers.apart, hothers.nodup, hothers.fits, hsame.1 ▸ hothers.outside⟩
  have hheap := h'.heap_ok hothers'
  have hlive : (a'.heap ((b.pos + memBlockSize) :: live) others).live =
      payload a'.mem (b.pos + memBlockSize) :: (a.heap live others).live := by
    simp only [Allocator.heap, List.map_cons, payload_keeps h h' hkeeps, List.cons_append]
  have hpairwise := hheap.apart
  have hnodup := hheap.nodup
  rw [hlive] at hpairwise hnodup
  refine ⟨hlive, ?_, (List.nodup_cons.mp hnodup).1, ?_, (List.pairwise_cons.mp hpairwise).1,
    fun r hr x hx => ?_⟩
  · rw [payload_eq h' hb]
    exact hroom
  · exact hheap.fits _ (hlive ▸ List.mem_cons_self)
  · refine kalloc_frame h hfits hok ?_
    rcases List.mem_append.mp hr with hpayload | hother
    · obtain ⟨q, hq, rfl⟩ := List.mem_map.mp hpayload
      obtain ⟨c, hc, hused, rfl, hpayload⟩ := h.payload_of_live hq
      rw [hpayload] at hx
      exact Or.inr (Or.inr ⟨c, hc, hused, hx⟩)
    · have houtside := hothers.outside r hother
      unfold Region.Has at hx
      omega

/-- `kfree` writes the state of one header. -/
theorem kfree_frame (h : Blocks limit a live blocks) (hp : p ∈ live) (hok : kfree a p = .ok a')
    {x : Nat} (hx : x < a.memStart ∨ limit < x ∨ ∃ b ∈ blocks, b.InPayload memBlockSize x) :
    a'.mem x = a.mem x := by
  obtain ⟨pre, b, post, rfl, -, rfl, hblock, -⟩ := h.exists_of_live hp
  rw [kfree_eq_ok hok, hblock]
  have hb : b ∈ rootBlock a.memStart :: (pre ++ b :: post) := by simp
  have hfits := h.header_fits hb
  have hstart := h.start_le hb
  have hstop := h.fits b hb
  unfold Extent.stop at hstop
  have hheader : x < b.pos ∨ b.pos + memBlockSize ≤ x := by
    rcases hx with hlow | hhigh | ⟨c, hc, hpay⟩
    · omega
    · omega
    · have hapart := h.ordered.header_apart (List.mem_cons_of_mem _ hc) hb hpay
      unfold Extent.InHeader at hapart
      omega
  unfold memBlockSize at hfits hheader
  exact Mem.store32_apply_of_disjoint _ _ (by omega) (by omega)

/-- `kfree` gives the region of a live pointer back. -/
theorem kfree_free (h : Blocks limit a live blocks) (hothers : Outside limit a others)
    (hp : p ∈ live) (hok : kfree a p = .ok a') :
    (a.heap live others).Free (payload a.mem p) (a'.heap (live.erase p) others) := by
  obtain ⟨-, blocks', h', hkeeps⟩ := kfree_blocks h hp hok
  have hinjective : Function.Injective (payload a.mem) := fun q r heq => congrArg Region.start heq
  have hsame : (live.erase p).map (payload a'.mem) =
      (live.map (payload a.mem)).erase (payload a.mem p) := by
    rw [← List.map_erase hinjective]
    refine List.map_congr_left fun q hq => ?_
    obtain ⟨hne, hq⟩ := h.nodup.mem_erase_iff.mp hq
    obtain ⟨b, hb, -, rfl, hpayload⟩ := h.payload_of_live hq
    rw [hpayload, payload_eq h' (hkeeps b hb hne)]
  have hlive : (a'.heap (live.erase p) others).live =
      (a.heap live others).live.erase (payload a.mem p) := by
    rw [Allocator.heap, Allocator.heap, hsame,
      List.erase_append_left _ (List.mem_map.mpr ⟨p, hp, rfl⟩)]
  refine ⟨List.mem_append_left _ (List.mem_map.mpr ⟨p, hp, rfl⟩), hlive, fun r hr x hx => ?_⟩
  rw [hlive] at hr
  refine kfree_frame h hp hok ?_
  rcases List.mem_append.mp (List.mem_of_mem_erase hr) with hpayload | hother
  · obtain ⟨q, hq, rfl⟩ := List.mem_map.mp hpayload
    obtain ⟨c, hc, -, rfl, hpayload⟩ := h.payload_of_live hq
    rw [hpayload] at hx
    exact Or.inr (Or.inr ⟨c, hc, hx⟩)
  · have houtside := hothers.outside r hother
    unfold Region.Has at hx
    omega

end Heap

end Microboot.Kern
