/-
  Kern/OwnCalls.lean --- blocks that the calls of others leave alone.

  Whoever calls the allocator on pointers of its own, and writes to blocks of its own,
  keeps the other blocks in use: their headers, but for the link to the next block, and
  their payloads.  So does `krealloc`, when it cuts a block off at a size that is not
  aligned.

  `InUse` is what the owner of a block relies on.  It is kept by every step that is not
  made on the block.
-/
import Microboot.Kern.Chain

set_option autoImplicit false

namespace Microboot.Kern

open Microboot.Foundation

/-- `x` is in the header of the block, in front of the link, or in its payload. -/
def OfBlock (b : Extent) (x : Nat) : Prop :=
  (b.pos ≤ x ∧ x < b.pos + 20) ∨ b.InPayload memBlockSize x

namespace AllocOp

/-- The call is not made on the pointer `q`. -/
def Leaves (q : Nat) : AllocOp → Prop
  | krealloc ptr _ | kfree ptr | kmmcritical ptr => ptr ≠ q
  | kalloc _ | kallocz _ | write _ _ => True

/-- The user of a block writes the byte at `x`. -/
def Writes (x : Nat) : AllocOp → Prop
  | write ptr _ => ptr = x
  | _ => False

end AllocOp

/-! ## The bytes of a block -/

section Bytes

variable {limit size p q x : Nat} {a a' : Allocator} {live : List Nat} {blocks : List Extent}
  {b c : Extent}

/-- Blocks are apart. -/
theorem Blocks.outside (h : Blocks limit a live blocks) (hb : b ∈ rootBlock a.memStart :: blocks)
    (hc : c ∈ rootBlock a.memStart :: blocks) (hne : b ≠ c) (hx : OfBlock b x) :
    x < c.pos ∨ c.stop memBlockSize ≤ x := by
  have hapart := (h.ordered.eq_or_apart hb hc).resolve_left hne
  unfold OfBlock Extent.InPayload at hx
  unfold Extent.stop memBlockSize at hx hapart ⊢
  omega

/-- A word in the header of another block is stored. -/
theorem Blocks.store32_ofBlock (h : Blocks limit a live blocks)
    (hb : b ∈ rootBlock a.memStart :: blocks) (hc : c ∈ rootBlock a.memStart :: blocks)
    (hne : b ≠ c) (m : Mem) {k : Nat} (hk : k ≤ 20) (v : Nat) (hx : OfBlock b x) :
    m.store32 (c.pos + k) v x = m x := by
  have hfits := h.header_fits hc
  have hout := h.outside hb hc hne hx
  unfold Extent.stop at hout
  unfold memBlockSize at hfits hout
  exact Mem.store32_apply_of_disjoint _ _ (by omega) (by omega)

theorem kalloc_ofBlock (h : Blocks limit a live blocks) (hfits : AppendFits limit a size)
    (hok : kalloc a size = .ok (a', p)) (hb : b ∈ blocks) (hused : b.free = false)
    (hx : OfBlock b x) : a'.mem x = a.mem x := by
  rcases hx with hheader | hpayload
  · exact kalloc_header h hfits hok (List.mem_cons_of_mem _ hb) hused hheader
  · exact kalloc_frame h hfits hok (Or.inr (Or.inr ⟨b, hb, hused, hpayload⟩))

/-- Where the bytes that `kalloc` was asked for are. -/
theorem kalloc_room (h : Blocks limit a live blocks) (hsize : size ≤ 2 ^ 32 - 64)
    (hfits : AppendFits limit a size) (hok : kalloc a size = .ok (a', p)) (hb : b ∈ blocks)
    (hused : b.free = false) (hx : OfBlock b x) :
    p + size ≤ 2 ^ 32 ∧ (x < p ∨ p + size ≤ x) := by
  obtain ⟨-, ⟨h0, -, rfl⟩ | ⟨h0, blocks', hnew, ⟨c, hc, rfl, hbig⟩, hkept⟩⟩ :=
    kalloc_blocks h (by omega) hfits hok
  · rw [alignedSize_eq_zero hsize h0]
    exact ⟨by omega, Or.inr (Nat.zero_le _)⟩
  · have hne : b ≠ c := by
      rintro rfl
      exact kalloc_fresh h hfits hok h0 hb hused rfl
    have hout := hnew.outside (List.mem_cons_of_mem _ (hkept b hb hused))
      (List.mem_cons_of_mem _ hc) hne hx
    have hfit := hnew.payload_fits hc
    unfold Extent.stop at hout
    unfold memBlockSize at hout hfit ⊢
    omega

theorem kallocz_ofBlock (h : Blocks limit a live blocks) (hsize : size ≤ 2 ^ 32 - 64)
    (hfits : AppendFits limit a size) (hok : kallocz a size = .ok (a', p)) (hb : b ∈ blocks)
    (hused : b.free = false) (hx : OfBlock b x) : a'.mem x = a.mem x := by
  obtain ⟨a₁, hkalloc, rfl⟩ := kallocz_eq_ok hok
  have hkeep := kalloc_ofBlock h hfits hkalloc hb hused hx
  obtain ⟨hfit, hout⟩ := kalloc_room h hsize hfits hkalloc hb hused hx
  exact (Mem.fill_apply_of_disjoint 0 size _ _ x hfit hout).trans hkeep

/-- The state of another block is written. -/
theorem kfree_ofBlock (h : Blocks limit a live blocks) (hp : p ∈ live)
    (hok : kfree a p = .ok a') (hb : b ∈ blocks) (hne : p ≠ b.pos + memBlockSize)
    (hx : OfBlock b x) : a'.mem x = a.mem x := by
  obtain ⟨pre, c, post, rfl, -, rfl, hblock, -⟩ := h.exists_of_live hp
  have hbc : b ≠ c := fun heq => hne (by rw [heq])
  rw [kfree_eq_ok hok, hblock]
  exact h.store32_ofBlock (List.mem_cons_of_mem _ hb) (by simp) hbc _ (by decide) _ hx

/-- A block is cut off, or its bytes are copied and it is freed. -/
theorem krealloc_ofBlock (h : Blocks limit a live blocks) (hp : p = 0 ∨ p ∈ live)
    (hsize : size ≤ 2 ^ 32 - 64)
    (hfits : (p = 0 ∨ blockSize a.mem (blockOf p) ≤ size) → AppendFits limit a size)
    (hok : krealloc a p size = .ok (a', q)) (hb : b ∈ blocks) (hused : b.free = false)
    (hne : p ≠ b.pos + memBlockSize) (hx : OfBlock b x) : a'.mem x = a.mem x := by
  rcases krealloc_eq_ok hok with ⟨h0, hkalloc⟩ | ⟨h0, -, -, hcase⟩
  · exact kalloc_ofBlock h (hfits (Or.inl h0)) hkalloc hb hused hx
  have hlive : p ∈ live := hp.resolve_left h0
  obtain ⟨c, hc, hcused, hpc⟩ := h.used p hlive
  have hcmem : c ∈ rootBlock a.memStart :: blocks := List.mem_cons_of_mem _ hc
  have hblock : blockOf p = c.pos := hpc ▸ h.blockOf_eq hcmem
  have hbc : b ≠ c := fun heq => hne (by rw [heq, hpc])
  rcases hcase with ⟨-, rfl, -⟩ | ⟨hgrow, a₁, hkalloc, hkfree⟩
  · rw [hblock]
    exact h.store32_ofBlock (List.mem_cons_of_mem _ hb) hcmem hbc _ (by decide) _ hx
  · have hfits := hfits (Or.inr hgrow)
    have hkeep := kalloc_ofBlock h hfits hkalloc hb hused hx
    obtain ⟨hfit, hout⟩ := kalloc_room h hsize hfits hkalloc hb hused hx
    -- the header of the block that is moved is kept, too
    have hsame : blockSize a₁.mem (blockOf p) = blockSize a.mem (blockOf p) := by
      have hcfit := h.header_fits hcmem
      unfold memBlockSize at hcfit
      rw [hblock]
      exact Mem.load32_congr (by omega) fun y hlo hhi =>
        kalloc_header h hfits hkalloc hcmem hcused (by omega)
    have hcopy := Mem.copy_apply_of_disjoint (blockSize a₁.mem (blockOf p)) a₁.mem q p x
      (by omega) (by omega)
    rw [kfree_eq_ok hkfree, hblock]
    refine Eq.trans ?_ (hcopy.trans hkeep)
    rw [hblock]
    exact h.store32_ofBlock (List.mem_cons_of_mem _ hb) hcmem hbc _ (by decide) _ hx

/-- The flags of another block, or of the head, are written. -/
theorem kmmcritical_ofBlock (h : Blocks limit a live blocks)
    (hc : c ∈ rootBlock a.memStart :: blocks) (hok : kmmcritical a (c.pos + memBlockSize) = .ok a')
    (hb : b ∈ blocks) (hne : b ≠ c) (hx : OfBlock b x) : a'.mem x = a.mem x := by
  rw [kmmcritical_eq_ok hok, h.blockOf_eq hc]
  exact h.store32_ofBlock (List.mem_cons_of_mem _ hb) hc hne _ (by decide) _ hx

end Bytes

/-! ## Blocks in use -/

/-- The heap is in order, and `b` is a block of it that may be freed. -/
structure InUse (limit : Nat) (s : HeapState) (b : Extent) : Prop where
  blocks : ∃ blocks, Blocks limit s.allocator s.live blocks ∧ b ∈ blocks
  live : b.pos + memBlockSize ∈ s.live
  plain : blockFlags s.allocator.mem b.pos &&& memCritical = 0

section Steps

variable {limit p q x : Nat} {s s' : HeapState} {op : AllocOp} {b c : Extent}
  {blocks : List Extent} {m' : Mem}

theorem Blocks.used_of_live (h : Blocks limit s.allocator s.live blocks) (hb : b ∈ blocks)
    (hlive : b.pos + memBlockSize ∈ s.live) : b.free = false := by
  obtain ⟨c, hc, hused, hpos⟩ := h.used _ hlive
  rw [h.pos_inj hb hc (by omega)]
  exact hused

/-- The block that a live pointer belongs to has the size in its header. -/
theorem Blocks.mem_of_live (h : Blocks limit s.allocator s.live blocks)
    (hlive : b.pos + memBlockSize ∈ s.live) (hsize : blockSize s.allocator.mem b.pos = b.size)
    (hused : b.free = false) : b ∈ blocks := by
  obtain ⟨c, hc, hcused, hpos⟩ := h.used _ hlive
  have hpos : b.pos = c.pos := Nat.add_right_cancel hpos
  have hcsize := (h.holds c (List.mem_cons_of_mem _ hc)).size
  have heq : b = c := by
    cases b
    cases c
    rw [Extent.mk.injEq]
    exact ⟨hpos, hsize.symm.trans (hpos ▸ hcsize), hused.trans hcused.symm⟩
  exact heq ▸ hc

/-- A pointer stays live if the call is not made on it. -/
theorem mem_liveAfter {live : List Nat} (hq : q ∈ live) (hleaves : op.Leaves q) :
    q ∈ op.liveAfter live p := by
  have hcons : ∀ l : List Nat, q ∈ l → q ∈ Kern.liveAfter l p := by
    intro l hl
    unfold Kern.liveAfter
    split
    · exact hl
    · exact List.mem_cons_of_mem _ hl
  cases op with
  | kalloc n | kallocz n => exact hcons _ hq
  | krealloc ptr n => exact hcons _ ((List.mem_erase_of_ne (Ne.symm hleaves)).mpr hq)
  | kfree ptr => exact (List.mem_erase_of_ne (Ne.symm hleaves)).mpr hq
  | kmmcritical ptr | write ptr value => exact hq

/-- Users write to payloads. -/
theorem HeapStep.not_writes_header (h : Blocks limit s.allocator s.live blocks)
    (hstep : HeapStep MarksBlock limit s (op, p) s') (hb : b ∈ blocks) (hlo : b.pos ≤ x)
    (hhi : x < b.pos + memBlockSize) : ¬ op.Writes x := by
  cases op with
  | write ptr value =>
    rintro rfl
    obtain ⟨q, hq, hqlo, hqhi⟩ := hstep.1
    obtain ⟨pre, c, post, rfl, -, rfl, -, hsize⟩ := h.exists_of_live hq
    rw [hsize] at hqhi
    have hc : c ∈ pre ++ c :: post := by simp
    exact h.ordered.header_apart (List.mem_cons_of_mem _ hc) (List.mem_cons_of_mem _ hb)
      ⟨hqlo, hqhi⟩ ⟨hlo, hhi⟩
  | kalloc _ | kallocz _ | krealloc _ _ | kfree _ | kmmcritical _ => exact id

/-- A step changes no byte of a block that its call is not made on, but for the one that
a user writes. -/
theorem HeapStep.ofBlock (h : Blocks limit s.allocator s.live blocks)
    (hstep : HeapStep MarksBlock limit s (op, p) s') (hb : b ∈ blocks) (hused : b.free = false)
    (hleaves : op.Leaves (b.pos + memBlockSize)) (hwrites : ¬ op.Writes x) (hx : OfBlock b x) :
    s'.allocator.mem x = s.allocator.mem x := by
  obtain ⟨hadm, hexec, -⟩ := hstep
  obtain ⟨allocator', live'⟩ := s'
  dsimp only at hexec ⊢
  cases op with
  | kalloc n => exact kalloc_ofBlock h hadm.2 hexec hb hused hx
  | kallocz n => exact kallocz_ofBlock h hadm.1 hadm.2 hexec hb hused hx
  | krealloc ptr n =>
    exact krealloc_ofBlock h hadm.1 hadm.2.1 hadm.2.2 hexec hb hused hleaves hx
  | kfree ptr =>
    obtain ⟨a', hkfree, hret⟩ := bind_eq_ok hexec
    cases hret
    exact kfree_ofBlock h hadm hkfree hb hleaves hx
  | kmmcritical ptr =>
    obtain ⟨a', hmark, hret⟩ := bind_eq_ok hexec
    cases hret
    obtain ⟨c, hc, rfl⟩ := MarksBlock.exists_block hadm h
    exact kmmcritical_ofBlock h hc hmark hb (fun heq => hleaves (by rw [heq])) hx
  | write ptr value =>
    obtain ⟨q, hq, hqlo, hqhi⟩ := hadm
    obtain ⟨pre, c, post, rfl, -, rfl, -, hsize⟩ := h.exists_of_live hq
    have hfit := h.payload_fits (b := c) (by simp)
    rw [hsize] at hqhi
    cases hexec
    exact Mem.store8_apply_of_ne _ _ (by omega) (Ne.symm hwrites)

/-- A block stays in use if its owner makes no call on it. -/
theorem InUse.step (h : InUse limit s b) (hstep : HeapStep MarksBlock limit s (op, p) s')
    (hleaves : op.Leaves (b.pos + memBlockSize)) : InUse limit s' b := by
  obtain ⟨⟨blocks, hblocks, hb⟩, hlive, hplain⟩ := h
  obtain ⟨⟨-, -, blocks', hblocks'⟩, -⟩ := heapStep_inv ⟨rfl, rfl, blocks, hblocks⟩ hstep
  have hused := hblocks.used_of_live hb hlive
  have hlive' : b.pos + memBlockSize ∈ s'.live := hstep.2.2 ▸ mem_liveAfter hlive hleaves
  have hheader : ∀ x, b.pos ≤ x → x < b.pos + 20 → s'.allocator.mem x = s.allocator.mem x :=
    fun x hlo hhi => hstep.ofBlock hblocks hb hused hleaves
      (hstep.not_writes_header hblocks hb hlo (by unfold memBlockSize; omega)) (Or.inl ⟨hlo, hhi⟩)
  have hfits := hblocks.header_fits (List.mem_cons_of_mem _ hb)
  unfold memBlockSize at hfits
  have hload : ∀ k, k ≤ 16 → s'.allocator.mem.load32 (b.pos + k) =
      s.allocator.mem.load32 (b.pos + k) := fun k hk =>
    Mem.load32_congr (by omega) fun x hlo hhi => hheader x (by omega) (by omega)
  have hsize : blockSize s'.allocator.mem b.pos = b.size :=
    (hload 8 (by decide)).trans (hblocks.holds b (List.mem_cons_of_mem _ hb)).size
  refine ⟨⟨blocks', hblocks', hblocks'.mem_of_live hlive' hsize hused⟩, hlive', ?_⟩
  unfold blockFlags at hplain ⊢
  rw [hload 4 (by decide)]
  exact hplain

/-- The bytes of a block that the step leaves alone. -/
theorem InUse.bytes (h : InUse limit s b) (hstep : HeapStep MarksBlock limit s (op, p) s')
    (hleaves : op.Leaves (b.pos + memBlockSize)) (hwrites : ¬ op.Writes x) (hx : OfBlock b x) :
    s'.allocator.mem x = s.allocator.mem x := by
  obtain ⟨⟨blocks, hblocks, hb⟩, hlive, -⟩ := h
  exact hstep.ofBlock hblocks hb (hblocks.used_of_live hb hlive) hleaves hwrites hx

theorem InUse.mem (h : InUse limit s b) (hblocks : Blocks limit s.allocator s.live blocks) :
    b ∈ blocks := by
  obtain ⟨⟨blocks', hblocks', hb⟩, hlive, -⟩ := h
  exact hblocks.mem_of_live hlive (hblocks'.holds b (List.mem_cons_of_mem _ hb)).size
    (hblocks'.used_of_live hb hlive)

/-- What is written to the payload of a block keeps the blocks in use. -/
theorem InUse.write (h : InUse limit s b) (hc : InUse limit s c)
    (hout : ∀ x, ¬ c.InPayload memBlockSize x → m' x = s.allocator.mem x) :
    InUse limit { s with allocator := { s.allocator with mem := m' } } b := by
  obtain ⟨⟨blocks, hblocks, hb⟩, hlive, hplain⟩ := h
  have hcmem := hc.mem hblocks
  refine ⟨⟨blocks, hblocks.write_payload hcmem hout, hb⟩, hlive, ?_⟩
  have hfits := hblocks.header_fits (List.mem_cons_of_mem _ hb)
  unfold memBlockSize at hfits
  have hflags : blockFlags m' b.pos = blockFlags s.allocator.mem b.pos :=
    Mem.load32_congr (by omega) fun x hlo hhi => hout x fun hx =>
      hblocks.ordered.header_apart (List.mem_cons_of_mem _ hcmem) (List.mem_cons_of_mem _ hb) hx
        ⟨by omega, by unfold memBlockSize; omega⟩
  dsimp only
  rw [hflags]
  exact hplain

/-- Two blocks in use are the same one, or apart. -/
theorem InUse.eq_or_apart (h : InUse limit s b) (hc : InUse limit s c) :
    b = c ∨ b.stop memBlockSize ≤ c.pos ∨ c.stop memBlockSize ≤ b.pos := by
  obtain ⟨⟨blocks, hblocks, hb⟩, -, -⟩ := h
  have hcmem := hc.mem hblocks
  exact hblocks.ordered.eq_or_apart (List.mem_cons_of_mem _ hb) (List.mem_cons_of_mem _ hcmem)

/-- Two blocks in use have two pointers. -/
theorem InUse.pointer_ne (h : InUse limit s b) (hc : InUse limit s c) (hne : b ≠ c) :
    b.pos + memBlockSize ≠ c.pos + memBlockSize := by
  obtain ⟨blocks, hblocks, hb⟩ := h.blocks
  exact fun heq => hne (hblocks.pos_inj hb (hc.mem hblocks) (by omega))

end Steps

/-! ## Allocating and freeing -/

section Calls

variable {limit size p : Nat} {s : HeapState} {a a' : Allocator} {live : List Nat}
  {blocks : List Extent} {b : Extent} {fault : Fault}

/-- The assertion of `kalloc` that fails in an initialised heap that is in order. -/
theorem Blocks.kalloc_eq_error (h : Blocks limit a live blocks) (hstart : a.memStart ≠ 0)
    (hfail : kalloc a size = .error fault) : fault = .assert "Out of memory, cannot allocate" := by
  unfold kalloc at hfail
  rw [require_of _ hstart, ok_bind] at hfail
  by_cases h0 : alignedSize size = 0
  · rw [if_pos h0] at hfail
    cases hfail
  rw [if_neg h0] at hfail
  rcases h.findBlock_cases (alignedSize size) with ⟨b, -, hfind⟩ | ⟨b, hb, hfind⟩
  · rw [hfind] at hfail
    cases hfail
  · rw [hfind] at hfail
    dsimp only at hfail
    rw [require_of _ (h.holds b hb).magic, ok_bind] at hfail
    by_cases hnext : nextBlock a.mem b.pos ≤ wrap (a.memStart + a.memSize)
    · rw [require_of _ hnext, ok_bind] at hfail
      cases hfail
    · rw [require, if_neg hnext, error_bind] at hfail
      cases hfail
      rfl

/-- When `kalloc` returns, a block that it has appended begins in the arena. -/
theorem Blocks.appendFits_of_ok (h : Blocks limit a live blocks) (hlimit : limit < 2 ^ 32)
    (hroom : a.arenaEnd + blockRoom size ≤ limit) (hne : alignedSize size ≠ 0)
    (hok : kalloc a size = .ok (a', p)) : AppendFits limit a size := by
  intro current hfind
  have hin : nextBlock a.mem current ≤ a.arenaEnd := by
    rcases (kalloc_eq_ok hok).2 with ⟨h0, -⟩ | ⟨-, _, hother, -⟩ | ⟨-, _, hfound, hin, -⟩
    · exact absurd h0 hne
    · rw [hfind] at hother
      cases hother
    · rw [hfind] at hfound
      cases hfound
      exact hin
  rcases h.findBlock_cases (alignedSize size) with ⟨b, -, hfind'⟩ | ⟨b, hb, hfind'⟩
  · rw [hfind] at hfind'
    cases hfind'
  · rw [hfind] at hfind'
    cases hfind'
    have hstop := h.fits b hb
    have hbound := alignedSize_le_blockRoom size
    have hnext : nextBlock a.mem b.pos = b.stop memBlockSize := by
      unfold nextBlock
      rw [(h.holds b hb).size]
      exact wrap_eq (Nat.lt_of_le_of_lt hstop hlimit)
    rw [hnext] at hin
    rw [(h.holds b hb).size]
    unfold Extent.stop at hin
    omega

/-- Whoever uses the block holds it. -/
theorem InUse.held (h : InUse limit s b) : ∃ blocks, Blocks limit s.allocator s.live blocks ∧
    HeldBlock limit s.allocator (s.live.erase (b.pos + memBlockSize)) blocks b := by
  obtain ⟨⟨blocks, hblocks, hb⟩, hlive, hplain⟩ := h
  exact ⟨blocks, hblocks, hblocks.perm (List.perm_cons_erase hlive), hb,
    hblocks.used_of_live hb hlive, hplain⟩

/-- The block of a pointer that `kalloc` has returned is another one than those in use. -/
theorem kalloc_inUse (h : Blocks limit s.allocator s.live blocks) (hpos : 0 < size)
    (hsize : size ≤ 2 ^ 32 - 64) (hfits : AppendFits limit s.allocator size)
    (hok : kalloc s.allocator size = .ok (a', p)) :
    HeapStep MarksBlock limit s (.kalloc size, p) ⟨a', p :: s.live⟩ ∧
      ∃ c, p = c.pos + memBlockSize ∧ size ≤ c.size ∧ InUse limit ⟨a', p :: s.live⟩ c ∧
        ∀ b, InUse limit s b → b ≠ c := by
  have h0 := alignedSize_ne_zero hpos hsize
  obtain ⟨c, blocks', rfl, -, hheld, hbig, -⟩ := kalloc_held_of_ok h (by omega) h0 hfits hok
  have hnull : c.pos + memBlockSize ≠ 0 := hheld.heap.live_ne_zero List.mem_cons_self
  refine ⟨⟨⟨by omega, hfits⟩, hok, ?_⟩, c, rfl, hbig,
    ⟨⟨blocks', hheld.heap, hheld.mem⟩, List.mem_cons_self, hheld.plain⟩, fun b hb heq => ?_⟩
  · rw [AllocOp.liveAfter, Kern.liveAfter, if_neg hnull]
  · have hmem := hb.mem h
    exact kalloc_fresh h hfits hok h0 hmem (h.used_of_live hmem hb.live) (by rw [heq])

/-- `kfree` frees a block in use, unless its pointer is behind the end of the arena. -/
theorem InUse.kfree_cases (h : InUse limit s b) :
    (∃ a', kfree s.allocator (b.pos + memBlockSize) = .ok a') ∨
      kfree s.allocator (b.pos + memBlockSize) =
        .error (.assert "Tried to free invalid address") := by
  obtain ⟨blocks, -, hheld⟩ := h.held
  by_cases hin : inArena s.allocator (b.pos + memBlockSize)
  · exact Or.inl ⟨_, hheld.kfree_eq_of_inArena hin⟩
  · right
    rw [kfree, require, if_neg hin, error_bind]

/-- A live pointer is that of a block in use, if its block may be freed. -/
theorem HeapInv.inUse {start top : Nat} (h : HeapInv limit start top s) (hp : p ∈ s.live)
    (hplain : blockFlags s.allocator.mem (blockOf p) &&& memCritical = 0) :
    ∃ b, p = b.pos + memBlockSize ∧ blockSize s.allocator.mem (blockOf p) = b.size ∧
      InUse limit s b := by
  obtain ⟨-, -, blocks, hblocks⟩ := h
  obtain ⟨b, hb, -, rfl⟩ := hblocks.used p hp
  have hmem : b ∈ rootBlock s.allocator.memStart :: blocks := List.mem_cons_of_mem _ hb
  rw [hblocks.blockOf_eq hmem] at hplain ⊢
  exact ⟨b, rfl, (hblocks.holds b hmem).size, ⟨blocks, hblocks, hb⟩, hp, hplain⟩

/-- What ends at a limit ends at a later one. -/
theorem HeapStep.mono {limit' : Nat} {s' : HeapState} {e : AllocOp × Nat} (hle : limit ≤ limit')
    (hstep : HeapStep MarksBlock limit s e s') : HeapStep MarksBlock limit' s e s' := by
  obtain ⟨op, p⟩ := e
  obtain ⟨hadm, hexec, hlive⟩ := hstep
  have hfits : ∀ {n}, AppendFits limit s.allocator n → AppendFits limit' s.allocator n :=
    fun h current hfind => Nat.le_trans (h current hfind) hle
  refine ⟨?_, hexec, hlive⟩
  cases op with
  | kalloc n | kallocz n => exact ⟨hadm.1, hfits hadm.2⟩
  | krealloc ptr n => exact ⟨hadm.1, hadm.2.1, fun h => hfits (hadm.2.2 h)⟩
  | kfree ptr | kmmcritical ptr | write ptr value => exact hadm

/-- Blocks are in use in an initialised allocator only. -/
theorem heapRun_initialised {m : Mem} {start top : Nat} {trace : List (AllocOp × Nat)}
    (hlimit : limit ≤ 2 ^ 32) (hroot : start + memBlockSize ≤ limit)
    (hrun : Run (HeapStep MarksBlock limit) (initHeap m start top) trace s) (hp : p ∈ s.live) :
    s.allocator.memStart ≠ 0 := by
  obtain ⟨blocks, hchain⟩ := heapRun_chain (Nat.le_trans hroot hlimit)
    (hrun.imp fun _ _ _ hstep => hstep.mono hlimit)
  obtain ⟨b, hb, -⟩ := hchain.heap.used p hp
  rw [hchain.memStart]
  exact hchain.initialised (List.ne_nil_of_mem hb)

/-- What `krealloc` returns has the contents of the block. -/
theorem InUse.krealloc (h : InUse limit s b) (hlimit : limit < 2 ^ 32) (hpos : 0 < size)
    (hsize : size ≤ 2 ^ 32 - 64) (hroom : s.allocator.arenaEnd + blockRoom size ≤ limit)
    (hok : krealloc s.allocator (b.pos + memBlockSize) size = .ok (a', p)) :
    SameArena s.allocator a' ∧ ∃ c, p = c.pos + memBlockSize ∧ size ≤ c.size ∧
      InUse limit ⟨a', p :: s.live.erase (b.pos + memBlockSize)⟩ c ∧
      ∀ i < min b.size size, a'.mem (p + i) = s.allocator.mem (b.pos + memBlockSize + i) := by
  obtain ⟨blocks, hblocks, hheld⟩ := h.held
  obtain ⟨-, hin, -⟩ := (krealloc_eq_ok hok).resolve_left
    fun hnull => hblocks.live_ne_zero h.live hnull.1
  by_cases hshrink : size < b.size
  · obtain ⟨a₁, blocks', hshrunk, hsame, hheld', hkeep, -⟩ := hheld.shrink_of_inArena hin size hshrink
    rw [hshrunk] at hok
    cases hok
    exact ⟨hsame, { b with size := size }, rfl, Nat.le_refl _,
      ⟨⟨blocks', hheld'.heap, hheld'.mem⟩, List.mem_cons_self, hheld'.plain⟩,
      fun i _ => hkeep _ (Nat.le_add_right _ _)⟩
  · have h0 := alignedSize_ne_zero hpos hsize
    have hrun := hok
    rw [hheld.krealloc_eq_of_inArena hin, if_neg hshrink] at hrun
    obtain ⟨⟨a₁, q⟩, hkalloc, -⟩ := bind_eq_ok hrun
    have hfits := hblocks.appendFits_of_ok hlimit hroom h0 hkalloc
    obtain ⟨a₂, c, blocks', hmoved, hsame, hheld', hbig, hcopy, -⟩ :=
      hheld.move_of_ok hin (by omega) (by omega) h0 hfits hkalloc
    rw [hmoved] at hok
    cases hok
    exact ⟨hsame, c, rfl, hbig, ⟨⟨blocks', hheld'.heap, hheld'.mem⟩, List.mem_cons_self, hheld'.plain⟩,
      fun i hi => hcopy i (by omega)⟩

/-- The assertions that fail when a block in use is resized. -/
theorem InUse.krealloc_eq_error (h : InUse limit s b) (hlimit : limit < 2 ^ 32) (hpos : 0 < size)
    (hsize : size ≤ 2 ^ 32 - 64) (hroom : s.allocator.arenaEnd + blockRoom size ≤ limit)
    (hstart : s.allocator.memStart ≠ 0)
    (hfail : Kern.krealloc s.allocator (b.pos + memBlockSize) size = .error fault) :
    fault = .assert "Out of memory, cannot allocate" ∨
      fault = .assert "Tried to realloc invalid address" := by
  obtain ⟨blocks, hblocks, hheld⟩ := h.held
  by_cases hin : inArena s.allocator (b.pos + memBlockSize)
  · left
    by_cases hshrink : size < b.size
    · obtain ⟨a₁, blocks', hshrunk, -⟩ := hheld.shrink_of_inArena hin size hshrink
      rw [hshrunk] at hfail
      cases hfail
    · have h0 := alignedSize_ne_zero hpos hsize
      cases hkalloc : kalloc s.allocator size with
      | error fault' =>
        rw [hheld.krealloc_eq_of_inArena hin, if_neg hshrink, hkalloc, error_bind] at hfail
        cases hfail
        exact hblocks.kalloc_eq_error hstart hkalloc
      | ok result =>
        obtain ⟨a₁, q⟩ := result
        obtain ⟨a₂, c, blocks', hmoved, -⟩ := hheld.move_of_ok hin (by omega) (by omega) h0
          (hblocks.appendFits_of_ok hlimit hroom h0 hkalloc) hkalloc
        rw [hmoved] at hfail
        cases hfail
  · right
    rw [Kern.krealloc, if_neg (hblocks.live_ne_zero h.live), require, if_neg hin,
      error_bind] at hfail
    cases hfail
    rfl

end Calls

end Microboot.Kern
