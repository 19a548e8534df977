/-
  Kern/Realloc.lean --- buffers that are resized, kern/alloc.c.

  As long as the blocks of the heap leave room for one more in front of the end of
  the arena, `kalloc` and `krealloc` return.  A buffer that is resized keeps its
  contents: its block is cut off where it is, or copied to a new one and freed.

  The room is counted by the limit of `Blocks`: an allocation moves it by a header
  and the size, rounded up.
-/
import Microboot.Kern.Alloc

set_option autoImplicit false

namespace Microboot.Kern

open Microboot.Foundation

/-- `mem_start + mem_size` -/
def Allocator.arenaEnd (a : Allocator) : Nat := wrap (a.memStart + a.memSize)

/-- The bytes that a block of `size` bytes takes at most, with its header. -/
def blockRoom (size : Nat) : Nat := memBlockSize + (size + 63) / alignment * alignment

theorem alignedSize_le_blockRoom (size : Nat) :
    memBlockSize + alignedSize size ≤ blockRoom size := by
  unfold blockRoom alignedSize alignment
  split
  all_goals omega

/-- A block that has room in the address space does not round up past it. -/
theorem size_le_of_blockRoom (size : Nat) (h : blockRoom size < 2 ^ 32) :
    size ≤ 2 ^ 32 - 64 := by
  unfold blockRoom alignment memBlockSize at h
  omega

section Buffers

variable {limit limit' size p : Nat} {a a' : Allocator} {live : List Nat}
  {blocks blocks' : List Extent} {b c : Extent}

/-! ## kalloc -/

theorem Allocator.arenaEnd_lt (a : Allocator) : a.arenaEnd < 2 ^ 32 := Nat.mod_lt _ (by decide)

theorem SameArena.arenaEnd (h : SameArena a a') : a'.arenaEnd = a.arenaEnd := by
  unfold Allocator.arenaEnd
  rw [h.1, h.2.1]

theorem SameArena.trans {a'' : Allocator} (h : SameArena a a') (h' : SameArena a' a'') :
    SameArena a a'' :=
  ⟨h'.1.trans h.1, h'.2.1.trans h.2.1, h'.2.2.trans h.2.2⟩

theorem Blocks.mono (h : Blocks limit a live blocks) (hle : limit ≤ limit')
    (hlimit : limit' ≤ 2 ^ 32) : Blocks limit' a live blocks :=
  { h with limit_le := hlimit, fits := fun b hb => Nat.le_trans (h.fits b hb) hle }

/-- Where the search of `kalloc` ends. -/
theorem Blocks.findBlock_cases (h : Blocks limit a live blocks) (n : Nat) :
    (∃ b ∈ blocks, findBlock a.mem n addrSpace a.head = some (.reuse b.pos)) ∨
      ∃ b ∈ rootBlock a.memStart :: blocks,
        findBlock a.mem n addrSpace a.head = some (.append b.pos) := by
  have hfind := findBlock_spec n h.holds (fun c hc => h.pos_ne_zero hc) h.threaded h.length_le
  rw [show (rootBlock a.memStart).pos = a.head from h.head.symm] at hfind
  rcases hfind with ⟨pre, b, post, hblocks, hfree, -, hfind⟩ | ⟨pre, b, hblocks, hfind⟩
  · have hb : b ∈ rootBlock a.memStart :: blocks := by rw [hblocks]; simp
    rcases List.mem_cons.mp hb with rfl | hb
    · cases hfree
    · exact .inl ⟨b, hb, hfind⟩
  · exact .inr ⟨b, by rw [hblocks]; simp, hfind⟩

/-- A block that is appended ends its room behind the others. -/
theorem Blocks.appendFits (h : Blocks limit a live blocks) (size : Nat) :
    AppendFits (limit + blockRoom size) a size := by
  intro current hfind
  rcases h.findBlock_cases (alignedSize size) with ⟨b, -, hfind'⟩ | ⟨b, hb, hfind'⟩
  · rw [hfind] at hfind'
    cases hfind'
  · rw [hfind] at hfind'
    cases hfind'
    have hstop := h.fits b hb
    have hroom := alignedSize_le_blockRoom size
    rw [(h.holds b hb).size]
    unfold Extent.stop at hstop
    omega

/-- Inside of the arena `kalloc` returns. -/
theorem Blocks.kalloc_ok (h : Blocks limit a live blocks) (hstart : a.memStart ≠ 0)
    (hend : limit ≤ a.arenaEnd) (size : Nat) : ∃ a' p, kalloc a size = .ok (a', p) := by
  unfold kalloc
  rw [require_of _ hstart, ok_bind]
  by_cases h0 : alignedSize size = 0
  · exact ⟨a, 0, by rw [if_pos h0]; rfl⟩
  rw [if_neg h0]
  rcases h.findBlock_cases (alignedSize size) with ⟨b, -, hfind⟩ | ⟨b, hb, hfind⟩
  · rw [hfind]
    exact ⟨_, _, rfl⟩
  · have hmagic := (h.holds b hb).magic
    have hstop : b.stop memBlockSize ≤ wrap (a.memStart + a.memSize) :=
      Nat.le_trans (h.fits b hb) hend
    have hnext : nextBlock a.mem b.pos = b.stop memBlockSize := by
      unfold nextBlock
      rw [(h.holds b hb).size]
      exact wrap_eq (Nat.lt_of_le_of_lt hstop a.arenaEnd_lt)
    rw [hfind]
    dsimp only
    rw [require_of _ hmagic, ok_bind, hnext, require_of _ hstop, ok_bind]
    exact ⟨_, _, rfl⟩

/-- The header of a block in use is kept, but for the link to the next one. -/
theorem kalloc_header (h : Blocks limit a live blocks) (hfits : AppendFits limit a size)
    (hok : kalloc a size = .ok (a', p)) (hcmem : c ∈ rootBlock a.memStart :: blocks)
    (hused : c.free = false) {x : Nat} (hx : c.pos ≤ x ∧ x < c.pos + 20) : a'.mem x = a.mem x := by
  have hlimit := h.limit_le
  -- a block that another block is behind of or in front of keeps its header apart
  have hapart : ∀ b ∈ rootBlock a.memStart :: blocks, c ≠ b →
      x < b.pos ∨ b.pos + memBlockSize ≤ x := by
    intro b hb hne
    rcases h.ordered.eq_or_apart hcmem hb with rfl | hlt | hlt
    · exact absurd rfl hne
    all_goals
      unfold Extent.stop memBlockSize at hlt
      unfold memBlockSize
      omega
  rcases kalloc_cases h hfits hok with ⟨-, rfl, -⟩ | ⟨-, pre, b, post, rfl, hfree, -, rfl, -⟩ |
    ⟨-, pre, b, hblocks, hend, rfl, -⟩
  · rfl
  · -- the block that is reused is free, so it is another one
    have hb : b ∈ rootBlock a.memStart :: (pre ++ b :: post) := by simp
    refine reuseBlock_apply _ (h.header_fits hb) (hapart b hb ?_)
    rintro rfl
    rw [hfree] at hused
    cases hused
  · have hb : b ∈ rootBlock a.memStart :: blocks := by rw [hblocks]; simp
    have hordered := h.ordered
    rw [hblocks] at hordered
    have hlast := hordered.stop_le_last (hblocks ▸ hcmem)
    have hstop : c.pos + 24 ≤ c.stop memBlockSize := Nat.le_add_right _ _
    refine appendBlock_apply _ (h.header_fits hb) (by omega) ?_ (Or.inl (by omega))
    by_cases heq : c = b
    · subst heq
      exact Or.inl hx.2
    · have := hapart b hb heq
      omega

/-- No flag of a block that is taken into use is set. -/
theorem reuseBlock_flags (m : Mem) (current : Nat) :
    blockFlags (reuseBlock m current) current = 0 :=
  Mem.load32_store32_same _ (by decide)

theorem appendBlock_flags (m : Mem) {current next size : Nat}
    (hcurrent : current + memBlockSize ≤ next) (hnext : next + memBlockSize ≤ 2 ^ 32) :
    blockFlags (appendBlock m current next size) next = 0 := by
  unfold memBlockSize at hcurrent hnext
  simp (disch := omega) only [blockFlags, appendBlock, Mem.load32_store32_of_disjoint]
  exact Mem.load32_store32_same _ (by decide)

theorem kalloc_flags (h : Blocks limit a live blocks) (hfits : AppendFits limit a size)
    (hok : kalloc a size = .ok (a', p)) (hne : alignedSize size ≠ 0) :
    blockFlags a'.mem (blockOf p) = 0 := by
  have hlimit := h.limit_le
  rcases kalloc_cases h hfits hok with ⟨h0, -, -⟩ | ⟨-, pre, b, post, rfl, hfree, -, rfl, rfl⟩ |
    ⟨-, pre, b, hblocks, hend, rfl, rfl⟩
  · exact absurd h0 hne
  · have hnew := h.reuse hfree
    have hb : { b with free := false } ∈ pre ++ { b with free := false } :: post := by simp
    have haddr := hnew.addr _ hb
    have hblock := hnew.blockOf_eq (List.mem_cons_of_mem _ hb)
    dsimp only at haddr hblock ⊢
    rw [haddr, hblock]
    exact reuseBlock_flags _ _
  · have hnew := h.append hblocks (Nat.pos_of_ne_zero hne) hend
    have hb : (⟨b.stop memBlockSize, alignedSize size, false⟩ : Extent) ∈
      blocks ++ [⟨b.stop memBlockSize, alignedSize size, false⟩] := by simp
    have haddr := hnew.addr _ hb
    have hblock := hnew.blockOf_eq (List.mem_cons_of_mem _ hb)
    dsimp only at haddr hblock ⊢
    rw [haddr, hblock]
    exact appendBlock_flags _ (Nat.le_add_right _ _) (by omega)

/-- The pointer that `kalloc` returns is that of no block in use. -/
theorem kalloc_fresh (h : Blocks limit a live blocks) (hfits : AppendFits limit a size)
    (hok : kalloc a size = .ok (a', p)) (hne : alignedSize size ≠ 0) (hc : c ∈ blocks)
    (hused : c.free = false) : p ≠ c.pos + memBlockSize := by
  rcases kalloc_cases h hfits hok with ⟨h0, -, -⟩ | ⟨-, pre, b, post, rfl, hfree, -, rfl, rfl⟩ |
    ⟨-, pre, b, hblocks, hend, rfl, rfl⟩
  · exact absurd h0 hne
  · -- a free block
    have haddr := (h.reuse hfree).addr { b with free := false } (by simp)
    intro heq
    have hcb := h.pos_inj hc (b := c) (c := b) (by simp)
      (by dsimp only at haddr heq; omega)
    rw [hcb, hfree] at hused
    cases hused
  · -- a block behind all others
    have haddr := (h.append hblocks (Nat.pos_of_ne_zero hne) hend).addr
      ⟨b.stop memBlockSize, alignedSize size, false⟩ (by simp)
    have hordered := h.ordered
    rw [hblocks] at hordered
    have hlast := hordered.stop_le_last (hblocks ▸ List.mem_cons_of_mem _ hc)
    have hstop : c.pos + memBlockSize ≤ c.stop memBlockSize := Nat.le_add_right _ _
    have hsize : 0 < memBlockSize := by decide
    dsimp only at haddr ⊢
    omega

/-! ## Buffers -/

/-- The block of a buffer: it is in use, its pointer is live, and it may be freed. -/
structure HeldBlock (limit : Nat) (a : Allocator) (live : List Nat) (blocks : List Extent)
    (b : Extent) : Prop where
  heap : Blocks limit a ((b.pos + memBlockSize) :: live) blocks
  mem : b ∈ blocks
  used : b.free = false
  plain : blockFlags a.mem b.pos &&& memCritical = 0

/-- What `kalloc` returns is a buffer. -/
theorem kalloc_held_of_ok (h : Blocks limit a live blocks) (hsize : size < 2 ^ 32)
    (hne : alignedSize size ≠ 0) (hfits : AppendFits limit a size)
    (hok : kalloc a size = .ok (a', p)) :
    ∃ c blocks', p = c.pos + memBlockSize ∧ SameArena a a' ∧
      HeldBlock limit a' live blocks' c ∧ size ≤ c.size ∧
      ∀ b ∈ blocks, b.free = false → b ∈ blocks' := by
  obtain ⟨hsame, ⟨h0, -, -⟩ | ⟨-, blocks', hnew, ⟨c, hc, rfl, hbig⟩, hkept⟩⟩ :=
    kalloc_blocks h hsize hfits hok
  · exact absurd h0 hne
  have hflags := kalloc_flags h hfits hok hne
  rw [hnew.blockOf_eq (List.mem_cons_of_mem _ hc)] at hflags
  obtain ⟨d, hd, hused, hpos⟩ := hnew.used _ List.mem_cons_self
  have hdc : d = c := hnew.pos_inj hd hc (by omega)
  subst hdc
  exact ⟨d, blocks', rfl, hsame, ⟨hnew, hd, hused, by rw [hflags]; rfl⟩, hbig, hkept⟩

/-- `kalloc` returns a buffer. -/
theorem kalloc_held (h : Blocks limit a live blocks) (hstart : a.memStart ≠ 0) (size : Nat)
    (hpos : 0 < size) (hroom : limit + blockRoom size ≤ a.arenaEnd) :
    ∃ a' c blocks', kalloc a size = .ok (a', c.pos + memBlockSize) ∧ SameArena a a' ∧
      HeldBlock (limit + blockRoom size) a' live blocks' c ∧ size ≤ c.size ∧
      ∀ b ∈ blocks, b.free = false → b ∈ blocks' := by
  have hlt := a.arenaEnd_lt
  have hsize := size_le_of_blockRoom size (by omega)
  have hne := alignedSize_ne_zero hpos hsize
  have hwide : Blocks (limit + blockRoom size) a live blocks :=
    h.mono (Nat.le_add_right _ _) (by omega)
  obtain ⟨a', p, hok⟩ := h.kalloc_ok hstart (by omega) size
  obtain ⟨c, blocks', rfl, hsame, hheld, hbig, hkept⟩ :=
    kalloc_held_of_ok hwide (by omega) hne (h.appendFits size) hok
  exact ⟨a', c, blocks', hok, hsame, hheld, hbig, hkept⟩

/-- The blocks in use other than `b` are in the heap afterwards, with their contents. -/
structure KeepsOthers (a : Allocator) (blocks : List Extent) (b : Extent) (a' : Allocator)
    (blocks' : List Extent) : Prop where
  mem : ∀ d ∈ blocks, d.free = false → d ≠ b → d ∈ blocks'
  payload : ∀ d ∈ blocks, d.free = false → d ≠ b →
    ∀ x, d.InPayload memBlockSize x → a'.mem x = a.mem x

namespace HeldBlock

variable {m' : Mem}

theorem mem_chain (h : HeldBlock limit a live blocks b) :
    b ∈ rootBlock a.memStart :: blocks :=
  List.mem_cons_of_mem _ h.mem

theorem blockOf_eq (h : HeldBlock limit a live blocks b) :
    blockOf (b.pos + memBlockSize) = b.pos :=
  h.heap.blockOf_eq h.mem_chain

theorem state (h : HeldBlock limit a live blocks b) : blockState a.mem b.pos = memStateUsed := by
  rw [(h.heap.holds b h.mem_chain).state, h.used]
  rfl

/-- The payload is in the address space. -/
theorem fits (h : HeldBlock limit a live blocks b) : b.pos + memBlockSize + b.size ≤ limit :=
  h.heap.fits b h.mem_chain

/-- Writing to a buffer keeps its block. -/
theorem write (h : HeldBlock limit a live blocks b)
    (hout : ∀ x, ¬ b.InPayload memBlockSize x → m' x = a.mem x) :
    HeldBlock limit { a with mem := m' } live blocks b := by
  have hfit := h.heap.header_fits h.mem_chain
  unfold memBlockSize at hfit
  refine ⟨h.heap.write_payload h.mem hout, h.mem, h.used, ?_⟩
  have hflags : blockFlags m' b.pos = blockFlags a.mem b.pos :=
    Mem.load32_congr (by omega) fun x hx hx' => hout x fun hin => by
      unfold Extent.InPayload memBlockSize at hin
      omega
  rw [hflags]
  exact h.plain

/-- The pointer of a buffer is in the arena. -/
theorem inArena (h : HeldBlock limit a live blocks b) (hend : limit ≤ a.arenaEnd) :
    inArena a (b.pos + memBlockSize) := by
  have hstart := h.heap.start_le h.mem_chain
  have hfits := h.fits
  refine ⟨by omega, ?_⟩
  change _ ≤ a.arenaEnd
  omega

/-- `kfree` frees a buffer whose pointer is in the arena. -/
theorem kfree_eq_of_inArena (h : HeldBlock limit a live blocks b)
    (hin : Kern.inArena a (b.pos + memBlockSize)) :
    kfree a (b.pos + memBlockSize) =
      .ok { a with mem := a.mem.store32 (b.pos + 12) memStateFree } := by
  have hmagic := (h.heap.holds b h.mem_chain).magic
  unfold kfree
  rw [require_of _ hin, ok_bind, h.blockOf_eq]
  dsimp only
  rw [require_of _ h.plain, ok_bind, require_of _ h.state, ok_bind, require_of _ hmagic]
  rfl

/-- What `krealloc` does to a buffer whose pointer is in the arena. -/
theorem krealloc_eq_of_inArena (h : HeldBlock limit a live blocks b)
    (hin : Kern.inArena a (b.pos + memBlockSize)) (size : Nat) :
    krealloc a (b.pos + memBlockSize) size =
      if size < b.size then
        .ok ({ a with mem := a.mem.store32 (b.pos + 8) size }, b.pos + memBlockSize)
      else do
        let (a, newBlock) ← kalloc a size
        let m := memcpy a.mem newBlock (b.pos + memBlockSize) (blockSize a.mem b.pos)
        let a := { a with mem := m }
        let a ← kfree a (b.pos + memBlockSize)
        return (a, newBlock) := by
  have hholds := h.heap.holds b h.mem_chain
  have hne : b.pos + memBlockSize ≠ 0 := h.heap.live_ne_zero List.mem_cons_self
  unfold krealloc
  rw [if_neg hne, require_of _ hin, ok_bind, h.blockOf_eq]
  dsimp only
  rw [require_of _ h.state, ok_bind, require_of _ hholds.magic, ok_bind, hholds.size]
  rfl

/-- The header of a buffer is apart from the payloads. -/
theorem payload_apart (h : HeldBlock limit a live blocks b) (hc : c ∈ blocks) {x : Nat}
    (hx : c.InPayload memBlockSize x) : x < b.pos ∨ b.pos + memBlockSize ≤ x := by
  have hapart := h.heap.ordered.header_apart (List.mem_cons_of_mem _ hc) h.mem_chain hx
  unfold Extent.InHeader at hapart
  omega

/-- A buffer that is cut off stays where it is, and nothing else changes. -/
theorem shrink_of_inArena (h : HeldBlock limit a live blocks b)
    (hin : Kern.inArena a (b.pos + memBlockSize)) (size : Nat) (hsize : size < b.size) :
    ∃ a' blocks', krealloc a (b.pos + memBlockSize) size = .ok (a', b.pos + memBlockSize) ∧
      SameArena a a' ∧ HeldBlock limit a' live blocks' { b with size := size } ∧
      (∀ x, b.pos + memBlockSize ≤ x → a'.mem x = a.mem x) ∧
      KeepsOthers a blocks b a' blocks' := by
  have hfit := h.heap.header_fits h.mem_chain
  have hlimit := h.heap.limit_le
  have hfits := h.fits
  have hapart := fun d (hd : d ∈ blocks) x (hx : d.InPayload memBlockSize x) =>
    h.payload_apart hd hx
  obtain ⟨pre, post, rfl⟩ := List.append_of_mem h.mem
  unfold memBlockSize at hfit hapart
  refine ⟨{ a with mem := a.mem.store32 (b.pos + 8) size },
    pre ++ { b with size := size } :: post, ?_, ⟨rfl, rfl, rfl⟩, ?_, fun x hx => ?_, ?_, ?_⟩
  · rw [h.krealloc_eq_of_inArena hin, if_pos hsize]
  · refine ⟨h.heap.shrink (by omega) (by omega), by simp, h.used, ?_⟩
    have hflags : blockFlags (a.mem.store32 (b.pos + 8) size) b.pos = blockFlags a.mem b.pos :=
      Mem.load32_store32_of_disjoint _ _ (by omega) (by omega) (by omega)
    dsimp only
    rw [hflags]
    exact h.plain
  · unfold memBlockSize at hx
    exact Mem.store32_apply_of_disjoint _ _ (by omega) (by omega)
  · intro d hd _ hne
    exact (Blocks.mem_replace hd).resolve_left hne
  · intro d hd _ _ x hx
    have := hapart d hd x hx
    exact Mem.store32_apply_of_disjoint _ _ (by omega) (by omega)

/-- A buffer that is cut off stays where it is, with its contents. -/
theorem shrink (h : HeldBlock limit a live blocks b) (hend : limit ≤ a.arenaEnd) (size : Nat)
    (hsize : size < b.size) :
    ∃ a' blocks', krealloc a (b.pos + memBlockSize) size = .ok (a', b.pos + memBlockSize) ∧
      SameArena a a' ∧ HeldBlock limit a' live blocks' { b with size := size } ∧
      ∀ x, b.pos + memBlockSize ≤ x → a'.mem x = a.mem x := by
  obtain ⟨a', blocks', hok, hsame, hheld, hkeep, -⟩ :=
    h.shrink_of_inArena (h.inArena hend) size hsize
  exact ⟨a', blocks', hok, hsame, hheld, hkeep⟩

/-- `kfree` frees the block and keeps the others. -/
theorem kfree_other_of_inArena (h : HeldBlock limit a ((c.pos + memBlockSize) :: live) blocks b)
    (hc : HeldBlock limit a ((b.pos + memBlockSize) :: live) blocks c)
    (hin : Kern.inArena a (b.pos + memBlockSize)) :
    ∃ a' blocks', kfree a (b.pos + memBlockSize) = .ok a' ∧ SameArena a a' ∧
      HeldBlock limit a' live blocks' c ∧ { b with free := true } ∈ blocks' ∧
      KeepsOthers a blocks b a' blocks' := by
  have hnodup := hc.heap.nodup
  have hptr : c.pos + memBlockSize ≠ b.pos + memBlockSize := fun heq =>
    (List.nodup_cons.mp hnodup).1 (heq ▸ List.mem_cons_self)
  have hne : c ≠ b := fun heq => hptr (by rw [heq])
  have hfit := h.heap.header_fits h.mem_chain
  have hcfit := hc.heap.header_fits hc.mem_chain
  have hapart := h.heap.ordered.eq_or_apart h.mem_chain hc.mem_chain
  have hheader := fun d (hd : d ∈ blocks) x (hx : d.InPayload memBlockSize x) =>
    h.payload_apart hd hx
  unfold Extent.stop at hapart
  have hfreed := hc.heap
  obtain ⟨pre, post, hsplit⟩ := List.append_of_mem h.mem
  rw [hsplit] at hfreed
  have hfreed := hfreed.free
  rw [List.erase_cons_tail (by simpa using hptr), List.erase_cons_head] at hfreed
  unfold memBlockSize at hfit hcfit hheader hapart
  have hkept : ∀ d ∈ blocks, d ≠ b → d ∈ pre ++ { b with free := true } :: post :=
    fun d hd hdb => (Blocks.mem_replace (hsplit ▸ hd)).resolve_left hdb
  refine ⟨{ a with mem := a.mem.store32 (b.pos + 12) memStateFree },
    pre ++ { b with free := true } :: post, h.kfree_eq_of_inArena hin, ⟨rfl, rfl, rfl⟩,
    ⟨hfreed, hkept c hc.mem hne, hc.used, ?_⟩, by simp,
    fun d hd _ => hkept d hd, fun d hd _ _ x hx => ?_⟩
  · have hflags : blockFlags (a.mem.store32 (b.pos + 12) memStateFree) c.pos =
        blockFlags a.mem c.pos := by
      refine Mem.load32_store32_of_disjoint _ _ (by omega) (by omega) ?_
      rcases hapart with rfl | hlt | hlt
      · exact absurd rfl hptr
      · omega
      · omega
    dsimp only
    rw [hflags]
    exact hc.plain
  · have := hheader d hd x hx
    exact Mem.store32_apply_of_disjoint _ _ (by omega) (by omega)

/-- The payload of another block is copied into the block. -/
theorem copyFrom (h : HeldBlock limit a live blocks b) {c : Extent} (hc : c ∈ blocks)
    (hne : c ≠ b) (hbig : c.size ≤ b.size) :
    ∃ m, memcpy a.mem (b.pos + memBlockSize) (c.pos + memBlockSize) c.size = m ∧
      (∀ x, x < b.pos + memBlockSize ∨ b.pos + memBlockSize + c.size ≤ x → m x = a.mem x) ∧
      (∀ i < c.size, m (b.pos + memBlockSize + i) = a.mem (c.pos + memBlockSize + i)) ∧
      HeldBlock limit { a with mem := m } live blocks b := by
  have hcmem : c ∈ rootBlock a.memStart :: blocks := List.mem_cons_of_mem _ hc
  have hapart : c.stop memBlockSize ≤ b.pos ∨ b.stop memBlockSize ≤ c.pos :=
    (h.heap.ordered.eq_or_apart hcmem h.mem_chain).resolve_left hne
  have hlimit := h.heap.limit_le
  have hbfits := h.fits
  have hcfits := h.heap.fits c hcmem
  unfold Extent.stop at hapart hcfits
  have hframe : ∀ x, x < b.pos + memBlockSize ∨ b.pos + memBlockSize + c.size ≤ x →
      memcpy a.mem (b.pos + memBlockSize) (c.pos + memBlockSize) c.size x = a.mem x :=
    fun x hx => Mem.copy_apply_of_disjoint _ _ _ _ x (by omega) hx
  refine ⟨_, rfl, hframe, fun i hi => ?_, h.write fun x hx => hframe x ?_⟩
  · exact Mem.copy_apply _ _ _ _ i (by omega) (by omega) (by omega) hi
  · unfold Extent.InPayload Extent.stop at hx
    omega

/-- If `kalloc` returns, a buffer is moved: the new one has its contents, the old block
is free, and the others are kept. -/
theorem move_of_ok (h : HeldBlock limit a live blocks b)
    (hin : Kern.inArena a (b.pos + memBlockSize)) (hsize : b.size ≤ size) (hlt : size < 2 ^ 32)
    (hnonzero : alignedSize size ≠ 0) (hfits : AppendFits limit a size) {a₁ : Allocator}
    (hok : kalloc a size = .ok (a₁, p)) :
    ∃ a' c blocks', krealloc a (b.pos + memBlockSize) size = .ok (a', c.pos + memBlockSize) ∧
      SameArena a a' ∧ HeldBlock limit a' live blocks' c ∧ size ≤ c.size ∧
      (∀ i < b.size, a'.mem (c.pos + memBlockSize + i) = a.mem (b.pos + memBlockSize + i)) ∧
      { b with free := true } ∈ blocks' ∧ KeepsOthers a blocks b a' blocks' := by
  have hlimit := h.heap.limit_le
  obtain ⟨c, blocks₁, rfl, hsame, hnew, hbig, hkept⟩ :=
    kalloc_held_of_ok h.heap hlt hnonzero hfits hok
  have hb := hkept b h.mem h.used
  have hbmem : b ∈ rootBlock a₁.memStart :: blocks₁ := List.mem_cons_of_mem _ hb
  have hbfit := hnew.heap.header_fits hbmem
  -- the two blocks are apart
  have hne : b ≠ c := by
    rintro rfl
    exact (List.nodup_cons.mp hnew.heap.nodup).1 List.mem_cons_self
  have hapart : b.stop memBlockSize ≤ c.pos ∨ c.stop memBlockSize ≤ b.pos :=
    (hnew.heap.ordered.eq_or_apart hbmem hnew.mem_chain).resolve_left hne
  have hbfits := hnew.heap.fits b hbmem
  unfold Extent.stop at hapart hbfits
  obtain ⟨m, hm, hframe, hcopy, hcopied⟩ := hnew.copyFrom hb hne (Nat.le_trans hsize hbig)
  have hbsize : blockSize a₁.mem b.pos = b.size := (hnew.heap.holds b hbmem).size
  -- the old block is still in use, and may be freed
  have hplain : blockFlags m b.pos &&& memCritical = 0 := by
    have hsame : blockFlags m b.pos = blockFlags a.mem b.pos := by
      unfold memBlockSize at hbfit hframe hapart
      refine Mem.load32_congr (by omega) fun x hx hx' => ?_
      rw [hframe x (by omega)]
      exact kalloc_header h.heap hfits hok h.mem_chain h.used (by omega)
    rw [hsame]
    exact h.plain
  have hold : HeldBlock limit { a₁ with mem := m } ((c.pos + memBlockSize) :: live) blocks₁ b :=
    ⟨hcopied.heap.perm (List.Perm.swap _ _ _), hb, h.used, hplain⟩
  have hin₁ : Kern.inArena { a₁ with mem := m } (b.pos + memBlockSize) := by
    unfold Kern.inArena at hin ⊢
    rw [hsame.1, hsame.2.1]
    exact hin
  obtain ⟨a', blocks', hfree, hsame', hheld, hfreed, hothers⟩ :=
    hold.kfree_other_of_inArena hcopied hin₁
  refine ⟨a', c, blocks', ?_, hsame.trans hsame', hheld, hbig, fun i hi => ?_, hfreed,
    fun d hd hused hdb => hothers.mem d (hkept d hd hused) hused hdb, fun d hd hused hdb x hx => ?_⟩
  · rw [h.krealloc_eq_of_inArena hin, if_neg (by omega), hok, ok_bind]
    dsimp only
    rw [hbsize, hm, hfree]
    rfl
  · rw [hothers.payload c hnew.mem hnew.used (Ne.symm hne) _
      (by unfold Extent.InPayload Extent.stop; omega)]
    refine (hcopy i hi).trans ?_
    refine kalloc_frame h.heap hfits hok (Or.inr (Or.inr ⟨b, h.mem, h.used, ?_⟩))
    unfold Extent.InPayload Extent.stop
    omega
  · -- the copy is outside of the payload of `d`
    have hd₁ := hkept d hd hused
    have hdmem : d ∈ rootBlock a₁.memStart :: blocks₁ := List.mem_cons_of_mem _ hd₁
    have hdc : d ≠ c := by
      rintro rfl
      exact kalloc_fresh h.heap hfits hok hnonzero hd hused rfl
    have hdapart := (hnew.heap.ordered.eq_or_apart hdmem hnew.mem_chain).resolve_left hdc
    rw [hothers.payload d hd₁ hused hdb x hx]
    refine (hframe x ?_).trans (kalloc_frame h.heap hfits hok (Or.inr (Or.inr ⟨d, hd, hused, hx⟩)))
    unfold Extent.InPayload at hx
    unfold Extent.stop at hx hdapart
    omega

/-- A buffer that is moved takes its contents along. -/
theorem move (h : HeldBlock limit a live blocks b) (hstart : a.memStart ≠ 0) (size : Nat)
    (hpos : 0 < size) (hroom : limit + blockRoom size ≤ a.arenaEnd) (hsize : b.size ≤ size) :
    ∃ a' c blocks', krealloc a (b.pos + memBlockSize) size = .ok (a', c.pos + memBlockSize) ∧
      SameArena a a' ∧ HeldBlock (limit + blockRoom size) a' live blocks' c ∧ size ≤ c.size ∧
      ∀ i < b.size, a'.mem (c.pos + memBlockSize + i) = a.mem (b.pos + memBlockSize + i) := by
  have hlt := a.arenaEnd_lt
  have hle := size_le_of_blockRoom size (by omega)
  have hwide : HeldBlock (limit + blockRoom size) a live blocks b :=
    ⟨h.heap.mono (Nat.le_add_right _ _) (by omega), h.mem, h.used, h.plain⟩
  obtain ⟨a₁, p, hok⟩ := h.heap.kalloc_ok hstart (by omega) size
  obtain ⟨a', c, blocks', hrealloc, hsame, hheld, hbig, hkeep, -, -⟩ :=
    hwide.move_of_ok (hwide.inArena hroom) hsize (by omega)
      (alignedSize_ne_zero hpos hle) (h.heap.appendFits size) hok
  exact ⟨a', c, blocks', hrealloc, hsame, hheld, hbig, hkeep⟩

/-- `krealloc` returns a buffer of the new size with the contents of the old one. -/
theorem resize (h : HeldBlock limit a live blocks b) (hstart : a.memStart ≠ 0) (size : Nat)
    (hpos : 0 < size) (hroom : limit + blockRoom size ≤ a.arenaEnd) :
    ∃ a' c blocks', krealloc a (b.pos + memBlockSize) size = .ok (a', c.pos + memBlockSize) ∧
      SameArena a a' ∧ HeldBlock (limit + blockRoom size) a' live blocks' c ∧ size ≤ c.size ∧
      ∀ i < min b.size size,
        a'.mem (c.pos + memBlockSize + i) = a.mem (b.pos + memBlockSize + i) := by
  by_cases hsize : size < b.size
  · have hlt := a.arenaEnd_lt
    obtain ⟨a', blocks', hok, hsame, hheld, hkeep⟩ := h.shrink (by omega) size hsize
    have hwide : Blocks (limit + blockRoom size) a' ((b.pos + memBlockSize) :: live) blocks' :=
      hheld.heap.mono (by omega) (by omega)
    exact ⟨a', { b with size := size }, blocks', hok, hsame,
      ⟨hwide, hheld.mem, hheld.used, hheld.plain⟩, Nat.le_refl _, fun i _ =>
        hkeep _ (Nat.le_add_right _ _)⟩
  · obtain ⟨a', c, blocks', hok, hsame, hheld, hbig, hkeep⟩ :=
      h.move hstart size hpos hroom (Nat.le_of_not_lt hsize)
    exact ⟨a', c, blocks', hok, hsame, hheld, hbig, fun i hi => hkeep i (by omega)⟩

end HeldBlock

end Buffers

end Microboot.Kern
