/-
  Kern/Alloc.lean --- the dynamic memory allocator, kern/alloc.c.

  The heap is a singly linked list of blocks in a flat memory: each block has a
  24-byte header (`struct mem_block`) in front of its payload.  Allocation takes
  the first free block that is large enough, whole, or appends a block behind the
  last one; `krealloc` shrinks a block in place.

  The functions work on the bytes of the memory, with 32-bit pointer arithmetic,
  and end in a fault when an assertion fails or a loop does not terminate.
  `Blocks` says that a memory holds a given list of blocks; each operation has
  one lemma about what it does to such a list.
-/
import Microboot.Foundation.Extents
import Microboot.Kern.Stdlib

set_option autoImplicit false

namespace Microboot.Kern

open Microboot.Foundation

/-! ## struct mem_block -/

/-- `MEM_BLOCK_MAGIC` -/
def memBlockMagic : Nat := 0xbadbaddd

/-- `ALIGNMENT` -/
def alignment : Nat := 64

/-- `sizeof(mem_block_t)` -/
def memBlockSize : Nat := 24

/-- `MEM_STATE_USED` -/
def memStateUsed : Nat := 0

/-- `MEM_STATE_FREE` -/
def memStateFree : Nat := 1

/-- `MEM_CRITICAL` -/
def memCritical : Nat := 1

/-- `block->magic` -/
def blockMagic (m : Mem) (block : Nat) : Nat := m.load32 block

/-- `block->flags` -/
def blockFlags (m : Mem) (block : Nat) : Nat := m.load32 (block + 4)

/-- `block->size` -/
def blockSize (m : Mem) (block : Nat) : Nat := m.load32 (block + 8)

/-- `block->state` -/
def blockState (m : Mem) (block : Nat) : Nat := m.load32 (block + 12)

/-- `block->addr` -/
def blockAddr (m : Mem) (block : Nat) : Nat := m.load32 (block + 16)

/-- `block->next` -/
def blockNext (m : Mem) (block : Nat) : Nat := m.load32 (block + 20)

/-- `ptr - sizeof(mem_block_t)` -/
def blockOf (ptr : Nat) : Nat := wrap (ptr + (2 ^ 32 - memBlockSize))

/-! ## The operations -/

/-- The memory, and the static variables `mem_start`, `mem_size` and `head`. -/
structure Allocator where
  mem : Mem
  memStart : Nat
  memSize : Nat
  head : Nat

/-- `init_alloc(start, size)` -/
def initAlloc (m : Mem) (start size : Nat) : Allocator where
  mem := ((((m.store32 (start + 20) 0).store32 (start + 8) 0).store32 (start + 12)
    memStateUsed).store32 start memBlockMagic).store32 (start + 4) memCritical
  memStart := start
  memSize := size
  head := start

/-- `aligned_size(size)` -/
def alignedSize (size : Nat) : Nat :=
  if size % alignment = 0 then size
  else (size / alignment * alignment + alignment) % 2 ^ 32

/-- `ptr >= mem_start && ptr <= mem_start + mem_size` -/
def inArena (a : Allocator) (ptr : Nat) : Prop :=
  a.memStart ≤ ptr ∧ ptr ≤ wrap (a.memStart + a.memSize)

instance (a : Allocator) (ptr : Nat) : Decidable (inArena a ptr) :=
  inferInstanceAs (Decidable (_ ∧ _))

/-- Where the search of `kalloc` ends: at a free block that is large enough, or
at the last block. -/
inductive Found where
  | reuse (current : Nat)
  | append (current : Nat)
  deriving DecidableEq, Repr

/-- The search of `kalloc`, from `current` on. -/
def findBlock (m : Mem) (allocatedSize : Nat) : Nat → Nat → Option Found
  | 0, _ => none
  | fuel + 1, current =>
    if blockState m current = memStateFree ∧ allocatedSize ≤ blockSize m current then
      some (.reuse current)
    else if blockNext m current = 0 then some (.append current)
    else findBlock m allocatedSize fuel (blockNext m current)

/-- `current` is taken into use again. -/
def reuseBlock (m : Mem) (current : Nat) : Mem :=
  ((m.store32 (current + 12) memStateUsed).store32 (current + 16)
    (wrap (current + memBlockSize))).store32 (current + 4) 0

/-- The address behind the payload of `current`. -/
def nextBlock (m : Mem) (current : Nat) : Nat :=
  wrap (current + memBlockSize + blockSize m current)

/-- A block at `next` is appended to `current`. -/
def appendBlock (m : Mem) (current next allocatedSize : Nat) : Mem :=
  ((((((m.store32 (next + 8) allocatedSize).store32 (next + 20) 0).store32 (next + 12)
    memStateUsed).store32 next memBlockMagic).store32 (next + 4) 0).store32 (next + 16)
    (wrap (next + memBlockSize))).store32 (current + 20) next

/-- `kalloc(size)`: the allocator afterwards, and the pointer returned. -/
def kalloc (a : Allocator) (size : Nat) : Except Fault (Allocator × Nat) := do
  require (a.memStart ≠ 0) "Allocator was used before initialised"
  let allocatedSize := alignedSize size
  if allocatedSize = 0 then
    return (a, 0)
  match findBlock a.mem allocatedSize addrSpace a.head with
  | none => throw .hang
  | some (.reuse current) =>
    let m := reuseBlock a.mem current
    return ({ a with mem := m }, blockAddr m current)
  | some (.append current) =>
    require (blockMagic a.mem current = memBlockMagic)
      "Memory corruption detected, magic value not present"
    let next := nextBlock a.mem current
    require (next ≤ wrap (a.memStart + a.memSize)) "Out of memory, cannot allocate"
    let m := appendBlock a.mem current next allocatedSize
    return ({ a with mem := m }, blockAddr m next)

/-- `kfree(ptr)` -/
def kfree (a : Allocator) (ptr : Nat) : Except Fault Allocator := do
  require (inArena a ptr) "Tried to free invalid address"
  let block := blockOf ptr
  require (blockFlags a.mem block &&& memCritical = 0) "Tried to free critical memory"
  require (blockState a.mem block = memStateUsed) "Tried to free already free memory"
  require (blockMagic a.mem block = memBlockMagic)
    "Memory corruption detected, magic value not present"
  return { a with mem := a.mem.store32 (block + 12) memStateFree }

/-- `krealloc(ptr, new_size)` -/
def krealloc (a : Allocator) (ptr newSize : Nat) : Except Fault (Allocator × Nat) := do
  if ptr = 0 then
    return ← kalloc a newSize
  require (inArena a ptr) "Tried to realloc invalid address"
  let block := blockOf ptr
  require (blockState a.mem block = memStateUsed) "Tried to realloc unused block"
  require (blockMagic a.mem block = memBlockMagic) "Tried to realloc corrupted block"
  if newSize < blockSize a.mem block then
    return ({ a with mem := a.mem.store32 (block + 8) newSize }, ptr)
  else
    let (a, newBlock) ← kalloc a newSize
    let a := { a with mem := memcpy a.mem newBlock ptr (blockSize a.mem block) }
    let a ← kfree a ptr
    return (a, newBlock)

/-- `kallocz(size)` -/
def kallocz (a : Allocator) (size : Nat) : Except Fault (Allocator × Nat) := do
  let (a, data) ← kalloc a size
  return ({ a with mem := memset a.mem data 0 size }, data)

/-- `kmmcritical(ptr)` -/
def kmmcritical (a : Allocator) (ptr : Nat) : Except Fault Allocator := do
  require (inArena a ptr) "Tried mark as critical an invalid address"
  let block := blockOf ptr
  return { a with mem := a.mem.store32 (block + 4) (blockFlags a.mem block ||| memCritical) }

/-- The blocks of the chain, in the order that `kalloc` looks at them. -/
def chainFrom (m : Mem) : Nat → Nat → Option (List Nat)
  | 0, _ => none
  | fuel + 1, current =>
    if blockNext m current = 0 then some [current]
    else (chainFrom m fuel (blockNext m current)).map (current :: ·)

/-- The blocks of the allocator's chain. -/
def Allocator.chain (a : Allocator) : Option (List Nat) := chainFrom a.mem addrSpace a.head

/-- Only the header is written. -/
theorem reuseBlock_apply (m : Mem) {current x : Nat} (hfits : current + memBlockSize ≤ 2 ^ 32)
    (hx : x < current ∨ current + memBlockSize ≤ x) : reuseBlock m current x = m x := by
  unfold memBlockSize at hfits hx
  unfold reuseBlock
  rw [Mem.store32_apply_of_disjoint _ _ (by omega) (by omega),
    Mem.store32_apply_of_disjoint _ _ (by omega) (by omega),
    Mem.store32_apply_of_disjoint _ _ (by omega) (by omega)]

/-- Only the new header and the link of the last block are written. -/
theorem appendBlock_apply (m : Mem) {current next size x : Nat}
    (hcurrent : current + memBlockSize ≤ 2 ^ 32) (hnext : next + memBlockSize ≤ 2 ^ 32)
    (hx : x < current + 20 ∨ current + memBlockSize ≤ x)
    (hx' : x < next ∨ next + memBlockSize ≤ x) : appendBlock m current next size x = m x := by
  unfold memBlockSize at hcurrent hnext hx hx'
  rw [appendBlock, Mem.store32_apply_of_disjoint _ _ (by omega) (by omega),
    Mem.store32_apply_of_disjoint _ _ (by omega) (by omega),
    Mem.store32_apply_of_disjoint _ _ (by omega) (by omega),
    Mem.store32_apply_of_disjoint _ _ (by omega) (by omega),
    Mem.store32_apply_of_disjoint _ _ (by omega) (by omega),
    Mem.store32_apply_of_disjoint _ _ (by omega) (by omega),
    Mem.store32_apply_of_disjoint _ _ (by omega) (by omega)]

/-! ## Calls that return -/

section Returns

variable {a a' : Allocator} {p q size : Nat}

/-- `kalloc` returns `NULL` for what rounds to nothing, else the block that its search finds,
or one that is appended and begins in the arena. -/
theorem kalloc_eq_ok (hok : kalloc a size = .ok (a', p)) :
    a.memStart ≠ 0 ∧
      ((alignedSize size = 0 ∧ a' = a ∧ p = 0) ∨
        (alignedSize size ≠ 0 ∧ ∃ current,
          findBlock a.mem (alignedSize size) addrSpace a.head = some (.reuse current) ∧
          a' = { a with mem := reuseBlock a.mem current } ∧ p = blockAddr a'.mem current) ∨
        (alignedSize size ≠ 0 ∧ ∃ current,
          findBlock a.mem (alignedSize size) addrSpace a.head = some (.append current) ∧
          nextBlock a.mem current ≤ wrap (a.memStart + a.memSize) ∧
          a' = { a with
            mem := appendBlock a.mem current (nextBlock a.mem current) (alignedSize size) } ∧
          p = blockAddr a'.mem (nextBlock a.mem current))) := by
  unfold kalloc at hok
  obtain ⟨_, hstart, hok⟩ := bind_eq_ok hok
  refine ⟨require_eq_ok hstart, ?_⟩
  by_cases h0 : alignedSize size = 0
  · rw [if_pos h0] at hok
    cases hok
    exact Or.inl ⟨h0, rfl, rfl⟩
  rw [if_neg h0] at hok
  cases hfind : findBlock a.mem (alignedSize size) addrSpace a.head with
  | none =>
    rw [hfind] at hok
    cases hok
  | some found =>
    rw [hfind] at hok
    cases found with
    | reuse current =>
      cases hok
      exact Or.inr (Or.inl ⟨h0, current, rfl, rfl, rfl⟩)
    | append current =>
      obtain ⟨_, -, hok⟩ := bind_eq_ok hok
      obtain ⟨_, hin, hok⟩ := bind_eq_ok hok
      cases hok
      exact Or.inr (Or.inr ⟨h0, current, rfl, require_eq_ok hin, rfl, rfl⟩)

/-- `kfree` writes the state of a block. -/
theorem kfree_eq_ok (hok : kfree a p = .ok a') :
    a' = { a with mem := a.mem.store32 (blockOf p + 12) memStateFree } := by
  unfold kfree at hok
  obtain ⟨_, -, hok⟩ := bind_eq_ok hok
  obtain ⟨_, -, hok⟩ := bind_eq_ok hok
  obtain ⟨_, -, hok⟩ := bind_eq_ok hok
  obtain ⟨_, -, hok⟩ := bind_eq_ok hok
  cases hok
  rfl

/-- `krealloc` of `NULL` is `kalloc`.  The size of a block in the arena is cut, or the block is
copied to a new one and freed. -/
theorem krealloc_eq_ok (hok : krealloc a p size = .ok (a', q)) :
    (p = 0 ∧ kalloc a size = .ok (a', q)) ∨
      (p ≠ 0 ∧ inArena a p ∧ blockState a.mem (blockOf p) = memStateUsed ∧
        ((size < blockSize a.mem (blockOf p) ∧
            a' = { a with mem := a.mem.store32 (blockOf p + 8) size } ∧ q = p) ∨
          (blockSize a.mem (blockOf p) ≤ size ∧ ∃ a₁, kalloc a size = .ok (a₁, q) ∧
            kfree { a₁ with mem := memcpy a₁.mem q p (blockSize a₁.mem (blockOf p)) } p =
              .ok a'))) := by
  unfold krealloc at hok
  by_cases h0 : p = 0
  · rw [if_pos h0] at hok
    exact Or.inl ⟨h0, by simpa using hok⟩
  rw [if_neg h0] at hok
  obtain ⟨_, hin, hok⟩ := bind_eq_ok hok
  obtain ⟨_, hstate, hok⟩ := bind_eq_ok hok
  obtain ⟨_, -, hok⟩ := bind_eq_ok hok
  refine Or.inr ⟨h0, require_eq_ok hin, require_eq_ok hstate, ?_⟩
  by_cases hshrink : size < blockSize a.mem (blockOf p)
  · rw [if_pos hshrink] at hok
    cases hok
    exact Or.inl ⟨hshrink, rfl, rfl⟩
  · rw [if_neg hshrink] at hok
    obtain ⟨⟨a₁, q₁⟩, hkalloc, hok⟩ := bind_eq_ok hok
    obtain ⟨a₂, hkfree, hok⟩ := bind_eq_ok hok
    cases hok
    exact Or.inr ⟨Nat.le_of_not_lt hshrink, a₁, hkalloc, hkfree⟩

/-- `kallocz` fills what `kalloc` returns. -/
theorem kallocz_eq_ok (hok : kallocz a size = .ok (a', p)) :
    ∃ a₁, kalloc a size = .ok (a₁, p) ∧ a' = { a₁ with mem := memset a₁.mem p 0 size } := by
  unfold kallocz at hok
  obtain ⟨⟨a₁, q⟩, hkalloc, hok⟩ := bind_eq_ok hok
  cases hok
  exact ⟨a₁, hkalloc, rfl⟩

/-- `kmmcritical` writes the flags of a block. -/
theorem kmmcritical_eq_ok (hok : kmmcritical a p = .ok a') :
    a' = { a with
      mem := a.mem.store32 (blockOf p + 4) (blockFlags a.mem (blockOf p) ||| memCritical) } := by
  unfold kmmcritical at hok
  obtain ⟨_, -, hok⟩ := bind_eq_ok hok
  cases hok
  rfl

end Returns

/-! ## Headers in memory -/

/-- The two memories agree on the header of the block at `p`, except for its
flags. -/
structure SameBlock (m m' : Mem) (p : Nat) : Prop where
  magic : blockMagic m' p = blockMagic m p
  size : blockSize m' p = blockSize m p
  state : blockState m' p = blockState m p
  addr : blockAddr m' p = blockAddr m p
  next : blockNext m' p = blockNext m p

/-- Memories with the same bytes in a header agree on it. -/
theorem SameBlock.of_bytes {m m' : Mem} {p : Nat} (hp : p + memBlockSize ≤ 2 ^ 32)
    (h : ∀ x, p ≤ x → x < p + memBlockSize → m' x = m x) : SameBlock m m' p := by
  unfold memBlockSize at hp h
  have hload : ∀ k, k ≤ 20 → m'.load32 (p + k) = m.load32 (p + k) := fun k hk =>
    Mem.load32_congr (by omega) fun x hx hx' => h x (by omega) (by omega)
  exact ⟨hload 0 (by omega), hload 8 (by omega), hload 12 (by omega), hload 16 (by omega),
    hload 20 (by omega)⟩

/-- Flags do not count. -/
theorem SameBlock.store_flags (m : Mem) {p q : Nat} (v : Nat) (hp : p + memBlockSize ≤ 2 ^ 32)
    (hq : q + memBlockSize ≤ 2 ^ 32)
    (hapart : q = p ∨ q + memBlockSize ≤ p ∨ p + memBlockSize ≤ q) :
    SameBlock m (m.store32 (p + 4) v) q := by
  unfold memBlockSize at hp hq hapart
  have hload : ∀ k, k ≤ 20 → (k = 0 ∨ 8 ≤ k) →
      (m.store32 (p + 4) v).load32 (q + k) = m.load32 (q + k) := fun k hk hk' =>
    Mem.load32_store32_of_disjoint m v (by omega) (by omega) (by omega)
  exact ⟨hload 0 (by omega) (by omega), hload 8 (by omega) (by omega),
    hload 12 (by omega) (by omega), hload 16 (by omega) (by omega),
    hload 20 (by omega) (by omega)⟩

/-- The header of `b` is in memory. -/
structure HasBlock (m : Mem) (b : Extent) : Prop where
  magic : blockMagic m b.pos = memBlockMagic
  size : blockSize m b.pos = b.size
  state : blockState m b.pos = if b.free then memStateFree else memStateUsed

theorem HasBlock.congr {m m' : Mem} {b : Extent} (h : HasBlock m b)
    (hsame : SameBlock m m' b.pos) : HasBlock m' b :=
  ⟨hsame.magic.trans h.magic, hsame.size.trans h.size, hsame.state.trans h.state⟩

/-- The header of the new block, and the link to it. -/
theorem appendBlock_header (m : Mem) {current next size : Nat}
    (hcurrent : current + memBlockSize ≤ next) (hnext : next + memBlockSize < 2 ^ 32)
    (hsize : size < 2 ^ 32) :
    HasBlock (appendBlock m current next size) { pos := next, size := size, free := false } ∧
      blockAddr (appendBlock m current next size) next = next + memBlockSize ∧
      blockNext (appendBlock m current next size) next = 0 ∧
      blockNext (appendBlock m current next size) current = next := by
  have hwrap := wrap_eq hnext
  unfold memBlockSize at hcurrent hnext hwrap ⊢
  -- of each word the last store to it is read
  refine ⟨⟨?_, ?_, ?_⟩, ?_, ?_, ?_⟩
  · simp (disch := omega) only [blockMagic, appendBlock, Mem.load32_store32_of_disjoint]
    exact Mem.load32_store32_same _ (by decide)
  · simp (disch := omega) only [blockSize, appendBlock, Mem.load32_store32_of_disjoint]
    exact Mem.load32_store32_same _ hsize
  · simp (disch := omega) only [blockState, appendBlock, Mem.load32_store32_of_disjoint]
    exact Mem.load32_store32_same _ (by decide)
  · simp (disch := omega) only [blockAddr, appendBlock, Mem.load32_store32_of_disjoint]
    rw [memBlockSize, hwrap]
    exact Mem.load32_store32_same _ hnext
  · simp (disch := omega) only [blockNext, appendBlock, Mem.load32_store32_of_disjoint]
    exact Mem.load32_store32_same _ (by decide)
  · exact Mem.load32_store32_same _ (by omega)

/-- The words of the headers in front are kept, but for the link of the last. -/
theorem appendBlock_front (m : Mem) {current next size q : Nat}
    (hcurrent : current + memBlockSize ≤ next) (hnext : next + memBlockSize ≤ 2 ^ 32)
    (hq : q + 4 ≤ next) (hlink : q + 4 ≤ current + 20 ∨ current + memBlockSize ≤ q) :
    (appendBlock m current next size).load32 q = m.load32 q :=
  Mem.load32_congr (by omega) fun x hx hx' =>
    appendBlock_apply m (by omega) hnext (by omega) (by omega)

/-- The block that `init_alloc` makes. -/
def rootBlock (start : Nat) : Extent := { pos := start, size := 0, free := false }

/-- The allocator's chain consists of the root and `blocks`, all of them end at
`limit` or before, and the pointers in `live` are payloads of blocks in use. -/
structure Blocks (limit : Nat) (a : Allocator) (live : List Nat) (blocks : List Extent) :
    Prop where
  limit_le : limit ≤ 2 ^ 32
  head : a.head = a.memStart
  holds : ∀ b ∈ rootBlock a.memStart :: blocks, HasBlock a.mem b
  addr : ∀ b ∈ blocks, blockAddr a.mem b.pos = b.pos + memBlockSize
  threaded : Threaded (blockNext a.mem) ((rootBlock a.memStart :: blocks).map Extent.pos)
  ordered : Ordered memBlockSize (rootBlock a.memStart :: blocks)
  fits : ∀ b ∈ rootBlock a.memStart :: blocks, b.stop memBlockSize ≤ limit
  nodup : live.Nodup
  used : ∀ p ∈ live, ∃ b ∈ blocks, b.free = false ∧ p = b.pos + memBlockSize

namespace Blocks

variable {limit : Nat} {a : Allocator} {live : List Nat} {blocks pre post : List Extent}
  {b e : Extent} {m' : Mem}

theorem header_fits (h : Blocks limit a live blocks)
    (hb : b ∈ rootBlock a.memStart :: blocks) : b.pos + memBlockSize ≤ 2 ^ 32 := by
  have hfits := h.fits b hb
  have hlimit := h.limit_le
  unfold Extent.stop at hfits
  omega

/-- A change of the memory that keeps every header keeps the blocks. -/
theorem congr (h : Blocks limit a live blocks)
    (hsame : ∀ b ∈ rootBlock a.memStart :: blocks, SameBlock a.mem m' b.pos) :
    Blocks limit { a with mem := m' } live blocks where
  limit_le := h.limit_le
  head := h.head
  holds b hb := (h.holds b hb).congr (hsame b hb)
  addr b hb := (hsame b (List.mem_cons_of_mem _ hb)).addr.trans (h.addr b hb)
  threaded := h.threaded.congr fun p hp => by
    obtain ⟨b, hb, rfl⟩ := List.mem_map.mp hp
    exact (hsame b hb).next
  ordered := h.ordered
  fits := h.fits
  nodup := h.nodup
  used := h.used

/-- Writing inside a payload keeps the blocks. -/
theorem write_payload (h : Blocks limit a live blocks) (hb : b ∈ blocks)
    (hout : ∀ x, ¬ b.InPayload memBlockSize x → m' x = a.mem x) :
    Blocks limit { a with mem := m' } live blocks := by
  apply h.congr
  intro c hc
  apply SameBlock.of_bytes (h.header_fits hc)
  intro x hx hx'
  apply hout
  intro hpay
  exact h.ordered.header_apart (List.mem_cons_of_mem _ hb) hc hpay ⟨hx, hx'⟩

/-- Rewriting one header keeps the blocks, if the new header is for a block at
the same place and no larger. -/
theorem replace (h : Blocks limit a live (pre ++ b :: post)) (hpos : e.pos = b.pos)
    (hsize : e.size ≤ b.size) (hout : ∀ x, ¬ b.InHeader memBlockSize x → m' x = a.mem x)
    (hholds : HasBlock m' e) (hnext : blockNext m' b.pos = blockNext a.mem b.pos)
    (haddr : blockAddr m' b.pos = b.pos + memBlockSize) {live' : List Nat}
    (hnodup : live'.Nodup)
    (hused : ∀ p ∈ live', ∃ c ∈ pre ++ e :: post, c.free = false ∧ p = c.pos + memBlockSize) :
    Blocks limit { a with mem := m' } live' (pre ++ e :: post) := by
  have hordered : Ordered memBlockSize ((rootBlock a.memStart :: pre) ++ b :: post) := h.ordered
  have hcases : ∀ c ∈ rootBlock a.memStart :: (pre ++ e :: post),
      c = e ∨ c ∈ (rootBlock a.memStart :: pre) ++ post := by
    intro c hc
    simp only [List.cons_append, List.mem_cons, List.mem_append] at hc ⊢
    tauto
  have hold : ∀ c ∈ (rootBlock a.memStart :: pre) ++ post,
      c ∈ rootBlock a.memStart :: (pre ++ b :: post) := by
    intro c hc
    simp only [List.cons_append, List.mem_cons, List.mem_append] at hc ⊢
    tauto
  have hsame : ∀ c ∈ (rootBlock a.memStart :: pre) ++ post, SameBlock a.mem m' c.pos := by
    intro c hc
    apply SameBlock.of_bytes (h.header_fits (hold c hc))
    intro x hx hx'
    apply hout
    intro hin
    have hapart := hordered.apart_of_mem hc
    unfold Extent.InHeader at hin
    unfold Extent.stop at hapart
    omega
  constructor
  · exact h.limit_le
  · exact h.head
  · intro c hc
    rcases hcases c hc with rfl | hc
    · exact hholds
    · exact (h.holds c (hold c hc)).congr (hsame c hc)
  · intro c hc
    rw [List.mem_append, List.mem_cons] at hc
    rcases hc with hc | rfl | hc
    · exact (hsame c (by simp [hc])).addr.trans (h.addr c (by simp [hc]))
    · change blockAddr m' c.pos = c.pos + memBlockSize
      rw [hpos]
      exact haddr
    · exact (hsame c (by simp [hc])).addr.trans (h.addr c (by simp [hc]))
  · have hmap : (rootBlock a.memStart :: (pre ++ e :: post)).map Extent.pos =
        (rootBlock a.memStart :: (pre ++ b :: post)).map Extent.pos := by
      simp [hpos]
    rw [hmap]
    apply h.threaded.congr
    intro p hp
    obtain ⟨c, hc, rfl⟩ := List.mem_map.mp hp
    simp only [List.mem_cons, List.mem_append] at hc
    rcases hc with rfl | hc | rfl | hc
    · exact (hsame _ (by simp)).next
    · exact (hsame c (by simp [hc])).next
    · exact hnext
    · exact (hsame c (by simp [hc])).next
  · exact hordered.replace hpos hsize
  · intro c hc
    rcases hcases c hc with rfl | hc
    · have hfits := h.fits b (by simp)
      unfold Extent.stop at hfits ⊢
      omega
    · exact h.fits c (hold c hc)
  · exact hnodup
  · exact hused

/-- The blocks are behind the root. -/
theorem start_le (h : Blocks limit a live blocks) (hb : b ∈ rootBlock a.memStart :: blocks) :
    a.memStart ≤ b.pos := by
  rcases List.mem_cons.mp hb with rfl | hb
  · exact Nat.le_refl _
  · have hbehind := (List.pairwise_cons.mp h.ordered).1 b hb
    simp only [Extent.stop, rootBlock] at hbehind
    omega

theorem length_le (h : Blocks limit a live blocks) :
    (rootBlock a.memStart :: blocks).length ≤ addrSpace := by
  have hlen := h.ordered.length_le (by decide) (Nat.zero_le limit)
    fun b hb => ⟨Nat.zero_le _, h.fits b hb⟩
  have hlimit := h.limit_le
  unfold addrSpace
  omega

/-- The last block, and the blocks in front of it. -/
theorem exists_last (a : Allocator) (blocks : List Extent) :
    ∃ l e, rootBlock a.memStart :: blocks = l ++ [e] :=
  ⟨_, _, (List.dropLast_append_getLast (List.cons_ne_nil _ _)).symm⟩

end Blocks

/-! ## Walking the chain -/

section Walk

variable {m : Mem} (allocatedSize : Nat)

/-- The search of `kalloc` ends at a free block of the chain that is large
enough, or at the last block. -/
theorem findBlock_spec {bs : List Extent} : ∀ {b : Extent} {fuel : Nat},
    (∀ c ∈ b :: bs, HasBlock m c) → (∀ c ∈ bs, c.pos ≠ 0) →
    Threaded (blockNext m) ((b :: bs).map Extent.pos) → (b :: bs).length ≤ fuel →
    (∃ pre c post, b :: bs = pre ++ c :: post ∧ c.free = true ∧ allocatedSize ≤ c.size ∧
      findBlock m allocatedSize fuel b.pos = some (.reuse c.pos)) ∨
    (∃ pre c, b :: bs = pre ++ [c] ∧
      findBlock m allocatedSize fuel b.pos = some (.append c.pos)) := by
  induction bs with
  | nil =>
    intro b fuel hholds hpos hthread hfuel
    cases fuel with
    | zero => simp at hfuel
    | succ fuel =>
      have hb := hholds b (by simp)
      unfold findBlock
      by_cases hfit : blockState m b.pos = memStateFree ∧ allocatedSize ≤ blockSize m b.pos
      · rw [if_pos hfit]
        rw [hb.state, hb.size] at hfit
        refine Or.inl ⟨[], b, [], rfl, ?_, hfit.2, rfl⟩
        by_contra hused
        rw [if_neg hused] at hfit
        exact absurd hfit.1 (by decide)
      · have hlast : blockNext m b.pos = 0 := hthread
        rw [if_neg hfit, if_pos hlast]
        exact Or.inr ⟨[], b, rfl, rfl⟩
  | cons c cs ih =>
    intro b fuel hholds hpos hthread hfuel
    cases fuel with
    | zero => simp at hfuel
    | succ fuel =>
      have hb := hholds b (by simp)
      have hnext : blockNext m b.pos = c.pos := hthread.1
      unfold findBlock
      by_cases hfit : blockState m b.pos = memStateFree ∧ allocatedSize ≤ blockSize m b.pos
      · rw [if_pos hfit]
        rw [hb.state, hb.size] at hfit
        refine Or.inl ⟨[], b, c :: cs, rfl, ?_, hfit.2, rfl⟩
        by_contra hused
        rw [if_neg hused] at hfit
        exact absurd hfit.1 (by decide)
      · rw [if_neg hfit, hnext, if_neg (hpos c (by simp))]
        rcases ih (fun d hd => hholds d (by simp [hd])) (fun d hd => hpos d (by simp [hd]))
          hthread.2 (Nat.le_of_succ_le_succ hfuel) with
          ⟨pre, d, post, heq, hfree, hsize, hfind⟩ | ⟨pre, d, heq, hfind⟩
        · exact Or.inl ⟨b :: pre, d, post, by rw [heq, List.cons_append], hfree, hsize, hfind⟩
        · exact Or.inr ⟨b :: pre, d, by rw [heq, List.cons_append], hfind⟩

/-- The walk visits the blocks of the chain in order. -/
theorem chainFrom_spec {bs : List Extent} : ∀ {b : Extent} {fuel : Nat},
    (∀ c ∈ bs, c.pos ≠ 0) → Threaded (blockNext m) ((b :: bs).map Extent.pos) →
    (b :: bs).length ≤ fuel →
    chainFrom m fuel b.pos = some ((b :: bs).map Extent.pos) := by
  induction bs with
  | nil =>
    intro b fuel hpos hthread hfuel
    cases fuel with
    | zero => simp at hfuel
    | succ fuel =>
      have hlast : blockNext m b.pos = 0 := hthread
      rw [chainFrom, if_pos hlast, List.map_singleton]
  | cons c cs ih =>
    intro b fuel hpos hthread hfuel
    cases fuel with
    | zero => simp at hfuel
    | succ fuel =>
      have hnext : blockNext m b.pos = c.pos := hthread.1
      rw [chainFrom, hnext, if_neg (hpos c (by simp)),
        ih (fun d hd => hpos d (by simp [hd])) hthread.2 (by simpa using hfuel),
        Option.map_some, ← List.map_cons]

end Walk

namespace Blocks

variable {limit : Nat} {a a' : Allocator} {live : List Nat} {blocks pre post : List Extent}
  {b e : Extent} {p : Nat}

/-- The blocks behind the root are not at address 0. -/
theorem pos_ne_zero (h : Blocks limit a live blocks) (hb : b ∈ blocks) : b.pos ≠ 0 := by
  have hroot := (List.pairwise_cons.mp h.ordered).1 b hb
  unfold Extent.stop memBlockSize at hroot
  omega

theorem chain_eq (h : Blocks limit a live blocks) :
    a.chain = some ((rootBlock a.memStart :: blocks).map Extent.pos) := by
  unfold Allocator.chain
  rw [h.head]
  exact chainFrom_spec (b := rootBlock a.memStart) (fun b hb => h.pos_ne_zero hb) h.threaded
    h.length_le

/-- A pointer of a block leads back to the block. -/
theorem blockOf_eq (h : Blocks limit a live blocks)
    (hb : b ∈ rootBlock a.memStart :: blocks) : blockOf (b.pos + memBlockSize) = b.pos := by
  have hfits := h.header_fits hb
  unfold blockOf wrap
  unfold memBlockSize at hfits ⊢
  omega

/-- Payload pointers do not wrap. -/
theorem addr_lt (h : Blocks limit a live blocks) (hb : b ∈ blocks) :
    b.pos + memBlockSize < 2 ^ 32 := by
  rw [← h.addr b hb]
  exact Mem.load32_lt _ _

theorem pos_inj (h : Blocks limit a live blocks) {c : Extent} (hb : b ∈ blocks)
    (hc : c ∈ blocks) (hpos : b.pos = c.pos) : b = c :=
  h.ordered.eq_of_pos (by decide) (List.mem_cons_of_mem _ hb) (List.mem_cons_of_mem _ hc) hpos

theorem mem_replace {c : Extent} (hc : c ∈ pre ++ b :: post) :
    c = b ∨ c ∈ pre ++ e :: post := by
  simp only [List.mem_append, List.mem_cons] at hc ⊢
  tauto

/-- The pointer of a free block is not live. -/
theorem not_live_of_free (h : Blocks limit a live blocks) (hb : b ∈ blocks)
    (hfree : b.free = true) : b.pos + memBlockSize ∉ live := by
  intro hlive
  obtain ⟨c, hc, hused, hp⟩ := h.used _ hlive
  have heq := h.pos_inj hb hc (by omega)
  rw [← heq, hfree] at hused
  cases hused

/-- A free block is taken into use again. -/
theorem reuse (h : Blocks limit a live (pre ++ b :: post)) (hfree : b.free = true) :
    Blocks limit { a with mem := reuseBlock a.mem b.pos } ((b.pos + memBlockSize) :: live)
      (pre ++ { b with free := false } :: post) := by
  have hmem : b ∈ pre ++ b :: post := by simp
  have hfits := h.header_fits (List.mem_cons_of_mem _ hmem)
  have hold := h.holds b (List.mem_cons_of_mem _ hmem)
  have hlt := h.addr_lt hmem
  have hload : ∀ k, k ≤ 20 → (k = 0 ∨ k = 8 ∨ k = 20) →
      (reuseBlock a.mem b.pos).load32 (b.pos + k) = a.mem.load32 (b.pos + k) := by
    intro k hk hk'
    unfold memBlockSize at hfits
    unfold reuseBlock
    rw [Mem.load32_store32_of_disjoint _ _ (by omega) (by omega) (by omega),
      Mem.load32_store32_of_disjoint _ _ (by omega) (by omega) (by omega),
      Mem.load32_store32_of_disjoint _ _ (by omega) (by omega) (by omega)]
  have hstate : blockState (reuseBlock a.mem b.pos) b.pos = memStateUsed := by
    unfold memBlockSize at hfits
    unfold blockState reuseBlock
    rw [Mem.load32_store32_of_disjoint _ _ (by omega) (by omega) (by omega),
      Mem.load32_store32_of_disjoint _ _ (by omega) (by omega) (by omega),
      Mem.load32_store32_same _ (by decide)]
  have haddr : blockAddr (reuseBlock a.mem b.pos) b.pos = b.pos + memBlockSize := by
    unfold blockAddr reuseBlock
    rw [wrap_eq hlt]
    unfold memBlockSize at hfits hlt ⊢
    rw [Mem.load32_store32_of_disjoint _ _ (by omega) (by omega) (by omega),
      Mem.load32_store32_same _ hlt]
  apply h.replace (e := { b with free := false }) rfl (Nat.le_refl _)
  · intro x hx
    unfold Extent.InHeader at hx
    exact reuseBlock_apply _ hfits (by omega)
  · exact ⟨(hload 0 (by omega) (by omega)).trans hold.magic,
      (hload 8 (by omega) (by omega)).trans hold.size, hstate⟩
  · exact hload 20 (by omega) (by omega)
  · exact haddr
  · exact List.nodup_cons.mpr ⟨h.not_live_of_free hmem hfree, h.nodup⟩
  · intro p hp
    rw [List.mem_cons] at hp
    rcases hp with rfl | hp
    · exact ⟨{ b with free := false }, by simp, rfl, rfl⟩
    · obtain ⟨c, hc, hused, hpc⟩ := h.used p hp
      rcases mem_replace hc with rfl | hc'
      · rw [hfree] at hused
        cases hused
      · exact ⟨c, hc', hused, hpc⟩

/-- A block is appended behind the last one. -/
theorem append (h : Blocks limit a live blocks)
    (hlast : rootBlock a.memStart :: blocks = pre ++ [b]) {size : Nat} (hsize : 0 < size)
    (hfits : b.stop memBlockSize + memBlockSize + size ≤ limit) :
    Blocks limit { a with mem := appendBlock a.mem b.pos (b.stop memBlockSize) size }
      ((b.stop memBlockSize + memBlockSize) :: live)
      (blocks ++ [{ pos := b.stop memBlockSize, size := size, free := false }]) := by
  have hlimit := h.limit_le
  have hb : b ∈ rootBlock a.memStart :: blocks := by rw [hlast]; simp
  have hstop : b.pos + memBlockSize ≤ b.stop memBlockSize := Nat.le_add_right _ _
  have hbehind : ∀ c ∈ rootBlock a.memStart :: blocks,
      c.stop memBlockSize ≤ b.stop memBlockSize := by
    intro c hc
    have hordered := h.ordered
    rw [hlast] at hordered hc
    exact hordered.stop_le_last hc
  generalize hnew : b.stop memBlockSize = next at hfits hstop hbehind ⊢
  have hnext : next + memBlockSize < 2 ^ 32 := by omega
  have hsizeLt : size < 2 ^ 32 := by
    unfold memBlockSize at hfits
    omega
  obtain ⟨hnewBlock, haddr, hend, hlink⟩ := appendBlock_header a.mem hstop hnext hsizeLt
  have hfar : ∀ c ∈ rootBlock a.memStart :: blocks, ∀ k, k ≤ 20 → (c = b → k ≤ 16) →
      (appendBlock a.mem b.pos next size).load32 (c.pos + k) = a.mem.load32 (c.pos + k) := by
    intro c hc k hk hlink
    have hcstop := hbehind c hc
    have hapart := h.ordered.eq_or_apart hc hb
    unfold Extent.stop memBlockSize at hcstop hapart
    refine appendBlock_front a.mem hstop (Nat.le_of_lt hnext) (by omega) ?_
    unfold memBlockSize
    rcases hapart with rfl | hlt | hlt
    · have := hlink rfl
      omega
    · omega
    · omega
  generalize appendBlock a.mem b.pos next size = m' at hnewBlock haddr hend hlink hfar ⊢
  have hmem : ∀ c ∈ rootBlock a.memStart :: (blocks ++ [⟨next, size, false⟩]),
      c ∈ rootBlock a.memStart :: blocks ∨ c = ⟨next, size, false⟩ := by
    intro c hc
    simp only [List.mem_cons, List.mem_append, List.not_mem_nil, or_false] at hc ⊢
    tauto
  have hlt : ∀ c ∈ rootBlock a.memStart :: blocks, c.pos < next := by
    intro c hc
    have hcstop := hbehind c hc
    unfold Extent.stop memBlockSize at hcstop
    omega
  constructor
  · exact hlimit
  · exact h.head
  · intro c hc
    rcases hmem c hc with hc | rfl
    · have hold := h.holds c hc
      exact ⟨(hfar c hc 0 (by omega) (by omega)).trans hold.magic,
        (hfar c hc 8 (by omega) (by omega)).trans hold.size,
        (hfar c hc 12 (by omega) (by omega)).trans hold.state⟩
    · exact hnewBlock
  · intro c hc
    rw [List.mem_append, List.mem_singleton] at hc
    rcases hc with hc | rfl
    · exact (hfar c (List.mem_cons_of_mem _ hc) 16 (by omega) (by omega)).trans (h.addr c hc)
    · exact haddr
  · have hthread := h.threaded
    rw [hlast, List.map_append, List.map_singleton] at hthread
    rw [← List.cons_append, hlast, List.append_assoc, List.map_append]
    have hsnoc : Threaded (blockNext m') (pre.map Extent.pos ++ [b.pos, next]) := by
      apply hthread.snoc _ hlink hend
      intro r hr
      obtain ⟨c, hc, rfl⟩ := List.mem_map.mp hr
      have hc' : c ∈ rootBlock a.memStart :: blocks := by rw [hlast]; simp [hc]
      have hordered := h.ordered
      rw [hlast] at hordered
      have hcb := (List.pairwise_append.mp hordered).2.2 c hc b (by simp)
      apply hfar c hc' 20 (by omega)
      intro heq
      rw [heq] at hcb
      unfold Extent.stop memBlockSize at hcb
      omega
    exact hsnoc
  · rw [← List.cons_append]
    exact h.ordered.snoc hbehind
  · intro c hc
    rcases hmem c hc with hc | rfl
    · exact h.fits c hc
    · exact hfits
  · apply List.nodup_cons.mpr
    refine ⟨fun hlive => ?_, h.nodup⟩
    obtain ⟨c, hc, -, hp⟩ := h.used _ hlive
    have := hlt c (List.mem_cons_of_mem _ hc)
    omega
  · intro p hp
    rw [List.mem_cons] at hp
    rcases hp with rfl | hp
    · exact ⟨⟨next, size, false⟩, by simp, rfl, rfl⟩
    · obtain ⟨c, hc, hused, hpc⟩ := h.used p hp
      exact ⟨c, by simp [hc], hused, hpc⟩

/-- Storing one field of a header, `size` or `state`, keeps the blocks. -/
theorem store_field (h : Blocks limit a live (pre ++ b :: post)) {k v : Nat}
    (hk : k = 8 ∨ k = 12) (hpos : e.pos = b.pos) (hsize : e.size ≤ b.size)
    (hholds : HasBlock (a.mem.store32 (b.pos + k) v) e) {live' : List Nat}
    (hnodup : live'.Nodup)
    (hused : ∀ p ∈ live', ∃ c ∈ pre ++ e :: post, c.free = false ∧ p = c.pos + memBlockSize) :
    Blocks limit { a with mem := a.mem.store32 (b.pos + k) v } live' (pre ++ e :: post) := by
  have hmem : b ∈ pre ++ b :: post := by simp
  have hfits := h.header_fits (List.mem_cons_of_mem _ hmem)
  unfold memBlockSize at hfits
  apply h.replace hpos hsize
  · intro x hx
    unfold Extent.InHeader memBlockSize at hx
    exact Mem.store32_apply_of_disjoint _ _ (by omega) (by omega)
  · exact hholds
  · exact Mem.load32_store32_of_disjoint _ _ (by omega) (by omega) (by omega)
  · rw [← h.addr b hmem]
    exact Mem.load32_store32_of_disjoint _ _ (by omega) (by omega) (by omega)
  · exact hnodup
  · exact hused

/-- A block in use shrinks in place. -/
theorem shrink (h : Blocks limit a live (pre ++ b :: post)) {size : Nat}
    (hsize : size ≤ b.size) (hlt : size < 2 ^ 32) :
    Blocks limit { a with mem := a.mem.store32 (b.pos + 8) size } live
      (pre ++ { b with size := size } :: post) := by
  have hmem : b ∈ rootBlock a.memStart :: (pre ++ b :: post) := by simp
  have hfits := h.header_fits hmem
  have hold := h.holds b hmem
  unfold memBlockSize at hfits
  have hfar : ∀ k, k ≤ 20 → (k = 0 ∨ 12 ≤ k) →
      (a.mem.store32 (b.pos + 8) size).load32 (b.pos + k) = a.mem.load32 (b.pos + k) :=
    fun k hk hk' => Mem.load32_store32_of_disjoint _ _ (by omega) (by omega) (by omega)
  apply h.store_field (e := { b with size := size }) (Or.inl rfl) rfl hsize _ h.nodup
  · intro p hp
    obtain ⟨c, hc, hused, hpc⟩ := h.used p hp
    rcases mem_replace hc with rfl | hc'
    · exact ⟨{ c with size := size }, by simp, hused, hpc⟩
    · exact ⟨c, hc', hused, hpc⟩
  · exact ⟨(hfar 0 (by omega) (by omega)).trans hold.magic,
      Mem.load32_store32_same _ hlt,
      (hfar 12 (by omega) (by omega)).trans hold.state⟩

/-- A block in use is freed, and its pointer is no longer live. -/
theorem free (h : Blocks limit a live (pre ++ b :: post)) :
    Blocks limit { a with mem := a.mem.store32 (b.pos + 12) memStateFree }
      (live.erase (b.pos + memBlockSize)) (pre ++ { b with free := true } :: post) := by
  have hmem : b ∈ rootBlock a.memStart :: (pre ++ b :: post) := by simp
  have hfits := h.header_fits hmem
  have hold := h.holds b hmem
  unfold memBlockSize at hfits
  have hfar : ∀ k, k ≤ 8 → (a.mem.store32 (b.pos + 12) memStateFree).load32 (b.pos + k) =
      a.mem.load32 (b.pos + k) :=
    fun k hk => Mem.load32_store32_of_disjoint _ _ (by omega) (by omega) (by omega)
  apply h.store_field (e := { b with free := true }) (Or.inr rfl) rfl (Nat.le_refl _) _
    (h.nodup.erase _)
  · intro p hp
    obtain ⟨hne, hp⟩ := (h.nodup.mem_erase_iff).mp hp
    obtain ⟨c, hc, hused, hpc⟩ := h.used p hp
    rcases mem_replace hc with rfl | hc'
    · exact absurd hpc hne
    · exact ⟨c, hc', hused, hpc⟩
  · exact ⟨(hfar 0 (by omega)).trans hold.magic, (hfar 8 (by omega)).trans hold.size,
      Mem.load32_store32_same _ (by decide)⟩

/-- Flags do not matter to the blocks. -/
theorem store_flags (h : Blocks limit a live blocks)
    (hb : b ∈ rootBlock a.memStart :: blocks) (v : Nat) :
    Blocks limit { a with mem := a.mem.store32 (b.pos + 4) v } live blocks := by
  apply h.congr
  intro c hc
  apply SameBlock.store_flags _ _ (h.header_fits hb) (h.header_fits hc)
  rcases h.ordered.eq_or_apart hc hb with rfl | hlt | hlt
  · exact Or.inl rfl
  · unfold Extent.stop at hlt
    omega
  · unfold Extent.stop at hlt
    omega

end Blocks

/-! ## What the operations do -/

/-- An aligned size is zero, or covers the size asked for. -/
theorem le_alignedSize {size : Nat} (h : size < 2 ^ 32) (hne : alignedSize size ≠ 0) :
    size ≤ alignedSize size := by
  unfold alignedSize alignment at hne ⊢
  split at hne
  · rename_i h0
    rw [if_pos h0]
  · rename_i h0
    rw [if_neg h0]
    omega

/-- Up to `2 ^ 32 - 64` only the size 0 aligns to 0. -/
theorem alignedSize_eq_zero {size : Nat} (h : size ≤ 2 ^ 32 - 64) (h0 : alignedSize size = 0) :
    size = 0 := by
  unfold alignedSize alignment at h0
  split at h0 <;> omega

/-- What is asked for does not round to nothing. -/
theorem alignedSize_ne_zero {size : Nat} (hpos : 0 < size) (hsize : size ≤ 2 ^ 32 - 64) :
    alignedSize size ≠ 0 := fun h0 => by
  have := alignedSize_eq_zero hsize h0
  omega

/-- If `kalloc` appends a block, the block ends at `limit` or before. -/
def AppendFits (limit : Nat) (a : Allocator) (size : Nat) : Prop :=
  ∀ current, findBlock a.mem (alignedSize size) addrSpace a.head = some (.append current) →
    current + memBlockSize + blockSize a.mem current + memBlockSize + alignedSize size ≤ limit

/-- The parts of an allocator that no operation changes. -/
def SameArena (a a' : Allocator) : Prop :=
  a'.memStart = a.memStart ∧ a'.memSize = a.memSize ∧ a'.head = a.head

/-- Where the blocks are, and how large. -/
def spans (blocks : List Extent) : List (Nat × Nat) := blocks.map fun b => (b.pos, b.size)

/-- `p` is the pointer of a block that was there before, or of a new one behind the
last. -/
inductive Placed (start size : Nat) (blocks blocks' : List Extent) (p : Nat) : Prop
  | reused (b : Extent) (hb : b ∈ blocks) (hp : p = b.pos + memBlockSize)
    (hspans : spans blocks' = spans blocks)
  | appended (front : List Extent) (b : Extent) (hlast : rootBlock start :: blocks = front ++ [b])
    (hsize : 0 < alignedSize size) (hp : p = b.stop memBlockSize + memBlockSize)
    (hspans : spans blocks' = spans blocks ++ [(b.stop memBlockSize, alignedSize size)])

/-- What `krealloc(p, size)` does to the blocks when it returns `q`. -/
inductive Resized (start p size : Nat) (blocks blocks' : List Extent) (q : Nat) : Prop
  | placed (h : Placed start size blocks blocks' q)
  | shrunk (front : List Extent) (b : Extent) (back : List Extent)
    (hblocks : blocks = front ++ b :: back) (hsize : size < b.size) (hp : p = b.pos + memBlockSize)
    (hq : q = p) (hspans : spans blocks' = spans (front ++ { b with size := size } :: back))
  | null (hq : q = 0) (hspans : spans blocks' = spans blocks)

section Operations

variable {limit : Nat} {a a' : Allocator} {live : List Nat} {blocks : List Extent}
  {size p : Nat}

/-- Where the blocks are decides where one was placed. -/
theorem Placed.congr {start : Nat} {blocks' blocks'' : List Extent}
    (h : Placed start size blocks blocks' p) (hspans : spans blocks'' = spans blocks') :
    Placed start size blocks blocks'' p := by
  cases h with
  | reused b hb hp hsame => exact .reused b hb hp (hspans.trans hsame)
  | appended front b hlast hsize hp hsame =>
    exact .appended front b hlast hsize hp (hspans.trans hsame)

/-- `init_alloc` makes the root block. -/
theorem initAlloc_blocks (m : Mem) {start : Nat} (hlimit : limit ≤ 2 ^ 32)
    (hfits : start + memBlockSize ≤ limit) : Blocks limit (initAlloc m start size) [] [] := by
  unfold memBlockSize at hfits
  have hholds : HasBlock (initAlloc m start size).mem (rootBlock start) := by
    refine ⟨?_, ?_, ?_⟩
    · unfold blockMagic initAlloc rootBlock
      simp (disch := omega) only [Mem.load32_store32_of_disjoint]
      exact Mem.load32_store32_same _ (by decide)
    · unfold blockSize initAlloc rootBlock
      simp (disch := omega) only [Mem.load32_store32_of_disjoint]
      exact Mem.load32_store32_same _ (by decide)
    · unfold blockState initAlloc rootBlock
      simp (disch := omega) only [Mem.load32_store32_of_disjoint]
      exact Mem.load32_store32_same _ (by decide)
  constructor
  · exact hlimit
  · rfl
  · intro b hb
    rw [List.mem_singleton] at hb
    rw [hb]
    exact hholds
  · intro b hb
    cases hb
  · change blockNext (initAlloc m start size).mem start = 0
    unfold blockNext initAlloc
    simp (disch := omega) only [Mem.load32_store32_of_disjoint]
    exact Mem.load32_store32_same _ (by decide)
  · exact List.pairwise_singleton _ _
  · intro b hb
    rw [List.mem_singleton] at hb
    rw [hb]
    exact hfits
  · exact List.nodup_nil
  · intro p hp
    cases hp

/-- `kalloc` returns `NULL` and changes nothing if the aligned size is 0, else it takes
the free block that its search finds, or appends one behind the last. -/
theorem kalloc_found (h : Blocks limit a live blocks) (hfits : AppendFits limit a size)
    (hok : kalloc a size = .ok (a', p)) :
    (alignedSize size = 0 ∧ a' = a ∧ p = 0) ∨
      (alignedSize size ≠ 0 ∧ ∃ pre b post, blocks = pre ++ b :: post ∧ b.free = true ∧
        alignedSize size ≤ b.size ∧ a' = { a with mem := reuseBlock a.mem b.pos } ∧
        p = blockAddr a'.mem b.pos ∧
        findBlock a.mem (alignedSize size) addrSpace a.head = some (.reuse b.pos)) ∨
      (alignedSize size ≠ 0 ∧ ∃ pre b, rootBlock a.memStart :: blocks = pre ++ [b] ∧
        b.stop memBlockSize + memBlockSize + alignedSize size ≤ limit ∧
        a' = { a with
          mem := appendBlock a.mem b.pos (b.stop memBlockSize) (alignedSize size) } ∧
        p = blockAddr a'.mem (b.stop memBlockSize) ∧
        findBlock a.mem (alignedSize size) addrSpace a.head = some (.append b.pos)) := by
  have hlimit := h.limit_le
  have hspec := findBlock_spec (alignedSize size) h.holds (fun c hc => h.pos_ne_zero hc)
    h.threaded h.length_le
  have hroot : (rootBlock a.memStart).pos = a.head := h.head.symm
  rw [hroot] at hspec
  obtain ⟨-, hnull | ⟨h0, current, hfind, rfl, rfl⟩ | ⟨h0, current, hfind, -, rfl, rfl⟩⟩ :=
    kalloc_eq_ok hok
  · exact Or.inl hnull
  · -- a free block is large enough; it is not the root, which is in use
    rw [hfind] at hspec
    rcases hspec with ⟨pre, b, post, hblocks, hfree, hbig, hsome⟩ | ⟨_, _, -, hsome⟩
    · cases hsome
      cases pre with
      | nil =>
        rw [List.nil_append, List.cons.injEq] at hblocks
        rw [← hblocks.1] at hfree
        cases hfree
      | cons r pre =>
        rw [List.cons_append, List.cons.injEq] at hblocks
        exact Or.inr (Or.inl ⟨h0, pre, b, post, hblocks.2, hfree, hbig, rfl, rfl, hfind⟩)
    · cases hsome
  · -- no free block is large enough: one is appended
    rw [hfind] at hspec
    rcases hspec with ⟨_, _, _, -, -, -, hsome⟩ | ⟨pre, b, hblocks, hsome⟩
    · cases hsome
    · cases hsome
      have hb : b ∈ rootBlock a.memStart :: blocks := by rw [hblocks]; simp
      have hbsize := (h.holds b hb).size
      have hend := hfits b.pos hfind
      rw [hbsize] at hend
      have hnext : nextBlock a.mem b.pos = b.stop memBlockSize := by
        unfold nextBlock
        rw [hbsize]
        exact wrap_eq (by unfold memBlockSize at hend ⊢; omega)
      rw [hnext]
      exact Or.inr (Or.inr ⟨h0, pre, b, hblocks, hend, rfl, rfl, hfind⟩)

theorem kalloc_cases (h : Blocks limit a live blocks) (hfits : AppendFits limit a size)
    (hok : kalloc a size = .ok (a', p)) :
    (alignedSize size = 0 ∧ a' = a ∧ p = 0) ∨
      (alignedSize size ≠ 0 ∧ ∃ pre b post, blocks = pre ++ b :: post ∧ b.free = true ∧
        alignedSize size ≤ b.size ∧ a' = { a with mem := reuseBlock a.mem b.pos } ∧
        p = blockAddr a'.mem b.pos) ∨
      (alignedSize size ≠ 0 ∧ ∃ pre b, rootBlock a.memStart :: blocks = pre ++ [b] ∧
        b.stop memBlockSize + memBlockSize + alignedSize size ≤ limit ∧
        a' = { a with
          mem := appendBlock a.mem b.pos (b.stop memBlockSize) (alignedSize size) } ∧
        p = blockAddr a'.mem (b.stop memBlockSize)) := by
  rcases kalloc_found h hfits hok with hnull | ⟨h0, pre, b, post, hblocks, hfree, hbig, ha, hp, -⟩ |
    ⟨h0, pre, b, hblocks, hend, ha, hp, -⟩
  · exact Or.inl hnull
  · exact Or.inr (Or.inl ⟨h0, pre, b, post, hblocks, hfree, hbig, ha, hp⟩)
  · exact Or.inr (Or.inr ⟨h0, pre, b, hblocks, hend, ha, hp⟩)

/-- `kalloc` returns `NULL` and changes nothing if the aligned size is 0, else it
returns a new live pointer to a block that is large enough, of those that were there
or behind them, and the blocks in use stay as they are. -/
theorem kalloc_placed (h : Blocks limit a live blocks) (hsize : size < 2 ^ 32)
    (hfits : AppendFits limit a size) (hok : kalloc a size = .ok (a', p)) :
    SameArena a a' ∧
      ((alignedSize size = 0 ∧ a' = a ∧ p = 0) ∨
        (alignedSize size ≠ 0 ∧ ∃ blocks', Blocks limit a' (p :: live) blocks' ∧
          (∃ b ∈ blocks', p = b.pos + memBlockSize ∧ size ≤ b.size) ∧
          (∀ b ∈ blocks, b.free = false → b ∈ blocks') ∧
          Placed a.memStart size blocks blocks' p)) := by
  rcases kalloc_cases h hfits hok with ⟨h0, rfl, rfl⟩ |
    ⟨h0, pre, b, post, rfl, hfree, hbig, rfl, rfl⟩ | ⟨h0, pre, b, hblocks, hend, rfl, rfl⟩
  · exact ⟨⟨rfl, rfl, rfl⟩, Or.inl ⟨h0, rfl, rfl⟩⟩
  · have hnew := h.reuse hfree
    have haddr : blockAddr (reuseBlock a.mem b.pos) b.pos = b.pos + memBlockSize :=
      hnew.addr { b with free := false } (by simp)
    refine ⟨⟨rfl, rfl, rfl⟩,
      Or.inr ⟨h0, pre ++ { b with free := false } :: post, ?_, ?_, ?_, ?_⟩⟩
    · rw [haddr]
      exact hnew
    · exact ⟨{ b with free := false }, by simp, haddr, Nat.le_trans (le_alignedSize hsize h0) hbig⟩
    · intro c hc hused
      rcases Blocks.mem_replace hc with rfl | hc'
      · rw [hfree] at hused
        cases hused
      · exact hc'
    · exact .reused b (by simp) haddr (by simp [spans])
  · have hnew := h.append hblocks (Nat.pos_of_ne_zero h0) hend
    have haddr : blockAddr (appendBlock a.mem b.pos (b.stop memBlockSize) (alignedSize size))
        (b.stop memBlockSize) = b.stop memBlockSize + memBlockSize :=
      hnew.addr ⟨b.stop memBlockSize, alignedSize size, false⟩ (by simp)
    refine ⟨⟨rfl, rfl, rfl⟩, Or.inr ⟨h0,
      blocks ++ [⟨b.stop memBlockSize, alignedSize size, false⟩], ?_, ?_, ?_, ?_⟩⟩
    · rw [haddr]
      exact hnew
    · exact ⟨⟨b.stop memBlockSize, alignedSize size, false⟩, by simp, haddr,
        le_alignedSize hsize h0⟩
    · intro c hc _
      simp [hc]
    · exact .appended pre b hblocks (Nat.pos_of_ne_zero h0) haddr (by simp [spans])

/-- `kalloc` returns `NULL` and changes nothing if the aligned size is 0, else it
returns a new live pointer to a block that is large enough, and the blocks in
use stay as they are. -/
theorem kalloc_blocks (h : Blocks limit a live blocks) (hsize : size < 2 ^ 32)
    (hfits : AppendFits limit a size) (hok : kalloc a size = .ok (a', p)) :
    SameArena a a' ∧
      ((alignedSize size = 0 ∧ a' = a ∧ p = 0) ∨
        (alignedSize size ≠ 0 ∧ ∃ blocks', Blocks limit a' (p :: live) blocks' ∧
          (∃ b ∈ blocks', p = b.pos + memBlockSize ∧ size ≤ b.size) ∧
          ∀ b ∈ blocks, b.free = false → b ∈ blocks')) := by
  obtain ⟨hsame, hnull | ⟨h0, blocks', hnew, howns, hkept, -⟩⟩ := kalloc_placed h hsize hfits hok
  · exact ⟨hsame, Or.inl hnull⟩
  · exact ⟨hsame, Or.inr ⟨h0, blocks', hnew, howns, hkept⟩⟩

/-- `kalloc` writes headers only. -/
theorem kalloc_frame (h : Blocks limit a live blocks) (hfits : AppendFits limit a size)
    (hok : kalloc a size = .ok (a', p)) {x : Nat}
    (hx : x < a.memStart ∨ limit ≤ x ∨ ∃ b ∈ blocks, b.free = false ∧ b.InPayload memBlockSize x) :
    a'.mem x = a.mem x := by
  have hlimit := h.limit_le
  -- none of these addresses is in a header
  have hheader : ∀ c ∈ rootBlock a.memStart :: blocks, x < c.pos ∨ c.pos + memBlockSize ≤ x := by
    intro c hc
    have hstart := h.start_le hc
    have hstop := h.fits c hc
    unfold Extent.stop at hstop
    rcases hx with hlow | hhigh | ⟨b, hb, -, hpay⟩
    · omega
    · omega
    · have hapart := h.ordered.header_apart (List.mem_cons_of_mem _ hb) hc hpay
      unfold Extent.InHeader at hapart
      omega
  rcases kalloc_cases h hfits hok with ⟨-, rfl, -⟩ | ⟨-, pre, b, post, rfl, -, -, rfl, -⟩ |
    ⟨-, pre, b, hblocks, hend, rfl, -⟩
  · rfl
  · have hb : b ∈ rootBlock a.memStart :: (pre ++ b :: post) := by simp
    exact reuseBlock_apply _ (h.header_fits hb) (hheader b hb)
  · have hb : b ∈ rootBlock a.memStart :: blocks := by rw [hblocks]; simp
    have hbehind : x < b.stop memBlockSize ∨ b.stop memBlockSize + memBlockSize ≤ x := by
      rcases hx with hlow | hhigh | ⟨c, hc, -, hpay⟩
      · have hstart := h.start_le hb
        unfold Extent.stop
        omega
      · omega
      · have hordered := h.ordered
        rw [hblocks] at hordered
        have hlast := hordered.stop_le_last (hblocks ▸ List.mem_cons_of_mem _ hc)
        unfold Extent.InPayload at hpay
        omega
    have hbheader := hheader b hb
    exact appendBlock_apply _ (h.header_fits hb) (by omega) (by omega) hbehind

/-- A live pointer is the payload of a block in use. -/
theorem Blocks.exists_of_live (h : Blocks limit a live blocks) (hp : p ∈ live) :
    ∃ pre b post, blocks = pre ++ b :: post ∧ b.free = false ∧ p = b.pos + memBlockSize ∧
      blockOf p = b.pos ∧ blockSize a.mem (blockOf p) = b.size := by
  obtain ⟨b, hb, hused, rfl⟩ := h.used p hp
  obtain ⟨pre, post, hsplit⟩ := List.append_of_mem hb
  have hblock := h.blockOf_eq (List.mem_cons_of_mem _ hb)
  refine ⟨pre, b, post, hsplit, hused, rfl, hblock, ?_⟩
  rw [hblock]
  exact (h.holds b (List.mem_cons_of_mem _ hb)).size

theorem Blocks.live_ne_zero (h : Blocks limit a live blocks) (hp : p ∈ live) : p ≠ 0 := by
  obtain ⟨b, -, -, rfl⟩ := h.used p hp
  unfold memBlockSize
  omega

/-- The order of the live pointers does not matter. -/
theorem Blocks.perm (h : Blocks limit a live blocks) {live' : List Nat}
    (hperm : live.Perm live') : Blocks limit a live' blocks :=
  { h with
    nodup := hperm.nodup_iff.mp h.nodup
    used := fun p hp => h.used p (hperm.mem_iff.mpr hp) }

/-- `kfree` takes the pointer off the live ones, keeps all other blocks, and moves
none. -/
theorem kfree_spans (h : Blocks limit a live blocks) (hp : p ∈ live)
    (hok : kfree a p = .ok a') :
    SameArena a a' ∧ ∃ blocks', Blocks limit a' (live.erase p) blocks' ∧
      (∀ b ∈ blocks, b.pos + memBlockSize ≠ p → b ∈ blocks') ∧ spans blocks' = spans blocks := by
  obtain ⟨pre, b, post, rfl, hused, rfl, hblock, -⟩ := h.exists_of_live hp
  rw [kfree_eq_ok hok, hblock]
  refine ⟨⟨rfl, rfl, rfl⟩, pre ++ { b with free := true } :: post, h.free, fun c hc hne => ?_,
    by simp [spans]⟩
  rcases Blocks.mem_replace hc with rfl | hc'
  · exact absurd rfl hne
  · exact hc'

/-- `kfree` takes the pointer off the live ones and keeps all other blocks. -/
theorem kfree_blocks (h : Blocks limit a live blocks) (hp : p ∈ live)
    (hok : kfree a p = .ok a') :
    SameArena a a' ∧ ∃ blocks', Blocks limit a' (live.erase p) blocks' ∧
      ∀ b ∈ blocks, b.pos + memBlockSize ≠ p → b ∈ blocks' := by
  obtain ⟨hsame, blocks', hfreed, hkept, -⟩ := kfree_spans h hp hok
  exact ⟨hsame, blocks', hfreed, hkept⟩

/-- Filling the payload of a new block keeps the blocks. -/
theorem Blocks.write_range (h : Blocks limit a live blocks) {b : Extent} (hb : b ∈ blocks)
    {m' : Mem} {len : Nat} (hlen : len ≤ b.size)
    (hout : ∀ x, (x < b.pos + memBlockSize ∨ b.pos + memBlockSize + len ≤ x) →
      m' x = a.mem x) :
    Blocks limit { a with mem := m' } live blocks := by
  apply h.write_payload hb
  intro x hx
  apply hout
  unfold Extent.InPayload Extent.stop at hx
  omega

theorem Blocks.payload_fits (h : Blocks limit a live blocks) {b : Extent} (hb : b ∈ blocks) :
    b.pos + memBlockSize + b.size ≤ 2 ^ 32 :=
  Nat.le_trans (h.fits b (List.mem_cons_of_mem _ hb)) h.limit_le

/-- The live pointers after an allocation that returned `p`. -/
def liveAfter (live : List Nat) (p : Nat) : List Nat := if p = 0 then live else p :: live

/-- `kallocz` allocates like `kalloc`. -/
theorem kallocz_placed (h : Blocks limit a live blocks) (hsize : size ≤ 2 ^ 32 - 64)
    (hfits : AppendFits limit a size) (hok : kallocz a size = .ok (a', p)) :
    SameArena a a' ∧ ∃ blocks', Blocks limit a' (liveAfter live p) blocks' ∧
      (p ≠ 0 → ∃ b ∈ blocks', p = b.pos + memBlockSize ∧ size ≤ b.size) ∧
      ((p = 0 ∧ spans blocks' = spans blocks) ∨ Placed a.memStart size blocks blocks' p) := by
  obtain ⟨a₁, hkalloc, rfl⟩ := kallocz_eq_ok hok
  obtain ⟨hsame, hcase⟩ := kalloc_placed h (by omega) hfits hkalloc
  refine ⟨hsame, ?_⟩
  rcases hcase with ⟨h0, rfl, rfl⟩ | ⟨-, blocks', hnew, ⟨b, hb, rfl, hbig⟩, -, hplaced⟩
  · rw [alignedSize_eq_zero hsize h0]
    exact ⟨blocks, h, fun hne => absurd rfl hne, Or.inl ⟨rfl, rfl⟩⟩
  · have hfit := hnew.payload_fits hb
    have hne : b.pos + memBlockSize ≠ 0 := hnew.live_ne_zero (by simp)
    rw [liveAfter, if_neg hne]
    refine ⟨blocks', hnew.write_range hb hbig fun x hx => ?_, fun _ => ⟨b, hb, rfl, hbig⟩,
      Or.inr hplaced⟩
    exact Mem.fill_apply_of_disjoint 0 size _ _ x (by omega) hx

/-- `kallocz` keeps the heap in order. -/
theorem kallocz_blocks (h : Blocks limit a live blocks) (hsize : size ≤ 2 ^ 32 - 64)
    (hfits : AppendFits limit a size) (hok : kallocz a size = .ok (a', p)) :
    SameArena a a' ∧ ∃ blocks', Blocks limit a' (liveAfter live p) blocks' ∧
      (p ≠ 0 → ∃ b ∈ blocks', p = b.pos + memBlockSize ∧ size ≤ b.size) := by
  obtain ⟨hsame, blocks', hnew, howns, -⟩ := kallocz_placed h hsize hfits hok
  exact ⟨hsame, blocks', hnew, howns⟩

/-- `krealloc` shrinks a block in place, or moves it to a new one and frees it. -/
theorem krealloc_resized (h : Blocks limit a live blocks) (hp : p = 0 ∨ p ∈ live)
    (hsize : size ≤ 2 ^ 32 - 64)
    (hfits : (p = 0 ∨ blockSize a.mem (blockOf p) ≤ size) → AppendFits limit a size) {q : Nat}
    (hok : krealloc a p size = .ok (a', q)) :
    SameArena a a' ∧ ∃ blocks', Blocks limit a' (liveAfter (live.erase p) q) blocks' ∧
      (q ≠ 0 → ∃ b ∈ blocks', q = b.pos + memBlockSize ∧ size ≤ b.size) ∧
      Resized a.memStart p size blocks blocks' q := by
  rcases krealloc_eq_ok hok with ⟨h0, hkalloc⟩ | ⟨h0, -, -, hcase⟩
  · -- a new allocation
    have herase : live.erase p = live :=
      List.erase_of_not_mem fun hlive => h.live_ne_zero hlive h0
    obtain ⟨hsame, hcase⟩ := kalloc_placed h (by omega) (hfits (Or.inl h0)) hkalloc
    rw [herase]
    refine ⟨hsame, ?_⟩
    rcases hcase with ⟨-, rfl, rfl⟩ | ⟨-, blocks', hnew, hbig, -, hplaced⟩
    · exact ⟨blocks, h, fun hne => absurd rfl hne, .null rfl rfl⟩
    · rw [liveAfter, if_neg (hnew.live_ne_zero (by simp))]
      exact ⟨blocks', hnew, fun _ => hbig, .placed hplaced⟩
  have hlive : p ∈ live := hp.resolve_left h0
  obtain ⟨pre, b, post, rfl, hused, hpb, hblock, hbsize⟩ := h.exists_of_live hlive
  rcases hcase with ⟨hshrink, rfl, rfl⟩ | ⟨hgrow, a₁, hkalloc, hkfree⟩
  · rw [hbsize] at hshrink
    rw [hblock, liveAfter, if_neg h0]
    refine ⟨⟨rfl, rfl, rfl⟩, pre ++ { b with size := size } :: post, ?_, fun _ => ?_,
      .shrunk pre b post rfl hshrink hpb rfl rfl⟩
    · exact (h.shrink (by omega) (by omega)).perm (List.perm_cons_erase hlive)
    · exact ⟨{ b with size := size }, by simp, hpb, Nat.le_refl _⟩
  · obtain ⟨hsame₁, hcase⟩ := kalloc_placed h (by omega) (hfits (Or.inr hgrow)) hkalloc
    rw [hbsize] at hgrow
    rcases hcase with ⟨hz, rfl, rfl⟩ | ⟨-, blocks₁, hnew, ⟨c, hc, hqc, hbig⟩, hkept, hplaced⟩
    · -- nothing is asked for and nothing copied
      have hsize0 := alignedSize_eq_zero hsize hz
      have hlen : blockSize a₁.mem (blockOf p) = 0 := by omega
      simp only [hlen] at hkfree
      obtain ⟨hsame₂, blocks', hfreed, -, hspans⟩ := kfree_spans h hlive hkfree
      exact ⟨hsame₂, blocks', hfreed, fun hne => absurd rfl hne, .null rfl hspans⟩
    · have hb₁ : b ∈ blocks₁ := hkept b (by simp) hused
      have hsize₁ : blockSize a₁.mem (blockOf p) = b.size := by
        rw [hblock]
        exact (hnew.holds b (List.mem_cons_of_mem _ hb₁)).size
      have hfit := hnew.payload_fits hc
      have hcopied : Blocks limit
          { a₁ with mem := memcpy a₁.mem q p (blockSize a₁.mem (blockOf p)) } (q :: live) blocks₁ :=
        hnew.write_range hc (Nat.le_trans (Nat.le_of_eq hsize₁) (by omega)) fun x hx =>
          Mem.copy_apply_of_disjoint _ _ _ _ x (by omega) (by omega)
      obtain ⟨hsame₂, blocks', hfreed, hkept', hspans⟩ :=
        kfree_spans hcopied (List.mem_cons_of_mem _ hlive) hkfree
      have hqp : q ≠ p := fun heq =>
        (List.nodup_cons.mp hnew.nodup).1 (heq ▸ hlive)
      have hq0 : q ≠ 0 := hnew.live_ne_zero (by simp)
      rw [List.erase_cons_tail (by simpa using hqp)] at hfreed
      rw [liveAfter, if_neg hq0]
      refine ⟨⟨hsame₂.1.trans hsame₁.1, hsame₂.2.1.trans hsame₁.2.1,
        hsame₂.2.2.trans hsame₁.2.2⟩, blocks', hfreed, fun _ => ⟨c, ?_, hqc, hbig⟩,
        .placed (hplaced.congr hspans)⟩
      exact hkept' c hc fun heq => hqp (by rw [hqc, heq])

/-- `krealloc` keeps the heap in order. -/
theorem krealloc_blocks (h : Blocks limit a live blocks) (hp : p = 0 ∨ p ∈ live)
    (hsize : size ≤ 2 ^ 32 - 64)
    (hfits : (p = 0 ∨ blockSize a.mem (blockOf p) ≤ size) → AppendFits limit a size) {q : Nat}
    (hok : krealloc a p size = .ok (a', q)) :
    SameArena a a' ∧ ∃ blocks', Blocks limit a' (liveAfter (live.erase p) q) blocks' ∧
      (q ≠ 0 → ∃ b ∈ blocks', q = b.pos + memBlockSize ∧ size ≤ b.size) := by
  obtain ⟨hsame, blocks', hnew, howns, -⟩ := krealloc_resized h hp hsize hfits hok
  exact ⟨hsame, blocks', hnew, howns⟩

/-- `kmmcritical` on the pointer of a block keeps the blocks. -/
theorem kmmcritical_blocks (h : Blocks limit a live blocks) {b : Extent}
    (hb : b ∈ rootBlock a.memStart :: blocks)
    (hok : kmmcritical a (b.pos + memBlockSize) = .ok a') :
    SameArena a a' ∧ Blocks limit a' live blocks := by
  rw [kmmcritical_eq_ok hok, h.blockOf_eq hb]
  exact ⟨⟨rfl, rfl, rfl⟩, h.store_flags hb _⟩

/-- A byte stored in the payload of a live block keeps the blocks. -/
theorem store8_blocks (h : Blocks limit a live blocks) (hp : p ∈ live) {x : Nat} (v : UInt8)
    (hx : p ≤ x ∧ x < p + blockSize a.mem (blockOf p)) :
    Blocks limit { a with mem := a.mem.store8 x v } live blocks := by
  obtain ⟨pre, b, post, rfl, -, rfl, -, hbsize⟩ := h.exists_of_live hp
  have hfit := h.payload_fits (b := b) (by simp)
  rw [hbsize] at hx
  apply h.write_payload (b := b) (by simp)
  intro y hy
  apply Mem.store8_apply_of_ne _ _ (by omega)
  intro heq
  apply hy
  unfold Extent.InPayload Extent.stop
  omega

end Operations

end Microboot.Kern
