/-
  Kern/Chain.lean --- the chain of blocks over whole runs of the allocator.

  A call either moves no block, or puts one behind the last, or cuts one off where it
  is.  From that follow two results about every state that a run reaches: when the
  blocks tile the memory, and when the exhaustive check of `alloc_valid_addr` accepts
  exactly the pointers that were handed out.

  `krealloc` shrinks a block without looking at what is behind it, and `init_alloc`
  leaves the field `addr` of the head as it was.
-/
import Microboot.Kern.AllocRun
import Microboot.Kern.Realloc

set_option autoImplicit false

namespace Microboot.Kern

open Microboot.Foundation

/-! ## What a call does to the chain -/

/-- What the call does to the blocks when it returns `p`. -/
def AllocOp.Moves (start : Nat) (blocks blocks' : List Extent) (p : Nat) : AllocOp → Prop
  | kalloc size | kallocz size =>
    (p = 0 ∧ spans blocks' = spans blocks) ∨ Placed start size blocks blocks' p
  | krealloc ptr newSize => Resized start ptr newSize blocks blocks' p
  | kfree _ | kmmcritical _ | write _ _ => spans blocks' = spans blocks

section Steps

variable {limit p : Nat} {s s' : HeapState} {op : AllocOp} {blocks : List Extent}

/-- A step keeps the heap in order, and moves the blocks as its call does. -/
theorem heapStep_moves (h : Blocks limit s.allocator s.live blocks)
    (hstep : HeapStep MarksBlock limit s (op, p) s') :
    SameArena s.allocator s'.allocator ∧ ∃ blocks', Blocks limit s'.allocator s'.live blocks' ∧
      op.Moves s.allocator.memStart blocks blocks' p := by
  obtain ⟨allocator, live⟩ := s
  obtain ⟨allocator', live'⟩ := s'
  obtain ⟨hadm, hexec, hlive⟩ := hstep
  dsimp only at hexec hlive h ⊢
  subst hlive
  cases op with
  | kalloc n =>
    obtain ⟨hsame, ⟨-, rfl, rfl⟩ | ⟨-, blocks', hnew, -, -, hplaced⟩⟩ :=
      kalloc_placed h hadm.1 hadm.2 hexec
    · exact ⟨hsame, blocks, h, Or.inl ⟨rfl, rfl⟩⟩
    · refine ⟨hsame, blocks', ?_, Or.inr hplaced⟩
      unfold AllocOp.liveAfter Kern.liveAfter
      rw [if_neg (hnew.live_ne_zero (List.mem_cons_self ..))]
      exact hnew
  | kallocz n =>
    obtain ⟨hsame, blocks', hnew, -, hmoves⟩ := kallocz_placed h hadm.1 hadm.2 hexec
    exact ⟨hsame, blocks', hnew, hmoves⟩
  | krealloc ptr n =>
    obtain ⟨hsame, blocks', hnew, -, hmoves⟩ := krealloc_resized h hadm.1 hadm.2.1 hadm.2.2 hexec
    exact ⟨hsame, blocks', hnew, hmoves⟩
  | kfree ptr =>
    obtain ⟨a', hkfree, hret⟩ := bind_eq_ok hexec
    cases hret
    obtain ⟨hsame, blocks', hnew, -, hspans⟩ := kfree_spans h hadm hkfree
    exact ⟨hsame, blocks', hnew, hspans⟩
  | kmmcritical ptr =>
    obtain ⟨a', hmark, hret⟩ := bind_eq_ok hexec
    cases hret
    obtain ⟨b, hb, rfl⟩ := MarksBlock.exists_block hadm h
    obtain ⟨hsame, hnew⟩ := kmmcritical_blocks h hb hmark
    exact ⟨hsame, blocks, hnew, rfl⟩
  | write ptr value =>
    obtain ⟨q, hq, hlo, hhi⟩ := hadm
    cases hexec
    exact ⟨⟨rfl, rfl, rfl⟩, blocks, store8_blocks h hq value ⟨hlo, hhi⟩, rfl⟩

end Steps

/-! ## Tiling -/

/-- The blocks of a chain in memory, each with its size. -/
def chainSpans (m : Mem) (chain : List Nat) : List (Nat × Nat) :=
  chain.map fun block => (block, blockSize m block)

/-- The sizes of all blocks but the head are positive multiples of the alignment, each
header starts where the payload in front of it ends, every byte from the head up to
`top` is in the header or in the payload of exactly one block, and freeing a block
leaves it its size. -/
structure Tiled (s : HeapState) (chain : List Nat) (top : Nat) : Prop where
  walk : s.allocator.chain = some chain
  aligned : ∀ b ∈ chain.tail, 0 < blockSize s.allocator.mem b ∧
    blockSize s.allocator.mem b % alignment = 0
  adjacent : Tiles memBlockSize s.allocator.head (chainSpans s.allocator.mem chain) top
  covered : ∀ x, s.allocator.head ≤ x → x < top → ∃ b ∈ chain,
    (InHeader b x ↔ ¬ InPayload s.allocator b x) ∧
      ∀ c ∈ chain, InHeader c x ∨ InPayload s.allocator c x → c = b
  freed : ∀ p ∈ s.live, ∀ a', kfree s.allocator p = .ok a' → blockOf p ∈ chain ∧
    blockState a'.mem (blockOf p) = memStateFree ∧
    blockSize a'.mem (blockOf p) = blockSize s.allocator.mem (blockOf p)

/-- A call that keeps the blocks end to end: a block that `krealloc` cuts off is the last
one, and keeps a positive multiple of the alignment. -/
def AllocOp.KeepsTiling (s : HeapState) : AllocOp → Prop
  | krealloc ptr newSize => ptr ∈ s.live → newSize < blockSize s.allocator.mem (blockOf ptr) →
    blockNext s.allocator.mem (blockOf ptr) = 0 ∧ 0 < newSize ∧ newSize % alignment = 0
  | _ => True

/-- A step of a call that keeps the blocks end to end. -/
def TilingStep (s : HeapState) (e : AllocOp × Nat) (s' : HeapState) : Prop :=
  HeapStep MarksBlock (2 ^ 32) s e s' ∧ e.1.KeepsTiling s

/-- The blocks behind the head have aligned sizes and lie end to end. -/
structure EndToEnd (start : Nat) (blocks : List Extent) (top : Nat) : Prop where
  aligned : ∀ e ∈ spans blocks, 0 < e.2 ∧ e.2 % alignment = 0
  tiles : Tiles memBlockSize start (spans (rootBlock start :: blocks)) top
section Tiling

variable {limit start top p : Nat} {s s' : HeapState} {op : AllocOp}
  {blocks blocks' : List Extent} {size : Nat}

/-- A rounded size is a multiple of the alignment. -/
theorem alignedSize_mod (size : Nat) : alignedSize size % alignment = 0 := by
  unfold alignedSize alignment
  split
  · assumption
  · omega

theorem EndToEnd.congr (h : EndToEnd start blocks top) (hspans : spans blocks' = spans blocks) :
    EndToEnd start blocks' top := by
  refine ⟨fun e he => h.aligned e (hspans ▸ he), ?_⟩
  have hroot : spans (rootBlock start :: blocks') = spans (rootBlock start :: blocks) :=
    congrArg ((start, 0) :: ·) hspans
  rw [hroot]
  exact h.tiles

/-- Where the last block ends, the next one is put. -/
theorem EndToEnd.placed (h : EndToEnd start blocks top)
    (hplaced : Placed start size blocks blocks' p) : ∃ top', EndToEnd start blocks' top' := by
  cases hplaced with
  | reused b hb hp hspans => exact ⟨top, h.congr hspans⟩
  | appended front b hlast hsize hp hspans =>
    have htiles := h.tiles
    have hfront : spans (rootBlock start :: blocks) = spans front ++ [(b.pos, b.size)] := by
      rw [hlast]
      simp [spans]
    rw [hfront, tiles_snoc] at htiles
    have htop : top = b.stop memBlockSize := htiles.2
    refine ⟨b.stop memBlockSize + memBlockSize + alignedSize size, fun e he => ?_, ?_⟩
    · rw [hspans, List.mem_append, List.mem_singleton] at he
      rcases he with he | rfl
      · exact h.aligned e he
      · exact ⟨hsize, alignedSize_mod size⟩
    · have hroot : spans (rootBlock start :: blocks') =
          spans (rootBlock start :: blocks) ++ [(b.stop memBlockSize, alignedSize size)] :=
        congrArg ((start, 0) :: ·) hspans
      rw [hroot, tiles_snoc]
      exact ⟨htop ▸ h.tiles, rfl⟩

/-- The last block may be cut off at a positive multiple of the alignment. -/
theorem EndToEnd.shrunk {front : List Extent} {b : Extent}
    (h : EndToEnd start (front ++ [b]) top) (hpos : 0 < size) (hmod : size % alignment = 0)
    (hspans : spans blocks' = spans (front ++ [{ b with size := size }])) :
    ∃ top', EndToEnd start blocks' top' := by
  have hroot : ∀ e : Extent, spans (rootBlock start :: (front ++ [e])) =
      spans (rootBlock start :: front) ++ [(e.pos, e.size)] := fun e => by simp [spans]
  have htiles := h.tiles
  rw [hroot, tiles_snoc] at htiles
  refine ⟨b.pos + memBlockSize + size, EndToEnd.congr ⟨fun e he => ?_, ?_⟩ hspans⟩
  · rw [spans, List.map_append, List.mem_append, List.map_singleton, List.mem_singleton] at he
    rcases he with he | rfl
    · exact h.aligned e (by simp [spans, List.mem_map.mp he])
    · exact ⟨hpos, hmod⟩
  · rw [hroot, tiles_snoc]
    exact ⟨htiles.1, rfl⟩

/-- A call that keeps the blocks end to end does. -/
theorem EndToEnd.step (h : Blocks limit s.allocator s.live blocks)
    (hends : EndToEnd s.allocator.memStart blocks top)
    (hstep : HeapStep MarksBlock limit s (op, p) s') (hkeeps : op.KeepsTiling s)
    (hmoves : op.Moves s.allocator.memStart blocks blocks' p) :
    ∃ top', EndToEnd s.allocator.memStart blocks' top' := by
  cases op with
  | kalloc n | kallocz n =>
    rcases hmoves with ⟨-, hspans⟩ | hplaced
    · exact ⟨top, hends.congr hspans⟩
    · exact hends.placed hplaced
  | kfree ptr | kmmcritical ptr => exact ⟨top, hends.congr hmoves⟩
  | write ptr value => exact ⟨top, hends.congr hmoves⟩
  | krealloc ptr n =>
    cases hmoves with
    | placed hplaced => exact hends.placed hplaced
    | null hq hspans => exact ⟨top, hends.congr hspans⟩
    | shrunk front b back hblocks hsize hp hq hspans =>
      subst hblocks
      have hb : b ∈ rootBlock s.allocator.memStart :: (front ++ b :: back) := by simp
      have hlive : ptr ∈ s.live := by
        refine hstep.1.1.resolve_left ?_
        unfold memBlockSize at hp
        omega
      have hof : blockOf ptr = b.pos := by rw [hp, h.blockOf_eq hb]
      obtain ⟨hnext, hpos, hmod⟩ := hkeeps hlive (by rw [hof, (h.holds b hb).size]; exact hsize)
      -- no block is behind it
      cases back with
      | nil => exact hends.shrunk hpos hmod hspans
      | cons c back =>
        have hthread := h.threaded
        rw [← List.cons_append, List.map_append, List.map_cons, List.map_cons] at hthread
        rw [hof, hthread.next_eq] at hnext
        exact absurd hnext (h.pos_ne_zero (by simp))

/-- The payload in memory is the payload of the block. -/
theorem Blocks.inPayload_iff {b : Extent} {x : Nat} (h : Blocks limit s.allocator s.live blocks)
    (hb : b ∈ rootBlock s.allocator.memStart :: blocks) :
    InPayload s.allocator b.pos x ↔ b.InPayload memBlockSize x := by
  refine ⟨h.inPayload hb, fun hx => ?_⟩
  unfold InPayload
  rw [(h.holds b hb).size]
  unfold Extent.InPayload Extent.stop at hx
  rcases List.mem_cons.mp hb with rfl | hb
  · -- the head has none
    have hsize : (rootBlock s.allocator.memStart).size = 0 := rfl
    omega
  · rw [h.addr b hb]
    exact hx

/-- What is in memory of blocks that lie end to end. -/
theorem EndToEnd.tiled (h : Blocks limit s.allocator s.live blocks)
    (hends : EndToEnd s.allocator.memStart blocks top) :
    Tiled s ((rootBlock s.allocator.memStart :: blocks).map Extent.pos) top := by
  have hspans : chainSpans s.allocator.mem
      ((rootBlock s.allocator.memStart :: blocks).map Extent.pos) =
        spans (rootBlock s.allocator.memStart :: blocks) := by
    unfold chainSpans spans
    rw [List.map_map]
    exact List.map_congr_left fun b hb => by simp [(h.holds b hb).size]
  refine ⟨h.chain_eq, fun p hp => ?_, ?_, fun x hlo hhi => ?_, fun p hp a' hok => ?_⟩
  · obtain ⟨b, hb, rfl⟩ := List.mem_map.mp hp
    rw [(h.holds b (List.mem_cons_of_mem _ hb)).size]
    exact hends.aligned (b.pos, b.size) (List.mem_map.mpr ⟨b, hb, rfl⟩)
  · rw [hspans, h.head]
    exact hends.tiles
  · rw [h.head] at hlo
    obtain ⟨e, he, hin, hunique⟩ := hends.tiles.exists_unique hlo hhi
    obtain ⟨b, hb, rfl⟩ := List.mem_map.mp he
    refine ⟨b.pos, List.mem_map_of_mem hb, ?_, fun q hq hx => ?_⟩
    · rw [h.inPayload_iff hb]
      unfold InHeader Extent.InPayload Extent.stop
      dsimp only at hin
      omega
    · obtain ⟨c, hc, rfl⟩ := List.mem_map.mp hq
      rw [h.inPayload_iff hc] at hx
      unfold InHeader Extent.InPayload Extent.stop at hx
      exact congrArg Prod.fst (hunique (c.pos, c.size) (List.mem_map.mpr ⟨c, hc, rfl⟩)
        (by dsimp only; omega) (by dsimp only; omega))
  · obtain ⟨pre, b, post, rfl, hused, rfl, hof, hsize⟩ := h.exists_of_live hp
    have hb : b ∈ rootBlock s.allocator.memStart :: (pre ++ b :: post) := by simp
    have hfits := h.header_fits hb
    rw [kfree_eq_ok hok, hof]
    unfold memBlockSize at hfits
    exact ⟨List.mem_map_of_mem hb, Mem.load32_store32_same _ (by decide),
      Mem.load32_store32_of_disjoint _ _ (by omega) (by omega) (by omega)⟩

/-- The heap is in order, and its blocks lie end to end. -/
def TilingInv (s : HeapState) : Prop :=
  ∃ blocks top, Blocks (2 ^ 32) s.allocator s.live blocks ∧
    EndToEnd s.allocator.memStart blocks top

theorem tilingInv_step {e : AllocOp × Nat} (h : TilingInv s) (hstep : TilingStep s e s') :
    TilingInv s' := by
  obtain ⟨blocks, top, h, hends⟩ := h
  obtain ⟨hsame, blocks', h', hmoves⟩ := heapStep_moves h hstep.1
  obtain ⟨top', hends'⟩ := hends.step h hstep.1 hstep.2 hmoves
  exact ⟨blocks', top', h', hsame.1 ▸ hends'⟩

/-- In every run in which nothing wraps, and `krealloc` cuts off the last block only, at
positive multiples of the alignment, the blocks tile the memory. -/
theorem heapRun_tiled (m : Mem) {start size : Nat} (hroot : start + memBlockSize ≤ 2 ^ 32)
    {trace : List (AllocOp × Nat)} {s : HeapState}
    (hrun : Run TilingStep (initHeap m start size) trace s) : ∃ chain top, Tiled s chain top := by
  have hinit : TilingInv (initHeap m start size) :=
    ⟨[], start + memBlockSize, initAlloc_blocks m (Nat.le_refl _) hroot,
      fun e he => absurd he List.not_mem_nil, rfl, rfl⟩
  obtain ⟨blocks, top, h, hends⟩ :=
    hrun.invariant hinit fun _ _ _ h hstep => tilingInv_step h hstep
  exact ⟨_, top, hends.tiled h⟩

/-- What is computed of one call more is the end of a run. -/
theorem HeapState.runs_tiling {s₀ : HeapState} {trace : List (AllocOp × Nat)}
    (hrun : Run TilingStep s₀ trace s) (hruns : s.runs MarksBlock (2 ^ 32) [op] = some s')
    (hkeeps : op.KeepsTiling s) : ∃ trace', Run TilingStep s₀ trace' s' := by
  unfold HeapState.runs at hruns
  split at hruns
  · next hadm =>
    split at hruns
    · next a p hexec =>
      cases hruns
      exact ⟨_, hrun.snoc (e := (op, p)) ⟨⟨hadm, hexec, rfl⟩, hkeeps⟩⟩
    · cases hruns
  · cases hruns

/-- A block is allocated, and cut off from 128 bytes to 64. -/
theorem heapRun_tiled_cut :
    ∃ trace s chain top, Run TilingStep (initHeap (fun _ => 0) 4096 4096) trace s ∧
      4144 ∈ s.live ∧ Tiled s chain top := by
  have hview : ((initHeap (fun _ => 0) 4096 4096).runs MarksBlock (2 ^ 32) [.kalloc 128]).any
      (fun s => decide (blockNext s.allocator.mem (blockOf 4144) = 0) &&
        (s.runs MarksBlock (2 ^ 32) [.krealloc 4144 64]).any
          (fun s => decide (4144 ∈ s.live))) = true := by
    decide +kernel
  obtain ⟨s₁, hs₁, hview⟩ := (Option.any_eq_true _ _).mp hview
  rw [Bool.and_eq_true] at hview
  obtain ⟨hnext, hview⟩ := hview
  obtain ⟨s, hs, hlive⟩ := (Option.any_eq_true _ _).mp hview
  obtain ⟨trace₁, hrun₁⟩ := HeapState.runs_tiling .nil hs₁ trivial
  obtain ⟨trace, hrun⟩ := HeapState.runs_tiling hrun₁ hs fun _ _ =>
    ⟨of_decide_eq_true hnext, by decide, by decide⟩
  obtain ⟨chain, top, htiled⟩ := heapRun_tiled _ (by decide) hrun
  exact ⟨trace, s, chain, top, hrun, of_decide_eq_true hlive, htiled⟩

/-- A block of 64 bytes that is cut off at 10 has no aligned size. -/
theorem not_tiled_cut :
    ¬ ∀ trace s, Run (HeapStep MarksBlock (2 ^ 32)) (initHeap (fun _ => 0) 4096 4096) trace s →
      ∃ chain top, Tiled s chain top := by
  intro h
  have hview : ((initHeap (fun _ => 0) 4096 4096).runs MarksBlock (2 ^ 32)
      [.kalloc 64, .krealloc 4144 10]).map
      (fun s => (s.allocator.chain, blockSize s.allocator.mem 4120)) =
      some (some [4096, 4120], 10) := by
    decide +kernel
  obtain ⟨s, hs, hview⟩ := Option.map_eq_some_iff.mp hview
  obtain ⟨trace, hrun⟩ := HeapState.runs_run .nil hs
  obtain ⟨chain, top, htiled⟩ := h trace s hrun
  simp only [Prod.mk.injEq] at hview
  have hchain := htiled.walk
  rw [hview.1, Option.some.injEq] at hchain
  subst hchain
  have haligned := (htiled.aligned 4120 (by simp)).2
  rw [hview.2] at haligned
  exact absurd haligned (by decide)

end Tiling

/-! ## alloc_valid_addr -/

/-- The walk of `alloc_valid_addr` over the chain. -/
def findAddr (m : Mem) (ptr : Nat) : Nat → Nat → Option Bool
  | 0, _ => none
  | fuel + 1, current =>
    if current = 0 then some false
    else if blockAddr m current = ptr then some true
    else findAddr m ptr fuel (blockNext m current)

/-- `alloc_valid_addr(ptr, quick)`; `none` if the walk does not end. -/
def allocValidAddr (a : Allocator) (ptr : Nat) (quick : Bool) : Option Bool :=
  if ¬ inArena a ptr then some false
  else if quick then some (blockMagic a.mem (blockOf ptr) == memBlockMagic)
  else findAddr a.mem ptr addrSpace a.head

/-- `p` is a payload address that a call of the run returned. -/
def Returned (trace : List (AllocOp × Nat)) (p : Nat) : Prop :=
  p ≠ 0 ∧ ∃ op, (op, p) ∈ trace ∧ op.request ≠ none

/-- What the exhaustive check accepts the quick one accepts, and it accepts exactly the
payload addresses that were returned so far. -/
structure ChecksAgree (a : Allocator) (trace : List (AllocOp × Nat)) : Prop where
  quick : ∀ p, allocValidAddr a p false = some true → allocValidAddr a p true = some true
  exhaustive : ∀ p, allocValidAddr a p false = some true ↔ Returned trace p

section ValidAddr

variable {limit start p : Nat} {s s' : HeapState} {op : AllocOp} {a : Allocator}
  {live : List Nat} {blocks blocks' : List Extent} {m : Mem} {trace : List (AllocOp × Nat)}

/-- The walk finds an address exactly if a block of the chain has it. -/
theorem findAddr_spec (ptr : Nat) {bs : List Extent} : ∀ {b : Extent} {fuel : Nat},
    (∀ c ∈ b :: bs, c.pos ≠ 0) → Threaded (blockNext m) ((b :: bs).map Extent.pos) →
    (b :: bs).length < fuel →
    findAddr m ptr fuel b.pos = some (decide (∃ c ∈ b :: bs, blockAddr m c.pos = ptr)) := by
  induction bs with
  | nil =>
    intro b fuel hpos hthread hfuel
    obtain ⟨fuel, rfl⟩ : ∃ k, fuel = k + 2 := ⟨fuel - 2, by simp at hfuel; omega⟩
    have hlast : blockNext m b.pos = 0 := hthread
    rw [findAddr, if_neg (hpos b (by simp)), hlast, findAddr, if_pos rfl]
    by_cases hb : blockAddr m b.pos = ptr
    · simp [hb]
    · simp [hb]
  | cons c cs ih =>
    intro b fuel hpos hthread hfuel
    obtain ⟨fuel, rfl⟩ : ∃ k, fuel = k + 1 := ⟨fuel - 1, by simp at hfuel; omega⟩
    have hnext : blockNext m b.pos = c.pos := hthread.1
    rw [findAddr, if_neg (hpos b (by simp)), hnext,
      ih (fun d hd => hpos d (List.mem_cons_of_mem _ hd)) hthread.2 (by simpa using hfuel)]
    by_cases hb : blockAddr m b.pos = ptr
    · simp [hb]
    · simp [hb]

/-- The chain is shorter than the address space, if it does not begin at 0. -/
theorem Blocks.length_lt (h : Blocks limit a live blocks) (hstart : a.memStart ≠ 0) :
    (rootBlock a.memStart :: blocks).length < addrSpace := by
  have hroot := h.fits _ List.mem_cons_self
  have hpos : (rootBlock a.memStart).pos = a.memStart := rfl
  have hle : a.memStart ≤ limit := by
    unfold Extent.stop at hroot
    omega
  have hlen := h.ordered.length_le (by decide) hle fun b hb => ⟨h.start_le hb, h.fits b hb⟩
  have hlimit := h.limit_le
  unfold addrSpace
  omega

/-- What the exhaustive check accepts: the pointer is in the arena, and is that of a
block or the word that the head has for its address. -/
theorem Blocks.exhaustive_iff (h : Blocks limit a live blocks) (p : Nat) :
    allocValidAddr a p false = some true ↔ a.memStart ≠ 0 ∧ inArena a p ∧
      (p = blockAddr a.mem a.memStart ∨ ∃ b ∈ blocks, p = b.pos + memBlockSize) := by
  unfold allocValidAddr
  by_cases hin : inArena a p
  · rw [if_neg (not_not.mpr hin), h.head]
    by_cases hstart : a.memStart = 0
    · -- the walk over a chain from 0 ends at once
      have hwalk : findAddr a.mem p addrSpace 0 = some false := rfl
      simp [hstart, hwalk]
    · have hwalk := findAddr_spec p (b := rootBlock a.memStart) (fun c hc => ?_) h.threaded
        (h.length_lt hstart)
      · change findAddr a.mem p addrSpace a.memStart = _ at hwalk
        rw [if_neg (by simp), hwalk]
        simp only [Option.some.injEq, decide_eq_true_eq, List.mem_cons, exists_eq_or_imp, ne_eq,
          hstart, not_false_eq_true, hin, true_and]
        refine or_congr eq_comm ⟨?_, ?_⟩
        · rintro ⟨b, hb, rfl⟩
          exact ⟨b, hb, h.addr b hb⟩
        · rintro ⟨b, hb, rfl⟩
          exact ⟨b, hb, h.addr b hb⟩
      · rcases List.mem_cons.mp hc with rfl | hc
        · exact hstart
        · exact h.pos_ne_zero hc
  · simp [hin]

/-! ### What a step keeps -/

/-- The pointers of the blocks. -/
def Pointer (blocks : List Extent) (p : Nat) : Prop := ∃ b ∈ blocks, p = b.pos + memBlockSize

theorem pointer_iff : Pointer blocks p ↔ ∃ e ∈ spans blocks, p = e.1 + memBlockSize := by
  simp [Pointer, spans]

theorem pointer_congr (hspans : spans blocks' = spans blocks) :
    Pointer blocks' p ↔ Pointer blocks p := by
  rw [pointer_iff, pointer_iff, hspans]

/-- A call adds the pointer that it returns to those of the blocks. -/
theorem Placed.pointer {size q : Nat} (h : Placed start size blocks blocks' p) :
    Pointer blocks' q ↔ Pointer blocks q ∨ q = p := by
  cases h with
  | reused b hb hp hspans =>
    rw [pointer_congr hspans]
    refine ⟨Or.inl, fun hq => hq.elim id ?_⟩
    rintro rfl
    exact ⟨b, hb, hp⟩
  | appended front b hlast hsize hp hspans =>
    rw [pointer_iff, pointer_iff, hspans, hp]
    simp [or_and_right, exists_or]

theorem Placed.ne_zero {size : Nat} (h : Placed start size blocks blocks' p) : p ≠ 0 := by
  cases h with
  | reused b hb hp hspans => rw [hp]; exact Nat.succ_ne_zero _
  | appended front b hlast hsize hp hspans => rw [hp]; exact Nat.succ_ne_zero _

theorem Resized.pointer {ptr size q : Nat} (h : Resized start ptr size blocks blocks' p) :
    Pointer blocks' q ↔ Pointer blocks q ∨ (q = p ∧ p ≠ 0) := by
  cases h with
  | placed h => rw [h.pointer, and_iff_left h.ne_zero]
  | null hq hspans => simp [pointer_congr hspans, hq]
  | shrunk front b back hblocks hsize hp hq hspans =>
    have hsame : Pointer blocks' q ↔ Pointer blocks q := by
      rw [pointer_congr hspans, hblocks]
      simp [Pointer, or_and_right, exists_or]
    rw [hsame]
    refine ⟨Or.inl, fun hptr => hptr.elim id ?_⟩
    rintro ⟨rfl, -⟩
    exact ⟨b, by simp [hblocks], hq.trans hp⟩

/-- The pointers of the blocks are those that were there, and the one returned. -/
theorem AllocOp.Moves.pointer {q : Nat} (h : op.Moves start blocks blocks' p) :
    Pointer blocks' q ↔ Pointer blocks q ∨ (q = p ∧ p ≠ 0 ∧ op.request ≠ none) := by
  cases op with
  | kalloc n | kallocz n =>
    rcases h with ⟨rfl, hspans⟩ | hplaced
    · simp [pointer_congr hspans]
    · simp [hplaced.pointer, hplaced.ne_zero, AllocOp.request]
  | krealloc ptr n =>
    rw [Resized.pointer h]
    simp [AllocOp.request]
  | kfree ptr | kmmcritical ptr =>
    rw [pointer_congr h]
    simp [AllocOp.request]
  | write ptr value =>
    rw [pointer_congr h]
    simp [AllocOp.request]

/-- A run returns the pointers of the blocks. -/
theorem returned_snoc {q : Nat} : Returned (trace ++ [(op, p)]) q ↔
    Returned trace q ∨ (q = p ∧ p ≠ 0 ∧ op.request ≠ none) := by
  unfold Returned
  simp only [List.mem_append, List.mem_singleton, Prod.mk.injEq]
  constructor
  · rintro ⟨hq, op', hmem | ⟨rfl, rfl⟩, hreq⟩
    · exact Or.inl ⟨hq, op', hmem, hreq⟩
    · exact Or.inr ⟨rfl, hq, hreq⟩
  · rintro (⟨hq, op', hmem, hreq⟩ | ⟨rfl, hq, hreq⟩)
    · exact ⟨hq, op', Or.inl hmem, hreq⟩
    · exact ⟨hq, op, Or.inr ⟨rfl, rfl⟩, hreq⟩

/-- There are blocks behind the head in an initialised allocator only. -/
theorem heapStep_start (h : Blocks limit s.allocator s.live blocks)
    (hstart : blocks ≠ [] → s.allocator.memStart ≠ 0)
    (hstep : HeapStep MarksBlock limit s (op, p) s')
    (hmoves : op.Moves s.allocator.memStart blocks blocks' p) (hne : blocks' ≠ []) :
    s.allocator.memStart ≠ 0 := by
  have hsame : spans blocks' = spans blocks → s.allocator.memStart ≠ 0 := by
    intro hspans
    refine hstart fun hnil => hne ?_
    rw [hnil] at hspans
    exact List.map_eq_nil_iff.mp hspans
  obtain ⟨hadm, hexec, -⟩ := hstep
  cases op with
  | kalloc n => exact (kalloc_eq_ok hexec).1
  | kallocz n =>
    obtain ⟨a₁, hkalloc, -⟩ := kallocz_eq_ok hexec
    exact (kalloc_eq_ok hkalloc).1
  | krealloc ptr n =>
    rcases hadm.1 with rfl | hlive
    · rcases krealloc_eq_ok hexec with ⟨-, hkalloc⟩ | ⟨h0, -⟩
      · exact (kalloc_eq_ok hkalloc).1
      · exact absurd rfl h0
    · obtain ⟨b, hb, -⟩ := h.used ptr hlive
      exact hstart (List.ne_nil_of_mem hb)
  | kfree ptr | kmmcritical ptr => exact hsame hmoves
  | write ptr value => exact hsame hmoves

/-- The blocks are behind the header of the head. -/
theorem Blocks.behind_root (h : Blocks limit a live blocks) {b : Extent} (hb : b ∈ blocks) :
    a.memStart + memBlockSize ≤ b.pos := by
  have hbehind := (List.pairwise_cons.mp h.ordered).1 b hb
  simp only [Extent.stop, rootBlock] at hbehind
  omega

section Head

variable {a' : Allocator} {size x : Nat}

/-- What is written behind the header of the head leaves it alone. -/
theorem kalloc_head (h : Blocks limit a live blocks) (hfits : AppendFits limit a size)
    (hok : kalloc a size = .ok (a', p)) (hlo : a.memStart ≤ x) (hhi : x < a.memStart + 20) :
    a'.mem x = a.mem x :=
  kalloc_header h hfits hok List.mem_cons_self rfl ⟨hlo, hhi⟩

theorem kallocz_head (h : Blocks limit a live blocks) (hsize : size ≤ 2 ^ 32 - 64)
    (hfits : AppendFits limit a size) (hok : kallocz a size = .ok (a', p)) (hlo : a.memStart ≤ x)
    (hhi : x < a.memStart + 20) : a'.mem x = a.mem x := by
  obtain ⟨a₁, hkalloc, rfl⟩ := kallocz_eq_ok hok
  have hhead := kalloc_head h hfits hkalloc hlo hhi
  obtain ⟨hsame, ⟨hzero, rfl, rfl⟩ | ⟨-, blocks₁, hnew, ⟨c, hc, rfl, hbig⟩, -⟩⟩ :=
    kalloc_blocks h (by omega) hfits hkalloc
  · rw [alignedSize_eq_zero hsize hzero]
    rfl
  · have hfit := hnew.payload_fits hc
    have hbehind := hnew.behind_root hc
    rw [hsame.1] at hbehind
    unfold memBlockSize at hbehind hfit
    rw [← hhead]
    exact Mem.fill_apply_of_disjoint _ _ _ _ x (by unfold memBlockSize; omega)
      (Or.inl (by unfold memBlockSize; omega))

theorem kfree_head (h : Blocks limit a live blocks) (hp : p ∈ live) (hok : kfree a p = .ok a')
    (hhi : x < a.memStart + 20) : a'.mem x = a.mem x := by
  obtain ⟨b, hb, -, rfl⟩ := h.used p hp
  have hmem : b ∈ rootBlock a.memStart :: blocks := List.mem_cons_of_mem _ hb
  have hbehind := h.behind_root hb
  have hfits := h.header_fits hmem
  rw [kfree_eq_ok hok, h.blockOf_eq hmem]
  unfold memBlockSize at hbehind hfits
  exact Mem.store32_apply_of_disjoint _ _ (by omega) (by omega)

theorem krealloc_head (h : Blocks limit a live blocks) (hp : p = 0 ∨ p ∈ live)
    (hsize : size ≤ 2 ^ 32 - 64)
    (hfits : (p = 0 ∨ blockSize a.mem (blockOf p) ≤ size) → AppendFits limit a size) {q : Nat}
    (hok : krealloc a p size = .ok (a', q)) (hlo : a.memStart ≤ x) (hhi : x < a.memStart + 20) :
    a'.mem x = a.mem x := by
  rcases krealloc_eq_ok hok with ⟨h0, hkalloc⟩ | ⟨h0, -, -, hcase⟩
  · exact kalloc_head h (hfits (Or.inl h0)) hkalloc hlo hhi
  have hlive := hp.resolve_left h0
  obtain ⟨b, hb, hused, rfl⟩ := h.used p hlive
  have hmem : b ∈ rootBlock a.memStart :: blocks := List.mem_cons_of_mem _ hb
  have hbehind := h.behind_root hb
  have hbfits := h.header_fits hmem
  unfold memBlockSize at hbehind hbfits
  rw [h.blockOf_eq hmem] at hcase hfits
  rcases hcase with ⟨-, rfl, -⟩ | ⟨hgrow, a₁, hkalloc, hkfree⟩
  · exact Mem.store32_apply_of_disjoint _ _ (by omega) (by omega)
  · have hfits := hfits (Or.inr hgrow)
    have hhead := kalloc_head h hfits hkalloc hlo hhi
    obtain ⟨hsame, ⟨hzero, rfl, rfl⟩ | ⟨-, blocks₁, hnew, ⟨c, hc, rfl, hbig⟩, hkept⟩⟩ :=
      kalloc_blocks h (by omega) hfits hkalloc
    · -- nothing is copied
      have hlen : blockSize a₁.mem b.pos = 0 := by
        have := alignedSize_eq_zero hsize hzero
        omega
      simp only [hlen] at hkfree
      exact kfree_head h hlive hkfree hhi
    · have hsize₁ : blockSize a₁.mem b.pos = b.size :=
        (hnew.holds b (List.mem_cons_of_mem _ (hkept b hb hused))).size
      rw [(h.holds b hmem).size] at hgrow
      have hfit := hnew.payload_fits hc
      have hcbehind := hnew.behind_root hc
      rw [hsame.1] at hcbehind
      simp only [hsize₁] at hkfree
      have hout : ∀ y, (y < c.pos + memBlockSize ∨ c.pos + memBlockSize + b.size ≤ y) →
          memcpy a₁.mem (c.pos + memBlockSize) (b.pos + memBlockSize) b.size y = a₁.mem y :=
        fun y hy => Mem.copy_apply_of_disjoint _ _ _ _ y (by omega) hy
      have hcopied := hnew.write_range hc (by omega) hout
      rw [kfree_head hcopied (List.mem_cons_of_mem _ hlive) hkfree
        (by rw [hsame.1]; exact hhi), ← hhead]
      exact Mem.copy_apply_of_disjoint _ _ _ _ x (by omega)
        (Or.inl (by unfold memBlockSize at hcbehind ⊢; omega))

/-- `kmmcritical` may mark the head. -/
theorem kmmcritical_head (h : Blocks limit a live blocks) {b : Extent}
    (hb : b ∈ rootBlock a.memStart :: blocks) (hok : kmmcritical a (b.pos + memBlockSize) = .ok a')
    (hlo : a.memStart + 8 ≤ x) (hhi : x < a.memStart + 20) : a'.mem x = a.mem x := by
  rw [kmmcritical_eq_ok hok, h.blockOf_eq hb]
  have hfits := h.header_fits hb
  unfold memBlockSize at hfits
  refine Mem.store32_apply_of_disjoint _ _ (by omega) ?_
  rcases List.mem_cons.mp hb with rfl | hb
  · have hpos : (rootBlock a.memStart).pos = a.memStart := rfl
    omega
  · have hbehind := h.behind_root hb
    unfold memBlockSize at hbehind
    omega

end Head

/-- The fields `size`, `state` and `addr` of the head are never written. -/
theorem heapStep_head (h : Blocks limit s.allocator s.live blocks)
    (hstep : HeapStep MarksBlock limit s (op, p) s') {x : Nat}
    (hlo : s.allocator.memStart + 8 ≤ x) (hhi : x < s.allocator.memStart + 20) :
    s'.allocator.mem x = s.allocator.mem x := by
  obtain ⟨hadm, hexec, -⟩ := hstep
  cases op with
  | kalloc n => exact kalloc_head h hadm.2 hexec (by omega) hhi
  | kallocz n => exact kallocz_head h hadm.1 hadm.2 hexec (by omega) hhi
  | krealloc ptr n => exact krealloc_head h hadm.1 hadm.2.1 hadm.2.2 hexec (by omega) hhi
  | kfree ptr =>
    obtain ⟨a', hkfree, hret⟩ := bind_eq_ok hexec
    rw [← congrArg (fun r => r.1.mem x) (Except.ok.inj hret)]
    exact kfree_head h hadm hkfree hhi
  | kmmcritical ptr =>
    obtain ⟨a', hmark, hret⟩ := bind_eq_ok hexec
    obtain ⟨b, hb, rfl⟩ := MarksBlock.exists_block hadm h
    rw [← congrArg (fun r => r.1.mem x) (Except.ok.inj hret)]
    exact kmmcritical_head h hb hmark hlo hhi
  | write ptr value =>
    obtain ⟨q, hq, hptr, hptr'⟩ := hadm
    obtain ⟨b, hb, -, rfl⟩ := h.used q hq
    have hmem : b ∈ rootBlock s.allocator.memStart :: blocks := List.mem_cons_of_mem _ hb
    have hbehind := h.behind_root hb
    have hfit := h.payload_fits hb
    rw [h.blockOf_eq hmem, (h.holds b hmem).size] at hptr'
    rw [← congrArg (fun r => r.1.mem x) (Except.ok.inj hexec)]
    unfold memBlockSize at hbehind hfit hptr hptr'
    exact Mem.store8_apply_of_ne _ _ (by omega) (by omega)

/-- The heap is in order, its blocks have the pointers that were returned, and the head
has the word `addr` for its address. -/
structure ChainInv (start addr : Nat) (trace : List (AllocOp × Nat)) (s : HeapState)
    (blocks : List Extent) : Prop where
  heap : Blocks (2 ^ 32) s.allocator s.live blocks
  memStart : s.allocator.memStart = start
  initialised : blocks ≠ [] → start ≠ 0
  head : blockAddr s.allocator.mem start = addr
  returned : ∀ p, Returned trace p ↔ Pointer blocks p

/-- Every run keeps it. -/
theorem heapRun_chain {m : Mem} {start size : Nat} (hroot : start + memBlockSize ≤ 2 ^ 32)
    {trace : List (AllocOp × Nat)} {s : HeapState}
    (hrun : Run (HeapStep MarksBlock (2 ^ 32)) (initHeap m start size) trace s) :
    ∃ blocks, ChainInv start (m.load32 (start + 16)) trace s blocks := by
  unfold memBlockSize at hroot
  induction hrun with
  | nil =>
    refine ⟨[], initAlloc_blocks m (Nat.le_refl _) hroot, rfl, fun hne => absurd rfl hne, ?_,
      fun p => ?_⟩
    · change blockAddr (initAlloc m start size).mem start = _
      unfold blockAddr initAlloc
      simp (disch := omega) only [Mem.load32_store32_of_disjoint]
    · simp [Returned, Pointer]
  | @snoc trace e s s' hrun hstep ih =>
    obtain ⟨blocks, h⟩ := ih
    obtain ⟨op, p⟩ := e
    obtain ⟨hsame, blocks', h', hmoves⟩ := heapStep_moves h.heap hstep
    have hstart := h.memStart
    subst hstart
    refine ⟨blocks', h', hsame.1, fun hne => ?_, ?_, fun q => ?_⟩
    · exact heapStep_start h.heap h.initialised hstep hmoves hne
    · rw [← h.head]
      exact Mem.load32_congr (by omega) fun x hlo hhi =>
        heapStep_head h.heap hstep (by omega) (by omega)
    · rw [returned_snoc, h.returned q, hmoves.pointer]

/-- Memory that holds the arena's end where the head has its address. -/
def staleMem : Mem := fun a => if a = 4113 then 0x20 else 0

end ValidAddr

end Microboot.Kern
