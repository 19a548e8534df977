/-
  Kern/AllocRun.lean --- runs of the allocator.

  A run starts at `init_alloc` and mixes allocations, reallocations, frees,
  critical marks and writes of users to memory they own, in any order; the
  pointers that are live at each point are kept beside the allocator.  Every run
  keeps the blocks of the chain in order (`Blocks`), as long as each block that
  is appended ends at a given limit or before.

  With the top of the address space as the limit this is memory safety: nothing
  overlaps.  With the end of the arena as the limit it says when the allocator
  stays inside its arena.
-/
import Microboot.Foundation.Run
import Microboot.Kern.Alloc

set_option autoImplicit false

namespace Microboot.Kern

open Microboot.Foundation

/-! ## Operations and runs -/

/-- A call of the allocator, or the write of a byte by the user of a block. -/
inductive AllocOp where
  | kalloc (size : Nat)
  | kallocz (size : Nat)
  | krealloc (ptr newSize : Nat)
  | kfree (ptr : Nat)
  | kmmcritical (ptr : Nat)
  | write (ptr : Nat) (value : UInt8)
  deriving DecidableEq, Repr

/-- The allocator and the pointers that are live. -/
structure HeapState where
  allocator : Allocator
  live : List Nat

namespace AllocOp

/-- The allocator after the operation, and the pointer it returned; 0 if it
returns none. -/
def exec (a : Allocator) : AllocOp → Except Fault (Allocator × Nat)
  | kalloc size => Kern.kalloc a size
  | kallocz size => Kern.kallocz a size
  | krealloc ptr newSize => Kern.krealloc a ptr newSize
  | kfree ptr => do return (← Kern.kfree a ptr, 0)
  | kmmcritical ptr => do return (← Kern.kmmcritical a ptr, 0)
  | write ptr value => return ({ a with mem := a.mem.store8 ptr value }, 0)

/-- The live pointers after the operation returned `ret`. -/
def liveAfter (live : List Nat) (ret : Nat) : AllocOp → List Nat
  | kalloc _ => Kern.liveAfter live ret
  | kallocz _ => Kern.liveAfter live ret
  | krealloc ptr _ => Kern.liveAfter (live.erase ptr) ret
  | kfree ptr => live.erase ptr
  | kmmcritical _ => live
  | write _ _ => live

/-- The number of bytes that the operation asks for. -/
def request : AllocOp → Option Nat
  | kalloc size => some size
  | kallocz size => some size
  | krealloc _ newSize => some newSize
  | _ => none

/-- How the allocator may be called: pointers that are freed or reallocated are
live, users write inside the blocks they own, sizes that are cleared or copied to
do not round up past the address space, `kmmcritical` is called on the pointers
that `marks` allows, and a block that is appended ends at `limit` or before. -/
def Admissible (marks : Allocator → Nat → Prop) (limit : Nat) (s : HeapState) : AllocOp → Prop
  | kalloc size => size < 2 ^ 32 ∧ AppendFits limit s.allocator size
  | kallocz size => size ≤ 2 ^ 32 - 64 ∧ AppendFits limit s.allocator size
  | krealloc ptr newSize =>
    (ptr = 0 ∨ ptr ∈ s.live) ∧ newSize ≤ 2 ^ 32 - 64 ∧
      ((ptr = 0 ∨ blockSize s.allocator.mem (blockOf ptr) ≤ newSize) →
        AppendFits limit s.allocator newSize)
  | kfree ptr => ptr ∈ s.live
  | kmmcritical ptr => marks s.allocator ptr
  | write ptr _ =>
    ∃ p ∈ s.live, p ≤ ptr ∧ ptr < p + blockSize s.allocator.mem (blockOf p)

end AllocOp

/-- One call, labelled with what it returned. -/
def HeapStep (marks : Allocator → Nat → Prop) (limit : Nat) (s : HeapState)
    (e : AllocOp × Nat) (s' : HeapState) : Prop :=
  e.1.Admissible marks limit s ∧ e.1.exec s.allocator = .ok (s'.allocator, e.2) ∧
    s'.live = e.1.liveAfter s.live e.2

/-- The state that `init_alloc` leaves. -/
def initHeap (m : Mem) (start size : Nat) : HeapState where
  allocator := initAlloc m start size
  live := []

/-- `ptr` is the payload pointer of a block of the chain. -/
def MarksBlock (a : Allocator) (ptr : Nat) : Prop :=
  ∃ chain, a.chain = some chain ∧ ∃ block ∈ chain, ptr = block + memBlockSize

/-- It is the pointer of the root or of one of the blocks. -/
theorem MarksBlock.exists_block {limit : Nat} {a : Allocator} {live : List Nat}
    {blocks : List Extent} {ptr : Nat} (hmarks : MarksBlock a ptr)
    (h : Blocks limit a live blocks) :
    ∃ b ∈ rootBlock a.memStart :: blocks, ptr = b.pos + memBlockSize := by
  obtain ⟨chain, hchain, block, hblock, rfl⟩ := hmarks
  rw [h.chain_eq, Option.some.injEq] at hchain
  subst hchain
  obtain ⟨b, hb, rfl⟩ := List.mem_map.mp hblock
  exact ⟨b, hb, rfl⟩

/-! ## What a step keeps -/

/-- The heap is in order, in the arena it was made for. -/
def HeapInv (limit start size : Nat) (s : HeapState) : Prop :=
  s.allocator.memStart = start ∧ s.allocator.memSize = size ∧
    ∃ blocks, Blocks limit s.allocator s.live blocks

/-- The block at `ptr` belongs to the chain, and has room for `size` bytes. -/
def Owns (a : Allocator) (ptr size : Nat) : Prop :=
  ∃ chain, a.chain = some chain ∧
    ∃ block ∈ chain, blockAddr a.mem block = ptr ∧ size ≤ blockSize a.mem block

section Steps

variable {limit start size : Nat} {s s' : HeapState} {op : AllocOp} {p : Nat}

theorem Blocks.owns {a : Allocator} {live : List Nat} {blocks : List Extent}
    (h : Blocks limit a live blocks) {b : Extent} (hb : b ∈ blocks) {n : Nat}
    (hn : n ≤ b.size) : Owns a (b.pos + memBlockSize) n := by
  refine ⟨_, h.chain_eq, b.pos, ?_, h.addr b hb, ?_⟩
  · exact List.mem_map_of_mem (List.mem_cons_of_mem _ hb)
  · rw [(h.holds b (List.mem_cons_of_mem _ hb)).size]
    exact hn

/-- A step keeps the heap in order, and a pointer that it returns owns what was
asked for. -/
theorem heapStep_inv (h : HeapInv limit start size s)
    (hstep : HeapStep MarksBlock limit s (op, p) s') :
    HeapInv limit start size s' ∧
      ∀ n, op.request = some n → p ≠ 0 → Owns s'.allocator p n := by
  obtain ⟨rfl, rfl, blocks, hblocks⟩ := h
  obtain ⟨allocator, live⟩ := s
  obtain ⟨allocator', live'⟩ := s'
  obtain ⟨hadm, hexec, hlive⟩ := hstep
  dsimp only at hexec hlive hblocks ⊢
  subst hlive
  -- all three kinds of allocation end in the same facts
  have halloc : ∀ {n : Nat} {live' : List Nat} {blocks' : List Extent},
      SameArena allocator allocator' → op.request = some n →
      Blocks limit allocator' live' blocks' →
      (p ≠ 0 → ∃ b ∈ blocks', p = b.pos + memBlockSize ∧ n ≤ b.size) →
      HeapInv limit allocator.memStart allocator.memSize ⟨allocator', live'⟩ ∧
        ∀ n, op.request = some n → p ≠ 0 → Owns allocator' p n := by
    intro n live' blocks' hsame hreq hnew howns
    refine ⟨⟨hsame.1, hsame.2.1, blocks', hnew⟩, fun n' hn' hp => ?_⟩
    rw [hreq, Option.some.injEq] at hn'
    subst hn'
    obtain ⟨b, hb, rfl, hsize⟩ := howns hp
    exact hnew.owns hb hsize
  cases op with
  | kalloc n =>
    obtain ⟨hsame, hcase⟩ := kalloc_blocks hblocks hadm.1 hadm.2 hexec
    rcases hcase with ⟨-, rfl, rfl⟩ | ⟨-, blocks', hnew, howns, -⟩
    · exact halloc hsame rfl hblocks fun hne => absurd rfl hne
    · have hp := hnew.live_ne_zero (List.mem_cons_self ..)
      unfold AllocOp.liveAfter Kern.liveAfter
      rw [if_neg hp]
      exact halloc hsame rfl hnew fun _ => howns
  | kallocz n =>
    obtain ⟨hsame, blocks', hnew, howns⟩ := kallocz_blocks hblocks hadm.1 hadm.2 hexec
    exact halloc hsame rfl hnew howns
  | krealloc ptr n =>
    obtain ⟨hsame, blocks', hnew, howns⟩ :=
      krealloc_blocks hblocks hadm.1 hadm.2.1 hadm.2.2 hexec
    exact halloc hsame rfl hnew howns
  | kfree ptr =>
    obtain ⟨a', hkfree, hret⟩ := bind_eq_ok hexec
    cases hret
    obtain ⟨hsame, blocks', hnew, -⟩ := kfree_blocks hblocks hadm hkfree
    exact ⟨⟨hsame.1, hsame.2.1, blocks', hnew⟩, fun n hn => by cases hn⟩
  | kmmcritical ptr =>
    obtain ⟨a', hmark, hret⟩ := bind_eq_ok hexec
    cases hret
    obtain ⟨b, hb, rfl⟩ := MarksBlock.exists_block hadm hblocks
    obtain ⟨hsame, hnew⟩ := kmmcritical_blocks hblocks hb hmark
    exact ⟨⟨hsame.1, hsame.2.1, blocks, hnew⟩, fun n hn => by cases hn⟩
  | write ptr value =>
    obtain ⟨q, hq, hlo, hhi⟩ := hadm
    cases hexec
    exact ⟨⟨rfl, rfl, blocks, store8_blocks hblocks hq value ⟨hlo, hhi⟩⟩,
      fun n hn => by cases hn⟩

/-- Every run keeps the heap in order. -/
theorem heapRun_inv {m : Mem} (hlimit : limit ≤ 2 ^ 32) (hroot : start + memBlockSize ≤ limit)
    {trace : List (AllocOp × Nat)}
    (hrun : Run (HeapStep MarksBlock limit) (initHeap m start size) trace s) :
    HeapInv limit start size s :=
  hrun.invariant ⟨rfl, rfl, [], initAlloc_blocks m hlimit hroot⟩
    fun _ _ _ hinv hstep => (heapStep_inv hinv hstep).1

end Steps

/-! ## Nothing overlaps -/

/-- `x` is in the payload `[addr, addr + size)` of the block. -/
def InPayload (a : Allocator) (block x : Nat) : Prop :=
  blockAddr a.mem block ≤ x ∧ x < blockAddr a.mem block + blockSize a.mem block

/-- `x` is in the header of the block. -/
def InHeader (block x : Nat) : Prop := block ≤ x ∧ x < block + memBlockSize

/-- The payloads of the chain are disjoint from each other and from every header,
the live pointers belong to blocks of the chain, and no two of them are equal. -/
structure NoOverlap (s : HeapState) : Prop where
  chain : ∃ chain, s.allocator.chain = some chain ∧
    chain.Pairwise (fun b c => ∀ x, ¬ (InPayload s.allocator b x ∧ InPayload s.allocator c x)) ∧
    ∀ b ∈ chain, ∀ c ∈ chain, ∀ x, InPayload s.allocator b x → ¬ InHeader c x
  live_owned : ∀ p ∈ s.live, Owns s.allocator p 0
  live_nodup : s.live.Nodup

/-- The payload in memory is the payload of the block; the root has none. -/
theorem Blocks.inPayload {limit : Nat} {a : Allocator} {live : List Nat}
    {blocks : List Extent} (h : Blocks limit a live blocks) {b : Extent}
    (hb : b ∈ rootBlock a.memStart :: blocks) {x : Nat} (hx : InPayload a b.pos x) :
    b.InPayload memBlockSize x := by
  have hsize := (h.holds b hb).size
  unfold InPayload at hx
  unfold Extent.InPayload Extent.stop
  rw [hsize] at hx
  rw [List.mem_cons] at hb
  rcases hb with rfl | hb
  · change _ ∧ x < _ + 0 at hx
    omega
  · rw [h.addr b hb] at hx
    exact hx

theorem HeapInv.noOverlap {limit start size : Nat} {s : HeapState}
    (h : HeapInv limit start size s) : NoOverlap s := by
  obtain ⟨-, -, blocks, hblocks⟩ := h
  refine ⟨⟨_, hblocks.chain_eq, ?_, ?_⟩, fun p hp => ?_, hblocks.nodup⟩
  · rw [List.pairwise_map]
    apply List.Pairwise.imp_of_mem _ hblocks.ordered.payload_apart
    intro b c hb hc hapart x hx
    exact hapart x ⟨hblocks.inPayload hb hx.1, hblocks.inPayload hc hx.2⟩
  · intro p hp q hq x hx
    obtain ⟨b, hb, rfl⟩ := List.mem_map.mp hp
    obtain ⟨c, hc, rfl⟩ := List.mem_map.mp hq
    exact hblocks.ordered.header_apart hb hc (hblocks.inPayload hb hx)
  · obtain ⟨b, hb, -, rfl⟩ := hblocks.used p hp
    exact hblocks.owns hb (Nat.zero_le _)

/-- In every run in which nothing wraps, nothing overlaps, and the pointer that
the last call returned owns the bytes that were asked for. -/
theorem heapRun_noOverlap (m : Mem) {start size : Nat} (hroot : start + memBlockSize ≤ 2 ^ 32)
    {trace : List (AllocOp × Nat)} {s : HeapState}
    (hrun : Run (HeapStep MarksBlock (2 ^ 32)) (initHeap m start size) trace s) :
    NoOverlap s ∧ ∀ op p n, trace.getLast? = some (op, p) → op.request = some n → p ≠ 0 →
      Owns s.allocator p n := by
  refine ⟨(heapRun_inv (Nat.le_refl _) hroot hrun).noOverlap, ?_⟩
  intro op p n hlast hreq hp
  obtain ⟨trace', rfl⟩ := List.getLast?_eq_some_iff.mp hlast
  obtain ⟨s₁, hrun₁, hstep⟩ := hrun.last
  exact (heapStep_inv (heapRun_inv (Nat.le_refl _) hroot hrun₁) hstep).2 n hreq hp

/-! ## Inside the arena -/

/-- Every block of the chain, header and payload, is inside the arena. -/
def InsideArena (start size : Nat) (a : Allocator) : Prop :=
  ∃ chain, a.chain = some chain ∧
    ∀ b ∈ chain, start ≤ b ∧ b + memBlockSize + blockSize a.mem b ≤ start + size

/-- If there is room for the root, and every block that is appended ends inside
the arena, every block is inside the arena. -/
theorem heapRun_insideArena (m : Mem) {start size : Nat} (hsize : memBlockSize ≤ size)
    (hroot : start + memBlockSize ≤ 2 ^ 32) {trace : List (AllocOp × Nat)} {s : HeapState}
    (hrun : Run (HeapStep MarksBlock (min (start + size) (2 ^ 32))) (initHeap m start size)
      trace s) :
    InsideArena start size s.allocator := by
  obtain ⟨rfl, rfl, blocks, hblocks⟩ :=
    heapRun_inv (Nat.min_le_right _ _) (by omega) hrun
  refine ⟨_, hblocks.chain_eq, fun p hp => ?_⟩
  obtain ⟨b, hb, rfl⟩ := List.mem_map.mp hp
  have hfits := hblocks.fits b hb
  rw [(hblocks.holds b hb).size]
  refine ⟨?_, Nat.le_trans hfits (Nat.min_le_left _ _)⟩
  rw [List.mem_cons] at hb
  rcases hb with rfl | hb
  · exact Nat.le_refl _
  · have hbehind := (List.pairwise_cons.mp hblocks.ordered).1 b hb
    change s.allocator.memStart + memBlockSize + 0 ≤ b.pos at hbehind
    omega

/-! ## Runs on concrete inputs -/

instance (limit : Nat) (a : Allocator) (size : Nat) : Decidable (AppendFits limit a size) :=
  match h : findBlock a.mem (alignedSize size) addrSpace a.head with
  | some (.append current) =>
    decidable_of_iff (current + memBlockSize + blockSize a.mem current + memBlockSize +
      alignedSize size ≤ limit) (by simp [AppendFits, h])
  | some (.reuse current) => isTrue (by simp [AppendFits, h])
  | none => isTrue (by simp [AppendFits, h])

instance (a : Allocator) (ptr : Nat) : Decidable (MarksBlock a ptr) :=
  match h : a.chain with
  | some chain =>
    decidable_of_iff (∃ block ∈ chain, ptr = block + memBlockSize) (by simp [MarksBlock, h])
  | none => isFalse (by simp [MarksBlock, h])

instance (marks : Allocator → Nat → Prop) [∀ a p, Decidable (marks a p)] (limit : Nat)
    (s : HeapState) : (op : AllocOp) → Decidable (op.Admissible marks limit s)
  | .kalloc _ => inferInstanceAs (Decidable (_ ∧ _))
  | .kallocz _ => inferInstanceAs (Decidable (_ ∧ _))
  | .krealloc _ _ => inferInstanceAs (Decidable ((_ ∨ _) ∧ _ ∧ (_ → _)))
  | .kfree _ => inferInstanceAs (Decidable (_ ∈ _))
  | .kmmcritical _ => inferInstanceAs (Decidable (marks _ _))
  | .write ptr _ => inferInstanceAs (Decidable (∃ p ∈ s.live,
      p ≤ ptr ∧ ptr < p + blockSize s.allocator.mem (blockOf p)))

/-- The state after these calls, if each of them is admissible and returns. -/
def HeapState.runs (marks : Allocator → Nat → Prop) [∀ a p, Decidable (marks a p)]
    (limit : Nat) : HeapState → List AllocOp → Option HeapState
  | s, [] => some s
  | s, op :: ops =>
    if op.Admissible marks limit s then
      match op.exec s.allocator with
      | .ok (a, p) => runs marks limit ⟨a, op.liveAfter s.live p⟩ ops
      | .error _ => none
    else none

/-- What is computed so is the end of a run. -/
theorem HeapState.runs_run {marks : Allocator → Nat → Prop} [∀ a p, Decidable (marks a p)]
    {limit : Nat} {s₀ s' : HeapState} {ops : List AllocOp} :
    ∀ {s : HeapState} {trace : List (AllocOp × Nat)}, Run (HeapStep marks limit) s₀ trace s →
    s.runs marks limit ops = some s' → ∃ trace', Run (HeapStep marks limit) s₀ trace' s' := by
  induction ops with
  | nil =>
    intro s trace hrun h
    cases h
    exact ⟨trace, hrun⟩
  | cons op ops ih =>
    intro s trace hrun h
    unfold HeapState.runs at h
    split at h
    · rename_i hadm
      split at h
      · rename_i a p hexec
        exact ih (hrun.snoc (e := (op, p)) ⟨hadm, hexec, rfl⟩) h
      · cases h
    · cases h

/-- A run with every kind of call. -/
def mixedOps : List AllocOp :=
  [.kalloc 64, .kallocz 100, .write 4150 7, .kmmcritical 4232, .krealloc 4144 200, .kalloc 10,
    .krealloc 4144 5, .kfree 4144]

theorem heapRun_noOverlap_mixedOps :
    ∃ trace s, (initHeap (fun _ => 0) 4096 4096).runs MarksBlock (2 ^ 32) mixedOps = some s ∧
      Run (HeapStep MarksBlock (2 ^ 32)) (initHeap (fun _ => 0) 4096 4096) trace s ∧
      NoOverlap s := by
  have hreturns : ((initHeap (fun _ => 0) 4096 4096).runs MarksBlock (2 ^ 32)
      mixedOps).isSome = true := by decide +kernel
  obtain ⟨s, hs⟩ := Option.isSome_iff_exists.mp hreturns
  obtain ⟨trace, hrun⟩ := HeapState.runs_run .nil hs
  exact ⟨trace, s, hs, hrun, (heapRun_noOverlap _ (by decide) hrun).1⟩

/-- Marking a pointer four bytes into a payload as critical changes the size in
the block's header, and its payload then reaches into the next header. -/
theorem heapRun_overlap_of_marks :
    ¬ ∀ trace s, Run (HeapStep (fun _ _ => True) (2 ^ 32))
      (initHeap (fun _ => 0) 4096 4096) trace s → NoOverlap s := by
  intro h
  have hview : ((initHeap (fun _ => 0) 4096 4096).runs (fun _ _ => True) (2 ^ 32)
      [.kalloc 64, .kalloc 64, .kmmcritical 4148]).map
      (fun s => (s.allocator.chain, blockAddr s.allocator.mem 4120,
        blockSize s.allocator.mem 4120)) =
      some (some [4096, 4120, 4208], 4144, 65) := by
    decide +kernel
  obtain ⟨s, hs, hview⟩ := Option.map_eq_some_iff.mp hview
  obtain ⟨trace, hrun⟩ := HeapState.runs_run .nil hs
  obtain ⟨chain, hchain, -, happart⟩ := (h trace s hrun).chain
  simp only [Prod.mk.injEq] at hview
  obtain ⟨hchain', haddr, hsize⟩ := hview
  rw [hchain', Option.some.injEq] at hchain
  subst hchain
  apply happart 4120 (by simp) 4208 (by simp) 4208
  · unfold InPayload
    rw [haddr, hsize]
    omega
  · unfold InHeader memBlockSize
    omega

theorem heapRun_insideArena_mixedOps :
    ∃ trace s, (initHeap (fun _ => 0) 4096 4096).runs MarksBlock
        (min (4096 + 4096) (2 ^ 32)) mixedOps = some s ∧
      Run (HeapStep MarksBlock (min (4096 + 4096) (2 ^ 32)))
        (initHeap (fun _ => 0) 4096 4096) trace s ∧
      InsideArena 4096 4096 s.allocator := by
  have hreturns : ((initHeap (fun _ => 0) 4096 4096).runs MarksBlock
      (min (4096 + 4096) (2 ^ 32)) mixedOps).isSome = true := by decide +kernel
  obtain ⟨s, hs⟩ := Option.isSome_iff_exists.mp hreturns
  obtain ⟨trace, hrun⟩ := HeapState.runs_run .nil hs
  exact ⟨trace, s, hs, hrun, heapRun_insideArena _ (by decide) (by decide) hrun⟩

/-- In an arena of 64 bytes `kalloc(64)` returns a block that ends 48 bytes behind
the arena. -/
theorem heapRun_outside_arena :
    ¬ ∀ trace s, Run (HeapStep MarksBlock (2 ^ 32)) (initHeap (fun _ => 0) 4096 64) trace s →
      InsideArena 4096 64 s.allocator := by
  intro h
  have hview : ((initHeap (fun _ => 0) 4096 64).runs MarksBlock (2 ^ 32) [.kalloc 64]).map
      (fun s => (s.allocator.chain, blockSize s.allocator.mem 4120)) =
      some (some [4096, 4120], 64) := by
    decide +kernel
  obtain ⟨s, hs, hview⟩ := Option.map_eq_some_iff.mp hview
  obtain ⟨trace, hrun⟩ := HeapState.runs_run .nil hs
  obtain ⟨chain, hchain, hinside⟩ := h trace s hrun
  simp only [Prod.mk.injEq] at hview
  obtain ⟨hchain', hsize⟩ := hview
  rw [hchain', Option.some.injEq] at hchain
  subst hchain
  have hend := (hinside 4120 (by simp)).2
  rw [hsize] at hend
  revert hend
  decide

end Microboot.Kern
