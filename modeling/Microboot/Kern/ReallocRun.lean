/-
  Kern/ReallocRun.lean --- what callers rely on of `krealloc` and `kallocz`.

  Fat and htbl code resizes buffers and goes on with what `krealloc` returned.  The
  results are about every state that a run of the allocator reaches, with any number
  of other blocks in use.

  `krealloc` checks that the pointer is in the arena, but `kalloc` hands out pointers
  behind its end, when a header still starts inside: those cannot be resized.
-/
import Microboot.Kern.AllocRun
import Microboot.Kern.Realloc

set_option autoImplicit false

namespace Microboot.Kern

open Microboot.Foundation

/-! ## Resizing -/

/-- What `krealloc(p, n)` promises, when it leaves the allocator `a` and returns `q`: a
live block of at least `n` bytes, with the contents of the old one, which is free if it
is another one; the payload, size and state of all other live blocks are as they were. -/
structure Resizes (s : HeapState) (p n : Nat) (a : Allocator) (q : Nat) : Prop where
  owns : Owns a q n
  used : blockState a.mem (blockOf q) = memStateUsed
  fresh : q ∉ s.live.erase p
  contents : ∀ i < min (blockSize s.allocator.mem (blockOf p)) n,
    a.mem (q + i) = s.allocator.mem (p + i)
  freed : q ≠ p → blockState a.mem (blockOf p) = memStateFree
  size : ∀ r ∈ s.live, r ≠ p →
    blockSize a.mem (blockOf r) = blockSize s.allocator.mem (blockOf r)
  state : ∀ r ∈ s.live, r ≠ p →
    blockState a.mem (blockOf r) = blockState s.allocator.mem (blockOf r)
  payload : ∀ r ∈ s.live, r ≠ p → ∀ i < blockSize s.allocator.mem (blockOf r),
    a.mem (r + i) = s.allocator.mem (r + i)

/-- `krealloc(p, n)` returns, and keeps its promises. -/
def ReallocResizes (s : HeapState) (p n : Nat) : Prop :=
  ∃ a q, krealloc s.allocator p n = .ok (a, q) ∧ Resizes s p n a q

section Resize

variable {limit n p : Nat} {s : HeapState} {a' : Allocator} {blocks blocks' : List Extent}
  {b c : Extent}

/-- The live pointers other than that of `b` are those of other blocks in use. -/
theorem Blocks.exists_other (h : Blocks limit s.allocator s.live blocks) {r : Nat}
    (hr : r ∈ s.live) (hne : r ≠ b.pos + memBlockSize) :
    ∃ d ∈ blocks, d.free = false ∧ d ≠ b ∧ r = d.pos + memBlockSize := by
  obtain ⟨d, hd, hused, rfl⟩ := h.used r hr
  exact ⟨d, hd, hused, fun heq => hne (by rw [heq]), rfl⟩

/-- A buffer that takes over from the block `b` keeps what `krealloc` promises. -/
theorem HeldBlock.resizes (h : Blocks limit s.allocator s.live blocks)
    (hheld : HeldBlock limit a' (s.live.erase (b.pos + memBlockSize)) blocks' c) (hn : n ≤ c.size)
    (hb : b ∈ blocks)
    (hcontents : ∀ i < min b.size n,
      a'.mem (c.pos + memBlockSize + i) = s.allocator.mem (b.pos + memBlockSize + i))
    (hfreed : c.pos ≠ b.pos → { b with free := true } ∈ blocks')
    (hothers : KeepsOthers s.allocator blocks b a' blocks') :
    Resizes s (b.pos + memBlockSize) n a' (c.pos + memBlockSize) := by
  have hblockOf := h.blockOf_eq (List.mem_cons_of_mem _ hb)
  have hsize := (h.holds b (List.mem_cons_of_mem _ hb)).size
  have hnodup := List.nodup_cons.mp hheld.heap.nodup
  -- the header of another live block, in both memories
  have hother : ∀ r ∈ s.live, r ≠ b.pos + memBlockSize → ∃ d ∈ blocks, d.free = false ∧ d ≠ b ∧
      r = d.pos + memBlockSize ∧ blockOf r = d.pos ∧ HasBlock s.allocator.mem d ∧
      HasBlock a'.mem d := by
    intro r hr hne
    obtain ⟨d, hd, hused, hdb, rfl⟩ := h.exists_other hr hne
    have hd' := hothers.mem d hd hused hdb
    exact ⟨d, hd, hused, hdb, rfl, h.blockOf_eq (List.mem_cons_of_mem _ hd),
      h.holds d (List.mem_cons_of_mem _ hd), hheld.heap.holds d (List.mem_cons_of_mem _ hd')⟩
  refine ⟨hheld.heap.owns hheld.mem hn, ?_, hnodup.1, ?_, fun hne => ?_, ?_, ?_, ?_⟩
  · rw [hheld.blockOf_eq]
    exact hheld.state
  · rw [hblockOf, hsize]
    exact hcontents
  · have hfree := hheld.heap.holds _ (List.mem_cons_of_mem _ (hfreed fun heq => hne (by rw [heq])))
    rw [hblockOf]
    exact hfree.state
  · intro r hr hne
    obtain ⟨d, -, -, -, -, hof, hold, hnew⟩ := hother r hr hne
    rw [hof, hnew.size, hold.size]
  · intro r hr hne
    obtain ⟨d, -, -, -, -, hof, hold, hnew⟩ := hother r hr hne
    rw [hof, hnew.state, hold.state]
  · intro r hr hne i hi
    obtain ⟨d, hd, hused, hdb, rfl, hof, hold, -⟩ := hother r hr hne
    rw [hof, hold.size] at hi
    refine hothers.payload d hd hused hdb _ ?_
    unfold Extent.InPayload Extent.stop
    omega

/-- A live pointer in the arena can be resized. -/
theorem Blocks.reallocResizes (h : Blocks limit s.allocator s.live blocks) (hp : p ∈ s.live)
    (hplain : blockFlags s.allocator.mem (blockOf p) &&& memCritical = 0)
    {a₁ : Allocator} {q₁ : Nat} (hkalloc : kalloc s.allocator n = .ok (a₁, q₁)) (hnull : q₁ ≠ 0)
    (hlt : n < 2 ^ 32)
    (hfits : blockSize s.allocator.mem (blockOf p) ≤ n → AppendFits limit s.allocator n)
    (hin : inArena s.allocator p) : ReallocResizes s p n := by
  obtain ⟨b, hb, hused, rfl⟩ := h.used p hp
  have hbmem : b ∈ rootBlock s.allocator.memStart :: blocks := List.mem_cons_of_mem _ hb
  rw [h.blockOf_eq hbmem] at hplain hfits
  rw [(h.holds b hbmem).size] at hfits
  have hheld : HeldBlock limit s.allocator (s.live.erase (b.pos + memBlockSize)) blocks b :=
    ⟨h.perm (List.perm_cons_erase hp), hb, hused, hplain⟩
  by_cases hsize : n < b.size
  · obtain ⟨a', blocks', hok, -, hheld', hkeep, hothers⟩ := hheld.shrink_of_inArena hin n hsize
    have hresizes := hheld'.resizes h (Nat.le_refl _) hb
      (fun i _ => hkeep _ (Nat.le_add_right _ _)) (fun hne => absurd rfl hne) hothers
    exact ⟨a', _, hok, hresizes⟩
  · -- `kalloc` did not return `NULL`, so the size does not align to 0
    have hnonzero : alignedSize n ≠ 0 := by
      intro h0
      rcases (kalloc_eq_ok hkalloc).2 with ⟨-, -, hzero⟩ | ⟨hne, -⟩ | ⟨hne, -⟩
      · exact hnull hzero
      · exact hne h0
      · exact hne h0
    obtain ⟨a', c, blocks', hok, -, hheld', hbig, hcopy, hfreed, hothers⟩ :=
      hheld.move_of_ok hin (by omega) hlt hnonzero (hfits (by omega)) hkalloc
    exact ⟨a', _, hok, hheld'.resizes h hbig hb (fun i hi => hcopy i (by omega))
      (fun _ => hfreed) hothers⟩

end Resize

/-- Two blocks are allocated in an arena that ends behind the second one's header. -/
def twoBlocks : List AllocOp := [.kalloc 64, .kalloc 64, .kfree 4144]

/-- One call that returns, of whatever arguments, labelled with what it returned. -/
def CallStep (s : HeapState) (e : AllocOp × Nat) (s' : HeapState) : Prop :=
  e.1.exec s.allocator = .ok (s'.allocator, e.2) ∧ s'.live = e.1.liveAfter s.live e.2

/-- A request that `kalloc` answers with `NULL` is harmless: `kallocz` and, for every
live pointer, `krealloc` return `NULL`, too, and leave the memory as it is. -/
def FailsSafely (s : HeapState) (size : Nat) : Prop :=
  kallocz s.allocator size = .ok (s.allocator, 0) ∧
    ∀ p ∈ s.live, krealloc s.allocator p size = .ok (s.allocator, 0)

section Null

variable {s s' : HeapState} {size p : Nat}

/-- No call makes `NULL` a live pointer. -/
theorem callStep_live {e : AllocOp × Nat} (h : ∀ p ∈ s.live, p ≠ 0) (hstep : CallStep s e s') :
    ∀ p ∈ s'.live, p ≠ 0 := by
  have hret : ∀ {live : List Nat}, (∀ p ∈ live, p ≠ 0) → ∀ p ∈ liveAfter live e.2, p ≠ 0 := by
    intro live hlive p hp
    unfold liveAfter at hp
    split at hp
    · exact hlive p hp
    · next hne =>
      rcases List.mem_cons.mp hp with rfl | hp
      · exact hne
      · exact hlive p hp
  have herase : ∀ ptr, ∀ p ∈ s.live.erase ptr, p ≠ 0 :=
    fun ptr p hp => h p (List.mem_of_mem_erase hp)
  obtain ⟨op, ret⟩ := e
  rw [hstep.2]
  cases op with
  | kalloc n => exact hret h
  | kallocz n => exact hret h
  | krealloc ptr n => exact hret (herase ptr)
  | kfree ptr => exact herase ptr
  | kmmcritical ptr => exact h
  | write ptr value => exact h

/-- `kallocz` clears the memory from address 0 on. -/
theorem kallocz_null_iff (hlt : size < 2 ^ 32)
    (hnull : kalloc s.allocator size = .ok (s.allocator, 0)) :
    kallocz s.allocator size = .ok (s.allocator, 0) ↔ ∀ x < size, s.allocator.mem x = 0 := by
  have hfill := Mem.fill_eq_iff 0 s.allocator.mem (by omega : 0 + size ≤ 2 ^ 32)
  simp only [Nat.zero_add] at hfill
  rw [← hfill, kallocz, hnull, ok_bind]
  constructor
  · intro h
    have hpair := Except.ok.inj h
    exact congrArg (fun r => r.1.mem) hpair
  · intro h
    have hset : memset s.allocator.mem 0 0 size = s.allocator.mem := h
    dsimp only
    rw [hset]
    rfl

/-- `krealloc` does not leave a live block as it is and return `NULL`. -/
theorem krealloc_null_ne (hp : p ≠ 0)
    (hnull : kalloc s.allocator size = .ok (s.allocator, 0)) :
    krealloc s.allocator p size ≠ .ok (s.allocator, 0) := by
  intro hok
  obtain ⟨-, -, hused, ⟨-, -, hsame⟩ | ⟨-, a₁, hkalloc, hfree⟩⟩ :=
    (krealloc_eq_ok hok).resolve_left fun h0 => hp h0.1
  · -- the block is cut off, and its pointer returned
    exact hp hsame.symm
  · -- the old block is freed
    rw [hnull] at hkalloc
    cases hkalloc
    have hmem := congrArg Allocator.mem (kfree_eq_ok hfree)
    have hbyte : s.allocator.mem.load8 (blockOf p + 12) = 1 := by
      rw [hmem]
      exact Mem.load8_store32 _ _ _
    unfold blockState Mem.load32 memStateUsed at hused
    rw [hbyte] at hused
    have hone : (1 : UInt8).toNat = 1 := rfl
    omega

end Null

/-- After any calls, a request that `kalloc` answers with `NULL` is harmless exactly if no
pointer is live and the memory below its size is clear already. -/
theorem failsSafely_iff {m : Mem} {start arena : Nat} {trace : List (AllocOp × Nat)}
    {s : HeapState} (hrun : Run CallStep (initHeap m start arena) trace s) {size : Nat}
    (hlt : size < 2 ^ 32) (hnull : kalloc s.allocator size = .ok (s.allocator, 0)) :
    FailsSafely s size ↔ s.live = [] ∧ ∀ x < size, s.allocator.mem x = 0 := by
  have hlive : ∀ p ∈ s.live, p ≠ 0 :=
    hrun.invariant (fun p hp => absurd hp List.not_mem_nil) fun _ _ _ h hstep =>
      callStep_live h hstep
  constructor
  · rintro ⟨hkallocz, hkrealloc⟩
    refine ⟨List.eq_nil_iff_forall_not_mem.mpr fun p hp => ?_,
      (kallocz_null_iff hlt hnull).mp hkallocz⟩
    exact krealloc_null_ne (hlive p hp) hnull (hkrealloc p hp)
  · rintro ⟨hnil, hclear⟩
    refine ⟨(kallocz_null_iff hlt hnull).mpr hclear, fun p hp => ?_⟩
    rw [hnil] at hp
    exact absurd hp List.not_mem_nil

/-- Right after `init_alloc` a request for 0 bytes is harmless. -/
theorem failsSafely_zero : FailsSafely (initHeap (fun _ => 0) 4096 4096) 0 :=
  (failsSafely_iff .nil (by decide) rfl).mpr
    ⟨rfl, fun x hx => absurd hx (Nat.not_lt_zero x)⟩

/-- `krealloc` of a live pointer to `2 ^ 32 - 1` bytes returns `NULL` and frees the
block. -/
theorem not_failsSafely_max :
    ¬ ∀ trace s, Run CallStep (initHeap (fun _ => 0) 4096 4096) trace s → ∀ size < 2 ^ 32,
      kalloc s.allocator size = .ok (s.allocator, 0) → FailsSafely s size := by
  intro h
  have hview : ∃ r, kalloc (initHeap (fun _ => 0) 4096 4096).allocator 64 = .ok r ∧
      r.2 = 4144 ∧ alignedSize (2 ^ 32 - 1) = 0 ∧ r.1.memStart ≠ 0 := by
    decide +kernel
  obtain ⟨⟨a, p⟩, hkalloc, rfl, hzero, hstart⟩ := hview
  have hnull : kalloc a (2 ^ 32 - 1) = .ok (a, 0) := by
    unfold kalloc
    rw [require_of _ hstart, ok_bind, if_pos hzero]
    rfl
  have hsafe := h _ ⟨a, [4144]⟩ (Run.nil.snoc (e := (AllocOp.kalloc 64, 4144)) ⟨hkalloc, rfl⟩)
    (2 ^ 32 - 1) (by decide) hnull
  exact krealloc_null_ne (s := ⟨a, [4144]⟩) (by decide) hnull (hsafe.2 4144 (by simp))

end Microboot.Kern
