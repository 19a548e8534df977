/-
  Kern/Fs/ReadFull.lean --- reading a whole file, kern/fs/fs.c.

  `fs_read_full` reads 2048 bytes at a time into a buffer that it resizes before
  each further read, and cuts the buffer off behind what has been read.  The
  filesystem is a parameter; the buffer is a block of the allocator.

  What the filesystem delivers until it answers 0 is collected in the buffer, and
  each read is inside of it.  The code of an answer is an `int`, but the loop keeps
  it in a `size_t`, where no negative code is left to stop it.
-/
import Microboot.Foundation.CString
import Microboot.Kern.AllocRun
import Microboot.Kern.Realloc

set_option autoImplicit false

namespace Microboot.Kern.Fs

open Microboot.Foundation

/-! ## The model -/

/-- `struct fsdev`, with the operation that `fs_read` calls.  From the file and the
number of bytes that are asked for, `read` gets the code it returns and the bytes
that it stores at the pointer it is given. -/
structure FsDev (σ File : Type) where
  read : Option (File → Nat → σ → (Int × List UInt8) × σ)

/-- `struct filehandle` -/
structure FileHandle (σ File : Type) where
  file : File
  fs : FsDev σ File

/-- A read of `fs_read_full`: where in which buffer it stores how many bytes, and the
heap that it finds. -/
structure IssuedRead where
  heap : Allocator
  buf : Nat
  offset : Nat
  count : Nat

/-- The state of the filesystem and the heap, and the reads that have been issued. -/
structure ReadWorld (σ : Type) where
  fs : σ
  heap : Allocator
  reads : List IssuedRead

section Model

variable {σ File : Type}

/-- What `fs_read` returns and stores: without a handle, or without the operation,
nothing. -/
def fsAnswer (handle : Option (FileHandle σ File)) (count : Nat) (s : σ) :
    (Int × List UInt8) × σ :=
  match handle with
  | none => ((0, []), s)
  | some handle =>
    match handle.fs.read with
    | none => ((0, []), s)
    | some read => read handle.file count s

/-- `fs_read(handle, buf, count)` -/
def fsRead (handle : Option (FileHandle σ File)) (buf count : Nat) (w : ReadWorld σ) :
    Int × ReadWorld σ :=
  let answer := fsAnswer handle count w.fs
  let mem := w.heap.mem.storeBytes buf answer.1.2
  (answer.1.1, { w with fs := answer.2, heap := { w.heap with mem := mem } })

/-- `chunk_size` -/
def chunkSize : Nat := 2048

/-- `offset` bytes behind the start of `buf`, `count` bytes are asked for. -/
def ReadWorld.issue (w : ReadWorld σ) (buf offset count : Nat) : ReadWorld σ :=
  { w with reads := w.reads ++ [⟨w.heap, buf, offset, count⟩] }

/-- The loop of `fs_read_full`: the buffer, and the offset behind the last byte. -/
def fsReadFullLoop (handle : Option (FileHandle σ File)) :
    Nat → Nat → Nat → Nat → ReadWorld σ → Except Fault ((Nat × Nat) × ReadWorld σ)
  | 0, _, _, _, _ => throw .hang
  | fuel + 1, buf, offset, size, w => do
    let (code, w) := fsRead handle (wrap (buf + offset)) 2048 (w.issue buf offset 2048)
    -- `size_t read`
    let read := (code % 2 ^ 32).toNat
    if read ≤ 0 then
      return ((buf, offset), w)
    let size := wrap (size + read)
    let offset := wrap (offset + read)
    let (heap, buf) ← krealloc w.heap buf (wrap (size + chunkSize))
    fsReadFullLoop handle fuel buf offset size { w with heap := heap }

/-- `fs_read_full(handle, count)`: the buffer, and what is stored at `count` if that
is not NULL. -/
def fsReadFull (fuel : Nat) (handle : Option (FileHandle σ File)) (w : ReadWorld σ) :
    Except Fault ((Nat × Nat) × ReadWorld σ) := do
  let (heap, buf) ← kalloc w.heap chunkSize
  let ((buf, offset), w) ← fsReadFullLoop handle fuel buf 0 chunkSize { w with heap := heap }
  let (heap, buf) ← krealloc w.heap buf offset
  return ((buf, offset), { w with heap := heap })

end Model

/-! ## What a filesystem delivers -/

section DeliversChunks

variable {σ File : Type}

/-- A read stores inside of the buffer that `fs_read_full` owns at that time. -/
def IssuedRead.Inside (r : IssuedRead) : Prop :=
  Kern.Owns r.heap r.buf (r.offset + r.count) ∧
    blockState r.heap.mem (blockOf r.buf) = memStateUsed

/-- From the state `s` on, requests of 2048 bytes are answered with these chunks, which
leads to the state `s'`. -/
def DeliversChunks (handle : Option (FileHandle σ File)) : σ → List (List UInt8) → σ → Prop
  | s, [], s' => s' = s
  | s, chunk :: chunks, s' => chunk ≠ [] ∧ chunk.length ≤ 2048 ∧
    ∃ s₁, fsAnswer handle 2048 s = (((chunk.length : Int), chunk), s₁) ∧
      DeliversChunks handle s₁ chunks s'

/-- In the state `s` a request is answered with a code that is not positive: 0 at the
end of the file, or an error, an `int`. -/
structure Answers (handle : Option (FileHandle σ File)) (s : σ) (code : Int) : Prop where
  answer : (fsAnswer handle 2048 s).1.1 = code
  stored : (fsAnswer handle 2048 s).1.2.length ≤ 2048
  not_pos : code ≤ 0
  int : -2 ^ 31 ≤ code

/-- The room that the buffers of the loop take, from the offset on. -/
def buffersRoom (offset : Nat) : List (List UInt8) → Nat
  | [] => 0
  | chunk :: chunks => blockRoom (offset + chunk.length + 2048 + 2048) +
    buffersRoom (offset + chunk.length) chunks

/-- The room that all buffers of `fs_read_full` take, if none of them is put where
another one was. -/
def readRoom (chunks : List (List UInt8)) : Nat := blockRoom chunkSize + buffersRoom 0 chunks

/-- What `fs_read_full` starts with. -/
def readWorld (s : σ) (heap : Allocator) : ReadWorld σ := { fs := s, heap := heap, reads := [] }

end DeliversChunks

/-! ## One round -/

section Round

variable {σ File : Type} {handle : Option (FileHandle σ File)} {limit fuel : Nat}
  {live : List Nat} {w : ReadWorld σ} {b : Extent} {done chunk : List UInt8} {s' : σ}

/-- In front of a read there is room for it behind what is in the buffer already. -/
structure Reading (limit : Nat) (live : List Nat) (w : ReadWorld σ) (b : Extent)
    (done : List UInt8) : Prop where
  held : ∃ blocks, HeldBlock limit w.heap live blocks b
  room : done.length + 2048 ≤ b.size
  seg : Seg w.heap.mem (b.pos + memBlockSize) done
  started : w.heap.memStart ≠ 0
  inside : limit ≤ w.heap.arenaEnd

/-- The read in front of which there is room is inside of the buffer. -/
theorem Reading.issued_inside (h : Reading limit live w b done) :
    IssuedRead.Inside ⟨w.heap, b.pos + memBlockSize, done.length, 2048⟩ := by
  obtain ⟨blocks, hheld⟩ := h.held
  refine ⟨hheld.heap.owns hheld.mem h.room, ?_⟩
  dsimp only
  rw [hheld.blockOf_eq]
  exact hheld.state

/-- What a read leaves. -/
structure ReadInto (handle : Option (FileHandle σ File)) (limit : Nat) (live : List Nat)
    (w : ReadWorld σ) (b : Extent) (done : List UInt8) (w' : ReadWorld σ) : Prop where
  reading : Reading limit live w' b done
  seg : Seg w'.heap.mem (b.pos + memBlockSize) (done ++ (fsAnswer handle 2048 w.fs).1.2)
  fs : w'.fs = (fsAnswer handle 2048 w.fs).2
  reads : w'.reads = w.reads ++ [⟨w.heap, b.pos + memBlockSize, done.length, 2048⟩]
  sameArena : SameArena w.heap w'.heap

/-- A read stores behind what is in the buffer already. -/
theorem Reading.fsRead_into (h : Reading limit live w b done)
    (handle : Option (FileHandle σ File))
    (hstored : (fsAnswer handle 2048 w.fs).1.2.length ≤ 2048) :
    ∃ w', fsRead handle (wrap (b.pos + memBlockSize + done.length)) 2048
        (w.issue (b.pos + memBlockSize) done.length 2048) =
          ((fsAnswer handle 2048 w.fs).1.1, w') ∧ ReadInto handle limit live w b done w' := by
  obtain ⟨blocks, hheld⟩ := h.held
  have hlimit := hheld.heap.limit_le
  have hfits := hheld.fits
  have hroom := h.room
  have hinside := h.inside
  have hlt := w.heap.arenaEnd_lt
  generalize hstore : (fsAnswer handle 2048 w.fs).1.2 = stored at hstored
  have hwrap : wrap (b.pos + memBlockSize + done.length) = b.pos + memBlockSize + done.length :=
    wrap_eq (by omega)
  generalize hm : w.heap.mem.storeBytes (b.pos + memBlockSize + done.length) stored = m
  have hframe : ∀ x, x < b.pos + memBlockSize + done.length ∨
      b.pos + memBlockSize + done.length + stored.length ≤ x → m x = w.heap.mem x := by
    intro x hx
    rw [← hm]
    exact Mem.storeBytes_apply_of_disjoint _ _ _ _ (by omega) hx
  have hfront : Seg m (b.pos + memBlockSize) done :=
    h.seg.congr (by omega) fun x _ hx => hframe x (by omega)
  have hstored' : Seg m (b.pos + memBlockSize + done.length) stored := by
    rw [← hm]
    exact seg_storeBytes (by omega)
  refine ⟨_, rfl, ?_⟩
  simp only [ReadWorld.issue, hwrap, hstore, hm]
  refine ⟨⟨⟨blocks, hheld.write fun x hx => hframe x ?_⟩, hroom, hfront, h.started, hinside⟩,
    ?_, rfl, rfl, ⟨rfl, rfl, rfl⟩⟩
  · unfold Extent.InPayload Extent.stop at hx
    omega
  · rw [hstore]
    exact seg_append.mpr ⟨hfront, hstored'⟩

/-- A chunk is put behind the others, and there is room for the next read. -/
theorem Reading.loop_chunk (h : Reading limit live w b done) (hne : chunk ≠ [])
    (hlen : chunk.length ≤ 2048)
    (hanswer : fsAnswer handle 2048 w.fs = (((chunk.length : Int), chunk), s'))
    (hroom : limit + blockRoom (done.length + chunk.length + 2048 + 2048) ≤ w.heap.arenaEnd) :
    ∃ c w', (∀ fuel, fsReadFullLoop handle (fuel + 1) (b.pos + memBlockSize) done.length
        (done.length + 2048) w =
          fsReadFullLoop handle fuel (c.pos + memBlockSize) (done ++ chunk).length
            ((done ++ chunk).length + 2048) w') ∧
      Reading (limit + blockRoom (done.length + chunk.length + 2048 + 2048)) live w' c
        (done ++ chunk) ∧
      w'.fs = s' ∧ w'.reads = w.reads ++ [⟨w.heap, b.pos + memBlockSize, done.length, 2048⟩] ∧
      SameArena w.heap w'.heap := by
  have hpos : 0 < chunk.length := List.length_pos_iff.mpr hne
  have hlt := w.heap.arenaEnd_lt
  have hsize := size_le_of_blockRoom (done.length + chunk.length + 2048 + 2048) (by omega)
  obtain ⟨w₁, hread, hinto⟩ := h.fsRead_into handle (by rw [hanswer]; exact hlen)
  obtain ⟨blocks, hheld⟩ := hinto.reading.held
  have hend := hinto.sameArena.arenaEnd
  have hfits := hheld.fits
  have hin := h.inside
  obtain ⟨heap', c, blocks', hrealloc, hsame, hnew, hbig, hkeep⟩ :=
    hheld.resize hinto.reading.started (done.length + chunk.length + 2048 + 2048)
      (by omega) (by omega)
  have hfits' := hnew.fits
  have hseg := hinto.seg
  have hfs := hinto.fs
  have hbroom := h.room
  rw [hanswer] at hread hseg hfs
  dsimp only at hread hseg hfs
  have hint : ((chunk.length : Int) % 2 ^ 32).toNat = chunk.length := by omega
  refine ⟨c, { w₁ with heap := heap' }, fun fuel => ?_, ⟨⟨blocks', hnew⟩, ?_, ?_, ?_, ?_⟩, hfs,
    hinto.reads, hinto.sameArena.trans hsame⟩
  · rw [fsReadFullLoop, hread]
    simp only [hint, if_neg (by omega : ¬ chunk.length ≤ 0)]
    have hnext : wrap (done.length + 2048 + chunk.length) =
        done.length + chunk.length + 2048 := by
      rw [wrap_eq (by omega)]
      omega
    rw [hnext, chunkSize, wrap_eq (by omega : done.length + chunk.length < 2 ^ 32),
      wrap_eq (by omega : done.length + chunk.length + 2048 + 2048 < 2 ^ 32), hrealloc, ok_bind,
      List.length_append]
  · rw [List.length_append]
    omega
  · have hlength : (done ++ chunk).length = done.length + chunk.length := List.length_append
    refine hseg.moved (by omega) (by omega) fun i hi => hkeep i (by omega)
  · rw [hsame.1]
    exact hinto.reading.started
  · rw [hsame.arenaEnd, hend]
    exact hroom

/-- A read that is answered with 0 ends the loop. -/
theorem Reading.loop_end (h : Reading limit live w b done) (hend : Answers handle w.fs 0)
    (fuel size : Nat) :
    ∃ w', fsReadFullLoop handle (fuel + 1) (b.pos + memBlockSize) done.length size w =
        .ok ((b.pos + memBlockSize, done.length), w') ∧
      ReadInto handle limit live w b done w' := by
  obtain ⟨w', hread, hinto⟩ := h.fsRead_into handle hend.stored
  rw [hend.answer] at hread
  refine ⟨w', ?_, hinto⟩
  rw [fsReadFullLoop, hread]
  rfl

/-- A loop that returns has issued its first read, and no more than one a round. -/
theorem fsReadFullLoop_issues : ∀ {fuel buf offset size : Nat} {w : ReadWorld σ} {r : Nat × Nat}
    {w' : ReadWorld σ}, fsReadFullLoop handle fuel buf offset size w = .ok (r, w') →
    ∃ new, w'.reads = w.reads ++ ⟨w.heap, buf, offset, 2048⟩ :: new ∧ new.length < fuel := by
  intro fuel
  induction fuel with
  | zero =>
    intro buf offset size w r w' hok
    cases hok
  | succ fuel ih =>
    intro buf offset size w r w' hok
    have hfirst : (fsRead handle (wrap (buf + offset)) 2048 (w.issue buf offset 2048)).2.reads =
        w.reads ++ [⟨w.heap, buf, offset, 2048⟩] := rfl
    rw [fsReadFullLoop] at hok
    split at hok
    rename_i code w₁ hread
    rw [hread] at hfirst
    dsimp only at hfirst hok
    split at hok
    · cases hok
      exact ⟨[], hfirst, Nat.succ_pos fuel⟩
    · obtain ⟨⟨heap, buf'⟩, -, hok⟩ := bind_eq_ok hok
      obtain ⟨new, hnew, hcount⟩ := ih hok
      dsimp only at hnew
      refine ⟨⟨heap, buf', wrap (offset + (code % 2 ^ 32).toNat), 2048⟩ :: new, ?_,
        Nat.succ_lt_succ hcount⟩
      rw [hnew, hfirst, List.append_assoc, List.singleton_append]

/-- After an error the loop goes on: a run that returns has issued another read, with the
code added to the offset. -/
theorem Reading.loop_error {code : Int} {fuel size : Nat} {r : Nat × Nat} {w' : ReadWorld σ}
    (h : Reading limit live w b done) (hend : Answers handle w.fs code) (hneg : code < 0)
    (hok : fsReadFullLoop handle fuel (b.pos + memBlockSize) done.length size w = .ok (r, w')) :
    ∃ next new, w'.reads =
        w.reads ++ ⟨w.heap, b.pos + memBlockSize, done.length, 2048⟩ :: next :: new ∧
      next.offset = wrap (done.length + (code % 2 ^ 32).toNat) ∧ next.count = 2048 := by
  obtain ⟨w₁, hread, hinto⟩ := h.fsRead_into handle hend.stored
  rw [hend.answer] at hread
  have hint := hend.int
  -- a negative code is a large `size_t`
  have hread' : ¬ (code % 2 ^ 32).toNat ≤ 0 := by omega
  cases fuel with
  | zero => cases hok
  | succ fuel =>
    rw [fsReadFullLoop, hread] at hok
    simp only [if_neg hread'] at hok
    obtain ⟨⟨heap, buf'⟩, -, hok⟩ := bind_eq_ok hok
    obtain ⟨new, hnew, -⟩ := fsReadFullLoop_issues hok
    dsimp only at hnew
    refine ⟨⟨heap, buf', wrap (done.length + (code % 2 ^ 32).toNat), 2048⟩, new, ?_, rfl, rfl⟩
    rw [hnew, hinto.reads, List.append_assoc, List.singleton_append]

end Round

/-! ## All rounds -/

section Rounds

variable {σ File : Type} {handle : Option (FileHandle σ File)} {live : List Nat} {s' : σ}

/-- The chunks that are delivered are put one behind the other. -/
theorem Reading.loop_chunks : ∀ {chunks : List (List UInt8)} {limit : Nat} {w : ReadWorld σ}
    {b : Extent} {done : List UInt8}, Reading limit live w b done →
    DeliversChunks handle w.fs chunks s' →
    limit + buffersRoom done.length chunks ≤ w.heap.arenaEnd →
    ∃ limit' c w', (∀ fuel, fsReadFullLoop handle (chunks.length + fuel) (b.pos + memBlockSize)
        done.length (done.length + 2048) w =
          fsReadFullLoop handle fuel (c.pos + memBlockSize) (done ++ chunks.flatten).length
            ((done ++ chunks.flatten).length + 2048) w') ∧
      Reading limit' live w' c (done ++ chunks.flatten) ∧ w'.fs = s' ∧
      SameArena w.heap w'.heap ∧
      ∃ new, w'.reads = w.reads ++ new ∧ new.length = chunks.length ∧ ∀ r ∈ new, r.Inside := by
  intro chunks
  induction chunks with
  | nil =>
    intro limit w b done h hdelivers hroom
    cases hdelivers
    rw [List.flatten_nil, List.append_nil]
    exact ⟨limit, b, w, fun fuel => by rw [List.length_nil, Nat.zero_add], h, rfl,
      ⟨rfl, rfl, rfl⟩, [], (List.append_nil _).symm, rfl, by simp⟩
  | cons chunk chunks ih =>
    intro limit w b done h hdelivers hroom
    obtain ⟨hne, hlen, s₁, hanswer, hrest⟩ := hdelivers
    rw [buffersRoom] at hroom
    obtain ⟨c, w₁, hloop, hreading, hfs, hreads, hsame⟩ :=
      h.loop_chunk hne hlen hanswer (by omega)
    subst hfs
    obtain ⟨limit', d, w', hloop', hreading', hfs', hsame', new, hnew, hcount, hinside⟩ :=
      ih hreading hrest (by rw [List.length_append, hsame.arenaEnd]; omega)
    rw [List.flatten_cons, ← List.append_assoc]
    refine ⟨limit', d, w', fun fuel => ?_, hreading', hfs', hsame.trans hsame',
      ⟨w.heap, b.pos + memBlockSize, done.length, 2048⟩ :: new, ?_, ?_, ?_⟩
    · rw [List.length_cons, Nat.add_right_comm, hloop, hloop']
    · rw [hnew, hreads, List.append_assoc, List.singleton_append]
    · rw [List.length_cons, hcount, List.length_cons]
    · exact List.forall_mem_cons.mpr ⟨h.issued_inside, hinside⟩

/-- The world in front of the read that delivers no chunk. -/
structure Delivered (limit start size : Nat) (live : List Nat) (c : Extent)
    (chunks : List (List UInt8)) (w : ReadWorld σ) : Prop where
  reading : Reading limit live w c chunks.flatten
  memStart : w.heap.memStart = start
  memSize : w.heap.memSize = size
  count : w.reads.length = chunks.length
  inside : ∀ r ∈ w.reads, r.Inside

/-- `fs_read_full` behind its loop: the buffer is cut off. -/
def cutOff : (Nat × Nat) × ReadWorld σ → Except Fault ((Nat × Nat) × ReadWorld σ)
  | ((buf, offset), w) => do
    let (heap, buf) ← krealloc w.heap buf offset
    return ((buf, offset), { w with heap := heap })

variable {stop start size : Nat} {heap : Allocator} {s : σ} {chunks : List (List UInt8)}

/-- `fs_read_full` gets to the read that delivers no chunk. -/
theorem fsReadFull_delivered (hheap : HeapInv stop start size ⟨heap, live⟩) (hstart : start ≠ 0)
    (hroom : stop + readRoom chunks ≤ start + size) (hend : start + size < 2 ^ 32)
    (hdelivers : DeliversChunks handle s chunks s') :
    ∃ limit c w, Delivered limit start size live c chunks w ∧ w.fs = s' ∧
      ∀ fuel, fsReadFull (chunks.length + fuel) handle (readWorld s heap) =
        fsReadFullLoop handle fuel (c.pos + memBlockSize) chunks.flatten.length
          (chunks.flatten.length + 2048) w >>= cutOff := by
  obtain ⟨rfl, rfl, blocks, hblocks⟩ := hheap
  have harena : heap.arenaEnd = heap.memStart + heap.memSize := wrap_eq hend
  unfold readRoom at hroom
  dsimp only at hblocks hstart hroom hend ⊢
  obtain ⟨heap₁, c, blocks₁, hkalloc, hsame, hheld, hbig, -⟩ :=
    kalloc_held hblocks hstart chunkSize (by decide) (by omega)
  have hreading : Reading (stop + blockRoom chunkSize) live
      { fs := s, heap := heap₁, reads := [] } c [] := by
    refine ⟨⟨blocks₁, hheld⟩, ?_, trivial, ?_, ?_⟩
    · rw [List.length_nil, Nat.zero_add]
      exact hbig
    · dsimp only
      rw [hsame.1]
      exact hstart
    · dsimp only
      rw [hsame.arenaEnd]
      omega
  obtain ⟨limit', d, w', hloop, hreading', hfs, hsame', new, hnew, hcount, hinside⟩ :=
    hreading.loop_chunks hdelivers (by
      dsimp only
      rw [hsame.arenaEnd, List.length_nil]
      omega)
  rw [List.nil_append] at hreading' hnew
  have harena' := hsame.trans hsame'
  refine ⟨limit', d, w', ⟨hreading', harena'.1, harena'.2.1, hnew ▸ hcount, hnew ▸ hinside⟩, hfs,
    fun fuel => ?_⟩
  have hloop := hloop fuel
  rw [List.nil_append, List.length_nil] at hloop
  rw [← hloop]
  unfold fsReadFull readWorld
  rw [hkalloc, ok_bind]
  rfl

/-- The buffer that is cut off holds what has been read. -/
theorem ReadInto.cutOff_ok {limit : Nat} {w w' : ReadWorld σ} {c : Extent} {done : List UInt8}
    (h : ReadInto handle limit live w c done w') :
    ∃ w'', cutOff ((c.pos + memBlockSize, done.length), w') =
        .ok ((c.pos + memBlockSize, done.length), w'') ∧ w''.reads = w'.reads ∧
      SameArena w'.heap w''.heap ∧ Seg w''.heap.mem (c.pos + memBlockSize) done ∧
      ∃ blocks, HeldBlock limit w''.heap live blocks { c with size := done.length } := by
  obtain ⟨blocks, hheld⟩ := h.reading.held
  have hroom := h.reading.room
  have hfits := hheld.fits
  have hlimit := hheld.heap.limit_le
  obtain ⟨heap', blocks', hrealloc, hsame, hheld', hkeep⟩ :=
    hheld.shrink h.reading.inside done.length (by omega)
  refine ⟨{ w' with heap := heap' }, ?_, rfl, hsame, ?_, blocks', hheld'⟩
  · unfold cutOff
    dsimp only
    rw [hrealloc]
    rfl
  · exact h.reading.seg.congr (by omega) fun x hx _ => hkeep x hx

/-- Cutting off the buffer reads nothing. -/
theorem cutOff_reads {x y : (Nat × Nat) × ReadWorld σ} (hok : cutOff x = .ok y) :
    y.2.reads = x.2.reads := by
  obtain ⟨⟨buf, offset⟩, w⟩ := x
  obtain ⟨⟨heap, buf'⟩, -, hok⟩ := bind_eq_ok hok
  cases hok
  rfl

/-- There are no more reads than rounds. -/
theorem fsReadFull_reads {fuel : Nat} {w : ReadWorld σ} {y : (Nat × Nat) × ReadWorld σ}
    (hok : fsReadFull fuel handle w = .ok y) : y.2.reads.length ≤ w.reads.length + fuel := by
  obtain ⟨⟨heap, buf⟩, -, hok⟩ := bind_eq_ok hok
  obtain ⟨x, hloop, hcut⟩ := bind_eq_ok hok
  obtain ⟨new, hnew, hcount⟩ := fsReadFullLoop_issues hloop
  rw [cutOff_reads (x := x) hcut, hnew, List.length_append, List.length_cons]
  exact Nat.add_le_add_left hcount _

/-- What `fs_read_full` returns when the file ends. -/
theorem fsReadFull_ends (hheap : HeapInv stop start size ⟨heap, live⟩) (hstart : start ≠ 0)
    (hroom : stop + readRoom chunks ≤ start + size) (hend : start + size < 2 ^ 32)
    (hdelivers : DeliversChunks handle s chunks s') (hanswers : Answers handle s' 0) {fuel : Nat}
    (hfuel : chunks.length < fuel) :
    ∃ (c : Extent) (w : ReadWorld σ), fsReadFull fuel handle (readWorld s heap) =
        .ok ((c.pos + memBlockSize, chunks.flatten.length), w) ∧
      Seg w.heap.mem (c.pos + memBlockSize) chunks.flatten ∧
      (∃ blocks, HeldBlock (start + size) w.heap live blocks
        { c with size := chunks.flatten.length }) ∧
      w.heap.memStart = start ∧ w.heap.memSize = size ∧
      w.reads.length = chunks.length + 1 ∧ ∀ r ∈ w.reads, r.Inside := by
  obtain ⟨limit, c, w, hbefore, rfl, hrun⟩ :=
    fsReadFull_delivered hheap hstart hroom hend hdelivers
  obtain ⟨k, rfl⟩ := Nat.exists_eq_add_of_lt hfuel
  obtain ⟨w', hloop, hinto⟩ := hbefore.reading.loop_end hanswers k (chunks.flatten.length + 2048)
  obtain ⟨w'', hcut, hreads, hsame, hseg, blocks, hheld⟩ := hinto.cutOff_ok
  have hsame' := hinto.sameArena.trans hsame
  have hlimit : limit ≤ start + size := by
    have hinside := hbefore.reading.inside
    rw [Allocator.arenaEnd, hbefore.memStart, hbefore.memSize, wrap_eq hend] at hinside
    exact hinside
  have hwide := hheld.heap.mono hlimit (Nat.le_of_lt hend)
  refine ⟨c, w'', ?_, hseg, ⟨blocks, hwide, hheld.mem, hheld.used, hheld.plain⟩,
    hsame'.1.trans hbefore.memStart, hsame'.2.1.trans hbefore.memSize, ?_, ?_⟩
  · rw [Nat.add_assoc, hrun, hloop]
    exact hcut
  · rw [hreads, hinto.reads, List.length_append, hbefore.count, List.length_singleton]
  · rw [hreads, hinto.reads]
    intro r hr
    rcases List.mem_append.mp hr with hr | hr
    · exact hbefore.inside r hr
    · rw [List.mem_singleton.mp hr]
      exact hbefore.reading.issued_inside

/-- `fs_read_full` collects a file: when a filesystem delivers chunks and then answers 0,
the buffer that is returned holds the chunks, one behind the other, and the count is
their length; each read was inside of the buffer. -/
theorem fsReadFull_collects (hheap : HeapInv stop start size ⟨heap, live⟩) (hstart : start ≠ 0)
    (hroom : stop + readRoom chunks ≤ start + size) (hend : start + size < 2 ^ 32)
    (hdelivers : DeliversChunks handle s chunks s') (hanswers : Answers handle s' 0) {fuel : Nat}
    (hfuel : chunks.length < fuel) :
    ∃ buf w, fsReadFull fuel handle (readWorld s heap) = .ok ((buf, chunks.flatten.length), w) ∧
      Seg w.heap.mem buf chunks.flatten ∧ Kern.Owns w.heap buf chunks.flatten.length ∧
      HeapInv (start + size) start size ⟨w.heap, buf :: live⟩ ∧
      w.reads.length = chunks.length + 1 ∧ ∀ r ∈ w.reads, r.Inside := by
  obtain ⟨c, w, hrun, hseg, ⟨blocks, hheld⟩, hmemStart, hmemSize, hreads⟩ :=
    fsReadFull_ends hheap hstart hroom hend hdelivers hanswers hfuel
  exact ⟨_, w, hrun, hseg, hheld.heap.owns hheld.mem (Nat.le_refl _),
    ⟨hmemStart, hmemSize, blocks, hheld.heap⟩, hreads⟩

end Rounds

/-- A file that is in memory: its bytes from the current offset on. -/
def memoryFile : FileHandle (List UInt8) Unit where
  file := ()
  fs := { read := some fun _ count s => (((s.take count).length, s.take count), s.drop count) }

theorem memoryFile_delivers : DeliversChunks (some memoryFile) [65] [[65]] [] :=
  ⟨by decide, by decide, [], rfl, rfl⟩

theorem memoryFile_answers : Answers (some memoryFile) [] 0 :=
  ⟨rfl, by decide, by decide, by decide⟩

/-- The heap behind `init_alloc`. -/
theorem initHeap_inv (m : Mem) {start size : Nat} (hfits : start + memBlockSize ≤ 2 ^ 32) :
    HeapInv (start + memBlockSize) start size (initHeap m start size) :=
  ⟨rfl, rfl, [], initAlloc_blocks m hfits (Nat.le_refl _)⟩

/-- A file of one byte. -/
theorem fsReadFull_collects_byte :
    ∃ buf w, fsReadFull 2 (some memoryFile)
        (readWorld [65] (initHeap (fun _ => 0) 4096 65536).allocator) = .ok ((buf, 1), w) ∧
      Seg w.heap.mem buf [65] ∧ Kern.Owns w.heap buf 1 ∧
      HeapInv (4096 + 65536) 4096 65536 ⟨w.heap, [buf]⟩ ∧
      w.reads.length = 2 ∧ ∀ r ∈ w.reads, r.Inside :=
  fsReadFull_collects (initHeap_inv _ (by decide)) (by decide) (by decide) (by decide)
    memoryFile_delivers memoryFile_answers (by decide)

/-! ## Errors -/

section Errors

variable {σ File : Type} {handle : Option (FileHandle σ File)} {live : List Nat} {s s' : σ}
  {stop start size : Nat} {heap : Allocator} {chunks : List (List UInt8)}

/-- `fs_read_full` stops at the read that delivers no chunk, its count is the length of
what the reads in front of it have delivered, and each read is inside of its buffer. -/
def StopsAfter (handle : Option (FileHandle σ File)) (s : σ) (heap : Allocator)
    (chunks : List (List UInt8)) : Prop :=
  ∃ fuel buf w, fsReadFull fuel handle (readWorld s heap) =
      .ok ((buf, chunks.flatten.length), w) ∧
    w.reads.length = chunks.length + 1 ∧ ∀ r ∈ w.reads, r.Inside

/-- After an error there is another read, with the code added to the offset. -/
theorem fsReadFull_goesOn (hheap : HeapInv stop start size ⟨heap, live⟩) (hstart : start ≠ 0)
    (hroom : stop + readRoom chunks ≤ start + size) (hend : start + size < 2 ^ 32)
    (hdelivers : DeliversChunks handle s chunks s') {code : Int}
    (hanswers : Answers handle s' code) (hneg : code < 0) {fuel : Nat}
    {y : (Nat × Nat) × ReadWorld σ} (hfuel : chunks.length ≤ fuel)
    (hok : fsReadFull fuel handle (readWorld s heap) = .ok y) :
    ∃ front next new, y.2.reads = front ++ next :: new ∧ front.length = chunks.length + 1 ∧
      next.offset = wrap (chunks.flatten.length + (code % 2 ^ 32).toNat) ∧ next.count = 2048 := by
  obtain ⟨limit, c, w, hbefore, rfl, hrun⟩ :=
    fsReadFull_delivered hheap hstart hroom hend hdelivers
  obtain ⟨k, rfl⟩ := Nat.exists_eq_add_of_le hfuel
  rw [hrun] at hok
  obtain ⟨⟨r, w'⟩, hloop, hcut⟩ := bind_eq_ok hok
  obtain ⟨next, new, hnew, hnext⟩ := hbefore.reading.loop_error hanswers hneg hloop
  refine ⟨w.reads ++ [⟨w.heap, c.pos + memBlockSize, chunks.flatten.length, 2048⟩], next, new,
    ?_, ?_, hnext⟩
  · rw [cutOff_reads hcut, hnew, List.append_assoc, List.singleton_append]
  · rw [List.length_append, hbefore.count, List.length_singleton]

theorem not_stopsAfter_of_error (hheap : HeapInv stop start size ⟨heap, live⟩)
    (hstart : start ≠ 0) (hroom : stop + readRoom chunks ≤ start + size)
    (hend : start + size < 2 ^ 32) (hdelivers : DeliversChunks handle s chunks s') {code : Int}
    (hanswers : Answers handle s' code) (hneg : code < 0) :
    ¬ StopsAfter handle s heap chunks := by
  rintro ⟨fuel, buf, w, hok, hcount, -⟩
  -- there are rounds enough for the chunks
  have hfuel := fsReadFull_reads hok
  dsimp only [readWorld] at hfuel
  rw [List.length_nil, hcount] at hfuel
  obtain ⟨front, next, new, hnew, hfront, -, -⟩ :=
    fsReadFull_goesOn hheap hstart hroom hend hdelivers hanswers hneg (by omega) hok
  dsimp only at hnew
  rw [hnew, List.length_append, List.length_cons, hfront] at hcount
  omega

/-- When the first read fails with a code from -1 down to -2048, the next read is in front
of the buffer. -/
theorem fsReadFull_outside_of_error (hheap : HeapInv stop start size ⟨heap, live⟩)
    (hstart : start ≠ 0) (hroom : stop + readRoom [] ≤ start + size)
    (hend : start + size < 2 ^ 32) {code : Int} (hanswers : Answers handle s code)
    (hneg : code < 0) (hcode : -2048 ≤ code) {fuel : Nat} {y : (Nat × Nat) × ReadWorld σ}
    (hok : fsReadFull fuel handle (readWorld s heap) = .ok y) :
    ∃ r ∈ y.2.reads, ¬ r.Inside := by
  have hdelivers : DeliversChunks handle s [] s := rfl
  obtain ⟨front, next, new, hnew, -, hoffset, hcount⟩ :=
    fsReadFull_goesOn hheap hstart hroom hend hdelivers hanswers hneg (Nat.zero_le _) hok
  refine ⟨next, by rw [hnew]; simp, ?_⟩
  rintro ⟨⟨chain, -, block, -, -, hsize⟩, -⟩
  -- no block is as large as the address space
  have hlt : blockSize next.heap.mem block < 2 ^ 32 := Mem.load32_lt _ _
  rw [List.flatten_nil, List.length_nil, Nat.zero_add, wrap_eq (by omega)] at hoffset
  omega

/-- `fs_read_full` stops at the first answer that is not positive exactly when this is
0, the end of the file. -/
theorem fsReadFull_stopsAfter_iff (hheap : HeapInv stop start size ⟨heap, live⟩)
    (hstart : start ≠ 0) (hroom : stop + readRoom chunks ≤ start + size)
    (hend : start + size < 2 ^ 32) (hdelivers : DeliversChunks handle s chunks s') {code : Int}
    (hanswers : Answers handle s' code) : StopsAfter handle s heap chunks ↔ code = 0 := by
  constructor
  · intro hstops
    by_contra hne
    have hneg := lt_of_le_of_ne hanswers.not_pos hne
    exact not_stopsAfter_of_error hheap hstart hroom hend hdelivers hanswers hneg hstops
  · rintro rfl
    obtain ⟨c, w, hrun, -, -, -, -, hreads⟩ :=
      fsReadFull_ends hheap hstart hroom hend hdelivers hanswers (Nat.lt_succ_self _)
    exact ⟨_, _, w, hrun, hreads⟩

end Errors

/-- For a file of one byte `fs_read_full` stops at its end. -/
theorem fsReadFull_stopsAfter_byte :
    StopsAfter (some memoryFile) [65] (initHeap (fun _ => 0) 4096 65536).allocator [[65]] ↔
      (0 : Int) = 0 :=
  fsReadFull_stopsAfter_iff (initHeap_inv _ (by decide)) (by decide) (by decide) (by decide)
    memoryFile_delivers memoryFile_answers

/-- A file whose first read fails with -1, like that of `fat_read` on a bad sector; then
the file is at its end. -/
def failingFile : FileHandle Bool Unit where
  file := ()
  fs := { read := some fun _ _ failed => ((if failed then 0 else -1, []), true) }

/-- The first read fails, and `fs_read_full` goes on. -/
theorem not_stopsAfter_failing :
    ¬ StopsAfter (some failingFile) false (initHeap (fun _ => 0) 4096 65536).allocator [] :=
  not_stopsAfter_of_error (initHeap_inv _ (by decide)) (by decide) (by decide) (by decide) rfl
    ⟨rfl, by decide, by decide, by decide⟩ (by decide)

end Microboot.Kern.Fs
