/-
  Kern/Autorun.lean --- the commands of a file, kern/main.c.

  `process_autorun` reads a file, puts a terminator behind it and takes it apart with
  `strtok_r`, whose pointer is its own.  Each line is copied, and the copy is handed to
  `process_command_string`, between two calls of `strtok_r`.

  What a command does is a parameter.  It may do anything to the pointer that `strtok`
  keeps and to its copy, and calls the allocator as often as it likes, but not on the
  buffer with the file, which it does not know, and it does not free its copy.

  `Pending` is what the buffer has still to say at the top of the loop; a command keeps
  it, because all of it is in the buffer.
-/
import Microboot.Kern.OwnCalls

set_option autoImplicit false

namespace Microboot.Kern.Autorun

open Microboot.Foundation Microboot.Kern

/-! ## The model -/

/-- The heap, the pointer that `strtok` keeps, the strings that `process_command_string`
was handed, and the messages, each with the string it is about. -/
structure Shell where
  heap : HeapState
  saved : Nat
  passed : List (Option (List UInt8))
  printed : List (String × Option (List UInt8))

/-- A program that can stop, and leaves a shell when it does. -/
abbrev AutorunM (α : Type) : Type := ExceptT Fault (StateM Shell) α

/-- What `process_command_string` does with the string at an address: it leaves the heap
and the pointer of `strtok`, or stops. -/
abbrev Command : Type := Shell → Nat → Except Fault (HeapState × Nat)

/-- A file that `fs_open` has found: `fs_read_full` returns the buffer, or `NULL`, and
stores the size. -/
structure File where
  readFull : HeapState → Except Fault ((Nat × Nat) × HeapState)
  close : HeapState → HeapState

def call (op : AllocOp) : AutorunM Nat := ExceptT.mk fun s =>
  match op.exec s.heap.allocator with
  | .ok (a, ret) => (.ok ret, { s with heap := ⟨a, op.liveAfter s.heap.live ret⟩ })
  | .error fault => (.error fault, s)

def kalloc (size : Nat) : AutorunM Nat := call (.kalloc size)

def krealloc (ptr newSize : Nat) : AutorunM Nat := call (.krealloc ptr newSize)

def kfree (ptr : Nat) : AutorunM Unit := do
  let _ ← call (.kfree ptr)

/-- The memory is written. -/
def write (f : Mem → Mem) : AutorunM Unit := ExceptT.mk fun s =>
  let heap := { s.heap with allocator := { s.heap.allocator with mem := f s.heap.allocator.mem } }
  (.ok (), { s with heap := heap })

/-- `strdup(s)` -/
def strdup (str : Nat) : AutorunM Nat := do
  match strlen (← get).heap.allocator.mem str with
  | none => throw .hang
  | some len => do
    let copy ← kalloc (len + 1)
    if copy = 0 then
      return copy
    else do
      write fun m => memcpy m copy str (len + 1)
      return copy

/-- `debugf(format, str)` -/
def debugf (format : String) (str : Nat) : AutorunM Unit := ExceptT.mk fun s =>
  (.ok (), { s with printed := s.printed ++ [(format, cstr s.heap.allocator.mem str)] })

/-- `debug(message)` and `printf(message)` -/
def printf (message : String) : AutorunM Unit := ExceptT.mk fun s =>
  (.ok (), { s with printed := s.printed ++ [(message, none)] })

/-- `process_command_string(cmd)` -/
def processCommandString (command : Command) (cmd : Nat) : AutorunM Unit := ExceptT.mk fun s =>
  let s := { s with passed := s.passed ++ [cstr s.heap.allocator.mem cmd] }
  match command s cmd with
  | .ok (heap, saved) => (.ok (), { s with heap := heap, saved := saved })
  | .error fault => (.error fault, s)

/-- `strtok_r(str, "\n", &saveptr)`: the token, and the new `saveptr`. -/
def strtokLine (str saveptr : Nat) : AutorunM (Nat × Nat) := do
  match strtokR (← get).heap.allocator.mem str [10] saveptr with
  | none => throw .hang
  | some (m, tok, saveptr) => do
    write fun _ => m
    return (tok, saveptr)

/-- `while (tok) { .. }` -/
def autorunLoop (command : Command) : Nat → Nat → Nat → AutorunM Unit
  | 0, _, _ => throw .hang
  | fuel + 1, tok, saveptr => do
    if tok = 0 then
      return ()
    else do
      let cmd ← strdup tok
      debugf "cmd: \"%s\"" tok
      processCommandString command cmd
      kfree cmd
      let (tok, saveptr) ← strtokLine 0 saveptr
      autorunLoop command fuel tok saveptr

/-- `fs_read_full(file, &size)` -/
def fsReadFull (file : File) : AutorunM (Nat × Nat) := ExceptT.mk fun s =>
  match file.readFull s.heap with
  | .ok (result, heap) => (.ok result, { s with heap := heap })
  | .error fault => (.error fault, s)

/-- `fs_close(file)` -/
def fsClose (file : File) : AutorunM Unit := ExceptT.mk fun s =>
  (.ok (), { s with heap := file.close s.heap })

/-- `process_autorun()`, where `fs_open` returns the file; `saveptr` is not initialised. -/
def processAutorun (command : Command) (file : Option File) (saveptr : Nat) : AutorunM Unit := do
  match file with
  | none => printf "autorun not present"
  | some file => do
    let (data, size) ← fsReadFull file
    if data = 0 ∨ size = 0 then do
      printf "Unable to read autorun\n"
      fsClose file
    else do
      let data ← krealloc data (wrap (size + 1))
      write fun m => m.store8 (data + size) 0
      let (tok, saveptr) ← strtokLine data saveptr
      autorunLoop command addrSpace tok saveptr
      kfree data

/-! ## What is relied on -/

/-- A call on a pointer of its own, or a write to a block of its own or to its copy. -/
def OwnStep (limit buffer copy : Nat) (s : HeapState) (e : AllocOp × Nat) (s' : HeapState) :
    Prop :=
  HeapStep MarksBlock limit s e s' ∧ e.1.Leaves buffer ∧ e.1.Leaves copy ∧
    ∀ x, buffer ≤ x → x < buffer + blockSize s.allocator.mem (blockOf buffer) → ¬ e.1.Writes x

/-- The commands make any number of calls on pointers of their own. -/
def Command.OnOwn (command : Command) (limit buffer : Nat) : Prop :=
  ∀ s copy heap saved, copy ∈ s.heap.live → copy ≠ buffer →
    command s copy = .ok (heap, saved) → ∃ trace, Run (OwnStep limit buffer copy) s.heap trace heap

/-- The block at `data` has what was read from a file. -/
structure HasFile (s : HeapState) (data : Nat) (content : List UInt8) : Prop where
  live : data ∈ s.live
  plain : blockFlags s.allocator.mem (blockOf data) &&& memCritical = 0
  room : content.length ≤ blockSize s.allocator.mem (blockOf data)
  seg : Seg s.allocator.mem data content

/-- No block is left, or the last one begins behind the end of the arena. -/
def OutOfMemory (fault : Fault) : Prop :=
  fault = .assert "Out of memory, cannot allocate" ∨
    fault = .assert "Tried to realloc invalid address" ∨
    fault = .assert "Tried to free invalid address"

/-- Memory has run out, or a command has stopped. -/
def Stops (command : Command) (fault : Fault) : Prop :=
  OutOfMemory fault ∨ ∃ s cmd, command s cmd = .error fault

/-- `'\n'` separates lines. -/
abbrev isNewline : UInt8 → Bool := isDelim [10]

/-! ## Runs -/

/-- `x` returns a result and a shell in `Q`, or stops and leaves a shell in `E`. -/
def Ends {α : Type} (x : AutorunM α) (s : Shell) (Q : α → Shell → Prop)
    (E : Fault → Shell → Prop) : Prop :=
  match x.run s with
  | (.ok a, s') => Q a s'
  | (.error fault, s') => E fault s'

namespace Ends

variable {α β : Type} {x : AutorunM α} {f : α → AutorunM β} {s : Shell}
  {Q Q' : α → Shell → Prop} {R : β → Shell → Prop} {E E' : Fault → Shell → Prop}

theorem mk {g : Shell → Except Fault α × Shell} : Ends (ExceptT.mk g) s Q E ↔
    match g s with
    | (.ok a, s') => Q a s'
    | (.error fault, s') => E fault s' := Iff.rfl

theorem pure {a : α} (h : Q a s) : Ends (Pure.pure a) s Q E := h

theorem bind (h : Ends x s (fun a s' => Ends (f a) s' R E) E) : Ends (x >>= f) s R E := by
  have hrun : (x >>= f).run s = match x.run s with
      | (.ok a, s') => (f a).run s'
      | (.error e, s') => (.error e, s') := by
    change (match x.run s with | (r, s') => ExceptT.bindCont f r s') = _
    rcases x.run s with ⟨r | a, s'⟩
    all_goals rfl
  unfold Ends at h ⊢
  rw [hrun]
  generalize x.run s = out at h ⊢
  obtain ⟨r | a, s'⟩ := out
  all_goals exact h

theorem mono (h : Ends x s Q E) (hQ : ∀ a s', Q a s' → Q' a s')
    (hE : ∀ fault s', E fault s' → E' fault s') : Ends x s Q' E' := by
  unfold Ends at h ⊢
  split at h
  · exact hQ _ _ h
  · exact hE _ _ h

end Ends

/-! ## The buffer -/

section Buffer

variable {limit size p q ret str saveptr tok : Nat} {m m' : Mem} {heap heap' heap'' : HeapState}
  {op : AllocOp} {b c : Extent} {u w : List UInt8} {lines : List (List UInt8)}

/-- The block of the buffer is in use afterwards, with the same contents, and the arena is
where it was. -/
structure Keeps (limit : Nat) (b : Extent) (heap heap' : HeapState) : Prop where
  inUse : InUse limit heap' b
  arena : heap'.allocator.memStart = heap.allocator.memStart ∧
    heap'.allocator.memSize = heap.allocator.memSize
  payload : ∀ x, b.InPayload memBlockSize x → heap'.allocator.mem x = heap.allocator.mem x

theorem Keeps.refl (h : InUse limit heap b) : Keeps limit b heap heap :=
  ⟨h, ⟨rfl, rfl⟩, fun _ _ => rfl⟩

theorem Keeps.trans (h : Keeps limit b heap heap') (h' : Keeps limit b heap' heap'') :
    Keeps limit b heap heap'' :=
  ⟨h'.inUse, ⟨h'.arena.1.trans h.arena.1, h'.arena.2.trans h.arena.2⟩,
    fun x hx => (h'.payload x hx).trans (h.payload x hx)⟩

theorem Keeps.step (h : InUse limit heap b) (hstep : HeapStep MarksBlock limit heap (op, ret) heap')
    (hleaves : op.Leaves (b.pos + memBlockSize))
    (hwrites : ∀ x, b.InPayload memBlockSize x → ¬ op.Writes x) : Keeps limit b heap heap' := by
  have ⟨blocks, hblocks, _⟩ := h.blocks
  obtain ⟨⟨hstart, hsize, -⟩, -⟩ := heapStep_inv ⟨rfl, rfl, blocks, hblocks⟩ hstep
  exact ⟨h.step hstep hleaves, ⟨hstart, hsize⟩,
    fun x hx => h.bytes hstep hleaves (hwrites x hx) (Or.inr hx)⟩

/-- What is written to another block. -/
theorem Keeps.write (h : InUse limit heap b) (hc : InUse limit heap c) (hne : b ≠ c)
    (hout : ∀ x, ¬ c.InPayload memBlockSize x → m' x = heap.allocator.mem x) :
    Keeps limit b heap { heap with allocator := { heap.allocator with mem := m' } } := by
  refine ⟨h.write hc hout, ⟨rfl, rfl⟩, fun x hx => hout x fun hx' => ?_⟩
  have hapart := (h.eq_or_apart hc).resolve_left hne
  unfold Extent.InPayload Extent.stop memBlockSize at hx hx'
  unfold Extent.stop memBlockSize at hapart
  omega

/-- What a command does. -/
theorem Keeps.run {trace : List (AllocOp × Nat)} (h : InUse limit heap b) (hc : InUse limit heap c)
    (hrun : Run (OwnStep limit (b.pos + memBlockSize) (c.pos + memBlockSize)) heap trace heap') :
    Keeps limit b heap heap' ∧ InUse limit heap' c := by
  induction hrun with
  | nil => exact ⟨.refl h, hc⟩
  | snoc _ hlast ih =>
    obtain ⟨hkeeps, hc⟩ := ih
    obtain ⟨hstep, hleaves, hleavesCopy, hwrites⟩ := hlast
    obtain ⟨blocks, hblocks, hb⟩ := hkeeps.inUse.blocks
    rw [hblocks.blockOf_eq (List.mem_cons_of_mem _ hb),
      (hblocks.holds b (List.mem_cons_of_mem _ hb)).size] at hwrites
    exact ⟨hkeeps.trans (.step hkeeps.inUse hstep hleaves fun x hx => hwrites x hx.1 hx.2),
      hc.step hstep hleavesCopy⟩

/-- The string is in the buffer. -/
structure StrIn (m : Mem) (b : Extent) (p : Nat) (u : List UInt8) : Prop where
  str : StrAt m p u
  start_le : b.pos + memBlockSize ≤ p
  stop_lt : p + u.length < b.stop memBlockSize

theorem StrIn.ne (hin : StrIn m b p u) : p ≠ 0 := by
  have hstart := hin.start_le
  unfold memBlockSize at hstart
  omega

theorem StrIn.congr (hin : StrIn m b p u) (hsame : ∀ x, b.InPayload memBlockSize x → m' x = m x) :
    StrIn m' b p u := by
  have hstart := hin.start_le
  have hstop := hin.stop_lt
  exact { hin with str := hin.str.congr fun x h1 h2 => hsame x ⟨by omega, by omega⟩ }

/-- The token is the first of the lines, and the others are behind `saveptr`. -/
def Ahead (m : Mem) (b : Extent) (tok saveptr : Nat) : List (List UInt8) → Prop
  | [] => tok = 0
  | w :: lines => StrIn m b tok w ∧
    ∃ rest, StrIn m b saveptr rest ∧ words isNewline rest = lines

theorem Ahead.congr (hahead : Ahead m b tok saveptr lines)
    (hsame : ∀ x, b.InPayload memBlockSize x → m' x = m x) : Ahead m' b tok saveptr lines := by
  cases lines with
  | nil => exact hahead
  | cons w lines =>
    obtain ⟨htok, rest, hrest, hlines⟩ := hahead
    exact ⟨htok.congr hsame, rest, hrest.congr hsame, hlines⟩

/-- What `strtok_r` finds in the buffer. -/
theorem strtokR_ahead (hin : StrIn m b q u) (hsource : tokSource str saveptr = q) :
    ∃ m' tok saveptr', strtokR m str [10] saveptr = some (m', tok, saveptr') ∧
      Ahead m' b tok saveptr' (words isNewline u) ∧
      ∀ x, ¬ b.InPayload memBlockSize x → m' x = m x := by
  have hstart := hin.start_le
  have hstop := hin.stop_lt
  have hfits := hin.str.fits
  have hq : tokSource str saveptr ≠ 0 := hsource ▸ hin.ne
  have hu : StrAt m (tokSource str saveptr) u := hsource ▸ hin.str
  rcases word_cases isNewline u with hblank | ⟨lead, w, hlead, hw, rfl⟩ |
    ⟨lead, w, d, rest, hlead, hw, hd, rfl⟩
  · refine ⟨m, 0, _, strtokR_blank [10] str saveptr hq hu hblank, ?_, fun _ _ => rfl⟩
    rw [words_of_blank hblank]
    exact rfl
  · refine ⟨m, _, _, strtokR_last [10] str saveptr hq hu hlead hw, ?_, fun _ _ => rfl⟩
    rw [words_append_blank hlead, words_of_isWord hw, hsource]
    rw [List.length_append] at hstop hfits
    have hend : StrAt m (q + lead.length + w.length) [] := by
      have hword := hin.str.drop
      rw [← List.append_nil w] at hword
      exact hword.drop
    refine ⟨⟨hin.str.drop, by omega, by omega⟩, [], ⟨hend, by omega, ?_⟩, rfl⟩
    rw [List.length_nil]
    omega
  · refine ⟨_, _, _, strtokR_cons [10] str saveptr hq hu hlead hw hd, ?_, fun x hx => ?_⟩
    · rw [words_append_blank hlead, words_cons hw hd, hsource]
      simp only [List.length_append, List.length_cons] at hstop hfits
      have hcut := hin.str.drop.cut
      exact ⟨⟨hcut.1, by omega, by omega⟩, rest, ⟨hcut.2, by omega, by omega⟩, rfl⟩
    · simp only [List.length_append, List.length_cons] at hstop hfits
      rw [hsource]
      refine Mem.store8_apply_of_ne m 0 (by omega) ?_
      rintro rfl
      exact hx ⟨by omega, by omega⟩

end Buffer

/-! ## What the calls do -/

section Calls

variable {limit size : Nat} {s : Shell} {heap heap' : HeapState} {b c : Extent}
  {w : List UInt8} {command : Command} {E : Fault → Shell → Prop}

/-- The buffer is in use, and the arena ends far enough in front of the limit. -/
structure Ready (limit size : Nat) (b : Extent) (heap : HeapState) : Prop where
  inUse : InUse limit heap b
  limit_lt : limit < 2 ^ 32
  initialised : heap.allocator.memStart ≠ 0
  room : heap.allocator.arenaEnd + blockRoom size ≤ limit

/-- The heap is another one, in the same arena. -/
theorem Ready.congr (h : Ready limit size b heap) (hc : InUse limit heap' c)
    (harena : heap'.allocator.memStart = heap.allocator.memStart ∧
      heap'.allocator.memSize = heap.allocator.memSize) : Ready limit size c heap' := by
  have hend : heap'.allocator.arenaEnd = heap.allocator.arenaEnd := by
    unfold Allocator.arenaEnd
    rw [harena.1, harena.2]
  exact ⟨hc, h.limit_lt, harena.1 ▸ h.initialised, hend ▸ h.room⟩

theorem Ready.keeps (h : Ready limit size b heap) (hkeeps : Keeps limit b heap heap') :
    Ready limit size b heap' := h.congr hkeeps.inUse hkeeps.arena

/-- A smaller block has more room. -/
theorem blockRoom_mono {n k : Nat} (h : n ≤ k) : blockRoom n ≤ blockRoom k := by
  unfold blockRoom alignment
  omega

theorem get_ends {Q : Shell → Shell → Prop} (h : Q s s) : Ends get s Q E := h

theorem write_ends {Q : Unit → Shell → Prop} {f : Mem → Mem}
    (h : Q () { s with heap := { s.heap with
      allocator := { s.heap.allocator with mem := f s.heap.allocator.mem } } }) :
    Ends (write f) s Q E := h

theorem debugf_ends {Q : Unit → Shell → Prop} {format : String} {str : Nat}
    (h : ∀ printed, Q () { s with printed := printed }) : Ends (debugf format str) s Q E := h _

theorem call_ends {Q : Nat → Shell → Prop} {op : AllocOp}
    (hfail : ∀ fault, op.exec s.heap.allocator = .error fault → E fault s)
    (h : ∀ a ret, op.exec s.heap.allocator = .ok (a, ret) →
      Q ret { s with heap := ⟨a, op.liveAfter s.heap.live ret⟩ }) : Ends (call op) s Q E := by
  rw [call, Ends.mk]
  cases hcall : op.exec s.heap.allocator with
  | error fault => exact hfail fault hcall
  | ok result => exact h result.1 result.2 hcall

/-- `kalloc` gives a block that is not the buffer. -/
theorem kalloc_ends {Q : Nat → Shell → Prop} {n : Nat} (hready : Ready limit size b s.heap)
    (hpos : 0 < n) (hn : n ≤ size)
    (hfail : ∀ fault, OutOfMemory fault → E fault s)
    (h : ∀ heap c, Keeps limit b s.heap heap → InUse limit heap c → b ≠ c → n ≤ c.size →
      Q (c.pos + memBlockSize) { s with heap := heap }) : Ends (kalloc n) s Q E := by
  have ⟨blocks, hblocks, _⟩ := hready.inUse.blocks
  have hroom := hready.room
  have hmono := blockRoom_mono hn
  have hlt := hready.limit_lt
  have hsize : n ≤ 2 ^ 32 - 64 := size_le_of_blockRoom n (by omega)
  refine call_ends (fun fault hcall => hfail fault (Or.inl ?_)) fun a ret hcall => ?_
  · exact hblocks.kalloc_eq_error hready.initialised hcall
  · have hcall : Kern.kalloc s.heap.allocator n = .ok (a, ret) := hcall
    have hfits := hblocks.appendFits_of_ok hlt (by omega) (alignedSize_ne_zero hpos hsize) hcall
    obtain ⟨hstep, c, rfl, hbig, hc, hothers⟩ := kalloc_inUse hblocks hpos hsize hfits hcall
    rw [← hstep.2.2]
    exact h _ c (.step hready.inUse hstep trivial fun _ _ => id) hc (hothers b hready.inUse) hbig

/-- The copy of a string of the buffer. -/
theorem strdup_ends {Q : Nat → Shell → Prop} {str : Nat} (hready : Ready limit size b s.heap)
    (hin : StrIn s.heap.allocator.mem b str w) (hw : w.length + 1 ≤ size)
    (hfail : ∀ fault, OutOfMemory fault → E fault s)
    (h : ∀ heap c, Keeps limit b s.heap heap → InUse limit heap c → b ≠ c →
      StrAt heap.allocator.mem (c.pos + memBlockSize) w →
      Q (c.pos + memBlockSize) { s with heap := heap }) : Ends (strdup str) s Q E := by
  refine .bind (get_ends ?_)
  rw [strlen_eq hin.str]
  refine .bind (kalloc_ends hready (Nat.succ_pos _) hw hfail fun heap c hkeeps hc hne hbig => ?_)
  have hnull : c.pos + memBlockSize ≠ 0 := by
    unfold memBlockSize
    omega
  rw [if_neg hnull]
  have hin' : StrIn heap.allocator.mem b str w := hin.congr hkeeps.payload
  have hapart := (hkeeps.inUse.eq_or_apart hc).resolve_left hne
  obtain ⟨blocks, hblocks, hmem⟩ := hc.blocks
  have hfits := hblocks.payload_fits hmem
  have hstart := hin.start_le
  have hstop := hin.stop_lt
  unfold Extent.stop at hapart hstop
  refine .bind (write_ends (.pure (h _ c (hkeeps.trans (.write hkeeps.inUse hc hne ?_)) ?_ hne ?_)))
  · intro x hx
    refine Mem.copy_apply_of_disjoint _ _ _ _ x (by omega) ?_
    unfold Extent.InPayload Extent.stop at hx
    omega
  · refine hc.write hc fun x hx => ?_
    refine Mem.copy_apply_of_disjoint _ _ _ _ x (by omega) ?_
    unfold Extent.InPayload Extent.stop at hx
    omega
  · obtain ⟨m, hdup, hm⟩ := strdup_spec hin'.str hnull (by omega) (by omega)
    simp only [Kern.strdup, strlen_eq hin'.str, Option.bind_eq_bind, Option.bind_some,
      if_pos hnull] at hdup
    cases hdup
    exact hm

/-- A command is handed a copy. -/
theorem processCommandString_ends {Q : Unit → Shell → Prop}
    (hown : command.OnOwn limit (b.pos + memBlockSize)) (hb : InUse limit s.heap b)
    (hc : InUse limit s.heap c) (hne : b ≠ c)
    (hstr : StrAt s.heap.allocator.mem (c.pos + memBlockSize) w)
    (hfail : ∀ fault, Stops command fault → E fault { s with passed := s.passed ++ [some w] })
    (h : ∀ heap saved, Keeps limit b s.heap heap → InUse limit heap c →
      Q () { s with heap := heap, saved := saved, passed := s.passed ++ [some w] }) :
    Ends (processCommandString command (c.pos + memBlockSize)) s Q E := by
  rw [processCommandString, Ends.mk, cstr_eq hstr]
  dsimp only
  cases hcall : command { s with passed := s.passed ++ [some w] } (c.pos + memBlockSize) with
  | error fault => exact hfail fault (Or.inr ⟨_, _, hcall⟩)
  | ok result =>
    obtain ⟨heap, saved⟩ := result
    have hptr := hc.pointer_ne hb (Ne.symm hne)
    obtain ⟨trace, hrun⟩ := hown { s with passed := s.passed ++ [some w] } _ heap saved hc.live
      hptr hcall
    obtain ⟨hkeeps, hc'⟩ := Keeps.run hb hc hrun
    exact h heap saved hkeeps hc'

/-- A block in use is freed. -/
theorem kfree_ends {Q : Unit → Shell → Prop} (hc : InUse limit s.heap c)
    (hfail : ∀ fault, OutOfMemory fault → E fault s)
    (h : ∀ heap ret, HeapStep MarksBlock limit s.heap (.kfree (c.pos + memBlockSize), ret) heap →
      Q () { s with heap := heap }) :
    Ends (kfree (c.pos + memBlockSize)) s Q E := by
  refine .bind (call_ends (fun fault hcall => ?_) fun a ret hcall => .pure ?_)
  · rcases hc.kfree_cases with ⟨a, hok⟩ | hbehind
    · rw [AllocOp.exec, hok] at hcall
      cases hcall
    · rw [AllocOp.exec, hbehind] at hcall
      cases hcall
      exact hfail _ (Or.inr (Or.inr rfl))
  · exact h _ ret ⟨hc.live, hcall, rfl⟩

/-- `strtok_r` finds the next line. -/
theorem strtokLine_ends {Q : Nat × Nat → Shell → Prop} {str saveptr q : Nat} {u : List UInt8}
    (hb : InUse limit s.heap b) (hin : StrIn s.heap.allocator.mem b q u)
    (hsource : tokSource str saveptr = q)
    (h : ∀ heap tok saveptr, InUse limit heap b →
      heap.allocator.memStart = s.heap.allocator.memStart ∧
        heap.allocator.memSize = s.heap.allocator.memSize →
      Ahead heap.allocator.mem b tok saveptr (words isNewline u) →
      Q (tok, saveptr) { s with heap := heap }) : Ends (strtokLine str saveptr) s Q E := by
  refine .bind (get_ends ?_)
  obtain ⟨m', tok, saveptr', htok, hahead, hout⟩ := strtokR_ahead hin hsource
  rw [htok]
  exact .bind (write_ends (.pure (h _ tok saveptr' (hb.write hb hout) ⟨rfl, rfl⟩ hahead)))

end Calls

/-! ## The loop -/

section Loop

variable {limit size tok saveptr : Nat} {s : Shell} {b : Extent} {lines : List (List UInt8)}
  {command : Command}

/-- At the top of the loop: the buffer is in use, and has these lines still to give. -/
structure Pending (limit size : Nat) (b : Extent) (heap : HeapState) (tok saveptr : Nat)
    (lines : List (List UInt8)) : Prop where
  ready : Ready limit size b heap
  ahead : Ahead heap.allocator.mem b tok saveptr lines
  short : ∀ w ∈ lines, w.length + 1 ≤ size

/-- The first lines were handed to `process_command_string`. -/
def Passes (command : Command) (s : Shell) (lines : List (List UInt8)) (fault : Fault)
    (s' : Shell) : Prop :=
  Stops command fault ∧ ∃ sent, sent <+: lines ∧ s'.passed = s.passed ++ sent.map some

/-- The loop passes the lines on, whatever the commands do.  By induction on the lines. -/
theorem autorunLoop_ends (hown : command.OnOwn limit (b.pos + memBlockSize)) {fuel : Nat}
    (hfuel : lines.length < fuel) (hpending : Pending limit size b s.heap tok saveptr lines) :
    Ends (autorunLoop command fuel tok saveptr) s
      (fun _ s' => s'.passed = s.passed ++ lines.map some ∧ Ready limit size b s'.heap)
      (Passes command s lines) := by
  induction lines generalizing fuel s tok saveptr with
  | nil =>
    obtain ⟨fuel, rfl⟩ := Nat.exists_eq_add_one_of_ne_zero (Nat.ne_of_gt hfuel)
    have htok : tok = 0 := hpending.ahead
    rw [autorunLoop, if_pos htok]
    exact .pure ⟨(List.append_nil _).symm, hpending.ready⟩
  | cons w lines ih =>
    obtain ⟨fuel, rfl⟩ := Nat.exists_eq_add_one_of_ne_zero (Nat.ne_of_gt (Nat.zero_lt_of_lt hfuel))
    obtain ⟨htok, rest, hrest, hlines⟩ := hpending.ahead
    have hready := hpending.ready
    have hw : [w] <+: w :: lines := ⟨lines, rfl⟩
    rw [autorunLoop, if_neg htok.ne]
    refine .bind (strdup_ends hready htok (hpending.short w List.mem_cons_self)
      (fun fault hfull => ⟨Or.inl hfull, [], List.nil_prefix, (List.append_nil _).symm⟩)
      fun heap c hkeeps hc hne hcopy => ?_)
    refine .bind (debugf_ends fun printed => ?_)
    refine .bind (processCommandString_ends hown hkeeps.inUse hc hne hcopy
      (fun fault hstops => ⟨hstops, [w], hw, rfl⟩) fun heap' saved hkeeps' hc' => ?_)
    refine .bind (kfree_ends hc' (fun fault hfull => ⟨Or.inl hfull, [w], hw, rfl⟩)
      fun heap'' ret hfreed => ?_)
    have hptr := hc'.pointer_ne hkeeps'.inUse (Ne.symm hne)
    have hall := (hkeeps.trans hkeeps').trans (.step hkeeps'.inUse hfreed hptr fun _ _ => id)
    refine .bind (strtokLine_ends hall.inUse (hrest.congr hall.payload) rfl
      fun heap tok saveptr hb harena hahead => ?_)
    rw [hlines] at hahead
    refine (ih (Nat.lt_of_succ_lt_succ hfuel) ⟨(hready.keeps hall).congr hb harena, hahead,
      fun v hv => hpending.short v (List.mem_cons_of_mem _ hv)⟩).mono ?_ ?_
    · rintro - s' ⟨hpassed, hready'⟩
      exact ⟨hpassed.trans (List.append_assoc _ _ _), hready'⟩
    · rintro fault s' ⟨hstops, sent, hsent, hpassed⟩
      exact ⟨hstops, w :: sent, List.cons_prefix_cons.mpr ⟨rfl, hsent⟩,
        hpassed.trans (List.append_assoc _ _ _)⟩

end Loop

/-! ## The file -/

section File

variable {limit start top data saveptr : Nat} {s : Shell} {heap : HeapState}
  {content : List UInt8} {command : Command} {file : File}

/-- The file, in the block that `krealloc` has returned. -/
theorem krealloc_ends {Q : Nat → Shell → Prop} {E : Fault → Shell → Prop} {b : Extent}
    (hready : Ready limit (content.length + 1) b s.heap) (hroom : content.length ≤ b.size)
    (hseg : Seg s.heap.allocator.mem (b.pos + memBlockSize) content)
    (hfail : ∀ fault, OutOfMemory fault → E fault s)
    (h : ∀ a c, Kern.krealloc s.heap.allocator (b.pos + memBlockSize) (content.length + 1) =
      .ok (a, c.pos + memBlockSize) → content.length + 1 ≤ c.size → ∀ heap,
      Ready limit (content.length + 1) c heap →
      Seg heap.allocator.mem (c.pos + memBlockSize) content →
      Q (c.pos + memBlockSize) { s with heap := heap }) :
    Ends (krealloc (b.pos + memBlockSize) (wrap (content.length + 1))) s Q E := by
  have hlt := hready.limit_lt
  have hbound := hready.room
  have hsize : content.length + 1 ≤ 2 ^ 32 - 64 := size_le_of_blockRoom _ (by omega)
  rw [wrap_eq (by omega)]
  refine call_ends (fun fault hcall => hfail fault ?_) fun a ret hcall => ?_
  · rcases hready.inUse.krealloc_eq_error hlt (Nat.succ_pos _) hsize hbound hready.initialised
      hcall with hfull | hbehind
    · exact Or.inl hfull
    · exact Or.inr (Or.inl hbehind)
  · have hcall : Kern.krealloc s.heap.allocator (b.pos + memBlockSize) (content.length + 1) =
        .ok (a, ret) := hcall
    obtain ⟨hsame, c, rfl, hbig, hc, hcopy⟩ :=
      hready.inUse.krealloc hlt (Nat.succ_pos _) hsize hbound hcall
    have hlive : (AllocOp.krealloc (b.pos + memBlockSize) (content.length + 1)).liveAfter
        s.heap.live (c.pos + memBlockSize) =
        (c.pos + memBlockSize) :: s.heap.live.erase (b.pos + memBlockSize) := by
      rw [AllocOp.liveAfter, Kern.liveAfter, if_neg (by unfold memBlockSize; omega)]
    obtain ⟨blocks, hblocks, hb⟩ := hready.inUse.blocks
    obtain ⟨blocks', hblocks', hcmem⟩ := hc.blocks
    have hfits := hblocks.payload_fits hb
    have hfits' := hblocks'.payload_fits hcmem
    rw [hlive]
    refine h a c hcall hbig _ (hready.congr hc ⟨hsame.1, hsame.2.1⟩) ?_
    exact hseg.moved (by omega) (by omega) fun i hi => hcopy i (by omega)

/-- The terminator makes a string of the file, and is in its block. -/
theorem InUse.terminated {c : Extent} (hc : InUse limit heap c)
    (hroom : content.length + 1 ≤ c.size)
    (hseg : Seg heap.allocator.mem (c.pos + memBlockSize) content)
    (hnul : (0 : UInt8) ∉ content) {m' : Mem}
    (hm' : m' = heap.allocator.mem.store8 (c.pos + memBlockSize + content.length) 0) :
    StrIn m' c (c.pos + memBlockSize) content ∧
      ∀ x, ¬ c.InPayload memBlockSize x → m' x = heap.allocator.mem x := by
  subst hm'
  obtain ⟨blocks, hblocks, hcmem⟩ := hc.blocks
  have hfits := hblocks.payload_fits hcmem
  refine ⟨⟨⟨seg_of_load8 fun i hi => ?_, ?_, hnul, by omega⟩, Nat.le_refl _, ?_⟩, fun x hx => ?_⟩
  · rw [Mem.load8_store8_of_ne _ _ (by omega) (by omega) (by omega)]
    exact hseg.load8 i hi
  · exact Mem.load8_store8_same _ _ _
  · unfold Extent.stop
    omega
  · refine Mem.store8_apply_of_ne _ _ (by omega) ?_
    rintro rfl
    exact hx ⟨Nat.le_add_right _ _, by unfold Extent.stop; omega⟩

end File

/-- A command that cuts its copy off and takes the pointer of `strtok` for its own; it stops
if the copy is in the block at 4144. -/
def scribble : Command := fun s copy =>
  let room := blockSize s.heap.allocator.mem (blockOf 4144)
  match s.heap.runs MarksBlock (2 ^ 32 - 1) [.write copy 0] with
  | some heap => if 4144 ≤ copy ∧ copy < 4144 + room then .error .hang else .ok (heap, 7)
  | none => .error .hang

theorem scribble_onOwn : scribble.OnOwn (2 ^ 32 - 1) 4144 := by
  intro s copy heap saved hlive hne hcall
  unfold scribble at hcall
  dsimp only at hcall
  cases hruns : s.heap.runs MarksBlock (2 ^ 32 - 1) [.write copy 0] with
  | none =>
    rw [hruns] at hcall
    cases hcall
  | some heap' =>
    rw [hruns] at hcall
    dsimp only at hcall
    split at hcall
    · cases hcall
    · next hout =>
      cases hcall
      unfold HeapState.runs at hruns
      split at hruns
      · next hadm =>
        cases hruns
        refine ⟨[(.write copy 0, 0)], .snoc .nil ?_⟩
        exact ⟨⟨hadm, rfl, rfl⟩, trivial, trivial, fun x hlo hhi heq => hout (heq ▸ ⟨hlo, hhi⟩)⟩
      · cases hruns

/-- A file with two lines is read. -/
def readTwoLines : List AllocOp := [.kalloc 64, .write 4144 97, .write 4145 10, .write 4146 98]

end Microboot.Kern.Autorun
