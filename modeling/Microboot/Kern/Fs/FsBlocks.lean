/-
  Kern/Fs/FsBlocks.lean --- the blocks of an open file, kern/fs/fs.c and kern/fs/fat.c.

  `fs_open` takes blocks for the copy of the path, its parts, a directory at each
  component of the path, the entry that is found, a listing, the file and the handle,
  and frees them in five functions.  A call that returns NULL has freed all that it
  has taken, and a handle has the blocks that `fs_close` frees.

  Ownership is counted: `Owns ptr others w` says of the blocks in use that they are
  that at `ptr` and the others, and each function is specified by what it owns in the
  end.  Nothing is assumed of the device, of what the memory holds, or of where the
  blocks are.
-/
import Microboot.Kern.Fs.FatRoot
import Microboot.Kern.Fs.Fs

set_option autoImplicit false

namespace Microboot.Kern.Fs

open Microboot.Foundation

/-! ## The model -/

/-- `struct filehandle`, of a file on a FAT16 volume, with the block that it is in. -/
structure FsHandle where
  block : Option Region
  file : FatHandle
  deriving DecidableEq, Repr

/-- `sizeof(struct filehandle)` -/
def fileHandleSize : Nat := 8

/-- The components that a split names, as `find_dir` reads them. -/
def splitPath (split : Split) : List PathPart :=
  split.parts.map fun p => { ptr := p, str := (argString split.mem p).getD [] }

/-- The address of a pointer. -/
def addrOf (ptr : Option Region) : Nat := ptr.elim 0 Region.start

section Model

variable {σ : Type} (platform : Platform σ) (priv : FatPriv) (fuel : Nat)

/-- A loop over a string, which goes on for ever if there is no end. -/
def FatM.scanned {α : Type} : Option α → FatM σ α
  | some a => return a
  | none => throw (.fault .hang)

/-- `strdup(s)`: the duplicate, and the memory with it. -/
def FatM.strdup (m : Mem) (s : Nat) : FatM σ (Option Region × Mem) := do
  let size := (← scanned (strlen m s)) + 1
  match ← kalloc platform size with
  | none => return (none, m)
  | some str =>
    store (some str) 0 size
    let m ← scanned (Kern.strdup m s str.start)
    return (some str, m)

/-- `fs_open(path)` on the volume; `m` has the path, and `saveptr` is what `strtok` keeps from
its last call. -/
def FatM.fsOpen (m : Mem) (path saveptr : Nat) : FatM σ (Option FsHandle) := do
  let (pathbuf, m) ← strdup platform m path
  let split ← scanned (splitInPlace fsPathSeparator spaceDelim m (addrOf pathbuf) saveptr)
  let parts ← kalloc platform (4 * split.count % 2 ^ 32)
  store parts 0 (4 * split.count)
  match ← fatOpen platform priv fuel (splitPath split) with
  | some file =>
    let handle ← kalloc platform fileHandleSize
    store handle 0 fileHandleSize
    kfree pathbuf
    kfree parts
    return some { block := handle, file := file }
  | none =>
    kfree pathbuf
    kfree parts
    return none

/-- `fs_read(handle, buf, count)`: the handle, and what is returned and stored at `buf`. -/
def FatM.fsRead (handle : Option FsHandle) (count : Nat) :
    FatM σ (Option FsHandle × Int × List UInt8) := do
  match handle with
  | none => return (none, 0, [])
  | some handle =>
    let r ← fatReadCall platform priv handle.file.file count
    return (some { handle with file := { handle.file with file := r.file } }, r.ret, r.out)

/-- A number of calls of `fs_read`. -/
def FatM.fsReads : Option FsHandle → List Nat → FatM σ (Option FsHandle)
  | handle, [] => return handle
  | handle, count :: counts => do
    let (handle, _) ← fsRead platform priv handle count
    fsReads handle counts

/-- `fat_close(dev, file)` -/
def fatClose (file : FatHandle) : FatM σ Unit := do
  if file.listing ≠ none then FatM.kfree file.listing
  FatM.kfree file.block

/-- `fs_close(handle)` -/
def FatM.fsClose (handle : Option FsHandle) : FatM σ Unit := do
  match handle with
  | none => return ()
  | some handle =>
    fatClose handle.file
    kfree handle.block

end Model

/-! ## The heap -/

/-- A block that is not in use is freed. -/
def alreadyFree : Fault := .assert "Tried to free already free memory"

/-- What `kalloc` can stop with is not an assertion of `kfree`. -/
def Platform.KallocFreesNothing {σ : Type} (platform : Platform σ) : Prop :=
  ∀ live size s, (platform.place live size s).1 ≠ .error alreadyFree

/-- `kalloc` has assertions of its own. -/
theorem kalloc_ne_alreadyFree (a : Allocator) (size : Nat) :
    Kern.kalloc a size ≠ .error alreadyFree := by
  unfold Kern.kalloc
  refine require_bind_ne (by decide) ?_
  dsimp only
  split
  · exact fun h => by cases h
  split
  · exact fun h => by cases h
  · exact fun h => by cases h
  · refine require_bind_ne (by decide) (require_bind_ne (by decide) ?_)
    exact fun h => by cases h

/-- A platform that stops only where `kalloc` does. -/
theorem Platform.kallocFreesNothing {σ : Type} {platform : Platform σ} (allocator : σ → Allocator)
    (hplace : ∀ live size s fault, (platform.place live size s).1 = .error fault →
      Kern.kalloc (allocator s) size = .error fault) : platform.KallocFreesNothing :=
  fun live size s h => kalloc_ne_alreadyFree (allocator s) size (hplace live size s _ h)

/-- From the state `w`, `x` frees only blocks that are in use, and leaves `Q` if it returns. -/
abbrev FreesUsed {σ α : Type} (x : FatM σ α) (w : FatWorld σ) (Q : α → FatWorld σ → Prop) : Prop :=
  EndsIn (fun stop => stop ≠ .fault alreadyFree) x w Q

section Heap

variable {σ : Type} {platform : Platform σ} {size : Nat} {w : FatWorld σ} {ptr : Option Region}
  {others : List Region}

theorem Owns.of_live {w' : FatWorld σ} (h : Owns ptr others w) (hlive : w'.live = w.live) :
    Owns ptr others w' := by
  rw [Owns, hlive]
  exact h

/-- What is taken later is one of the others. -/
theorem Owns.under {new : List Region} {w' : FatWorld σ} (h : Owns ptr others w)
    (hnew : w'.live.Perm (new ++ w.live)) : Owns ptr (new ++ others) w' := by
  unfold Owns at h ⊢
  calc
    List.Perm w'.live (new ++ w.live) := hnew
    List.Perm _ (new ++ (ptr.toList ++ others)) := h.append_left _
    List.Perm _ (ptr.toList ++ (new ++ others)) := List.perm_append_comm_assoc ..

/-- A block is taken, or NULL is returned for a size that is rounded to nothing. -/
theorem kalloc_frees (hplace : platform.KallocFreesNothing) (size : Nat) (w : FatWorld σ) :
    FreesUsed (FatM.kalloc platform size) w fun ptr w' =>
      Owns ptr w.live w' ∧ (ptr = none → alignedSize size = 0) := by
  intro result w' hrun
  simp only [FatM.kalloc, ExceptT.run_mk] at hrun
  split at hrun
  next hzero =>
    cases hrun
    exact ⟨List.Perm.refl _, fun _ => hzero⟩
  next =>
    split at hrun
    next block s hblock =>
      cases hrun
      exact ⟨List.Perm.refl _, fun h => absurd h (Option.some_ne_none _)⟩
    next fault s hfault =>
      cases hrun
      intro heq
      cases heq
      exact hplace w.live size w.dev (by rw [hfault])

/-- What is owned can be freed; NULL is not freed. -/
theorem kfree_frees (h : Owns ptr others w) :
    FreesUsed (FatM.kfree ptr) w fun _ w' => w'.live.Perm others ∧ ptr ≠ none := by
  cases ptr with
  | none =>
    intro result w' hrun
    cases hrun
    exact nofun
  | some block =>
    exact EndsIn.of_returns ((kfree_returns h).mono fun _ _ h' => ⟨h'.2, Option.some_ne_none _⟩)

theorem store_frees (ptr : Option Region) (off len : Nat) (w : FatWorld σ) :
    FreesUsed (FatM.store ptr off len) w fun _ w' =>
      w' = w ∧ off + len ≤ ptr.elim off Region.size := by
  rw [store_eq]
  split
  next hroom => exact .pure ⟨rfl, hroom⟩
  next => exact .stop nofun

/-- The buffer is moved or shrunk.  It becomes NULL only if it has no bytes. -/
theorem krealloc_frees (hplace : platform.KallocFreesNothing) (h : Owns ptr others w) (size : Nat) :
    FreesUsed (FatM.krealloc platform ptr size) w fun ptr' w' => Owns ptr' others w' ∧
      (ptr' = none → alignedSize size = 0 ∧ ∀ block ∈ ptr, block.size = 0) := by
  cases ptr with
  | none =>
    refine (kalloc_frees hplace size w).mono fun ptr' w' h' => ?_
    obtain ⟨howns, hnull⟩ := h'
    exact ⟨howns.trans (h.append_left _), fun h0 => ⟨hnull h0, by simp⟩⟩
  | some block =>
    have hused : ReturnsIn (FatM.requireUsed block) w fun _ w' => w' = w :=
      ⟨(), w, by simp only [FatM.requireUsed, ExceptT.run_mk, if_pos h.mem], rfl⟩
    refine (EndsIn.of_returns hused).bind fun _ w₁ hw₁ => ?_
    subst hw₁
    have herase := h.erase block
    rw [Option.toList_some, List.singleton_append, List.erase_cons_head] at herase
    split
    · intro result w' hrun
      cases hrun
      exact ⟨herase.cons _, fun h0 => absurd h0 (Option.some_ne_none _)⟩
    refine (kalloc_frees hplace size w₁).bind fun new w₂ h₂ => ?_
    obtain ⟨hnew, hnull⟩ := h₂
    refine (store_frees new 0 block.size w₂).bind fun _ w₃ h₃ => ?_
    obtain ⟨rfl, hstore⟩ := h₃
    refine (kfree_frees (h.under hnew)).bind fun _ w₄ h₄ => .pure ⟨h₄.1, fun h0 => ?_⟩
    subst h0
    refine ⟨hnull rfl, fun block' hblock' => ?_⟩
    cases hblock'
    rw [Option.elim_none] at hstore
    omega

end Heap

/-! ## fat_open -/

section Fat

variable {σ : Type} {platform : Platform σ} {priv : FatPriv} {fuel c asize size : Nat}
  {w : FatWorld σ} {others : List Region} {buf : Buf}

/-- The device does not touch the heap. -/
theorem recorded_keeps (lba n : Nat) : Keeps FatWorld.live (platform.recorded.call lba n) := by
  intro w answer w' hrun
  cases hrun
  rfl

theorem readCluster_keeps (c : Nat) : Keeps FatWorld.live (readCluster platform.recorded priv c) :=
  recorded_keeps _ _

theorem nextCluster_keeps (c : Nat) : Keeps FatWorld.live (nextCluster platform.recorded priv c) :=
  (recorded_keeps _ _).bind fun _ => .pure _

theorem lift_frees {α : Type} {x : DevM (FatWorld σ) α} (hx : Keeps FatWorld.live x)
    (w : FatWorld σ) :
    FreesUsed (ExceptT.lift x : FatM σ α) w fun _ w' => w'.live = w.live :=
  EndsIn.lift (hx w)

theorem entry_frees (buf : Buf) (i : Nat) (w : FatWorld σ) :
    FreesUsed (FatM.entry platform buf i) w fun _ w' => w'.live = w.live := by
  intro result w' hrun
  cases hrun
  rfl

/-- The loop goes on with a buffer that has bytes, or with NULL as long as there are none. -/
theorem readClusterChainLoop_frees (hplace : platform.KallocFreesNothing)
    (hpos : 0 < priv.bytesPerCluster) {data : Buf} (howns : Owns data.ptr others w)
    (hdata : ∀ block ∈ data.ptr, 0 < block.size) (hasize : asize < 2 ^ 32) :
    FreesUsed (readClusterChainLoop platform priv fuel c asize data) w fun result w' =>
      ∃ r, result = some r ∧ Owns r.1.ptr others w' ∧ r.2 < 2 ^ 32 := by
  induction fuel generalizing c asize data w with
  | zero => exact .stop nofun
  | succ fuel ih =>
    by_cases hfollow : Followed c
    · rw [readClusterChainLoop_follow hfollow]
      refine (krealloc_frees hplace howns _).bind fun ptr w₁ h₁ => ?_
      obtain ⟨howns₁, hnull⟩ := h₁
      cases ptr with
      | none =>
        -- there are no bytes yet, and NULL is not freed
        have hptr : data.ptr = none := by
          refine Option.eq_none_iff_forall_not_mem.mpr fun block hblock => ?_
          have := (hnull rfl).2 block hblock
          have := hdata block hblock
          omega
        rw [hptr]
        exact (kfree_frees howns₁).bind fun _ _ h => absurd rfl h.2
      | some block =>
        refine (lift_frees (readCluster_keeps c) w₁).bind fun answer w₂ hlive₂ => ?_
        refine (store_frees _ _ _ w₂).bind fun _ w₃ h₃ => ?_
        obtain ⟨rfl, hstore⟩ := h₃
        refine (lift_frees (nextCluster_keeps c) w₃).bind fun next w₄ hlive₄ => ?_
        refine ih (howns₁.of_live (hlive₄.trans hlive₂)) ?_ (Nat.mod_lt _ (by decide))
        intro block' hblock'
        cases hblock'
        rw [Option.elim_some] at hstore
        omega
    · rw [readClusterChainLoop_stop hfollow]
      exact .pure ⟨_, rfl, howns, hasize⟩

/-- A directory that is read is a block more. -/
theorem readClusterChain_frees (hplace : platform.KallocFreesNothing)
    (hpos : 0 < priv.bytesPerCluster) (size : Nat) (w : FatWorld σ) :
    FreesUsed (readClusterChain platform priv fuel c size) w fun r w' =>
      Owns r.1.ptr w.live w' ∧ r.2 < 2 ^ 32 := by
  have hnull : ReturnsIn (FatM.kalloc platform 0) w fun ptr w' => ptr = none ∧ w' = w :=
    ⟨none, w, rfl, rfl, rfl⟩
  unfold readClusterChain
  refine (EndsIn.of_returns hnull).bind fun ptr w₁ h₁ => ?_
  obtain ⟨rfl, rfl⟩ := h₁
  have howns : Owns none w₁.live w₁ := List.Perm.refl _
  have hdata : ∀ block ∈ (none : Option Region), 0 < block.size := nofun
  refine (readClusterChainLoop_frees hplace hpos howns hdata (by decide)).bind
    fun result w₂ h₂ => ?_
  obtain ⟨r, rfl, howns, hsize⟩ := h₂
  exact .pure ⟨howns, hsize⟩

theorem readRootDir_frees (hplace : platform.KallocFreesNothing)
    (hroot : priv.bytesPerSector * priv.nrRootDirSectors < 2 ^ 32) (w : FatWorld σ) :
    FreesUsed (readRootDir platform priv) w fun r w' => Owns r.1.ptr w.live w' ∧ r.2 < 2 ^ 32 := by
  unfold readRootDir
  refine (kalloc_frees hplace _ w).bind fun ptr w₁ h₁ => ?_
  obtain ⟨howns, -⟩ := h₁
  refine (lift_frees (recorded_keeps _ _) w₁).bind fun answer w₂ hlive => .pure ?_
  exact ⟨howns.of_live hlive, hroot⟩

/-- A component that is too long is written behind the end of its buffer. -/
theorem nameBuf_error {name : List UInt8} {stopped : Stop} (h : nameBuf name = .error stopped) :
    stopped = .undefined := by
  unfold nameBuf at h
  split at h
  · dsimp only at h
    split at h
    all_goals cases h
    rfl
  · split at h
    all_goals cases h
    rfl

/-- A search touches no block. -/
theorem findDirEnt_frees (name : List UInt8) (buf : Buf) (bufsz : Nat) (w : FatWorld σ) :
    FreesUsed (findDirEnt platform name buf bufsz) w fun _ w' => w'.live = w.live := by
  have hloop : ∀ fuel i (w : FatWorld σ),
      FreesUsed (findDirEntLoop platform name buf bufsz fuel i) w fun _ w' => w'.live = w.live := by
    intro fuel
    induction fuel with
    | zero => exact fun _ _ => .stop nofun
    | succ fuel ih =>
      intro i w
      refine (entry_frees buf i w).bind fun dir w₁ hlive₁ => ?_
      split
      · exact .pure hlive₁
      have hname : FreesUsed (liftM (nameBuf name) : FatM σ (List UInt8)) w₁
          fun _ w' => w' = w₁ := by
        intro result w' hrun
        cases hname : nameBuf name with
        | ok namebuf =>
          rw [hname] at hrun
          cases hrun
          rfl
        | error stopped =>
          rw [hname] at hrun
          cases hrun
          rw [nameBuf_error hname]
          exact nofun
      refine hname.bind fun namebuf w₂ hw₂ => ?_
      subst hw₂
      dsimp only
      split
      · exact .pure hlive₁
      split
      · exact .pure hlive₁
      · exact (ih (i + 1) w₂).mono fun _ _ hlive => hlive.trans hlive₁
  exact hloop _ 0 w

/-- The entry that is found is a block more, and the last directory is freed. -/
theorem findDirLoop_frees (hplace : platform.KallocFreesNothing) (hpos : 0 < priv.bytesPerCluster)
    {cldata : Buf} {clsize : Nat} {path : List PathPart} (howns : Owns cldata.ptr others w) :
    FreesUsed (findDirLoop platform priv fuel cldata clsize path) w fun r w' =>
      Owns (r.bind Prod.fst) others w' := by
  induction path generalizing cldata clsize w with
  | nil => exact .stop nofun
  | cons part parts ih =>
    have hmissing : ∀ w₁ : FatWorld σ, w₁.live = w.live →
        FreesUsed (do FatM.kfree cldata.ptr; return none :
          FatM σ (Option (Option Region × List UInt8))) w₁ fun r w' =>
            Owns (r.bind Prod.fst) others w' := fun w₁ hlive₁ =>
      (kfree_frees (howns.of_live hlive₁)).bind fun _ _ h => .pure h.1
    cases parts with
    | nil =>
      refine (findDirEnt_frees _ _ _ w).bind fun found w₁ hlive₁ => ?_
      cases found with
      | none => exact hmissing w₁ hlive₁
      | some i =>
        refine (kalloc_frees hplace _ w₁).bind fun ret w₂ h₂ => ?_
        obtain ⟨hret, -⟩ := h₂
        refine (entry_frees _ _ w₂).bind fun dir w₃ hlive₃ => ?_
        have hboth := ((howns.of_live hlive₁).under hret).of_live hlive₃
        exact (kfree_frees hboth).bind fun _ _ h => .pure h.1
    | cons next parts =>
      refine (findDirEnt_frees _ _ _ w).bind fun found w₁ hlive₁ => ?_
      cases found with
      | none => exact hmissing w₁ hlive₁
      | some i =>
        refine (kfree_frees (howns.of_live hlive₁)).bind fun _ w₂ h₂ => ?_
        obtain ⟨hfreed, -⟩ := h₂
        refine (entry_frees _ _ w₂).bind fun dir w₃ hlive₃ => ?_
        refine (readClusterChain_frees hplace hpos _ w₃).bind fun r w₄ h₄ => ?_
        obtain ⟨hchain, -⟩ := h₄
        rw [hlive₃] at hchain
        exact ih (hchain.trans (hfreed.append_left _))

theorem findDir_frees (hplace : platform.KallocFreesNothing) (hpos : 0 < priv.bytesPerCluster)
    (hroot : priv.bytesPerSector * priv.nrRootDirSectors < 2 ^ 32) (path : List PathPart)
    (w : FatWorld σ) :
    FreesUsed (findDir platform priv fuel path) w fun r w' =>
      Owns (r.bind Prod.fst) w.live w' := by
  unfold findDir
  refine (readRootDir_frees hplace hroot w).bind fun r w₁ h₁ => ?_
  obtain ⟨howns, -⟩ := h₁
  dsimp only
  split
  · refine (kalloc_frees hplace _ w₁).bind fun ret w₂ h₂ => ?_
    obtain ⟨hret, -⟩ := h₂
    refine (entry_frees _ _ w₂).bind fun dir w₃ hlive₃ => ?_
    have hboth := (howns.under hret).of_live hlive₃
    exact (kfree_frees hboth).bind fun _ _ h => .pure h.1
  · exact findDirLoop_frees hplace hpos howns

/-- The listing is one block, whatever its length. -/
theorem listEntries_frees (hplace : platform.KallocFreesNothing) {dirs : List (List UInt8)}
    {resbuf : Option Region} {out : List UInt8} (howns : Owns resbuf others w)
    (hdirs : ∀ dir ∈ dirs, dir.length = fatDirSize)
    (hle : out.length + recSize * dirs.length ≤ 2 ^ 32 - 64) :
    FreesUsed (listEntries platform dirs resbuf out) w fun result w' =>
      ∃ r, result = some r ∧ Owns r.1 others w' ∧
        r.2.length ≤ out.length + recSize * dirs.length := by
  induction dirs generalizing resbuf out w with
  | nil => exact .pure ⟨_, rfl, howns, Nat.le_add_right _ _⟩
  | cons dir dirs ih =>
    have hrec := length_dirRecord (hdirs dir List.mem_cons_self)
    have hrest : ∀ dir ∈ dirs, dir.length = fatDirSize :=
      fun d hd => hdirs d (List.mem_cons_of_mem dir hd)
    rw [List.length_cons, Nat.mul_add, Nat.mul_one] at hle ⊢
    unfold listEntries
    split
    · exact .pure ⟨_, rfl, howns, Nat.le_add_right _ _⟩
    split
    · refine (ih howns hrest (by omega)).mono fun result w' h' => ?_
      obtain ⟨r, hresult, howns', hlen⟩ := h'
      exact ⟨r, hresult, howns', by omega⟩
    · have hpos : 0 < recSize := by decide
      refine (krealloc_frees hplace howns _).bind fun ptr w₁ h₁ => ?_
      obtain ⟨howns₁, hnull⟩ := h₁
      cases ptr with
      | none =>
        exact absurd (hnull rfl).1 (alignedSize_ne_zero (by omega) (by omega))
      | some new =>
        refine (store_frees _ _ _ w₁).bind fun _ w₂ h₂ => ?_
        obtain ⟨rfl, -⟩ := h₂
        refine (ih howns₁ hrest (by rw [List.length_append, hrec]; omega)).mono
          fun result w' h' => ?_
        obtain ⟨r, hresult, howns', hlen⟩ := h'
        rw [List.length_append, hrec] at hlen
        exact ⟨r, hresult, howns', by omega⟩

/-- The listing of a directory is a block more, and the directory is freed. -/
theorem getDirContents_frees (hplace : platform.KallocFreesNothing)
    (hpos : 0 < priv.bytesPerCluster)
    (hroot : priv.bytesPerSector * priv.nrRootDirSectors < 2 ^ 32) {pdir : FatDir} {isRoot : Prop}
    [Decidable isRoot] (w : FatWorld σ) :
    FreesUsed (getDirContents platform priv fuel pdir isRoot) w fun result w' =>
      ∃ r, result = some r ∧ Owns r.1 w.live w' := by
  have hread : FreesUsed (readDir platform priv fuel pdir isRoot) w fun r w' =>
      Owns r.1.ptr w.live w' ∧ r.2 < 2 ^ 32 := by
    unfold readDir
    split
    · exact readRootDir_frees hplace hroot w
    · exact readClusterChain_frees hplace hpos _ w
  unfold getDirContents
  refine hread.bind fun r w₁ h₁ => ?_
  obtain ⟨howns₁, hsize⟩ := h₁
  obtain ⟨cldata, clsize⟩ := r
  dsimp only at howns₁ hsize ⊢
  have hcount := dirEntries_fits hsize cldata
  have hfits : ([] : List UInt8).length + recSize * (dirEntries cldata clsize).length ≤
      2 ^ 32 - 64 := by
    rw [List.length_nil]
    omega
  refine (kalloc_frees hplace _ w₁).bind fun resbuf w₂ h₂ => ?_
  obtain ⟨hresbuf, -⟩ := h₂
  refine (listEntries_frees hplace hresbuf (fun dir => length_of_mem_dirEntries) hfits).bind
    fun result w₃ h₃ => ?_
  obtain ⟨r, rfl, howns₃, hlen⟩ := h₃
  rw [List.length_nil, Nat.zero_add] at hlen
  have hsome : ∀ {ptr : Option Region}, (ptr = none → alignedSize (r.2.length + 1) = 0) →
      ptr ≠ none := by
    intro ptr hnull hnone
    exact absurd (hnull hnone) (alignedSize_ne_zero (Nat.succ_pos _) (by omega))
  refine (krealloc_frees hplace howns₃ _).bind fun ptr w₄ h₄ => ?_
  obtain ⟨howns₄, hnull₄⟩ := h₄
  cases ptr with
  | none => exact absurd rfl (hsome fun h0 => (hnull₄ h0).1)
  | some new =>
    refine (krealloc_frees hplace howns₄ _).bind fun ptr w₅ h₅ => ?_
    obtain ⟨howns₅, -⟩ := h₅
    refine (store_frees _ _ _ w₅).bind fun _ w₆ h₆ => ?_
    obtain ⟨rfl, -⟩ := h₆
    exact (kfree_frees (howns₁.under howns₅)).bind fun _ _ h => .pure ⟨_, rfl, h.1⟩

/-- A file has the block of its `struct fat_file`, and that of its listing if it has one. -/
theorem fatOpen_frees (hplace : platform.KallocFreesNothing) (hpos : 0 < priv.bytesPerCluster)
    (hroot : priv.bytesPerSector * priv.nrRootDirSectors < 2 ^ 32) (path : List PathPart)
    (w : FatWorld σ) :
    FreesUsed (fatOpen platform priv fuel path) w fun r w' =>
      (r = none ∧ w'.live.Perm w.live) ∨
      ∃ file, r = some file ∧ file.block ≠ none ∧
        Owns file.listing (file.block.toList ++ w.live) w' := by
  unfold fatOpen
  refine (findDir_frees hplace hpos hroot path w).bind fun found w₁ howns₁ => ?_
  cases found with
  | none => exact .pure (Or.inl ⟨rfl, howns₁⟩)
  | some found =>
    obtain ⟨block, bytes⟩ := found
    dsimp only
    refine (kalloc_frees hplace _ w₁).bind fun file w₂ h₂ => ?_
    obtain ⟨hfile, hnull⟩ := h₂
    have hsome : file ≠ none := fun h0 => absurd (hnull h0) (by decide)
    have hboth : Owns block (file.toList ++ w.live) w₂ := howns₁.under hfile
    split
    · next hregular =>
      refine (kfree_frees hboth).bind fun _ w₃ h₃ => .pure (Or.inr ?_)
      rw [FatFile.ofDir, if_pos hregular]
      exact ⟨_, rfl, hsome, h₃.1⟩
    · next hlists =>
      refine (getDirContents_frees hplace hpos hroot w₂).bind fun listed w₃ h₃ => ?_
      obtain ⟨r, rfl, howns₃⟩ := h₃
      refine (kfree_frees (hboth.under howns₃)).bind fun _ w₄ h₄ => .pure (Or.inr ?_)
      rw [FatFile.ofDir, if_neg hlists]
      exact ⟨_, rfl, hsome, h₄.1⟩

end Fat

/-! ## An open file -/

/-- The handle has a block, the file one, and its listing, if it has one; NULL has none. -/
def OwnsHandle {σ : Type} (handle : Option FsHandle) (others : List Region) (w : FatWorld σ) :
    Prop :=
  match handle with
  | none => w.live.Perm others
  | some handle => handle.block ≠ none ∧ handle.file.block ≠ none ∧
      Owns handle.file.listing (handle.file.block.toList ++ (handle.block.toList ++ others)) w

section Handle

variable {σ : Type} {platform : Platform σ} {priv : FatPriv} {fuel : Nat} {w : FatWorld σ}
  {others : List Region} {handle : Option FsHandle}

theorem scanned_frees {α : Type} (x : Option α) (w : FatWorld σ) :
    FreesUsed (FatM.scanned x) w fun a w' => x = some a ∧ w' = w := by
  cases x with
  | none => exact .stop nofun
  | some a => exact .pure ⟨rfl, rfl⟩

theorem strdup_frees (hplace : platform.KallocFreesNothing) (m : Mem) (s : Nat) (w : FatWorld σ) :
    FreesUsed (FatM.strdup platform m s) w fun r w' => Owns r.1 w.live w' := by
  refine (scanned_frees _ w).bind fun len w₁ h₁ => ?_
  obtain ⟨-, rfl⟩ := h₁
  refine (kalloc_frees hplace _ w₁).bind fun str w₂ h₂ => ?_
  obtain ⟨howns, -⟩ := h₂
  cases str with
  | none => exact .pure howns
  | some str =>
    refine (store_frees _ _ _ w₂).bind fun _ w₃ h₃ => ?_
    obtain ⟨rfl, -⟩ := h₃
    refine (scanned_frees _ w₃).bind fun m w₄ h₄ => ?_
    obtain ⟨-, rfl⟩ := h₄
    exact .pure howns

/-- `fs_open` takes the blocks of the handle, or none. -/
theorem fsOpen_frees (hplace : platform.KallocFreesNothing) (hpos : 0 < priv.bytesPerCluster)
    (hroot : priv.bytesPerSector * priv.nrRootDirSectors < 2 ^ 32) (m : Mem) (path saveptr : Nat)
    (w : FatWorld σ) :
    FreesUsed (FatM.fsOpen platform priv fuel m path saveptr) w fun handle w' =>
      OwnsHandle handle w.live w' := by
  unfold FatM.fsOpen
  refine (strdup_frees hplace m path w).bind fun r w₁ hpathbuf => ?_
  obtain ⟨pathbuf, m⟩ := r
  dsimp only at hpathbuf ⊢
  refine (scanned_frees _ w₁).bind fun split w' h' => ?_
  obtain ⟨-, rfl⟩ := h'
  refine (kalloc_frees hplace _ w').bind fun parts w₂ h₂ => ?_
  obtain ⟨hparts, -⟩ := h₂
  refine (store_frees _ _ _ w₂).bind fun _ w' h' => ?_
  obtain ⟨rfl, -⟩ := h'
  have hboth : Owns pathbuf (parts.toList ++ w.live) w' := hpathbuf.under hparts
  refine (fatOpen_frees hplace hpos hroot _ w').bind fun file w₃ hfile => ?_
  obtain ⟨hnone, hlive⟩ | ⟨file, hsome, hblock, howns⟩ := hfile
  · subst hnone
    refine (kfree_frees (hlive.trans hboth)).bind fun _ w₄ h₄ => ?_
    obtain ⟨hfreed, -⟩ := h₄
    have hrest : Owns parts w.live w₄ := hfreed
    exact (kfree_frees hrest).bind fun _ _ h => .pure h.1
  · subst hsome
    refine (kalloc_frees hplace _ w₃).bind fun handle w₄ h₄ => ?_
    obtain ⟨hhandle, hnull⟩ := h₄
    have hsome : handle ≠ none := fun h0 => absurd (hnull h0) (by decide)
    refine (store_frees _ _ _ w₄).bind fun _ w' h' => ?_
    obtain ⟨rfl, -⟩ := h'
    rw [Owns, ← List.append_assoc] at howns
    refine (kfree_frees ((hboth.under howns).under hhandle)).bind fun _ w₅ h₅ => ?_
    obtain ⟨hfreed, -⟩ := h₅
    have hrest : Owns parts (handle.toList ++ (file.listing.toList ++ file.block.toList) ++
        w.live) w₅ := by
      rw [Owns, List.perm_iff_count]
      intro b
      have := hfreed.count_eq b
      simp only [List.count_append] at this ⊢
      omega
    refine (kfree_frees hrest).bind fun _ w₆ h₆ => .pure ⟨hsome, hblock, ?_⟩
    rw [Owns, List.perm_iff_count]
    intro b
    have := h₆.1.count_eq b
    simp only [List.count_append] at this ⊢
    omega

/-! ## Reading and closing -/

theorem readFullClusters_keeps (c remaining : Nat) (out : List UInt8) :
    Keeps FatWorld.live (readFullClusters platform.recorded priv fuel c remaining out) := by
  induction fuel generalizing c remaining out with
  | zero =>
    intro w walk w' hrun
    cases hrun
  | succ fuel ih =>
    unfold readFullClusters
    split
    · split
      · exact .pure _
      · exact (readCluster_keeps _).bind fun _ => (nextCluster_keeps _).bind fun _ => ih _ _ _
    · exact .pure _

theorem readOnward_keeps (file : FatFile) (size fullSize c remaining : Nat) (out : List UInt8) :
    Keeps FatWorld.live (readOnward platform.recorded priv file size fullSize c remaining out) := by
  refine (readFullClusters_keeps _ _ _).bind fun walk => ?_
  split
  · exact .pure _
  · dsimp only
    split
    · exact (readCluster_keeps _).bind fun _ => .pure _
    · exact .pure _

theorem fatRead_keeps (file : FatFile) (size : Nat) :
    Keeps FatWorld.live (fatRead platform.recorded priv file size) := by
  unfold fatRead
  dsimp only
  split
  · exact .pure _
  split
  · exact .pure _
  refine (readCluster_keeps _).bind fun answer => ?_
  split
  · exact .pure _
  split
  · intro w r w' hrun
    cases hrun
  split
  · exact (nextCluster_keeps _).bind fun _ => readOnward_keeps _ _ _ _ _ _
  · exact readOnward_keeps _ _ _ _ _ _

/-- A read returns, and touches no block. -/
theorem fatReadCall_returns (hpos : 0 < priv.bytesPerCluster) (file : FatFile) (size : Nat)
    (w : FatWorld σ) :
    ReturnsIn (fatReadCall platform priv file size) w fun _ w' => w'.live = w.live := by
  obtain ⟨r, w', hrun⟩ := fatRead_total platform.recorded hpos w
  refine ⟨r, w', ?_, fatRead_keeps file size w r w' hrun⟩
  simp only [fatReadCall, ExceptT.run_mk, hrun]

theorem fsReads_returns (hpos : 0 < priv.bytesPerCluster) (howns : OwnsHandle handle others w)
    (counts : List Nat) :
    ReturnsIn (FatM.fsReads platform priv handle counts) w fun handle' w' =>
      OwnsHandle handle' others w' := by
  induction counts generalizing handle w with
  | nil => exact .pure howns
  | cons count counts ih =>
    cases handle with
    | none => exact ih howns
    | some handle =>
      obtain ⟨hblock, hfile, howns⟩ := howns
      have hread : ReturnsIn (FatM.fsRead platform priv (some handle) count) w fun r w' =>
          OwnsHandle r.1 others w' :=
        (fatReadCall_returns hpos _ count w).bind fun r w₁ hlive =>
          .pure ⟨hblock, hfile, howns.of_live hlive⟩
      exact hread.bind fun r w₁ h₁ => ih h₁

theorem kfree_owned {ptr : Option Region} (hsome : ptr ≠ none) (howns : Owns ptr others w) :
    ReturnsIn (FatM.kfree ptr) w fun _ w' => w'.live.Perm others := by
  obtain ⟨block, rfl⟩ := Option.ne_none_iff_exists'.mp hsome
  exact (kfree_returns howns).mono fun _ _ h => h.2

theorem fatClose_returns {file : FatHandle} (hsome : file.block ≠ none)
    (howns : Owns file.listing (file.block.toList ++ others) w) :
    ReturnsIn (fatClose file) w fun _ w' => w'.live.Perm others := by
  obtain ⟨block, listing, file⟩ := file
  cases listing with
  | none => exact kfree_owned hsome howns
  | some listing => exact (kfree_returns howns).bind fun _ _ h => kfree_owned hsome h.2

/-- `fs_close` frees the blocks of the handle. -/
theorem fsClose_returns (howns : OwnsHandle handle others w) :
    ReturnsIn (FatM.fsClose handle) w fun _ w' => w'.live.Perm others := by
  cases handle with
  | none => exact .pure howns
  | some handle =>
    obtain ⟨hblock, hfile, howns⟩ := howns
    exact (fatClose_returns hfile howns).bind fun _ _ h => kfree_owned hblock h

/-- What is taken for a path is given back: a call that returns NULL leaves the blocks in use as
they were, and so do a call that returns a handle, any reads and the close, which return.
No block is freed that is not in use. -/
structure GivesBack (platform : Platform σ) (priv : FatPriv) (fuel : Nat) (m : Mem)
    (path saveptr : Nat) (w : FatWorld σ) : Prop where
  null : ∀ w', (FatM.fsOpen platform priv fuel m path saveptr).run w = some (.ok none, w') →
    w'.live.Perm w.live
  handle : ∀ handle w', (FatM.fsOpen platform priv fuel m path saveptr).run w =
      some (.ok (some handle), w') → ∀ counts,
    ReturnsIn (do
      let handle ← FatM.fsReads platform priv (some handle) counts
      FatM.fsClose handle) w' fun _ w'' => w''.live.Perm w.live
  once : ∀ w', (FatM.fsOpen platform priv fuel m path saveptr).run w ≠
    some (.error (.fault alreadyFree), w')

/-- On any volume and for any path, from any blocks in use on. -/
theorem fsOpen_givesBack (v : Volume) (hplace : platform.KallocFreesNothing) (fuel : Nat) (m : Mem)
    (path saveptr : Nat) (w : FatWorld σ) :
    GivesBack platform v.priv fuel m path saveptr w := by
  have hpos : 0 < v.priv.bytesPerCluster := by
    rw [Volume.bytesPerCluster_priv]
    exact v.clusterSize_pos
  have hroot : v.priv.bytesPerSector * v.priv.nrRootDirSectors < 2 ^ 32 := by
    have hle := Volume.length_rootDir_le (v := v)
    rw [Volume.length_rootDir] at hle
    omega
  have hopen : FreesUsed (FatM.fsOpen platform v.priv fuel m path saveptr) w fun handle w' =>
      OwnsHandle handle w.live w' := fsOpen_frees hplace hpos hroot m path saveptr w
  refine ⟨fun w' hrun => hopen _ w' hrun, fun handle w' hrun counts => ?_, fun w' hrun => ?_⟩
  · have howns : OwnsHandle (some handle) w.live w' := hopen _ w' hrun
    exact (fsReads_returns hpos howns counts).bind fun _ _ h => fsClose_returns h
  · exact hopen _ w' hrun rfl

/-- The file `A`, next to a block that is in use: it is opened, read twice and closed. -/
theorem fsOpen_givesBack_noLabel : ∃ handle w',
    (FatM.fsOpen noLabel.platform noLabel.priv (2 ^ 16) (stringMem 256 [65]) 256 0).run
      ⟨(), [], [⟨4096, 64⟩]⟩ = some (.ok (some handle), w') ∧
    ReturnsIn (do
      let handle ← FatM.fsReads noLabel.platform noLabel.priv (some handle) [3, 1]
      FatM.fsClose handle) w' fun _ w'' => w''.live.Perm [⟨4096, 64⟩] := by
  have hplace : noLabel.platform.KallocFreesNothing := fun live size s h => by cases h
  have hopens : ((FatM.fsOpen noLabel.platform noLabel.priv (2 ^ 16) (stringMem 256 [65])
      256 0).run ⟨(), [], [⟨4096, 64⟩]⟩).bind (fun r => r.1.toOption.join) ≠ none := by
    decide +kernel
  obtain ⟨handle, hhandle⟩ := Option.ne_none_iff_exists'.mp hopens
  obtain ⟨⟨result, w'⟩, hrun, hresult⟩ := Option.bind_eq_some_iff.mp hhandle
  cases result with
  | error stop => cases hresult
  | ok found =>
    obtain rfl : found = some handle := hresult
    exact ⟨handle, w', hrun, (fsOpen_givesBack noLabel hplace (2 ^ 16) (stringMem 256 [65]) 256 0
      ⟨(), [], [⟨4096, 64⟩]⟩).handle handle w' hrun [3, 1]⟩

/-- Of the file `B`, which is not there, nothing is left. -/
example : ((FatM.fsOpen noLabel.platform noLabel.priv (2 ^ 16) (stringMem 256 [66]) 256 0).run
    ⟨(), [], [⟨4096, 64⟩]⟩).map (fun r => (r.1.toOption, r.2.live)) =
      some (some none, [⟨4096, 64⟩]) := by decide +kernel

end Handle

end Microboot.Kern.Fs
