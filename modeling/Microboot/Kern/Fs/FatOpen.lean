/-
  Kern/Fs/FatOpen.lean --- looking up a path and opening it, kern/fs/fat.c.

  `fat_open` descends from the root directory, one buffer of directory entries a
  component, and makes a handle of the entry it ends at.  A directory's handle
  holds the text of its listing.

  The code runs on a `Platform`: the block device, the allocator and the memory
  that is not the code's own.  Nothing is assumed of it.  A call can stop before
  it returns; what it has read from the device until then stays recorded in the
  `FatWorld`.
-/
import Microboot.Foundation.Regions
import Microboot.Kern.Alloc
import Microboot.Kern.Fs.Fat

set_option autoImplicit false

namespace Microboot.Kern.Fs

open Microboot.Foundation

/-! ## The platform -/

/-- Why a call does not return. -/
inductive Stop where
  /-- an assertion fails, or a loop goes on for ever -/
  | fault (fault : Fault)
  /-- a division by zero -/
  | divide
  /-- the behaviour is undefined: a write outside its buffer, or the use of a
  variable that is not set -/
  | undefined
  deriving DecidableEq, Repr

/-- What the driver runs on. -/
structure Platform (σ : Type) where
  blkdev : BlkDev σ
  /-- the block that `kalloc` finds for a number of bytes, next to those in use -/
  place : List Region → Nat → σ → Except Fault Region × σ
  /-- what the memory holds from an address on -/
  peek : Nat → σ → List UInt8 × σ

/-- The state of the platform, the blocks that are read from the device (the first
and their number, in the order of the reads), and the blocks of the heap in use. -/
structure FatWorld (σ : Type) where
  dev : σ
  reads : List (Nat × Nat)
  live : List Region

/-- A program that can stop, and leaves a world when it does. -/
abbrev FatM (σ α : Type) : Type := ExceptT Stop (DevM (FatWorld σ)) α

/-- Data in a buffer on the heap; `ptr` is NULL for an empty one. -/
structure Buf where
  ptr : Option Region
  bytes : List UInt8
  deriving DecidableEq, Repr

/-- A component of a path: the pointer, and the string there. -/
structure PathPart where
  ptr : Nat
  str : List UInt8
  deriving DecidableEq, Repr

/-- The first `n` bytes, 0 where there are fewer. -/
def fit (n : Nat) (bytes : List UInt8) : List UInt8 :=
  bytes.take n ++ List.replicate (n - bytes.length) 0

theorem length_fit (n : Nat) (bytes : List UInt8) : (fit n bytes).length = n := by
  rw [fit, List.length_append, List.length_take, List.length_replicate]
  omega

theorem fit_of_le {n : Nat} {bytes : List UInt8} (h : n ≤ bytes.length) :
    fit n bytes = bytes.take n := by
  rw [fit, Nat.sub_eq_zero_of_le h, List.replicate_zero, List.append_nil]

theorem fit_eq_self {n : Nat} {bytes : List UInt8} (h : bytes.length = n) :
    fit n bytes = bytes := by
  rw [fit_of_le (Nat.le_of_eq h.symm), List.take_of_length_le (Nat.le_of_eq h)]

/-- `memcpy` of `src` to offset `off` of a buffer. -/
def overwrite (buf : List UInt8) (off : Nat) (src : List UInt8) : List UInt8 :=
  buf.take off ++ src ++ buf.drop (off + src.length)

section Platform

variable {σ : Type} (platform : Platform σ)

/-- The block device, with its reads recorded. -/
def Platform.recorded : BlkDev (FatWorld σ) where
  read lba blocks w :=
    let (answer, s) := platform.blkdev.read lba blocks w.dev
    (answer, { w with dev := s, reads := w.reads ++ [(lba, blocks)] })

/-! ## The heap -/

/-- `kalloc(size)` -/
def FatM.kalloc (size : Nat) : FatM σ (Option Region) := ExceptT.mk fun w =>
  if alignedSize size = 0 then some (.ok none, w)
  else
    match platform.place w.live size w.dev with
    | (.ok block, s) => some (.ok (some block), { w with dev := s, live := block :: w.live })
    | (.error fault, s) => some (.error (.fault fault), { w with dev := s })

/-- `kfree(ptr)`; NULL is below the arena. -/
def FatM.kfree (ptr : Option Region) : FatM σ Unit := ExceptT.mk fun w =>
  match ptr with
  | none => some (.error (.fault (.assert "Tried to free invalid address")), w)
  | some block =>
    if block ∈ w.live then some (.ok (), { w with live := w.live.erase block })
    else some (.error (.fault (.assert "Tried to free already free memory")), w)

/-- `krealloc` is called on blocks in use only. -/
def FatM.requireUsed (block : Region) : FatM σ Unit := ExceptT.mk fun w =>
  if block ∈ w.live then some (.ok (), w)
  else some (.error (.fault (.assert "Tried to realloc unused block")), w)

/-- The block is cut off behind `size` bytes. -/
def FatM.shrink (block : Region) (size : Nat) : FatM σ Region := ExceptT.mk fun w =>
  some (.ok { block with size := size },
    { w with live := { block with size := size } :: w.live.erase block })

/-- A write of `len` bytes at offset `off` of a buffer. -/
def FatM.store (ptr : Option Region) (off len : Nat) : FatM σ Unit :=
  match ptr with
  | none => if len = 0 then return () else throw .undefined
  | some block => if off + len ≤ block.size then return () else throw .undefined

/-- `krealloc(ptr, new_size)` -/
def FatM.krealloc (ptr : Option Region) (newSize : Nat) : FatM σ (Option Region) :=
  match ptr with
  | none => kalloc platform newSize
  | some block => do
    requireUsed block
    if newSize < block.size then
      let block ← shrink block newSize
      return some block
    let newBlock ← kalloc platform newSize
    store newBlock 0 block.size
    kfree (some block)
    return newBlock

/-- What the memory holds behind a buffer; behind the empty one, from address 0 on. -/
def FatM.behind (buf : Buf) : FatM σ (List UInt8) := ExceptT.mk fun w =>
  let (bytes, s) :=
    platform.peek (buf.ptr.elim 0 fun block => block.start + buf.bytes.length) w.dev
  some (.ok bytes, { w with dev := s })

end Platform

/-! ## Directory entries -/

/-- `FAT_ATTR_HIDDEN`, bit 1. -/
def fatAttrHidden : Nat := 2

/-- `FAT_ATTR_SYSTEM`, bit 2. -/
def fatAttrSystem : Nat := 4

/-- `sizeof(struct fat_dir)` -/
def fatDirSize : Nat := 32

/-- `sizeof(struct fat_file)` -/
def fatFileSize : Nat := 20

/-- The fields of the entry in these bytes. -/
def FatDir.ofEntry (dir : List UInt8) : FatDir where
  attrs := byteOf dir 11
  clusterLow := wordOf dir 26
  size := wordOf dir 28 + 2 ^ 16 * wordOf dir 30

/-- `namebuf` of `find_dir_ent`: the component as an entry would hold it. -/
def nameBuf (name : List UInt8) : Except Stop (List UInt8) :=
  let namebuf := List.replicate 11 32 ++ [0]
  match strchr name 46 with
  | some strdotpos =>
    let ext := name.drop (strdotpos + 1)
    if strdotpos ≤ 12 ∧ 8 + ext.length ≤ 12 then
      .ok (overwrite (overwrite namebuf 0 (name.take strdotpos)) 8 ext)
    else .error .undefined
  | none => if name.length ≤ 12 then .ok (overwrite namebuf 0 name) else .error .undefined

/-- The string at the start of a buffer. -/
def bufStr (buf : List UInt8) : List UInt8 := buf.takeWhile fun c => c ≠ 0

/-- `recsize` -/
def recSize : Nat := 20

/-- The line that `get_dir_contents` makes of an entry. -/
def dirRecord (dir : List UInt8) : List UInt8 :=
  let namebuf := List.replicate (recSize - 1) 32 ++ [10]
  if (FatDir.ofEntry dir).attrs &&& fatAttrDir ≠ 0 then
    overwrite (overwrite namebuf 0 (dir.take 11)) 13 [60, 68, 73, 82, 62]
  else if (FatDir.ofEntry dir).attrs &&& fatAttrVolid ≠ 0 then
    overwrite (overwrite namebuf 0 (dir.take 11)) 13 [60, 86, 79, 76, 62]
  else
    overwrite (overwrite namebuf 0 (dir.take 8)) 9 ((dir.drop 8).take 3)

section Open

variable {σ : Type} (platform : Platform σ) (priv : FatPriv) (fuel : Nat)

/-- The bytes of the entry `i` of a buffer, which can be behind its end. -/
def FatM.entry (buf : Buf) (i : Nat) : FatM σ (List UInt8) := do
  let behind ← behind platform buf
  return fit fatDirSize ((buf.bytes ++ behind).drop (fatDirSize * i))

/-! ## Reading directories -/

/-- `while (cluster > 0 && cluster <= FAT_CLUSTER_END) { .. }`: `asize` and `offset`
agree.  No buffer is NULL returned from within the loop. -/
def readClusterChainLoop : Nat → Nat → Nat → Buf → FatM σ (Option (Buf × Nat))
  | 0, _, _, _ => throw (.fault .hang)
  | fuel + 1, cluster, asize, data => do
    if 0 < cluster ∧ cluster ≤ fatClusterEnd then
      let offset := asize
      let asize := (asize + priv.bytesPerCluster) % 2 ^ 32
      let some ndata ← FatM.krealloc platform data.ptr asize
        | FatM.kfree data.ptr
          return none
      let (_, clbuf) ← readCluster platform.recorded priv cluster
      FatM.store (some ndata) offset priv.bytesPerCluster
      let next ← nextCluster platform.recorded priv cluster
      readClusterChainLoop fuel next asize
        { ptr := some ndata, bytes := data.bytes ++ fit priv.bytesPerCluster clbuf }
    else
      return some (data, asize)

/-- `read_cluster_chain(dev, start_cluster, size)`: the data, and what `*size` holds
afterwards. -/
def readClusterChain (startCluster size : Nat) : FatM σ (Buf × Nat) := do
  let data ← FatM.kalloc platform 0
  match ← readClusterChainLoop platform priv fuel startCluster 0 { ptr := data, bytes := [] } with
  | some (data, asize) => return (data, asize)
  | none => return ({ ptr := none, bytes := [] }, size)

/-- The root directory, as `find_dir` and `get_dir_contents` read it. -/
def readRootDir : FatM σ (Buf × Nat) := do
  let rootdirSize := priv.bytesPerSector * priv.nrRootDirSectors
  let cldata ← FatM.kalloc platform rootdirSize
  let (_, bytes) ← platform.recorded.call
    ((priv.startLba + priv.rootDirSector) % 2 ^ 32) priv.nrRootDirSectors
  return ({ ptr := cldata, bytes := fit rootdirSize bytes }, rootdirSize)

/-! ## Finding an entry -/

/-- The loop of `find_dir_ent`, from the entry `i` on. -/
def findDirEntLoop (name : List UInt8) (buf : Buf) (bufsz : Nat) : Nat → Nat → FatM σ (Option Nat)
  | 0, _ => throw (.fault .hang)
  | fuel + 1, i => do
    let dir ← FatM.entry platform buf i
    if byteOf dir 0 = 0 then
      return none
    let namebuf ← (nameBuf name : Except Stop (List UInt8))
    let actualNamebuf := dir.take 11 ++ [0]
    if stricmp (bufStr namebuf) (bufStr actualNamebuf) = 0 then
      return some i
    if fatDirSize * (i + 1) > bufsz then
      return none
    findDirEntLoop name buf bufsz fuel (i + 1)

/-- `find_dir_ent(name, buf, bufsz)`: the index of the entry in the buffer. -/
def findDirEnt (name : List UInt8) (buf : Buf) (bufsz : Nat) : FatM σ (Option Nat) :=
  findDirEntLoop platform name buf bufsz (bufsz / fatDirSize + 1) 0

/-- `for (int i = 0; i < pathlen; i++) { .. }`, and the copy of the entry found. -/
def findDirLoop : Buf → Nat → List PathPart → FatM σ (Option (Option Region × List UInt8))
  | _, _, [] => throw .undefined
  | cldata, clsize, [part] => do
    match ← findDirEnt platform part.str cldata clsize with
    | some i =>
      let ret ← FatM.kalloc platform fatDirSize
      let dir ← FatM.entry platform cldata i
      FatM.kfree cldata.ptr
      return some (ret, dir)
    | none =>
      FatM.kfree cldata.ptr
      return none
  | cldata, clsize, part :: next :: parts => do
    match ← findDirEnt platform part.str cldata clsize with
    | some i =>
      FatM.kfree cldata.ptr
      let dir ← FatM.entry platform cldata i
      let (cldata, clsize) ←
        readClusterChain platform priv fuel (FatDir.ofEntry dir).clusterLow clsize
      findDirLoop cldata clsize (next :: parts)
    | none =>
      FatM.kfree cldata.ptr
      return none

/-- `find_dir(dev, path, pathlen)`: the copy of the entry, with its block. -/
def findDir (path : List PathPart) : FatM σ (Option (Option Region × List UInt8)) := do
  let (cldata, clsize) ← readRootDir platform priv
  -- special case for the root directory
  if path.map PathPart.ptr = [0] then
    let ret ← FatM.kalloc platform fatDirSize
    let dir ← FatM.entry platform cldata 0
    FatM.kfree cldata.ptr
    return some (ret, dir)
  findDirLoop platform priv fuel cldata clsize path

/-! ## Listing a directory -/

/-- The entries of a buffer, up to its end. -/
def dirEntries (cldata : Buf) (clsize : Nat) : List (List UInt8) :=
  (List.range ((clsize + (fatDirSize - 1)) / fatDirSize)).map fun i =>
    fit fatDirSize (cldata.bytes.drop (fatDirSize * i))

/-- The loop of `get_dir_contents` over the entries: `out` is what `resbuf` holds,
`bufsize` and `bufoffset` are its length.  No buffer is NULL returned from within
the loop. -/
def listEntries :
    List (List UInt8) → Option Region → List UInt8 → FatM σ (Option (Option Region × List UInt8))
  | [], resbuf, out => return some (resbuf, out)
  | dir :: dirs, resbuf, out => do
    if byteOf dir 0 = 0 then
      return some (resbuf, out)
    if (FatDir.ofEntry dir).attrs &&& (fatAttrHidden ||| fatAttrSystem) ≠ 0 then
      listEntries dirs resbuf out
    else
      let some nresbuf ← FatM.krealloc platform resbuf (out.length + recSize)
        | FatM.kfree resbuf
          return none
      FatM.store (some nresbuf) out.length recSize
      listEntries dirs (some nresbuf) (out ++ dirRecord dir)

/-- The entries that `get_dir_contents` lists. -/
def readDir (pdir : FatDir) (isRoot : Prop) [Decidable isRoot] : FatM σ (Buf × Nat) :=
  if isRoot then readRootDir platform priv
  else readClusterChain platform priv fuel pdir.clusterLow 0

/-- `get_dir_contents(dev, pdir, is_root)`: the listing, with its block. -/
def getDirContents (pdir : FatDir) (isRoot : Prop) [Decidable isRoot] :
    FatM σ (Option (Option Region × List UInt8)) := do
  let (cldata, clsize) ← readDir platform priv fuel pdir isRoot
  let resbuf ← FatM.kalloc platform recSize
  let some (resbuf, out) ← listEntries platform (dirEntries cldata clsize) resbuf []
    | return none
  let some nresbuf ← FatM.krealloc platform resbuf (out.length + 1)
    | FatM.kfree resbuf
      return none
  let resbuf ← FatM.krealloc platform (some nresbuf) (out.length + 1)
  FatM.store resbuf out.length 1
  FatM.kfree cldata.ptr
  return some (resbuf, out ++ [0])

/-! ## fat_open -/

/-- An open file: its `struct fat_file`, the block that is in, and the block of its
listing. -/
structure FatHandle where
  block : Option Region
  listing : Option Region
  file : FatFile
  deriving DecidableEq, Repr

/-- `fat_open(dev, path, pathlen)` -/
def fatOpen (path : List PathPart) : FatM σ (Option FatHandle) := do
  let some (block, bytes) ← findDir platform priv fuel path
    | return none
  let dir := FatDir.ofEntry bytes
  let file ← FatM.kalloc platform fatFileSize
  if dir.attrs &&& (fatAttrDir ||| fatAttrVolid) = 0 then
    FatM.kfree block
    return (FatFile.ofDir dir none).map fun f => { block := file, listing := none, file := f }
  let some (listing, contents) ←
      getDirContents platform priv fuel dir (dir.attrs &&& fatAttrVolid ≠ 0)
    | FatM.kfree file
      FatM.kfree block
      return none
  FatM.kfree block
  return (FatFile.ofDir dir (some contents)).map fun f =>
    { block := file, listing := listing, file := f }

/-! ## Calls of the driver -/

/-- `fat_read(dev, file, size, buf)`.  When a cluster has no bytes the call divides
by zero, behind the read of the first cluster. -/
def fatReadCall (file : FatFile) (size : Nat) : FatM σ ReadResult := ExceptT.mk fun w =>
  match fatRead platform.recorded priv file size w with
  | some (r, w') => some (.ok r, w')
  | none => (readCluster platform.recorded priv file.currentCluster >>= fun _ =>
      pure (.error .divide)) w

/-- A call: opening a path, or reading a number of bytes from one of the files that
have been opened, in the order in which they were. -/
inductive FatCall where
  | open (path : List PathPart)
  | read (handle size : Nat)
  deriving DecidableEq, Repr

/-- One call, with the files that are open. -/
def fatCall (files : List FatFile) : FatCall → FatM σ (List FatFile)
  | .open path => do
    match ← fatOpen platform priv fuel path with
    | some handle => return files ++ [handle.file]
    | none => return files
  | .read handle size => do
    match files[handle]? with
    | some file =>
      let r ← fatReadCall platform priv file size
      return files.set handle r.file
    | none => return files

/-- Any number of calls, until one does not return. -/
def fatCalls : List FatFile → List FatCall → FatM σ (List FatFile)
  | files, [] => return files
  | files, call :: calls => do
    let files ← fatCall platform priv fuel files call
    fatCalls files calls

end Open

end Microboot.Kern.Fs
