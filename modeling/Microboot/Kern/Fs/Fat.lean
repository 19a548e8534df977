/-
  Kern/Fs/Fat.lean --- the FAT16 driver, kern/fs/fat.c.

  The mount (`fatCreate`), the cluster accesses (`readCluster`, `nextCluster`)
  and reading from an open file (`fatRead`).  A call of the block device is a
  step on the device's own state that returns a code and what the buffer holds
  afterwards; nothing is assumed of it here.

  The second half describes what is on the disk: a FAT16 volume with its
  well-formedness (`Volume`), the chains of its file allocation table
  (`Volume.Chain`), and the contents of a regular file.
-/
import Mathlib.Algebra.Group.Int.Defs
import Mathlib.Algebra.Group.Nat.Defs
import Microboot.Foundation.Device

set_option autoImplicit false

namespace Microboot.Kern.Fs

open Microboot.Foundation

/-! ## The block device -/

/-- `blkdev_t`: `read` takes the block address and the number of blocks, and
gives the return code and the contents of the buffer after the call. -/
structure BlkDev (σ : Type) where
  read : Nat → Nat → σ → (Int × List UInt8) × σ

/-- `blkdev->read(blkdev, lba, blocks, buffer)` -/
def BlkDev.call {σ : Type} (dev : BlkDev σ) (lba blocks : Nat) :
    DevM σ (Int × List UInt8) :=
  fun s => some (dev.read lba blocks s)

/-! ## On-disk structures -/

/-- The byte at offset `i` of a buffer. -/
def byteOf (buf : List UInt8) (i : Nat) : Nat := (buf.getD i 0).toNat

/-- The little-endian 16-bit word at offset `i` of a buffer. -/
def wordOf (buf : List UInt8) (i : Nat) : Nat := byteOf buf i + 256 * byteOf buf (i + 1)

theorem byteOf_lt (buf : List UInt8) (i : Nat) : byteOf buf i < 256 :=
  (buf.getD i 0).toNat_lt

theorem wordOf_lt (buf : List UInt8) (i : Nat) : wordOf buf i < 65536 := by
  have h0 := byteOf_lt buf i
  have h1 := byteOf_lt buf (i + 1)
  unfold wordOf
  omega

/-- The fields of `struct fat_bpb` that the driver reads. -/
structure FatBpb where
  bytesPerSector : Nat
  sectorsPerCluster : Nat
  nrReservedSectors : Nat
  nrFats : Nat
  nrRootEntries : Nat
  sectorsPerFat : Nat
  deriving DecidableEq, Repr

/-- The parameter block at the start of a boot sector. -/
def FatBpb.ofSector (mbr : List UInt8) : FatBpb where
  bytesPerSector := wordOf mbr 11
  sectorsPerCluster := byteOf mbr 13
  nrReservedSectors := wordOf mbr 14
  nrFats := byteOf mbr 16
  nrRootEntries := wordOf mbr 17
  sectorsPerFat := wordOf mbr 22

/-- The fields of `struct fat_dir` that reading a file depends on. -/
structure FatDir where
  attrs : Nat
  clusterLow : Nat
  size : Nat
  deriving DecidableEq, Repr

/-- `FAT_ATTR_VOLID`, bit 3. -/
def fatAttrVolid : Nat := 8

/-- `FAT_ATTR_DIR`, bit 4. -/
def fatAttrDir : Nat := 16

/-- `struct fat_priv` -/
structure FatPriv where
  startLba : Nat
  numSectors : Nat
  bytesPerCluster : Nat
  bytesPerSector : Nat
  dataStartSector : Nat
  fatStartSector : Nat
  rootDirSector : Nat
  nrRootDirSectors : Nat
  bpb : FatBpb
  deriving DecidableEq, Repr

/-- `struct fat_file` -/
structure FatFile where
  startCluster : Nat
  currentCluster : Nat
  currentOffset : Nat
  size : Nat
  dirContents : Option (List UInt8)
  deriving DecidableEq, Repr

/-- `FAT_CLUSTER_END` -/
def fatClusterEnd : Nat := 0xfff8

/-! ## Mounting -/

/-- The layout that `fat_create` computes from the parameter block. -/
def FatPriv.ofBpb (startLba numSectors : Nat) (bpb : FatBpb) : FatPriv where
  startLba := startLba
  numSectors := numSectors
  bytesPerSector := bpb.bytesPerSector
  bytesPerCluster := bpb.bytesPerSector * bpb.sectorsPerCluster
  nrRootDirSectors := (bpb.nrRootEntries * 32 + (bpb.bytesPerSector - 1)) / bpb.bytesPerSector
  fatStartSector := bpb.nrReservedSectors
  dataStartSector := bpb.nrReservedSectors + bpb.nrFats * bpb.sectorsPerFat +
    (bpb.nrRootEntries * 32 + (bpb.bytesPerSector - 1)) / bpb.bytesPerSector
  rootDirSector := bpb.nrReservedSectors + bpb.nrFats * bpb.sectorsPerFat
  bpb := bpb

/-- The filesystem part of `fat_create(invoker, blkdev, start_lba, num_sectors)`:
the volume's layout, or the message of the assertion that failed. -/
def fatCreate {σ : Type} (blkdev : BlkDev σ) (startLba numSectors : Nat) :
    DevM σ (Except String FatPriv) := do
  let (_, mbr) ← blkdev.call startLba 1
  let bpb := FatBpb.ofSector mbr
  if bpb.bytesPerSector ≠ 512 then
    return .error "Bad FAT sector size"
  return .ok (FatPriv.ofBpb startLba numSectors bpb)

/-- On a mounted partition a cluster has the bytes of its sectors. -/
theorem fatCreate_bytesPerCluster {σ : Type} {dev : BlkDev σ} {priv : FatPriv}
    {startLba numSectors : Nat} {s s' : σ}
    (h : fatCreate dev startLba numSectors s = some (.ok priv, s')) :
    priv.bytesPerCluster = 512 * priv.bpb.sectorsPerCluster := by
  change (if (FatBpb.ofSector (dev.read startLba 1 s).1.2).bytesPerSector ≠ 512 then
      pure (.error "Bad FAT sector size")
    else pure (.ok (FatPriv.ofBpb startLba numSectors
      (FatBpb.ofSector (dev.read startLba 1 s).1.2))) : DevM σ (Except String FatPriv))
    (dev.read startLba 1 s).2 = some (.ok priv, s') at h
  split at h
  next => cases h
  next hbytes =>
    cases h
    exact congrArg (· * _) (not_not.mp hbytes)

/-! ## Clusters -/

/-- `sector_of_cluster(priv, cluster)` -/
def sectorOfCluster (priv : FatPriv) (cluster : Nat) : Nat :=
  ((cluster + (2 ^ 32 - 2)) * priv.bpb.sectorsPerCluster + priv.dataStartSector) % 2 ^ 32

/-- Cluster numbers from 2 on do not wrap around below 2. -/
theorem sectorOfCluster_of_lt {priv : FatPriv} {c : Nat} (htwo : 2 ≤ c)
    (hfits : priv.dataStartSector + (c - 2) * priv.bpb.sectorsPerCluster < 2 ^ 32) :
    sectorOfCluster priv c =
      priv.dataStartSector + (c - 2) * priv.bpb.sectorsPerCluster := by
  have hwrap : (c + (2 ^ 32 - 2)) * priv.bpb.sectorsPerCluster =
      (c - 2) * priv.bpb.sectorsPerCluster + 2 ^ 32 * priv.bpb.sectorsPerCluster := by
    rw [← Nat.add_mul]
    congr 1
    omega
  rw [sectorOfCluster, hwrap, Nat.add_right_comm, Nat.add_mul_mod_self_left, Nat.add_comm,
    Nat.mod_eq_of_lt hfits]

section Clusters

variable {σ : Type} (blkdev : BlkDev σ) (priv : FatPriv)

/-- `read_cluster(dev, cluster, dst)` -/
def readCluster (cluster : Nat) : DevM σ (Int × List UInt8) :=
  blkdev.call ((priv.startLba + sectorOfCluster priv cluster) % 2 ^ 32)
    priv.bpb.sectorsPerCluster

/-- `next_cluster(dev, current_cluster)` -/
def nextCluster (currentCluster : Nat) : DevM σ Nat := do
  let fatOffset := currentCluster * 2 % 2 ^ 32
  let fatSector := priv.fatStartSector + fatOffset / priv.bytesPerSector
  let entOffset := fatOffset % priv.bytesPerSector
  let (_, fatTable) ← blkdev.call ((priv.startLba + fatSector) % 2 ^ 32) 1
  return wordOf fatTable entOffset

end Clusters

/-- The buffers that the device reads into are as long as the blocks. -/
def BlkDev.Fills {σ : Type} (dev : BlkDev σ) : Prop :=
  ∀ lba n s, (dev.read lba n s).1.2.length = 512 * n

/-- The file allocation table on the disk: the entry that `next_cluster` reads for
each 16-bit number. -/
def BlkDev.HasTable {σ : Type} (dev : BlkDev σ) (priv : FatPriv) (fat : Nat → Nat) : Prop :=
  ∀ c < 2 ^ 16, Returns (nextCluster dev priv c) (fat c)

/-- The number of clusters in the sectors behind the start of the data. -/
def FatPriv.clusterCount (priv : FatPriv) : Nat :=
  (priv.numSectors - priv.dataStartSector) / priv.bpb.sectorsPerCluster

/-- The partition has a data cluster of this number. -/
def FatPriv.HasCluster (priv : FatPriv) (c : Nat) : Prop := 2 ≤ c ∧ c < priv.clusterCount + 2

instance (priv : FatPriv) (c : Nat) : Decidable (priv.HasCluster c) :=
  inferInstanceAs (Decidable (_ ∧ _))

namespace FatPriv.HasCluster

variable {priv : FatPriv} {c : Nat}

theorem sectorsPerCluster_pos (h : priv.HasCluster c) : 0 < priv.bpb.sectorsPerCluster := by
  refine Nat.pos_of_ne_zero fun hzero => ?_
  have hcount : priv.clusterCount = 0 := by rw [clusterCount, hzero, Nat.div_zero]
  have := h.1
  have := h.2
  omega

/-- The sectors of a data cluster are inside the partition. -/
theorem sectors_le (h : priv.HasCluster c) :
    priv.dataStartSector + (c - 2) * priv.bpb.sectorsPerCluster + priv.bpb.sectorsPerCluster ≤
      priv.numSectors := by
  have hpos := h.sectorsPerCluster_pos
  have hcount : (c - 2 + 1) * priv.bpb.sectorsPerCluster ≤
      priv.numSectors - priv.dataStartSector :=
    calc (c - 2 + 1) * priv.bpb.sectorsPerCluster
        ≤ priv.clusterCount * priv.bpb.sectorsPerCluster :=
          Nat.mul_le_mul_right _ (by have := h.1; have := h.2; omega)
      _ ≤ priv.numSectors - priv.dataStartSector := Nat.div_mul_le_self _ _
  rw [Nat.add_mul, Nat.one_mul] at hcount
  omega

/-- The sector of a data cluster is computed without wrapping around. -/
theorem sectorOfCluster_eq (h : priv.HasCluster c) (hfits : priv.numSectors ≤ 2 ^ 32) :
    sectorOfCluster priv c =
      priv.dataStartSector + (c - 2) * priv.bpb.sectorsPerCluster := by
  have hsectors := h.sectors_le
  have hpos := h.sectorsPerCluster_pos
  exact sectorOfCluster_of_lt h.1 (by omega)

/-- The entry of a data cluster is in a sector of the partition: a cluster has at
least as many sectors as its entry needs. -/
theorem fat_lt (h : priv.HasCluster c) (hfat : priv.fatStartSector ≤ priv.dataStartSector) :
    priv.fatStartSector + c * 2 / 512 < priv.numSectors := by
  have hsectors := h.sectors_le
  have hpos := h.sectorsPerCluster_pos
  have hc : c - 2 ≤ (c - 2) * priv.bpb.sectorsPerCluster := Nat.le_mul_of_pos_right _ hpos
  have := h.1
  omega

end FatPriv.HasCluster

/-! ## Files -/

/-- The handle that `fat_open` makes of a directory entry, given the listing that
`get_dir_contents` makes of it if it is a directory or a volume. -/
def FatFile.ofDir (dir : FatDir) (listing : Option (List UInt8)) : Option FatFile :=
  if dir.attrs &&& (fatAttrDir ||| fatAttrVolid) = 0 then
    some
      { startCluster := dir.clusterLow
        currentCluster := dir.clusterLow
        currentOffset := 0
        size := dir.size
        dirContents := none }
  else
    listing.map fun contents =>
      { startCluster := fatClusterEnd
        currentCluster := fatClusterEnd
        currentOffset := 0
        size := (contents.takeWhile fun c => c ≠ 0).length
        dirContents := some contents }

/-- A 32-bit word as the `int` it is returned as. -/
def asInt (n : Nat) : Int :=
  if n % 2 ^ 32 < 2 ^ 31 then (n % 2 ^ 32 : Nat) else (n % 2 ^ 32 : Nat) - 2 ^ 32

/-- What a call of `fat_read` leaves: its return value, the handle, and the bytes
it stored from `buf` on. -/
structure ReadResult where
  ret : Int
  file : FatFile
  out : List UInt8
  deriving DecidableEq, Repr

/-- `read_contents(file, size, buf)` -/
def readContents (file : FatFile) (contents : List UInt8) (size : Nat) : ReadResult :=
  if file.currentOffset ≥ file.size then
    { ret := 0, file := file, out := [] }
  else
    let toRead := min (file.size - file.currentOffset) size
    { ret := asInt toRead
      file := { file with currentOffset := (file.currentOffset + toRead) % 2 ^ 32 }
      out := (contents.drop file.currentOffset).take toRead }

/-- Where `fat_read`'s loop over the full clusters ends: `chainEnd` if it met the
end of the chain, which ends the call. -/
structure Walk where
  clus : Nat
  remaining : Nat
  out : List UInt8
  chainEnd : Bool
  deriving DecidableEq, Repr

section Read

variable {σ : Type} (blkdev : BlkDev σ) (priv : FatPriv)

/-- `while (remaining > clbytes) { .. }`; the loop goes on for ever when a cluster
has no bytes. -/
def readFullClusters : Nat → Nat → Nat → List UInt8 → DevM σ Walk
  | 0, _, _, _ => fun _ => none
  | fuel + 1, clus, remaining, out =>
    if remaining > priv.bytesPerCluster then
      if clus ≥ fatClusterEnd then
        return { clus := clus, remaining := remaining, out := out, chainEnd := true }
      else do
        let (_, clbuf) ← readCluster blkdev priv clus
        let next ← nextCluster blkdev priv clus
        readFullClusters fuel next (remaining - priv.bytesPerCluster)
          (out ++ clbuf.take priv.bytesPerCluster)
    else
      return { clus := clus, remaining := remaining, out := out, chainEnd := false }

/-- `fat_read` behind the first cluster: the rest of the full clusters, and the
final partial cluster (if there is one). -/
def readOnward (file : FatFile) (size fullSize clus remaining : Nat) (out : List UInt8) :
    DevM σ ReadResult := do
  let walk ← readFullClusters blkdev priv (remaining + 1) clus remaining out
  if walk.chainEnd then
    return {
      ret := asInt (size - walk.remaining)
      file := { file with
        currentCluster := walk.clus
        currentOffset := (file.currentOffset + (size - walk.remaining)) % 2 ^ 32 }
      out := walk.out }
  let lastclusCnt := min priv.bytesPerCluster walk.remaining
  let out ←
    if walk.remaining > 0 then do
      let (_, clbuf) ← readCluster blkdev priv walk.clus
      pure (walk.out ++ clbuf.take lastclusCnt)
    else pure walk.out
  let remaining := walk.remaining - lastclusCnt
  return {
    ret := asInt (fullSize - remaining)
    file := { file with
      currentCluster := walk.clus
      currentOffset := (file.currentOffset + (fullSize - remaining)) % 2 ^ 32 }
    out := out }

/-- `fat_read(dev, file, size, buf)` -/
def fatRead (file : FatFile) (size : Nat) : DevM σ ReadResult := do
  let clbytes := priv.bytesPerCluster
  let fullSize := min size ((file.size + 2 ^ 32 - file.currentOffset) % 2 ^ 32)
  if fullSize = 0 then
    return { ret := 0, file := file, out := [] }
  if let some contents := file.dirContents then
    return readContents file contents size
  -- read the first cluster (may not be full)
  let (code, clbuf) ← readCluster blkdev priv file.currentCluster
  if code ≠ priv.bpb.sectorsPerCluster then
    return { ret := -1, file := file, out := [] }
  -- the remainder faults when a cluster has no bytes
  if clbytes = 0 then
    fun _ => none
  else
    let clusOff := file.currentOffset % clbytes
    let firstclusCnt := min (clbytes - clusOff) fullSize
    let out := (clbuf.drop clusOff).take firstclusCnt
    -- only move to the next cluster if this read moves out of it
    let clus ←
      if firstclusCnt = clbytes - clusOff then nextCluster blkdev priv file.currentCluster
      else pure file.currentCluster
    readOnward blkdev priv file size fullSize clus (fullSize - firstclusCnt) out

/-- A sequence of calls of `fat_read` on one handle: what each call returned and
stored. -/
def fatReads : FatFile → List Nat → DevM σ (List (Int × List UInt8))
  | _, [] => return []
  | file, size :: sizes => do
    let r ← fatRead blkdev priv file size
    let rs ← fatReads r.file sizes
    return (r.ret, r.out) :: rs

end Read

/-! ## Volumes -/

/-- A well-formed FAT16 volume: the device's sectors, the partition the volume
occupies, and a parameter block whose regions fit into it. -/
structure Volume where
  sector : Nat → List UInt8
  startLba : Nat
  numSectors : Nat
  sector_length : ∀ lba, (sector lba).length = 512
  partition_fits : startLba + numSectors ≤ 2 ^ 32
  bytesPerSector_eq : (FatBpb.ofSector (sector startLba)).bytesPerSector = 512
  sectorsPerCluster_pos : 0 < (FatBpb.ofSector (sector startLba)).sectorsPerCluster
  nrFats_pos : 0 < (FatBpb.ofSector (sector startLba)).nrFats
  data_fits : (FatPriv.ofBpb startLba numSectors
    (FatBpb.ofSector (sector startLba))).dataStartSector ≤ numSectors
  /-- every data cluster has an entry in the file allocation table -/
  fat_covers : 2 * ((numSectors - (FatPriv.ofBpb startLba numSectors
    (FatBpb.ofSector (sector startLba))).dataStartSector) /
      (FatBpb.ofSector (sector startLba)).sectorsPerCluster + 2) ≤
    512 * (FatBpb.ofSector (sector startLba)).sectorsPerFat

namespace Volume

variable (v : Volume)

/-- The parameter block in the volume's boot sector. -/
def bpb : FatBpb := FatBpb.ofSector (v.sector v.startLba)

/-- The layout that mounting the volume finds. -/
def priv : FatPriv := FatPriv.ofBpb v.startLba v.numSectors v.bpb

/-- The bytes of `n` sectors from `lba` on. -/
def bytes (lba n : Nat) : List UInt8 := (List.range' lba n).flatMap v.sector

/-- The number of bytes in a cluster. -/
def clusterSize : Nat := 512 * v.bpb.sectorsPerCluster

/-- The number of data clusters; they are numbered from 2 on. -/
def clusterCount : Nat := (v.numSectors - v.priv.dataStartSector) / v.bpb.sectorsPerCluster

/-- A number of a data cluster. -/
def IsCluster (c : Nat) : Prop := 2 ≤ c ∧ c < v.clusterCount + 2 ∧ c ≤ 0xffef

/-- The contents of a data cluster. -/
def clusterBytes (c : Nat) : List UInt8 :=
  v.bytes (v.startLba + (v.priv.dataStartSector + (c - 2) * v.bpb.sectorsPerCluster))
    v.bpb.sectorsPerCluster

/-- The entry of a cluster in the file allocation table. -/
def fat (c : Nat) : Nat :=
  wordOf (v.sector (v.startLba + (v.priv.fatStartSector + c * 2 / 512))) (c * 2 % 512)

/-- A chain of data clusters: each entry names the next cluster, the last one is
an end-of-chain marker. -/
def Chain : List Nat → Prop
  | [] => True
  | [c] => v.IsCluster c ∧ 0xfff8 ≤ v.fat c
  | c :: d :: cs => v.IsCluster c ∧ v.fat c = d ∧ Chain (d :: cs)

instance (c : Nat) : Decidable (v.IsCluster c) :=
  inferInstanceAs (Decidable (2 ≤ c ∧ c < v.clusterCount + 2 ∧ c ≤ 0xffef))

instance decidableChain : ∀ cs : List Nat, Decidable (v.Chain cs)
  | [] => isTrue trivial
  | [c] => inferInstanceAs (Decidable (v.IsCluster c ∧ 0xfff8 ≤ v.fat c))
  | c :: d :: cs =>
    haveI := decidableChain (d :: cs)
    inferInstanceAs (Decidable (v.IsCluster c ∧ v.fat c = d ∧ v.Chain (d :: cs)))

/-- A regular file: its entry, and a chain that starts where the entry says and
covers its size. -/
structure RegularFile (dir : FatDir) (chain : List Nat) : Prop where
  regular : dir.attrs &&& (fatAttrDir ||| fatAttrVolid) = 0
  start : chain = [] ∨ chain.head? = some dir.clusterLow
  valid : v.Chain chain
  covers : dir.size ≤ chain.length * v.clusterSize
  size_lt : dir.size < 2 ^ 32

/-- The contents of a file with this entry and chain. -/
def contents (dir : FatDir) (chain : List Nat) : List UInt8 :=
  (chain.flatMap v.clusterBytes).take dir.size

/-- A device whose reads inside the partition succeed and give the sectors. -/
def ServedBy {σ : Type} (dev : BlkDev σ) : Prop :=
  ∀ lba n, v.startLba ≤ lba → lba + n ≤ v.startLba + v.numSectors →
    Returns (dev.call lba n) (n, v.bytes lba n)

end Volume

end Microboot.Kern.Fs
