/-
  Kern/Fs/FatReadOnce.lean --- one call of fat_read, kern/fs/fat.c.

  From a handle whose cluster is the one its offset is in, a call delivers the
  bytes asked for and moves the offset behind them, however the offset, the
  request and the end of the file lie to the clusters.  The number of bytes is
  returned as an `int`, which holds it as long as it is below `2 ^ 31`.  With
  clusters of at most 32 KiB every file is below that size; a file in larger
  clusters need not be.
-/
import Mathlib.Data.List.Perm.Subperm
import Microboot.Kern.Fs.FatRead

set_option autoImplicit false

namespace Microboot.Kern.Fs

open Microboot.Foundation

section Once

variable {v : Volume} {σ : Type} {dev : BlkDev σ} {dir : FatDir} {chain : List Nat}
  {file : FatFile} {n : Nat}

/-! ## One call -/

/-- The `int` of a 32-bit word. -/
theorem asInt_eq {m : Nat} (hm : m < 2 ^ 32) :
    asInt m = if m < 2 ^ 31 then (m : Int) else (m : Int) - 2 ^ 32 := by
  rw [asInt, Nat.mod_eq_of_lt hm]

/-- The handle's cluster is the one that its offset is in. -/
theorem inStep_of_cluster (hlisting : file.dirContents = none) (hsize : file.size = dir.size)
    (hoffset : file.currentOffset < dir.size)
    (hcluster : chain[file.currentOffset / v.priv.bytesPerCluster]? = some file.currentCluster) :
    InStep v dir chain file.currentOffset file := by
  refine ⟨hlisting, hsize, rfl, Nat.le_of_lt hoffset, fun _ => ?_⟩
  rw [Volume.bytesPerCluster_priv] at hcluster
  obtain ⟨hlt, heq⟩ := List.getElem?_eq_some_iff.mp hcluster
  exact ⟨_, by rw [List.drop_eq_getElem_cons hlt, heq]⟩

/-- A call delivers the bytes asked for, moves nothing of the handle but its place,
and returns their number as an `int`. -/
theorem fatRead_once (hdev : v.ServedBy dev) (hfile : v.RegularFile dir chain)
    (hlisting : file.dirContents = none) (hsize : file.size = dir.size)
    (hoffset : file.currentOffset < dir.size)
    (hcluster : chain[file.currentOffset / v.priv.bytesPerCluster]? = some file.currentCluster)
    (hn : 1 ≤ n) :
    ∃ clus, Returns (fatRead dev v.priv file n)
      { ret := asInt (min n (dir.size - file.currentOffset))
        file := { file with
          currentCluster := clus
          currentOffset := file.currentOffset + min n (dir.size - file.currentOffset) }
        out := ((v.contents dir chain).drop file.currentOffset).take
          (min n (dir.size - file.currentOffset)) } := by
  have hstep := inStep_of_cluster hlisting hsize hoffset hcluster
  obtain ⟨cs, hcs⟩ := hstep.cluster hoffset
  have hsome : 0 < min n (dir.size - file.currentOffset) := by omega
  have htake : ((v.contents dir chain).drop file.currentOffset).take
      (min n (dir.size - file.currentOffset)) =
      ((v.contents dir chain).drop file.currentOffset).take n := by
    rw [List.take_eq_take_iff, List.length_drop, length_contents hfile]
    omega
  rw [htake]
  by_cases hmove : file.currentOffset % v.clusterSize +
      min n (dir.size - file.currentOffset) < v.clusterSize
  · exact ⟨file.currentCluster, fatRead_inside hdev hfile hstep hcs hsome hmove⟩
  · obtain ⟨-, -, clus, -, -, -, -, hret⟩ :=
      fatRead_beyond hdev hfile hstep hcs hsome (Nat.le_of_not_lt hmove)
    exact ⟨clus, hret⟩

/-- A handle of the file of three clusters, at the second byte of the second. -/
def secondCluster : FatFile :=
  { startCluster := 2, currentCluster := 3, currentOffset := 513, size := 1300,
    dirContents := none }

/-- A chain is determined by its first cluster. -/
theorem Volume.Chain.unique {c : Nat} {cs ds : List Nat} (hcs : v.Chain (c :: cs))
    (hds : v.Chain (c :: ds)) : cs = ds := by
  induction cs generalizing c ds with
  | nil =>
    cases ds with
    | nil => rfl
    | cons d ds =>
      have hend := hcs.2
      have hnext := hds.2.1
      have hlast := hds.2.2.isCluster.2.2
      omega
  | cons e cs ih =>
    cases ds with
    | nil =>
      have hend := hds.2
      have hnext := hcs.2.1
      have hlast := hcs.2.2.isCluster.2.2
      omega
    | cons d ds =>
      obtain rfl : e = d := by rw [← hcs.2.1, ← hds.2.1]
      rw [ih hcs.2.2 hds.2.2]

/-- The clusters of a chain are distinct: behind a cluster that comes again the chain
would have its own length twice. -/
theorem Volume.Chain.nodup {cs : List Nat} (h : v.Chain cs) : cs.Nodup := by
  induction cs with
  | nil => exact List.nodup_nil
  | cons c cs ih =>
    refine List.nodup_cons.mpr ⟨fun hmem => ?_, ih h.next.2⟩
    obtain ⟨before, after, rfl⟩ := List.append_of_mem hmem
    have hagain : v.Chain (c :: after) := by
      have := h.drop (before.length + 1)
      rwa [List.drop_succ_cons, List.drop_left] at this
    have hlen := congrArg List.length (h.unique hagain)
    rw [List.length_append, List.length_cons] at hlen
    omega

/-- With clusters of at most 32 KiB, the size of a file fits an `int`. -/
theorem Volume.RegularFile.size_lt_int (hfile : v.RegularFile dir chain)
    (hsmall : v.clusterSize ≤ 2 ^ 15) : dir.size < 2 ^ 31 := by
  have hmem : ∀ c ∈ chain, c ∈ List.range 0xfff0 := by
    intro c hc
    obtain ⟨before, after, rfl⟩ := List.append_of_mem hc
    have hchain := hfile.valid.drop before.length
    rw [List.drop_left] at hchain
    have := hchain.isCluster.2.2
    exact List.mem_range.mpr (by omega)
  have hlen : chain.length ≤ 0xfff0 := by
    have := (List.subperm_of_subset hfile.valid.nodup hmem).length_le
    rwa [List.length_range] at this
  have hcovers := hfile.covers
  have hbytes := Nat.mul_le_mul hlen hsmall
  omega

end Once

/-! ## A file of 2 GiB in clusters of 64 KiB -/

/-- The entry of a cluster: the clusters 2 to 32769 make up one chain. -/
def largeEntry (c : Nat) : Nat := if c = 32769 then 0xffff else c + 1

/-- The byte at offset `i` of the sector `lba` of the file allocation table. -/
def largeFatByte (lba i : Nat) : UInt8 :=
  UInt8.ofNat (largeEntry ((lba - 1) * 256 + i / 2) / 256 ^ (i % 2))

/-- A volume with 128 sectors in a cluster, and a file allocation table of 129
sectors. -/
def largeClusters : Volume where
  sector lba :=
    if lba = 0 then
      List.replicate 11 0 ++ [0, 2, 128, 1, 0, 1, 16, 0, 0, 0, 0xf8, 129, 0] ++
        List.replicate 488 0
    else if lba ≤ 129 then (List.range 512).map (largeFatByte lba)
    else List.replicate 512 0
  startLba := 0
  numSectors := 131 + 32768 * 128
  sector_length lba := by
    split
    · decide +kernel
    split
    · simp
    · exact List.length_replicate
  partition_fits := by decide
  bytesPerSector_eq := by decide +kernel
  sectorsPerCluster_pos := by decide +kernel
  nrFats_pos := by decide +kernel
  data_fits := by decide +kernel
  fat_covers := by decide +kernel

theorem byteOf_largeFat {lba i : Nat} (hi : i < 512) :
    byteOf ((List.range 512).map (largeFatByte lba)) i =
      largeEntry ((lba - 1) * 256 + i / 2) / 256 ^ (i % 2) % 256 := by
  rw [byteOf, List.getD_eq_getElem?_getD, List.getElem?_map, List.getElem?_range hi]
  simp [largeFatByte]

/-- The table has the entries of the chain. -/
theorem fat_largeClusters {c : Nat} (hc : c ≤ 32769) :
    largeClusters.fat c = largeEntry c := by
  have hstart : largeClusters.startLba + largeClusters.priv.fatStartSector = 1 := by
    decide +kernel
  have hsector : largeClusters.sector (1 + c * 2 / 512) =
      (List.range 512).map (largeFatByte (1 + c * 2 / 512)) := by
    change (if 1 + c * 2 / 512 = 0 then _ else
      if 1 + c * 2 / 512 ≤ 129 then _ else _) = _
    rw [if_neg (by omega), if_pos (by omega)]
  have hlow : (1 + c * 2 / 512 - 1) * 256 + c * 2 % 512 / 2 = c := by omega
  have hhigh : (1 + c * 2 / 512 - 1) * 256 + (c * 2 % 512 + 1) / 2 = c := by omega
  have hentry : largeEntry c < 2 ^ 16 := by
    unfold largeEntry
    split <;> omega
  rw [Volume.fat, ← Nat.add_assoc, hstart, hsector, wordOf, byteOf_largeFat (by omega),
    byteOf_largeFat (by omega), hlow, hhigh, show c * 2 % 512 % 2 = 0 by omega,
    show (c * 2 % 512 + 1) % 2 = 1 by omega, Nat.pow_zero, Nat.pow_one, Nat.div_one]
  omega

theorem isCluster_largeClusters {c : Nat} (htwo : 2 ≤ c) (hc : c ≤ 32769) :
    largeClusters.IsCluster c := by
  have hcount : largeClusters.clusterCount = 32768 := by decide +kernel
  unfold Volume.IsCluster
  omega

theorem chain_largeClusters {n c : Nat} (htwo : 2 ≤ c) (hlast : c + n = 32769) :
    largeClusters.Chain (List.range' c (n + 1)) := by
  induction n generalizing c with
  | zero =>
    obtain rfl : c = 32769 := hlast
    refine ⟨isCluster_largeClusters htwo (Nat.le_refl _), ?_⟩
    rw [fat_largeClusters (Nat.le_refl _)]
    decide
  | succ n ih =>
    refine ⟨isCluster_largeClusters htwo (by omega), ?_, ih (by omega) (by omega)⟩
    rw [fat_largeClusters (by omega), largeEntry, if_neg (by omega)]

/-- The file in all of these clusters. -/
def largeFile : FatDir := { attrs := 0x20, clusterLow := 2, size := 2 ^ 31 }

/-- A handle at its start. -/
def largeHandle : FatFile :=
  { startCluster := 2, currentCluster := 2, currentOffset := 0, size := 2 ^ 31,
    dirContents := none }

theorem regularFile_largeClusters :
    largeClusters.RegularFile largeFile (List.range' 2 32768) where
  regular := by decide
  start := .inr rfl
  valid := chain_largeClusters (Nat.le_refl 2) rfl
  covers := by
    have hsize : largeClusters.clusterSize = 2 ^ 16 := by decide +kernel
    rw [List.length_range', hsize]
    decide
  size_lt := by decide

end Microboot.Kern.Fs
