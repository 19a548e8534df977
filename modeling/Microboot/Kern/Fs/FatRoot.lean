/-
  Kern/Fs/FatRoot.lean --- opening the root directory, kern/fs/fat.c.

  No entry is that of the root directory.  For the empty path `find_dir` returns the
  first entry in it, and `fat_open` makes the handle of what that is the entry of: the
  root directory if it is a volume label, else a file or another directory.

  The first part is the disk as the driver sees it: a number that is not that of a
  data cluster has contents and an entry too, wherever they are.
-/
import Microboot.Kern.Fs.DirList

set_option autoImplicit false

namespace Microboot.Kern.Fs

open Microboot.Foundation

/-! ## The disk -/

namespace Volume

variable (v : Volume)

/-- A device whose reads succeed and give the sectors, inside of the partition or not. -/
def OnDisk {σ : Type} (dev : BlkDev σ) : Prop :=
  ∀ lba n, Returns (dev.call lba n) (n, v.bytes lba n)

/-- The bytes of the root directory. -/
def rootDir : List UInt8 := v.bytes v.priv.rootAccess.1 v.priv.rootAccess.2

/-- The data that is read for a cluster number. -/
def dataAt (c : Nat) : List UInt8 := v.bytes (v.priv.dataAccess c).1 (v.priv.dataAccess c).2

/-- The entry that is read for a cluster number. -/
def nextAt (c : Nat) : Nat :=
  wordOf (v.bytes (v.priv.fatAccess c).1 1) (c * 2 % 2 ^ 32 % v.priv.bytesPerSector)

/-- From the number `c` on `read_cluster_chain` reads these bytes: there are some, and
they have less than 4 GiB. -/
def HoldsFrom (c : Nat) (bytes : List UInt8) : Prop :=
  ∃ cs stop, Trail v.nextAt Followed c cs stop ∧ cs ≠ [] ∧ cs.length * v.clusterSize < 2 ^ 32 ∧
    bytes = cs.flatMap v.dataAt

variable {v} {σ : Type} {dev : BlkDev σ}

theorem OnDisk.hasTable (hdev : v.OnDisk dev) : dev.HasTable v.priv v.nextAt :=
  fun _ _ => (hdev _ _).bind (.pure _)

theorem OnDisk.data (hdev : v.OnDisk dev) (c : Nat) :
    Returns (readCluster dev v.priv c) (v.bpb.sectorsPerCluster, v.dataAt c) := hdev _ _

theorem onDisk_device (v : Volume) : v.OnDisk v.device := fun _ _ s => ⟨s, rfl⟩

theorem length_dataAt (c : Nat) : (v.dataAt c).length = v.clusterSize := v.length_bytes _ _

theorem bytesPerSector_priv : v.priv.bytesPerSector = 512 := v.bytesPerSector_eq

theorem length_rootDir : v.rootDir.length = v.priv.bytesPerSector * v.priv.nrRootDirSectors := by
  rw [bytesPerSector_priv]
  exact v.length_bytes _ _

/-- The root directory has at most 65535 entries. -/
theorem length_rootDir_le : v.rootDir.length ≤ 2 ^ 21 := by
  have hentries : v.bpb.nrRootEntries < 2 ^ 16 := wordOf_lt _ _
  have hsectors : v.priv.nrRootDirSectors =
      (v.bpb.nrRootEntries * 32 + (v.priv.bytesPerSector - 1)) / v.priv.bytesPerSector := rfl
  rw [bytesPerSector_priv] at hsectors
  rw [length_rootDir, bytesPerSector_priv, hsectors]
  omega

end Volume

section Open

variable {σ : Type} {platform : Platform σ} {v : Volume} {priv : FatPriv} {fuel c : Nat}
  {others : List Region} {w : FatWorld σ} {bytes dir : List UInt8}

/-! ## Reading directories -/

theorem Volume.HoldsFrom.ne_nil (h : v.HoldsFrom c bytes) : bytes ≠ [] := by
  obtain ⟨cs, stop, -, hcs, -, rfl⟩ := h
  rw [← List.length_pos_iff, length_flatMap_blocks fun d _ => v.length_dataAt d]
  exact Nat.mul_pos (List.length_pos_iff.mpr hcs) v.clusterSize_pos

/-- Less than 4 GiB in sectors are not more than the heap can give. -/
theorem Volume.HoldsFrom.length_le (h : v.HoldsFrom c bytes) : bytes.length ≤ 2 ^ 32 - 64 := by
  obtain ⟨cs, stop, -, -, hsize, rfl⟩ := h
  rw [length_flatMap_blocks fun d _ => v.length_dataAt d]
  rw [clusterSize, Nat.mul_left_comm] at hsize ⊢
  omega

/-- Sectors are made of whole entries. -/
theorem Volume.HoldsFrom.dvd_length (h : v.HoldsFrom c bytes) : fatDirSize ∣ bytes.length := by
  obtain ⟨cs, stop, -, -, -, rfl⟩ := h
  rw [length_flatMap_blocks fun d _ => v.length_dataAt d, clusterSize]
  exact Nat.dvd_mul_left_of_dvd (Nat.dvd_mul_right_of_dvd (by decide) _) _

/-- There is one way from a number. -/
theorem Volume.HoldsFrom.unique {bytes' : List UInt8} (h : v.HoldsFrom c bytes)
    (h' : v.HoldsFrom c bytes') : bytes = bytes' := by
  obtain ⟨cs, stop, htrail, -, -, rfl⟩ := h
  obtain ⟨cs', stop', htrail', -, -, rfl⟩ := h'
  rw [(htrail.unique htrail').1]

/-- No data is read from a number that is not followed. -/
theorem Volume.HoldsFrom.followed (h : v.HoldsFrom c bytes) : Followed c := by
  obtain ⟨cs, stop, htrail, hcs, -, -⟩ := h
  cases htrail with
  | here _ => exact absurd rfl hcs
  | step hgo _ => exact hgo

theorem Volume.fit_dataAt (c : Nat) : fit v.priv.bytesPerCluster (v.dataAt c) = v.dataAt c := by
  rw [bytesPerCluster_priv]
  exact fit_eq_self (v.length_dataAt c)

theorem Volume.OnDisk.yields (hdev : v.OnDisk platform.blkdev) (c : Nat) :
    Yields (readCluster platform.blkdev v.priv c) fun answer =>
      fit v.priv.bytesPerCluster answer.2 = v.dataAt c := by
  intro s
  obtain ⟨s', hread⟩ := hdev.data c s
  exact ⟨_, s', hread, v.fit_dataAt c⟩

/-- What the disk holds is read into a block of its own. -/
theorem readClusterChain_holds (hdev : v.OnDisk platform.blkdev) (h : v.HoldsFrom c bytes)
    (hroom : HasRoom platform (2 ^ 32 - 64)) (hfuel : 2 ^ 16 ≤ fuel) (size : Nat)
    (w : FatWorld σ) :
    ReturnsIn (readClusterChain platform v.priv fuel c size) w fun r w' =>
      r.1.bytes = bytes ∧ r.2 = bytes.length ∧
        ∃ block, r.1.ptr = some block ∧ Owns (some block) w.live w' := by
  have hbytes := h.ne_nil
  have hlen := h.length_le
  obtain ⟨cs, stop, htrail, -, -, rfl⟩ := h
  exact readClusterChain_block size htrail (fun d hd => hdev.hasTable d (htrail.goes d hd).lt)
    (fun d _ => hdev.yields d) hbytes hlen hroom hfuel w

/-- A buffer that is returned is NULL and empty, or has what the disk holds. -/
theorem readClusterChain_holdsOnly (hdev : v.OnDisk platform.blkdev) (hc : c < 2 ^ 16)
    (size : Nat) :
    v.priv.Reads (readClusterChain platform v.priv fuel c size) fun r =>
      r.1.bytes.length = r.2 ∧ r.2 < 2 ^ 32 ∧ (r.1.ptr = none → r.2 = 0) ∧
        (r.1.ptr ≠ none → v.HoldsFrom c r.1.bytes) := by
  have hbytes : v.priv.bytesPerCluster = v.clusterSize := Volume.bytesPerCluster_priv
  have hpos := v.clusterSize_pos
  have hlt := v.clusterSize_lt
  refine (readClusterChain_only (D := fun d bytes => bytes = v.dataAt d) hdev.hasTable
    (fun d hd => ?_) hc (by omega) (by omega) size).mono fun r h => ?_
  · refine fun w answer w' hrun => ⟨(readCluster_issues hd w answer w' hrun).1, ?_⟩
    obtain ⟨s, hread⟩ := hdev.data d w.dev
    have hanswer := congrArg Prod.fst (Option.some.inj hread)
    have hanswer' := congrArg Prod.fst (Option.some.inj hrun)
    rw [show answer = _ from hanswer'.symm.trans hanswer]
    exact v.fit_dataAt d
  · obtain ⟨cs, stop, blocks, htrail, hblocks, hbuf, hback, hsize, hfits⟩ := h
    rw [flatten_of_forall₂ hblocks] at hbuf
    refine ⟨hback.length, hfits, hback.null, fun hptr => ?_⟩
    obtain ⟨block, hblock⟩ := Option.ne_none_iff_exists'.mp hptr
    have hsome := (hback.block block hblock).1
    refine ⟨cs, stop, htrail, ?_, by rwa [hsize, hbytes] at hfits, hbuf⟩
    rintro rfl
    rw [hsize, List.length_nil, Nat.zero_mul] at hsome
    exact Nat.lt_irrefl 0 hsome

theorem entry_returns {buf : Buf} {i : Nat} (h : fatDirSize * (i + 1) ≤ buf.bytes.length) :
    ReturnsIn (FatM.entry platform buf i) w fun dir w' =>
      dir = entryAt buf.bytes i ∧ w'.live = w.live := by
  obtain ⟨s, hrun⟩ := entry_inside platform h w
  exact ⟨_, _, hrun, rfl, rfl⟩

/-- What is returned in every state, only the platform changing. -/
theorem reads_of_run {α : Type} {x : FatM σ α} {a : α}
    (h : ∀ w, ∃ s, x.run w = some (.ok a, { w with dev := s })) :
    priv.Reads x fun b => b = a := by
  refine Issues.quiet fun w result w' hrun => ?_
  obtain ⟨s, hrun'⟩ := h w
  rw [hrun'] at hrun
  cases hrun
  exact ⟨rfl, rfl⟩

theorem entry_issues {buf : Buf} {i : Nat} (h : fatDirSize * (i + 1) ≤ buf.bytes.length) :
    priv.Reads (FatM.entry platform buf i) fun dir => dir = entryAt buf.bytes i :=
  reads_of_run (entry_inside platform h)

theorem readRootDir_root (hdev : v.OnDisk platform.blkdev) (hne : v.rootDir ≠ [])
    (hroom : HasRoom platform (2 ^ 32 - 64)) (w : FatWorld σ) :
    ReturnsIn (readRootDir platform v.priv) w fun r w' =>
      r.1.bytes = v.rootDir ∧ r.2 = v.rootDir.length ∧
        ∃ block, r.1.ptr = some block ∧ Owns (some block) w.live w' := by
  have hlen := Volume.length_rootDir (v := v)
  have hle := Volume.length_rootDir_le (v := v)
  have hpos := List.length_pos_iff.mpr hne
  have hread : Yields (platform.blkdev.call ((v.priv.startLba + v.priv.rootDirSector) % 2 ^ 32)
      v.priv.nrRootDirSectors) fun answer =>
        fit (v.priv.bytesPerSector * v.priv.nrRootDirSectors) answer.2 = v.rootDir := by
    intro s
    obtain ⟨s', hrun⟩ := hdev _ _ s
    exact ⟨_, s', hrun, fit_eq_self hlen⟩
  rw [hlen]
  exact readRootDir_returns hroom (Nat.le_refl _) (by omega) (by omega) hread w

/-- A root directory without sectors is read into NULL. -/
theorem readRootDir_only (hdev : v.OnDisk platform.blkdev) :
    v.priv.Reads (readRootDir platform v.priv) fun r =>
      r.1.bytes = v.rootDir ∧ r.2 = v.rootDir.length ∧ (v.rootDir = [] → r.1.ptr = none) := by
  have hlen := Volume.length_rootDir (v := v)
  have halloc : v.priv.Reads
      (FatM.kalloc platform (v.priv.bytesPerSector * v.priv.nrRootDirSectors)) fun ptr =>
        v.rootDir = [] → ptr = none := by
    by_cases hempty : v.rootDir = []
    · rw [← hlen, hempty]
      exact kalloc_zero_issues.mono fun _ hnull _ => hnull
    · exact (kalloc_reads _).mono fun _ _ h => absurd h hempty
  have hroot : Issues FatWorld.reads v.priv.Accesses
      (platform.recorded.call ((v.priv.startLba + v.priv.rootDirSector) % 2 ^ 32)
        v.priv.nrRootDirSectors) fun answer => answer.2 = v.rootDir := by
    refine Issues.one fun w answer w' hrun => ?_
    obtain ⟨s, hread⟩ := hdev v.priv.rootAccess.1 v.priv.rootAccess.2 w.dev
    have hanswer := congrArg Prod.fst (Option.some.inj hread)
    cases hrun
    exact ⟨⟨_, rfl, .inl rfl⟩, congrArg Prod.snd hanswer⟩
  unfold readRootDir
  refine halloc.bind fun ptr hptr => (IssuesUntil.lift hroot).bind fun answer hanswer => .pure ?_
  exact ⟨by rw [hanswer]; exact fit_eq_self hlen, hlen.symm, hptr⟩

/-! ## fat_open -/

section Path

variable {path : List PathPart}

/-- The empty path. -/
theorem findDir_root (hpath : path.map PathPart.ptr = [0]) :
    findDir platform priv fuel path = (do
      let (cldata, _) ← readRootDir platform priv
      let ret ← FatM.kalloc platform fatDirSize
      let dir ← FatM.entry platform cldata 0
      FatM.kfree cldata.ptr
      return some (ret, dir)) := by
  unfold findDir
  simp only [if_pos hpath]

theorem Volume.fatDirSize_le_rootDir (hne : v.rootDir ≠ []) :
    fatDirSize * (0 + 1) ≤ v.rootDir.length := by
  have hpos := List.length_pos_iff.mpr hne
  rw [length_rootDir, bytesPerSector_priv] at hpos ⊢
  unfold fatDirSize
  omega

/-- The first entry is returned. -/
theorem findDir_root_returns (hdev : v.OnDisk platform.blkdev) (hne : v.rootDir ≠ [])
    (hroom : HasRoom platform (2 ^ 32 - 64)) (hpath : path.map PathPart.ptr = [0])
    (w : FatWorld σ) :
    ReturnsIn (findDir platform v.priv fuel path) w fun r w' =>
      ∃ block, r = some (some block, entryAt v.rootDir 0) ∧ Owns (some block) w.live w' := by
  have hentry := Volume.fatDirSize_le_rootDir hne
  rw [findDir_root hpath]
  refine (readRootDir_root hdev hne hroom w).bind fun r w₁ h₁ => ?_
  obtain ⟨hbytes, -, clblock, hptr, howns₁⟩ := h₁
  refine (kalloc_returns hroom (show 0 < fatDirSize by decide) (by decide) (by decide)).bind
    fun ret w₂ h₂ => ?_
  obtain ⟨-, block, rfl, hlive₂, -⟩ := h₂
  rw [← hbytes] at hentry
  refine (entry_returns hentry).bind fun dir w₃ h₃ => ?_
  obtain ⟨hdir, hlive₃⟩ := h₃
  have howns₃ : Owns (some clblock) (block :: w.live) w₃ := by
    rw [Owns, hlive₃, hlive₂]
    exact (howns₁.cons block).trans (List.Perm.swap clblock block w.live)
  rw [hptr]
  refine (kfree_returns howns₃).bind fun _ w₄ h₄ => .pure ?_
  exact ⟨block, by rw [hdir, hbytes], h₄.2⟩

/-- A call that returns has found a root directory that has entries. -/
theorem findDir_root_only (hdev : v.OnDisk platform.blkdev)
    (hpath : path.map PathPart.ptr = [0]) :
    v.priv.Reads (findDir platform v.priv fuel path) fun r =>
      v.rootDir ≠ [] ∧ ∃ ptr, r = some (ptr, entryAt v.rootDir 0) := by
  rw [findDir_root hpath]
  refine (readRootDir_only hdev).bind fun r ⟨hbytes, _, hnull⟩ => ?_
  refine (kalloc_reads _).bind fun ret _ => ?_
  by_cases hempty : v.rootDir = []
  · rw [hnull hempty]
    exact (entry_reads _ _).bind fun _ _ => kfree_null_issues.bind fun _ (h : False) => h.elim
  · have hentry := Volume.fatDirSize_le_rootDir hempty
    rw [← hbytes] at hentry
    refine (entry_issues hentry).bind fun dir hdir => (kfree_reads _).bind fun _ _ => .pure ?_
    exact ⟨hempty, ret, by rw [hdir, hbytes]⟩

/-- The handle of a file. -/
theorem fatOpen_file (hroom : HasRoom platform (2 ^ 32 - 64))
    (hfind : ReturnsIn (findDir platform priv fuel path) w fun r w' =>
      ∃ block, r = some (some block, dir) ∧ Owns (some block) others w')
    (hfile : (FatDir.ofEntry dir).attrs &&& (fatAttrDir ||| fatAttrVolid) = 0) :
    ReturnsIn (fatOpen platform priv fuel path) w fun handle _ =>
      ∃ h, handle = some h ∧ FatFile.ofDir (FatDir.ofEntry dir) none = some h.file := by
  unfold fatOpen
  refine hfind.bind fun r w₁ ⟨block, hr, howns⟩ => ?_
  subst hr
  refine (kalloc_returns hroom (show 0 < fatFileSize by decide) (by decide) (by decide)).bind
    fun file w₂ ⟨_, fileBlock, _, hlive, _⟩ => ?_
  have howns₂ : Owns (some block) (fileBlock :: others) w₂ := by
    rw [Owns, hlive]
    exact (howns.cons fileBlock).trans (List.Perm.swap block fileBlock others)
  rw [if_pos hfile]
  refine (kfree_returns howns₂).bind fun _ w₃ _ => .pure ?_
  rw [FatFile.ofDir, if_pos hfile]
  exact ⟨_, rfl, rfl⟩

/-- The handle of a directory or a volume, with its listing. -/
theorem fatOpen_listing (hroom : HasRoom platform (2 ^ 32 - 64))
    (hfind : ReturnsIn (findDir platform priv fuel path) w fun r w' =>
      ∃ block, r = some (some block, dir) ∧ Owns (some block) others w')
    (hlists : (FatDir.ofEntry dir).attrs &&& (fatAttrDir ||| fatAttrVolid) ≠ 0)
    (hread : ∀ w, ReturnsIn (readDir platform priv fuel (FatDir.ofEntry dir)
      ((FatDir.ofEntry dir).attrs &&& fatAttrVolid ≠ 0)) w fun r w' =>
        r.1.bytes = bytes ∧ r.2 = bytes.length ∧
          ∃ block, r.1.ptr = some block ∧ Owns (some block) w.live w')
    (hsize : bytes.length ≤ 2 ^ 32 - 64) :
    ReturnsIn (fatOpen platform priv fuel path) w fun handle _ =>
      ∃ h, handle = some h ∧
        FatFile.ofDir (FatDir.ofEntry dir) (some (listing (entriesOf bytes) ++ [0])) =
          some h.file := by
  unfold fatOpen
  refine hfind.bind fun r w₁ ⟨block, hr, howns⟩ => ?_
  subst hr
  refine (kalloc_returns hroom (show 0 < fatFileSize by decide) (by decide) (by decide)).bind
    fun file w₂ ⟨_, fileBlock, _, hlive₂, _⟩ => ?_
  rw [if_neg hlists]
  refine (getDirContents_returns hroom hsize (hread w₂)).bind fun listed w₃ h₃ => ?_
  obtain ⟨lblock, rfl, howns₃, -⟩ := h₃
  have hmem : block ∈ w₃.live := by
    refine howns₃.symm.subset (List.mem_cons_of_mem lblock ?_)
    rw [hlive₂]
    exact List.mem_cons_of_mem fileBlock howns.mem
  refine (kfree_returns (owns_of_mem hmem)).bind fun _ w₄ _ => .pure ?_
  rw [FatFile.ofDir, if_neg hlists]
  exact ⟨_, rfl, rfl⟩

end Path

end Open

/-! ## The text of a handle -/

section Root

/-- The listing of the root directory. -/
def Volume.rootText (v : Volume) : List UInt8 := bufStr (listing (entriesOf v.rootDir))

/-- The contents of an open file: the text of its listing, or the contents of the file
with its first cluster and its size. -/
def Volume.HasText (v : Volume) (file : FatFile) (text : List UInt8) : Prop :=
  match file.dirContents with
  | some contents => contents.take file.size = text
  | none => ∃ chain, v.RegularFile ⟨0, file.startCluster, file.size⟩ chain ∧
      v.contents ⟨0, file.startCluster, file.size⟩ chain = text

/-- The handle of an entry has the listing of the root directory: the entry is a volume
label, or what it is the entry of happens to have the same text. -/
inductive Volume.ListsRoot (v : Volume) (dir : FatDir) : Prop
  | label : dir.attrs &&& fatAttrVolid ≠ 0 → v.ListsRoot dir
  | directory {bytes : List UInt8} : dir.attrs &&& fatAttrVolid = 0 →
      dir.attrs &&& fatAttrDir ≠ 0 → v.HoldsFrom dir.clusterLow bytes →
      bufStr (listing (entriesOf bytes)) = v.rootText → v.ListsRoot dir
  | file {chain : List Nat} : v.RegularFile dir chain → v.contents dir chain = v.rootText →
      v.ListsRoot dir

/-- From `w`, opening the path returns a handle with the listing of the root directory. -/
def OpensRoot {σ : Type} (platform : Platform σ) (v : Volume) (fuel : Nat)
    (path : List PathPart) (w : FatWorld σ) : Prop :=
  ReturnsIn (fatOpen platform v.priv fuel path) w fun handle _ =>
    ∃ h, handle = some h ∧ v.HasText h.file v.rootText

variable {v : Volume} {dir : FatDir} {file : FatFile} {text : List UInt8}

theorem lists_iff (attrs : Nat) : attrs &&& (fatAttrDir ||| fatAttrVolid) ≠ 0 ↔
    attrs &&& fatAttrDir ≠ 0 ∨ attrs &&& fatAttrVolid ≠ 0 := by
  rw [Nat.and_or_distrib_left, Ne, Nat.or_eq_zero_iff, not_and_or]

/-- The text of a listing ends in front of its first NUL. -/
theorem hasText_listing {listing : List UInt8}
    (hlists : dir.attrs &&& (fatAttrDir ||| fatAttrVolid) ≠ 0)
    (h : FatFile.ofDir dir (some (listing ++ [0])) = some file) :
    v.HasText file text ↔ bufStr listing = text := by
  rw [FatFile.ofDir, if_neg hlists, Option.map_some, Option.some.injEq] at h
  subst h
  have hprefix : bufStr (listing ++ [0]) <+: listing ++ [0] := List.takeWhile_prefix _
  change (listing ++ [0]).take (bufStr (listing ++ [0])).length = text ↔ _
  rw [← List.prefix_iff_eq_take.mp hprefix, bufStr_append_zero]

theorem hasText_file (hfile : dir.attrs &&& (fatAttrDir ||| fatAttrVolid) = 0)
    (h : FatFile.ofDir dir none = some file) :
    v.HasText file text ↔ ∃ chain, v.RegularFile dir chain ∧ v.contents dir chain = text := by
  rw [FatFile.ofDir, if_pos hfile, Option.some.injEq] at h
  subst h
  change (∃ chain, v.RegularFile ⟨0, dir.clusterLow, dir.size⟩ chain ∧ _) ↔ _
  refine exists_congr fun chain => and_congr ⟨fun h => ?_, fun h => ?_⟩ Iff.rfl
  · exact ⟨hfile, h.start, h.valid, h.covers, h.size_lt⟩
  · exact ⟨Nat.zero_and _, h.start, h.valid, h.covers, h.size_lt⟩

end Root

/-! ## Opening the root directory -/

section OpenRoot

variable {σ : Type} {platform : Platform σ} {v : Volume} {fuel : Nat} {path : List PathPart}
  {w : FatWorld σ}

/-- A call that returns has found a root directory that has entries, and if the first is
that of another directory, contents of that. -/
theorem fatOpen_root_only (hdev : v.OnDisk platform.blkdev)
    (hpath : path.map PathPart.ptr = [0]) :
    v.priv.Reads (fatOpen platform v.priv fuel path) fun _ =>
      v.rootDir ≠ [] ∧
        ((FatDir.ofEntry (entryAt v.rootDir 0)).attrs &&& (fatAttrDir ||| fatAttrVolid) ≠ 0 →
          (FatDir.ofEntry (entryAt v.rootDir 0)).attrs &&& fatAttrVolid = 0 →
          ∃ bytes, v.HoldsFrom (FatDir.ofEntry (entryAt v.rootDir 0)).clusterLow bytes) := by
  unfold fatOpen
  refine (findDir_root_only hdev hpath).bind fun r ⟨hne, ptr, hr⟩ => ?_
  subst hr
  refine (kalloc_reads _).bind fun file _ => ?_
  by_cases hlists : (FatDir.ofEntry (entryAt v.rootDir 0)).attrs &&&
      (fatAttrDir ||| fatAttrVolid) = 0
  · rw [if_pos hlists]
    exact (kfree_reads _).bind fun _ _ => .pure ⟨hne, fun h => absurd hlists h⟩
  rw [if_neg hlists]
  by_cases hlabel : (FatDir.ofEntry (entryAt v.rootDir 0)).attrs &&& fatAttrVolid = 0
  · have hread : v.priv.Reads (readDir platform v.priv fuel (FatDir.ofEntry (entryAt v.rootDir 0))
        ((FatDir.ofEntry (entryAt v.rootDir 0)).attrs &&& fatAttrVolid ≠ 0)) fun r =>
          r.2 < 2 ^ 32 ∧ (r.1.ptr ≠ none →
            ∃ bytes, v.HoldsFrom (FatDir.ofEntry (entryAt v.rootDir 0)).clusterLow bytes) := by
      unfold readDir
      rw [if_neg (not_not.mpr hlabel)]
      exact (readClusterChain_holdsOnly hdev (wordOf_lt _ _) 0).mono
        fun r ⟨_, hlt, _, hholds⟩ => ⟨hlt, fun hptr => ⟨_, hholds hptr⟩⟩
    refine (getDirContents_only hread fun r h => h.1).bind fun listed h => ?_
    obtain ⟨⟨l, rfl⟩, r, ⟨-, hholds⟩, hptr⟩ := h
    exact (kfree_reads _).bind fun _ _ => .pure ⟨hne, fun _ _ => hholds hptr⟩
  · refine (getDirContents_reads (wordOf_lt _ _) _).bind fun listed _ => ?_
    cases listed with
    | none =>
      exact (kfree_reads _).bind fun _ _ => (kfree_reads _).bind fun _ _ =>
        .pure ⟨hne, fun _ h => absurd h hlabel⟩
    | some l => exact (kfree_reads _).bind fun _ _ => .pure ⟨hne, fun _ h => absurd h hlabel⟩

/-- If the first entry is a volume label, the root directory is listed. -/
theorem fatOpen_label (hdev : v.OnDisk platform.blkdev) (hroom : HasRoom platform (2 ^ 32 - 64))
    (hpath : path.map PathPart.ptr = [0]) (hne : v.rootDir ≠ [])
    (hlabel : (FatDir.ofEntry (entryAt v.rootDir 0)).attrs &&& fatAttrVolid ≠ 0) :
    ReturnsIn (fatOpen platform v.priv fuel path) w fun handle _ =>
      ∃ h, handle = some h ∧ FatFile.ofDir (FatDir.ofEntry (entryAt v.rootDir 0))
        (some (listing (entriesOf v.rootDir) ++ [0])) = some h.file := by
  have hle := Volume.length_rootDir_le (v := v)
  refine fatOpen_listing hroom (findDir_root_returns hdev hne hroom hpath w)
    ((lists_iff _).mpr (.inr hlabel)) (fun w' => ?_) (by omega)
  unfold readDir
  rw [if_pos hlabel]
  exact readRootDir_root hdev hne hroom w'

/-- If it is another directory, that is listed. -/
theorem fatOpen_directory {bytes : List UInt8} (hdev : v.OnDisk platform.blkdev)
    (hroom : HasRoom platform (2 ^ 32 - 64)) (hfuel : 2 ^ 16 ≤ fuel)
    (hpath : path.map PathPart.ptr = [0]) (hne : v.rootDir ≠ [])
    (hlists : (FatDir.ofEntry (entryAt v.rootDir 0)).attrs &&& (fatAttrDir ||| fatAttrVolid) ≠ 0)
    (hlabel : (FatDir.ofEntry (entryAt v.rootDir 0)).attrs &&& fatAttrVolid = 0)
    (hholds : v.HoldsFrom (FatDir.ofEntry (entryAt v.rootDir 0)).clusterLow bytes) :
    ReturnsIn (fatOpen platform v.priv fuel path) w fun handle _ =>
      ∃ h, handle = some h ∧ FatFile.ofDir (FatDir.ofEntry (entryAt v.rootDir 0))
        (some (listing (entriesOf bytes) ++ [0])) = some h.file := by
  refine fatOpen_listing hroom (findDir_root_returns hdev hne hroom hpath w) hlists (fun w' => ?_)
    hholds.length_le
  unfold readDir
  rw [if_neg (not_not.mpr hlabel)]
  exact readClusterChain_holds hdev hholds hroom hfuel 0 w'

/-- Where a call returns one handle, its contents decide. -/
theorem opensRoot_iff {P : Prop} {listing : Option (List UInt8)}
    (hopen : ReturnsIn (fatOpen platform v.priv fuel path) w fun handle _ =>
      ∃ h, handle = some h ∧
        FatFile.ofDir (FatDir.ofEntry (entryAt v.rootDir 0)) listing = some h.file)
    (htext : ∀ file, FatFile.ofDir (FatDir.ofEntry (entryAt v.rootDir 0)) listing = some file →
      (v.HasText file v.rootText ↔ P)) :
    OpensRoot platform v fuel path w ↔ P := by
  obtain ⟨handle, w', hrun, h, rfl, hfile⟩ := hopen
  rw [← htext h.file hfile]
  constructor
  · rintro ⟨handle, w'', hrun', h', rfl, htext'⟩
    rw [hrun] at hrun'
    cases hrun'
    exact htext'
  · exact fun htext' => ⟨some h, w', hrun, h, rfl, htext'⟩

/-- Opening the empty path returns the listing of the root directory exactly if the root
directory has entries and the first is a volume label, or something that happens to have
that text. -/
theorem fatOpen_opensRoot_iff (hdev : v.OnDisk platform.blkdev)
    (hroom : HasRoom platform (2 ^ 32 - 64)) (hfuel : 2 ^ 16 ≤ fuel)
    (hpath : path.map PathPart.ptr = [0]) :
    OpensRoot platform v fuel path w ↔
      v.rootDir ≠ [] ∧ v.ListsRoot (FatDir.ofEntry (entryAt v.rootDir 0)) := by
  by_cases hne : v.rootDir = []
  · refine ⟨fun ⟨handle, w', hrun, _⟩ => ?_, fun h => absurd hne h.1⟩
    exact absurd hne ((fatOpen_root_only hdev hpath) w _ w' hrun).2.1
  rw [and_iff_right hne]
  by_cases hfile : (FatDir.ofEntry (entryAt v.rootDir 0)).attrs &&&
      (fatAttrDir ||| fatAttrVolid) = 0
  · rw [opensRoot_iff (fatOpen_file hroom (findDir_root_returns hdev hne hroom hpath w) hfile)
      fun file => hasText_file hfile]
    constructor
    · rintro ⟨chain, hregular, htext⟩
      exact .file hregular htext
    · rintro (hlabel | ⟨_, hdir, _, _⟩ | ⟨hregular, htext⟩)
      · exact absurd hfile ((lists_iff _).mpr (.inr hlabel))
      · exact absurd hfile ((lists_iff _).mpr (.inl hdir))
      · exact ⟨_, hregular, htext⟩
  by_cases hlabel : (FatDir.ofEntry (entryAt v.rootDir 0)).attrs &&& fatAttrVolid = 0
  · constructor
    · intro hopens
      obtain ⟨handle, w', hrun, -⟩ := id hopens
      obtain ⟨bytes, hholds⟩ := ((fatOpen_root_only hdev hpath) w _ w' hrun).2.2 hfile hlabel
      have htext := (opensRoot_iff (fatOpen_directory hdev hroom hfuel hpath hne hfile hlabel
        hholds) fun file => hasText_listing hfile).mp hopens
      exact .directory hlabel (((lists_iff _).mp hfile).resolve_right (not_not.mpr hlabel)) hholds
        htext
    · rintro (hlabel' | ⟨_, _, hholds, htext⟩ | ⟨hregular, _⟩)
      · exact absurd hlabel hlabel'
      · exact (opensRoot_iff (fatOpen_directory hdev hroom hfuel hpath hne hfile hlabel hholds)
          fun file => hasText_listing hfile).mpr htext
      · exact absurd hregular.regular hfile
  · have hopens : OpensRoot platform v fuel path w :=
      (opensRoot_iff (fatOpen_label hdev hroom hpath hne hlabel)
        fun file => hasText_listing hfile).mpr rfl
    exact ⟨fun _ => .label hlabel, fun _ => hopens⟩

end OpenRoot

/-! ## A root directory without a label -/

/-- The volume of three clusters, with a root directory that holds the empty file `A`. -/
def noLabel : Volume where
  sector
    | 0 => List.replicate 11 0 ++ [0, 2, 1, 1, 0, 1, 16, 0, 6, 0, 0xf8, 1, 0] ++
        List.replicate 488 0
    | 2 => emptyEntry ([65] ++ List.replicate 10 32) ++ List.replicate 480 0
    | lba => List.replicate 512 (UInt8.ofNat lba)
  startLba := 0
  numSectors := 6
  sector_length lba := by
    split
    · exact length_smallBoot
    · decide +kernel
    · exact List.length_replicate
  partition_fits := smallPartition_fits
  bytesPerSector_eq := by decide +kernel
  sectorsPerCluster_pos := by decide +kernel
  nrFats_pos := by decide +kernel
  data_fits := by decide +kernel
  fat_covers := by decide +kernel

/-- The empty path on this volume. -/
theorem fatOpen_opensRoot_noLabel :
    OpensRoot noLabel.platform noLabel (2 ^ 16) [{ ptr := 0, str := [] }] ⟨(), [], []⟩ ↔
      noLabel.rootDir ≠ [] ∧ noLabel.ListsRoot (FatDir.ofEntry (entryAt noLabel.rootDir 0)) :=
  fatOpen_opensRoot_iff noLabel.onDisk_device (noLabel.hasRoom_platform (Nat.le_refl _))
    (Nat.le_refl _) rfl

/-- It is opened as the file `A`. -/
theorem fatOpen_root_file :
    ¬∀ (σ : Type) (platform : Platform σ) (v : Volume) (path : List PathPart) (w : FatWorld σ),
      v.OnDisk platform.blkdev → HasRoom platform (2 ^ 32 - 64) →
      path.map PathPart.ptr = [0] → ∃ fuel, OpensRoot platform v fuel path w := by
  intro h
  have hdev : noLabel.OnDisk noLabel.platform.blkdev := noLabel.onDisk_device
  have hroom := noLabel.hasRoom_platform (Nat.le_refl (2 ^ 32 - 64))
  obtain ⟨fuel, hopens⟩ := h Unit noLabel.platform noLabel [{ ptr := 0, str := [] }]
    ⟨(), [], []⟩ hdev hroom rfl
  have hfile : (FatDir.ofEntry (entryAt noLabel.rootDir 0)).attrs &&&
      (fatAttrDir ||| fatAttrVolid) = 0 := by decide +kernel
  have hsize : (FatDir.ofEntry (entryAt noLabel.rootDir 0)).size = 0 := by decide +kernel
  have hfind : ReturnsIn (findDir noLabel.platform noLabel.priv fuel
      [{ ptr := 0, str := [] }]) ⟨(), [], []⟩ _ :=
    findDir_root_returns hdev (by decide +kernel) hroom rfl _
  obtain ⟨chain, -, htext⟩ := (opensRoot_iff (fatOpen_file hroom hfind hfile)
    fun file => hasText_file hfile).mp hopens
  rw [Volume.contents, hsize, List.take_zero] at htext
  exact absurd htext (by decide +kernel)

end Microboot.Kern.Fs
