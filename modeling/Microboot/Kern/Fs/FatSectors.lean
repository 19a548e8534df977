/-
  Kern/Fs/FatSectors.lean --- the sectors that the FAT16 driver reads.

  The driver checks no cluster number that it finds on the disk.  What it reads is
  therefore bounded in two steps.  Whatever is on the disk, every read of
  `fat_open` and `fat_read` is that of the root directory, of the data of a 16-bit
  cluster number, or of the entry of one (`Accesses`): cluster numbers come from
  16-bit fields.  And the accesses to a cluster that the partition has are inside
  the partition (`Inside`): their sectors are computed without wrapping around.
-/
import Microboot.Kern.Fs.FatHeap

set_option autoImplicit false

namespace Microboot.Kern.Fs

open Microboot.Foundation

/-! ## Accesses -/

namespace FatPriv

variable (priv : FatPriv)

/-- The read of the root directory: the first sector, and the number of sectors. -/
def rootAccess : Nat × Nat :=
  ((priv.startLba + priv.rootDirSector) % 2 ^ 32, priv.nrRootDirSectors)

/-- The read of the data of a cluster. -/
def dataAccess (c : Nat) : Nat × Nat :=
  ((priv.startLba + sectorOfCluster priv c) % 2 ^ 32, priv.bpb.sectorsPerCluster)

/-- The read of the entry of a cluster in the file allocation table. -/
def fatAccess (c : Nat) : Nat × Nat :=
  ((priv.startLba + (priv.fatStartSector + c * 2 % 2 ^ 32 / priv.bytesPerSector)) % 2 ^ 32, 1)

/-- The read belongs to a cluster number. -/
def ClusterAccess (c : Nat) (r : Nat × Nat) : Prop := r = priv.dataAccess c ∨ r = priv.fatAccess c

/-- The reads that the driver makes. -/
def Accesses (r : Nat × Nat) : Prop :=
  r = priv.rootAccess ∨ ∃ c < 2 ^ 16, priv.ClusterAccess c r

/-- The read addresses only sectors of the partition. -/
def Inside (r : Nat × Nat) : Prop :=
  r.2 = 0 ∨ (priv.startLba ≤ r.1 ∧ r.1 + r.2 ≤ priv.startLba + priv.numSectors)

instance (r : Nat × Nat) : Decidable (priv.Inside r) := inferInstanceAs (Decidable (_ ∨ _))

end FatPriv

/-! ## Accesses inside the partition -/

/-- The layout of a mounted partition. -/
structure FatPriv.Mounted (priv : FatPriv) (startLba numSectors : Nat) : Prop where
  startLba_eq : priv.startLba = startLba
  numSectors_eq : priv.numSectors = numSectors
  bytesPerSector_eq : priv.bytesPerSector = 512
  fatStart_le : priv.fatStartSector ≤ priv.dataStartSector
  rootDir_end : priv.rootDirSector + priv.nrRootDirSectors = priv.dataStartSector
  sectorsPerCluster_lt : priv.bpb.sectorsPerCluster < 2 ^ 8
  dataStart_lt : priv.dataStartSector < 2 ^ 25

section Inside

variable {σ : Type} {blkdev : BlkDev σ} {startLba numSectors c : Nat} {priv : FatPriv}
  {r : Nat × Nat} {s s' : σ}

theorem fatCreate_mounted (h : fatCreate blkdev startLba numSectors s = some (.ok priv, s')) :
    priv.Mounted startLba numSectors := by
  change (if (FatBpb.ofSector (blkdev.read startLba 1 s).1.2).bytesPerSector ≠ 512 then
      pure (.error "Bad FAT sector size")
    else pure (.ok (FatPriv.ofBpb startLba numSectors
      (FatBpb.ofSector (blkdev.read startLba 1 s).1.2))) : DevM σ (Except String FatPriv))
    (blkdev.read startLba 1 s).2 = some (.ok priv, s') at h
  split at h
  next => cases h
  next hbytes =>
    cases h
    have hbytes := not_not.mp hbytes
    generalize (blkdev.read startLba 1 s).1.2 = mbr at hbytes
    refine ⟨rfl, rfl, hbytes, Nat.le_trans (Nat.le_add_right _ _) (Nat.le_add_right _ _), rfl,
      byteOf_lt mbr 13, ?_⟩
    -- the fields of the parameter block have 8 and 16 bits
    have hreserved := wordOf_lt mbr 14
    have hfats : byteOf mbr 16 * wordOf mbr 22 ≤ 2 ^ 8 * 2 ^ 16 :=
      Nat.mul_le_mul (Nat.le_of_lt (byteOf_lt mbr 16)) (Nat.le_of_lt (wordOf_lt mbr 22))
    have hroot := wordOf_lt mbr 17
    change wordOf mbr 14 + byteOf mbr 16 * wordOf mbr 22 +
      (wordOf mbr 17 * 32 + (wordOf mbr 11 - 1)) / wordOf mbr 11 < 2 ^ 25
    rw [show wordOf mbr 11 = 512 from hbytes]
    omega

/-- The root directory ends where the data starts. -/
theorem rootAccess_inside (hmount : priv.Mounted startLba numSectors)
    (hpartition : startLba + numSectors ≤ 2 ^ 32)
    (hlayout : priv.dataStartSector ≤ numSectors) : priv.Inside priv.rootAccess := by
  obtain ⟨rfl, rfl, -, -, hend, -, -⟩ := hmount
  unfold FatPriv.Inside FatPriv.rootAccess
  dsimp only
  by_cases hempty : priv.nrRootDirSectors = 0
  · exact Or.inl hempty
  · right
    rw [Nat.mod_eq_of_lt (by omega)]
    omega

/-- A data cluster and its entry are read without wrapping around. -/
theorem clusterAccess_inside (hmount : priv.Mounted startLba numSectors)
    (hpartition : startLba + numSectors ≤ 2 ^ 32) (hc : c < 2 ^ 16) (h : priv.HasCluster c)
    (hr : priv.ClusterAccess c r) : priv.Inside r := by
  obtain ⟨rfl, rfl, hbytes, hfat, -, -, -⟩ := hmount
  right
  cases hr with
  | inl hdata =>
    have hsectors := h.sectors_le
    have hpos := h.sectorsPerCluster_pos
    have hsector := h.sectorOfCluster_eq (Nat.le_trans (Nat.le_add_left _ _) hpartition)
    rw [hdata, FatPriv.dataAccess, hsector, Nat.mod_eq_of_lt (by omega)]
    dsimp only
    omega
  | inr hentry =>
    have hlt := h.fat_lt hfat
    rw [hentry, FatPriv.fatAccess, hbytes, Nat.mod_eq_of_lt (by omega : c * 2 < 2 ^ 32),
      Nat.mod_eq_of_lt (by omega)]
    dsimp only
    omega

/-- Among the numbers from 2 on, those of the partition's clusters are the ones with
data inside of it: the sector of a 16-bit number does not wrap around. -/
theorem dataAccess_inside_iff (hmount : priv.Mounted startLba numSectors)
    (hpartition : startLba + numSectors ≤ 2 ^ 32) (hpos : 0 < priv.bpb.sectorsPerCluster)
    (htwo : 2 ≤ c) (hc : c < 2 ^ 16) :
    priv.Inside (priv.dataAccess c) ↔ priv.HasCluster c := by
  refine ⟨fun hinside => ⟨htwo, ?_⟩,
    fun h => clusterAccess_inside hmount hpartition hc h (Or.inl rfl)⟩
  obtain ⟨rfl, rfl, -, -, -, hclus, hdata⟩ := hmount
  have hsize : (c - 2) * priv.bpb.sectorsPerCluster ≤ 2 ^ 16 * 2 ^ 8 :=
    Nat.mul_le_mul (by omega) (Nat.le_of_lt hclus)
  have hsector : sectorOfCluster priv c = _ := sectorOfCluster_of_lt htwo (by omega)
  have hend : (c - 2 + 1) * priv.bpb.sectorsPerCluster ≤
      priv.numSectors - priv.dataStartSector := by
    unfold FatPriv.Inside FatPriv.dataAccess at hinside
    rw [hsector] at hinside
    dsimp only at hinside
    rw [Nat.add_mul, Nat.one_mul]
    omega
  have hcount := (Nat.le_div_iff_mul_le hpos).mpr hend
  unfold FatPriv.clusterCount
  omega

end Inside

/-! ## What the driver reads -/

section Reads

variable {σ α : Type} {platform : Platform σ} {priv : FatPriv} {fuel c : Nat}

/-- The reads of `x` are accesses of the driver. -/
abbrev FatPriv.Reads (priv : FatPriv) (x : FatM σ α) (Q : α → Prop) : Prop :=
  IssuesUntil FatWorld.reads priv.Accesses x Q

theorem readCluster_issues (hc : c < 2 ^ 16) :
    Issues FatWorld.reads priv.Accesses (readCluster platform.recorded priv c) fun _ => True := by
  refine Issues.one fun w a w' hw => ?_
  cases hw
  exact ⟨⟨_, rfl, Or.inr ⟨c, hc, Or.inl rfl⟩⟩, trivial⟩

/-- An entry of the file allocation table has 16 bits. -/
theorem nextCluster_issues (hc : c < 2 ^ 16) :
    Issues FatWorld.reads priv.Accesses (nextCluster platform.recorded priv c)
      fun next => next < 2 ^ 16 := by
  refine Issues.one fun w a w' hw => ?_
  cases hw
  exact ⟨⟨_, rfl, Or.inr ⟨c, hc, Or.inr rfl⟩⟩, wordOf_lt _ _⟩

/-! ## The heap and the memory -/

theorem kalloc_reads (size : Nat) : priv.Reads (FatM.kalloc platform size) fun _ => True :=
  (kalloc_silent size).issues

theorem kfree_reads (ptr : Option Region) :
    priv.Reads (FatM.kfree ptr : FatM σ Unit) fun _ => True :=
  (kfree_silent ptr).issues

theorem store_reads (ptr : Option Region) (off len : Nat) :
    priv.Reads (FatM.store ptr off len : FatM σ Unit) fun _ => True :=
  (store_silent ptr off len).issues

theorem krealloc_reads (ptr : Option Region) (newSize : Nat) :
    priv.Reads (FatM.krealloc platform ptr newSize) fun _ => True :=
  (krealloc_silent platform ptr newSize).issues

theorem entry_reads (buf : Buf) (i : Nat) :
    priv.Reads (FatM.entry platform buf i) fun _ => True :=
  (entry_silent buf i).issues

/-! ## Directories -/

/-- The cluster numbers that the loop follows have 16 bits, as the entries of the
file allocation table have. -/
theorem readClusterChainLoop_reads {asize : Nat} {data : Buf} (hc : c < 2 ^ 16) :
    priv.Reads (readClusterChainLoop platform priv fuel c asize data) fun _ => True := by
  induction fuel generalizing c asize data with
  | zero => exact .stop _
  | succ fuel ih =>
    unfold readClusterChainLoop
    dsimp only
    split
    · refine (krealloc_reads _ _).bind fun ndata _ => ?_
      cases ndata with
      | none => exact (kfree_reads _).bind fun _ _ => .pure trivial
      | some ndata =>
        refine (IssuesUntil.lift (readCluster_issues hc)).bind fun _ _ => ?_
        refine (store_reads _ _ _).bind fun _ _ => ?_
        exact (IssuesUntil.lift (nextCluster_issues hc)).bind fun next hnext => ih hnext
    · exact .pure trivial

theorem readClusterChain_reads {size : Nat} (hc : c < 2 ^ 16) :
    priv.Reads (readClusterChain platform priv fuel c size) fun _ => True := by
  refine (kalloc_reads 0).bind fun data _ => ?_
  refine (readClusterChainLoop_reads hc).bind fun result _ => ?_
  cases result with
  | none => exact .pure trivial
  | some result => exact .pure trivial

theorem readRootDir_reads : priv.Reads (readRootDir platform priv) fun _ => True := by
  have hroot : Issues FatWorld.reads priv.Accesses
      (platform.recorded.call ((priv.startLba + priv.rootDirSector) % 2 ^ 32)
        priv.nrRootDirSectors) fun _ => True := by
    refine Issues.one fun w a w' hw => ?_
    cases hw
    exact ⟨⟨_, rfl, Or.inl rfl⟩, trivial⟩
  refine (kalloc_reads _).bind fun cldata _ => ?_
  exact (IssuesUntil.lift hroot).bind fun _ _ => .pure trivial

theorem findDirEnt_reads (name : List UInt8) (buf : Buf) (bufsz : Nat) :
    priv.Reads (findDirEnt platform name buf bufsz) fun _ => True := by
  have hloop : ∀ fuel i : Nat,
      priv.Reads (findDirEntLoop platform name buf bufsz fuel i) fun _ => True := by
    intro fuel
    induction fuel with
    | zero => exact fun i => .stop _
    | succ fuel ih =>
      intro i
      refine (entry_reads buf i).bind fun dir _ => ?_
      split
      · exact .pure trivial
      have hname : priv.Reads (liftM (nameBuf name) : FatM σ (List UInt8)) fun _ => True := by
        cases nameBuf name with
        | ok namebuf => exact .pure trivial
        | error stopped => exact .stop _
      refine hname.bind fun namebuf _ => ?_
      dsimp only
      split
      · exact .pure trivial
      split
      · exact .pure trivial
      · exact ih (i + 1)
  exact hloop _ 0

/-- The first cluster of an entry is a 16-bit field. -/
theorem findDirLoop_reads {cldata : Buf} {clsize : Nat} {path : List PathPart} :
    priv.Reads (findDirLoop platform priv fuel cldata clsize path) fun _ => True := by
  induction path generalizing cldata clsize with
  | nil => exact .stop _
  | cons part parts ih =>
    have hmissing : priv.Reads (do FatM.kfree cldata.ptr; return none :
        FatM σ (Option (Option Region × List UInt8))) fun _ => True :=
      (kfree_reads _).bind fun _ _ => .pure trivial
    cases parts with
    | nil =>
      refine (findDirEnt_reads _ _ _).bind fun found _ => ?_
      cases found with
      | none => exact hmissing
      | some i =>
        refine (kalloc_reads _).bind fun ret _ => ?_
        refine (entry_reads _ _).bind fun dir _ => ?_
        exact (kfree_reads _).bind fun _ _ => .pure trivial
    | cons next parts =>
      refine (findDirEnt_reads _ _ _).bind fun found _ => ?_
      cases found with
      | none => exact hmissing
      | some i =>
        refine (kfree_reads _).bind fun _ _ => ?_
        refine (entry_reads _ _).bind fun dir _ => ?_
        exact (readClusterChain_reads (wordOf_lt _ _)).bind fun _ _ => ih

theorem findDir_reads (path : List PathPart) :
    priv.Reads (findDir platform priv fuel path) fun _ => True := by
  refine readRootDir_reads.bind fun root _ => ?_
  dsimp only
  split
  · refine (kalloc_reads _).bind fun ret _ => ?_
    refine (entry_reads _ _).bind fun dir _ => ?_
    exact (kfree_reads _).bind fun _ _ => .pure trivial
  · exact findDirLoop_reads

theorem listEntries_reads {dirs : List (List UInt8)} {resbuf : Option Region}
    {out : List UInt8} :
    priv.Reads (listEntries platform dirs resbuf out) fun _ => True := by
  induction dirs generalizing resbuf out with
  | nil => exact .pure trivial
  | cons dir dirs ih =>
    unfold listEntries
    split
    · exact .pure trivial
    split
    · exact ih
    · refine (krealloc_reads _ _).bind fun nresbuf _ => ?_
      cases nresbuf with
      | none => exact (kfree_reads _).bind fun _ _ => .pure trivial
      | some nresbuf => exact (store_reads _ _ _).bind fun _ _ => ih

theorem getDirContents_reads {pdir : FatDir} (hdir : pdir.clusterLow < 2 ^ 16)
    (isRoot : Prop) [Decidable isRoot] :
    priv.Reads (getDirContents platform priv fuel pdir isRoot) fun _ => True := by
  have hread : priv.Reads (readDir platform priv fuel pdir isRoot) fun _ => True := by
    unfold readDir
    split
    · exact readRootDir_reads
    · exact readClusterChain_reads hdir
  refine hread.bind fun cldata _ => ?_
  refine (kalloc_reads _).bind fun resbuf _ => ?_
  refine listEntries_reads.bind fun listed _ => ?_
  cases listed with
  | none => exact .pure trivial
  | some listed =>
    refine (krealloc_reads _ _).bind fun nresbuf _ => ?_
    cases nresbuf with
    | none => exact (kfree_reads _).bind fun _ _ => .pure trivial
    | some nresbuf =>
      refine (krealloc_reads _ _).bind fun resbuf _ => ?_
      refine (store_reads _ _ _).bind fun _ _ => ?_
      exact (kfree_reads _).bind fun _ _ => .pure trivial

/-! ## Files -/

/-- A handle is at a 16-bit cluster number. -/
def FatFile.At16 (file : FatFile) : Prop := file.currentCluster < 2 ^ 16

theorem ofDir_at16 {dir : FatDir} (hdir : dir.clusterLow < 2 ^ 16)
    (listing : Option (List UInt8)) : ∀ file ∈ FatFile.ofDir dir listing, file.At16 := by
  intro file hfile
  unfold FatFile.ofDir at hfile
  split at hfile
  · cases hfile
    exact hdir
  · obtain ⟨contents, -, rfl⟩ := Option.map_eq_some_iff.mp hfile
    have hend : fatClusterEnd < 2 ^ 16 := by decide
    exact hend

theorem fatOpen_reads (path : List PathPart) :
    priv.Reads (fatOpen platform priv fuel path) fun handle =>
      ∀ h ∈ handle, h.file.At16 := by
  refine (findDir_reads path).bind fun found _ => ?_
  cases found with
  | none => exact .pure fun h hh => by cases hh
  | some found =>
    have hdir : (FatDir.ofEntry found.2).clusterLow < 2 ^ 16 := wordOf_lt _ _
    have hhandle : ∀ (file : Option Region) (listing : Option Region)
        (contents : Option (List UInt8)), ∀ h ∈ (FatFile.ofDir (FatDir.ofEntry found.2) contents).map
          fun f => FatHandle.mk file listing f, h.file.At16 := by
      intro file listing contents h hh
      obtain ⟨f, hf, rfl⟩ := Option.map_eq_some_iff.mp hh
      exact ofDir_at16 hdir contents f hf
    refine (kalloc_reads _).bind fun file _ => ?_
    split
    · exact (kfree_reads _).bind fun _ _ => .pure (hhandle _ _ _)
    · refine (getDirContents_reads hdir _).bind fun listed _ => ?_
      cases listed with
      | none =>
        refine (kfree_reads _).bind fun _ _ => ?_
        exact (kfree_reads _).bind fun _ _ => .pure fun h hh => by cases hh
      | some listed => exact (kfree_reads _).bind fun _ _ => .pure (hhandle _ _ _)

theorem readFullClusters_issues {remaining : Nat} {out : List UInt8} (hc : c < 2 ^ 16) :
    Issues FatWorld.reads priv.Accesses
      (readFullClusters platform.recorded priv fuel c remaining out)
      fun walk => walk.clus < 2 ^ 16 := by
  induction fuel generalizing c remaining out with
  | zero =>
    intro w a w' hw
    cases hw
  | succ fuel ih =>
    unfold readFullClusters
    split
    · split
      · exact .pure hc
      · refine (readCluster_issues hc).bind fun _ _ => ?_
        exact (nextCluster_issues hc).bind fun next hnext => ih hnext
    · exact .pure hc

theorem readOnward_issues {file : FatFile} {size fullSize remaining : Nat} {out : List UInt8}
    (hc : c < 2 ^ 16) :
    Issues FatWorld.reads priv.Accesses
      (readOnward platform.recorded priv file size fullSize c remaining out)
      fun r => r.file.At16 := by
  refine (readFullClusters_issues hc).bind fun walk hwalk => ?_
  split
  · exact .pure hwalk
  · dsimp only
    split
    · refine (readCluster_issues hwalk).bind fun _ _ => ?_
      exact .pure hwalk
    · exact .pure hwalk

theorem fatRead_issues {file : FatFile} {size : Nat} (hfile : file.At16) :
    Issues FatWorld.reads priv.Accesses (fatRead platform.recorded priv file size)
      fun r => r.file.At16 := by
  unfold fatRead
  dsimp only
  split
  · exact .pure hfile
  split
  · refine .pure ?_
    unfold readContents
    split
    · exact hfile
    · exact hfile
  refine (readCluster_issues hfile).bind fun answer _ => ?_
  split
  · exact .pure hfile
  split
  · intro w a w' hw
    cases hw
  split
  · exact (nextCluster_issues hfile).bind fun next hnext => readOnward_issues hnext
  · exact readOnward_issues hfile

/-! ## Calls -/

theorem readCluster_total (blkdev : BlkDev σ) : Total (readCluster blkdev priv c) :=
  fun _ => ⟨_, _, rfl⟩

theorem nextCluster_total (blkdev : BlkDev σ) : Total (nextCluster blkdev priv c) :=
  fun _ => ⟨_, _, rfl⟩

theorem readFullClusters_total (blkdev : BlkDev σ) {remaining : Nat} {out : List UInt8}
    (hpos : 0 < priv.bytesPerCluster) (hfuel : remaining < fuel) :
    Total (readFullClusters blkdev priv fuel c remaining out) := by
  induction fuel generalizing c remaining out with
  | zero => omega
  | succ fuel ih =>
    unfold readFullClusters
    split
    · split
      · exact .pure _
      · refine (readCluster_total blkdev).bind fun _ => ?_
        exact (nextCluster_total blkdev).bind fun next => ih (by omega)
    · exact .pure _

/-- `fat_read` returns, unless a cluster has no bytes. -/
theorem fatRead_total (blkdev : BlkDev σ) {file : FatFile} {size : Nat}
    (hpos : 0 < priv.bytesPerCluster) : Total (fatRead blkdev priv file size) := by
  have honward : ∀ fullSize clus remaining out,
      Total (readOnward blkdev priv file size fullSize clus remaining out) := by
    intro fullSize clus remaining out
    refine (readFullClusters_total blkdev hpos (Nat.lt_succ_self _)).bind fun walk => ?_
    split
    · exact .pure _
    · dsimp only
      split
      · exact (readCluster_total blkdev).bind fun _ => .pure _
      · exact .pure _
  unfold fatRead
  dsimp only
  split
  · exact .pure _
  split
  · exact .pure _
  refine (readCluster_total blkdev).bind fun answer => ?_
  split
  · exact .pure _
  rw [if_neg (Nat.pos_iff_ne_zero.mp hpos)]
  split
  · exact (nextCluster_total blkdev).bind fun next => honward _ _ _ _
  · exact honward _ _ _ _

theorem fatReadCall_reads {file : FatFile} (size : Nat) (hfile : file.At16) :
    priv.Reads (fatReadCall platform priv file size) fun r => r.file.At16 := by
  have hfirst : Issues FatWorld.reads priv.Accesses
      (readCluster platform.recorded priv file.currentCluster >>= fun _ =>
        (pure (.error .divide) : DevM (FatWorld σ) (Except Stop ReadResult)))
      (OkIf fun r => r.file.At16) :=
    (readCluster_issues hfile).bind fun _ _ => .pure trivial
  intro w result w' hw
  simp only [fatReadCall, ExceptT.run_mk] at hw
  cases hread : fatRead platform.recorded priv file size w with
  | none =>
    rw [hread] at hw
    exact hfirst w result w' hw
  | some r =>
    rw [hread] at hw
    cases hw
    exact fatRead_issues hfile w r.1 r.2 hread

theorem fatCall_reads {files : List FatFile} (call : FatCall) (hfiles : ∀ f ∈ files, f.At16) :
    priv.Reads (fatCall platform priv fuel files call) fun files' => ∀ f ∈ files', f.At16 := by
  cases call with
  | «open» path =>
    refine (fatOpen_reads path).bind fun handle hhandle => ?_
    cases handle with
    | none => exact .pure hfiles
    | some handle =>
      refine .pure fun f hf => ?_
      rcases List.mem_append.mp hf with hmem | hmem
      · exact hfiles f hmem
      · rw [List.mem_singleton.mp hmem]
        exact hhandle handle rfl
  | read handle size =>
    unfold fatCall
    dsimp only
    cases hfile : files[handle]? with
    | none => exact .pure hfiles
    | some file =>
      refine (fatReadCall_reads size (hfiles file (List.mem_of_getElem? hfile))).bind
        fun r hr => .pure fun f hf => ?_
      rcases List.mem_or_eq_of_mem_set hf with hmem | rfl
      · exact hfiles f hmem
      · exact hr

theorem fatCalls_reads {files : List FatFile} (calls : List FatCall)
    (hfiles : ∀ f ∈ files, f.At16) :
    priv.Reads (fatCalls platform priv fuel files calls) fun files' => ∀ f ∈ files', f.At16 := by
  induction calls generalizing files with
  | nil => exact .pure hfiles
  | cons call calls ih =>
    exact (fatCall_reads call hfiles).bind fun files' hfiles' => ih hfiles'

end Reads

/-! ## Runs -/

/-- Whatever is on the disk, any number of calls on a mounted partition read only
sectors of the partition, but for what they read of cluster numbers that are not
those of its data clusters. -/
theorem fatCalls_inside {σ : Type} {platform : Platform σ} {startLba numSectors : Nat}
    {priv : FatPriv} {s s' : σ} {w w' : FatWorld σ} {result : Except Stop (List FatFile)}
    (hmount : fatCreate platform.blkdev startLba numSectors s = some (.ok priv, s'))
    (hpartition : startLba + numSectors ≤ 2 ^ 32)
    (hlayout : priv.dataStartSector ≤ numSectors) (fuel : Nat) (calls : List FatCall)
    (hempty : w.reads = [])
    (hrun : (fatCalls platform priv fuel [] calls).run w = some (result, w')) :
    ∀ r ∈ w'.reads, priv.Inside r ∨
      ∃ c < 2 ^ 16, ¬ priv.HasCluster c ∧ priv.ClusterAccess c r := by
  have hpriv := fatCreate_mounted hmount
  have hreads : priv.Reads (fatCalls platform priv fuel [] calls) _ :=
    fatCalls_reads calls fun f hf => by cases hf
  intro r hr
  rcases hreads.all hempty hrun r hr with rfl | ⟨c, hc, haccess⟩
  · exact Or.inl (rootAccess_inside hpriv hpartition hlayout)
  · by_cases hcluster : priv.HasCluster c
    · exact Or.inl (clusterAccess_inside hpriv hpartition hc hcluster haccess)
    · exact Or.inr ⟨c, hc, hcluster, haccess⟩

/-- A disk of these sectors, and a heap that does not run out. -/
def diskPlatform (sector : Nat → List UInt8) : Platform Unit where
  blkdev := { read := fun lba n _ => ((n, (List.range' lba n).flatMap (fit 512 ∘ sector)), ()) }
  place live size _ :=
    (.ok ⟨live.foldl (fun stop r => max stop (r.start + r.size)) 4096, alignedSize size⟩, ())
  peek _ _ := ([], ())

/-- The boot sector of a volume with one file allocation table of one sector and 16
entries in the root directory. -/
def smallBoot (sectorsPerCluster nrReservedSectors : UInt8) : List UInt8 :=
  List.replicate 11 0 ++ [0, 2, sectorsPerCluster, nrReservedSectors, 0, 1, 16, 0, 0, 0, 0, 1, 0]

/-- The entry of a file `A` of 1024 bytes. -/
def smallEntry (clusterLow : UInt8) : List UInt8 :=
  [65] ++ List.replicate 10 32 ++ [0x20] ++ List.replicate 14 0 ++ [clusterLow, 0, 0, 4, 0, 0]

/-- The path `A`. -/
def smallPath : List PathPart := [{ ptr := 4096, str := [65] }]

/-- A volume in the sectors 1 to 8: clusters 2 to 6, the file in the clusters 2 and
3. -/
def smallVolume : Nat → List UInt8
  | 1 => smallBoot 1 1
  | 2 => [0xf8, 0xff, 0xff, 0xff, 3, 0, 0xff, 0xff]
  | 3 => smallEntry 2
  | _ => []

/-- Opening and reading the file. -/
theorem fatCalls_inside_small : ∃ result w',
    (fatCalls (diskPlatform smallVolume) (FatPriv.ofBpb 1 8 ⟨512, 1, 1, 1, 16, 1⟩) 8 []
      [.open smallPath, .read 0 1024]).run ⟨(), [], []⟩ = some (result, w') ∧
    ∀ r ∈ FatWorld.reads w', (FatPriv.ofBpb 1 8 ⟨512, 1, 1, 1, 16, 1⟩).Inside r ∨
      ∃ c < 2 ^ 16, ¬ (FatPriv.ofBpb 1 8 ⟨512, 1, 1, 1, 16, 1⟩).HasCluster c ∧
        (FatPriv.ofBpb 1 8 ⟨512, 1, 1, 1, 16, 1⟩).ClusterAccess c r := by
  have hmount : fatCreate (diskPlatform smallVolume).blkdev 1 8 () =
      some (.ok (FatPriv.ofBpb 1 8 ⟨512, 1, 1, 1, 16, 1⟩), ()) := by decide +kernel
  have hreturns : ((fatCalls (diskPlatform smallVolume) (FatPriv.ofBpb 1 8 ⟨512, 1, 1, 1, 16, 1⟩)
      8 [] [.open smallPath, .read 0 1024]).run ⟨(), [], []⟩).isSome := by decide +kernel
  obtain ⟨⟨result, w'⟩, hrun⟩ := Option.isSome_iff_exists.mp hreturns
  exact ⟨result, w', hrun, fatCalls_inside hmount (by decide) (by decide) 8 _ rfl hrun⟩

/-- The reads outside of the partition that these calls make after a mount. -/
def readsOutside {σ : Type} (platform : Platform σ) (s : σ) (startLba numSectors fuel : Nat)
    (calls : List FatCall) : Option (List (Nat × Nat)) := do
  let (.ok priv, s) ← fatCreate platform.blkdev startLba numSectors s
    | none
  let (_, w) ← (fatCalls platform priv fuel [] calls).run ⟨s, [], []⟩
  return w.reads.filter fun r => ¬ priv.Inside r

/-- What is on the disk leads the driver out of the partition: the first cluster of
an entry, an entry of the file allocation table, a cluster number below 2, a root
directory behind the end of the partition, a partition behind the last sector. -/
theorem fatCalls_outside :
    readsOutside (diskPlatform fun | 1 => smallBoot 1 1 | 3 => smallEntry 100 | _ => [])
      () 1 8 8 [.open smallPath, .read 0 1] = some [(102, 1)] ∧
    readsOutside (diskPlatform fun
        | 1 => smallBoot 1 1 | 2 => [0, 0, 0, 0, 100, 0] | 3 => smallEntry 2 | _ => [])
      () 1 8 8 [.open smallPath, .read 0 1024] = some [(102, 1)] ∧
    readsOutside (diskPlatform fun | 1 => smallBoot 4 1 | 3 => smallEntry 0 | _ => [])
      () 1 8 8 [.open smallPath, .read 0 1] = some [(4294967292, 4)] ∧
    readsOutside (diskPlatform fun | 1 => smallBoot 1 200 | _ => [])
      () 1 8 8 [.open smallPath] = some [(202, 1)] ∧
    readsOutside (diskPlatform fun | 4294967295 => smallBoot 1 1 | _ => [])
      () 4294967295 8 8 [.open smallPath] = some [(1, 1)] := by
  decide +kernel

end Microboot.Kern.Fs
