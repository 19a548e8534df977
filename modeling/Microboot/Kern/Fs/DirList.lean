/-
  Kern/Fs/DirList.lean --- listing a directory, kern/fs/fat.c.

  `get_dir_contents` makes a record of 20 bytes of each entry in front of the one that
  ends the directory, unless the entry is hidden or belongs to the system, and puts a
  NUL behind the last record.  It does not ask whether an entry is deleted.

  `HoldsDir` is what the disk holds of a directory: the sectors of the root directory,
  or the clusters of a chain.  Of an empty chain there is no buffer, and the call
  stops when it frees it, so the directories here have bytes.
-/
import Microboot.Kern.Fs.DirEnt
import Microboot.Kern.Fs.FatChain

set_option autoImplicit false

namespace Microboot.Kern.Fs

open Microboot.Foundation

/-! ## The entries that are listed -/

/-- The entry is hidden, or belongs to the system. -/
def Hidden (dir : List UInt8) : Prop :=
  (FatDir.ofEntry dir).attrs &&& (fatAttrHidden ||| fatAttrSystem) ≠ 0

/-- The entry is deleted. -/
def Deleted (dir : List UInt8) : Prop := byteOf dir 0 = 0xe5

instance (dir : List UInt8) : Decidable (Hidden dir) := inferInstanceAs (Decidable (_ ≠ _))

instance (dir : List UInt8) : Decidable (Deleted dir) := inferInstanceAs (Decidable (_ = _))

/-- The visible entries in front of the one that ends the directory. -/
def listed (dirs : List (List UInt8)) : List (List UInt8) :=
  (dirs.takeWhile fun dir => ¬ Terminator dir).filter fun dir => ¬ Hidden dir

theorem listed_sublist (dirs : List (List UInt8)) : (listed dirs).Sublist dirs :=
  List.filter_sublist.trans (List.takeWhile_sublist _)

/-- Their records. -/
def listing (dirs : List (List UInt8)) : List UInt8 := (listed dirs).flatMap dirRecord

theorem listing_terminator {dir : List UInt8} (h : Terminator dir) (dirs : List (List UInt8)) :
    listing (dir :: dirs) = [] := by
  simp [listing, listed, h]

theorem listing_hidden {dir : List UInt8} (h : ¬ Terminator dir) (hhidden : Hidden dir)
    (dirs : List (List UInt8)) : listing (dir :: dirs) = listing dirs := by
  simp [listing, listed, h, hhidden]

theorem listing_visible {dir : List UInt8} (h : ¬ Terminator dir) (hvisible : ¬ Hidden dir)
    (dirs : List (List UInt8)) : listing (dir :: dirs) = dirRecord dir ++ listing dirs := by
  simp [listing, listed, h, hvisible]

/-- A record has 20 bytes, whichever its kind. -/
theorem length_dirRecord {dir : List UInt8} (h : dir.length = fatDirSize) :
    (dirRecord dir).length = recSize := by
  have h32 : dir.length = 32 := h
  unfold dirRecord recSize
  split
  · simp [overwrite, h32]
  split
  · simp [overwrite, h32]
  · simp [overwrite, h32]

theorem length_dirEntries (cldata : Buf) (clsize : Nat) :
    (dirEntries cldata clsize).length = (clsize + 31) / 32 := by
  rw [dirEntries, List.length_map, List.length_range]
  rfl

theorem length_of_mem_dirEntries {cldata : Buf} {clsize : Nat} {dir : List UInt8}
    (h : dir ∈ dirEntries cldata clsize) : dir.length = fatDirSize := by
  obtain ⟨i, -, rfl⟩ := List.mem_map.mp h
  exact length_fit _ _

/-- A record is shorter than an entry, so the records of a directory fit. -/
theorem dirEntries_fits {clsize : Nat} (h : clsize < 2 ^ 32) (cldata : Buf) :
    recSize * (dirEntries cldata clsize).length + 1 ≤ 2 ^ 32 - 64 := by
  rw [length_dirEntries]
  unfold recSize
  omega

/-- The entries in the bytes of a directory. -/
def entriesOf (bytes : List UInt8) : List (List UInt8) :=
  dirEntries { ptr := none, bytes := bytes } bytes.length

theorem length_of_mem_entriesOf {bytes dir : List UInt8} (h : dir ∈ entriesOf bytes) :
    dir.length = fatDirSize := length_of_mem_dirEntries h

/-- The listing has 20 bytes for each entry that is listed. -/
theorem length_listing {dirs : List (List UInt8)} (h : ∀ dir ∈ dirs, dir.length = fatDirSize) :
    (listing dirs).length = recSize * (listed dirs).length := by
  have hmem : ∀ dir ∈ listed dirs, (dirRecord dir).length = recSize := fun dir hdir =>
    length_dirRecord (h dir ((listed_sublist dirs).mem hdir))
  rw [listing, length_flatMap_blocks hmem, Nat.mul_comm]

/-! ## The loop over the entries -/

section List

variable {σ : Type} {platform : Platform σ} {priv : FatPriv} {limit fuel : Nat}
  {others : List Region} {w : FatWorld σ} {bytes : List UInt8}

/-- The buffer grows by a record at each visible entry. -/
theorem listEntries_returns {dirs : List (List UInt8)} {block : Region} {out : List UInt8}
    (hroom : HasRoom platform limit) (hlimit : limit ≤ 2 ^ 32 - 64)
    (hdirs : ∀ dir ∈ dirs, dir.length = fatDirSize) (howns : Owns (some block) others w)
    (hle : out.length + recSize * dirs.length ≤ limit) :
    ReturnsIn (listEntries platform dirs (some block) out) w fun result w' =>
      ∃ block', result = some (some block', out ++ listing dirs) ∧
        Owns (some block') others w' ∧ w'.reads = w.reads := by
  induction dirs generalizing block out w with
  | nil => exact .pure ⟨block, by simp [listing, listed], howns, rfl⟩
  | cons dir dirs ih =>
    have hdir := hdirs dir List.mem_cons_self
    have hrest : ∀ dir ∈ dirs, dir.length = fatDirSize :=
      fun d hd => hdirs d (List.mem_cons_of_mem dir hd)
    rw [List.length_cons, Nat.mul_add, Nat.mul_one] at hle
    unfold listEntries
    split
    · rename_i hend
      exact .pure ⟨block, by rw [listing_terminator hend, List.append_nil], howns, rfl⟩
    rename_i hend
    split
    · rename_i hhidden
      rw [listing_hidden hend hhidden]
      exact ih hrest howns (by omega)
    · rename_i hvisible
      have hrec := length_dirRecord hdir
      have hpos : 0 < recSize := by decide
      refine (krealloc_returns hroom howns (by omega) (by omega) (by omega)).bind
        fun ptr w₁ h₁ => ?_
      obtain ⟨hreads₁, new, rfl, howns₁, hnew⟩ := h₁
      refine (store_returns hnew).bind fun _ w₂ h₂ => ?_
      subst h₂
      refine (ih hrest howns₁ (by rw [List.length_append, hrec]; omega)).mono fun result w₃ h₃ => ?_
      obtain ⟨block', hresult, howns₃, hreads₃⟩ := h₃
      refine ⟨block', ?_, howns₃, hreads₃.trans hreads₁⟩
      rw [hresult, listing_visible hend hvisible, List.append_assoc]

/-! ## get_dir_contents -/

/-- A directory that is read into a block of its own is listed. -/
theorem getDirContents_returns {pdir : FatDir} {isRoot : Prop} [Decidable isRoot]
    (hroom : HasRoom platform (2 ^ 32 - 64)) (hsize : bytes.length ≤ 2 ^ 32 - 64)
    (hread : ReturnsIn (readDir platform priv fuel pdir isRoot) w fun r w' =>
      r.1.bytes = bytes ∧ r.2 = bytes.length ∧
        ∃ block, r.1.ptr = some block ∧ Owns (some block) others w') :
    ReturnsIn (getDirContents platform priv fuel pdir isRoot) w fun result w' =>
      ∃ block, result = some (some block, listing (entriesOf bytes) ++ [0]) ∧
        Owns (some block) others w' ∧ (listing (entriesOf bytes)).length + 1 ≤ block.size := by
  have hcount : recSize * (entriesOf bytes).length + 1 ≤ 2 ^ 32 - 64 :=
    dirEntries_fits (by omega) _
  have hlisting : (listing (entriesOf bytes)).length ≤ recSize * (entriesOf bytes).length := by
    rw [length_listing fun dir => length_of_mem_entriesOf]
    exact Nat.mul_le_mul_left _ (listed_sublist _).length_le
  unfold getDirContents
  refine hread.bind fun r w₁ h₁ => ?_
  obtain ⟨hbytes, hlen, clblock, hptr, howns₁⟩ := h₁
  obtain ⟨cldata, clsize⟩ := r
  dsimp only at hbytes hlen hptr ⊢
  have hentries : dirEntries cldata clsize = entriesOf bytes := by
    rw [entriesOf, dirEntries, dirEntries, hbytes, hlen]
  rw [hentries]
  refine (kalloc_returns hroom (show 0 < recSize by decide) (by decide) (by decide)).bind
    fun ptr w₂ h₂ => ?_
  obtain ⟨-, block, rfl, hlive₂, -⟩ := h₂
  have howns₂ : Owns (some block) (clblock :: others) w₂ := by
    rw [Owns, hlive₂]
    exact howns₁.cons block
  have hfits : ([] : List UInt8).length + recSize * (entriesOf bytes).length ≤ 2 ^ 32 - 64 := by
    rw [List.length_nil]
    omega
  refine (listEntries_returns hroom (Nat.le_refl _) (fun dir => length_of_mem_entriesOf) howns₂
    hfits).bind fun result w₃ h₃ => ?_
  obtain ⟨block₃, rfl, howns₃, -⟩ := h₃
  rw [List.nil_append]
  refine (krealloc_returns hroom howns₃ (Nat.succ_pos _) (by omega) (by omega)).bind
    fun ptr w₄ h₄ => ?_
  obtain ⟨-, block₄, rfl, howns₄, -⟩ := h₄
  refine (krealloc_returns hroom howns₄ (Nat.succ_pos _) (by omega) (by omega)).bind
    fun ptr w₅ h₅ => ?_
  obtain ⟨-, block₅, rfl, howns₅, hblock₅⟩ := h₅
  refine (store_returns hblock₅).bind fun _ w₆ h₆ => ?_
  subst h₆
  rw [hptr]
  have hboth : Owns (some clblock) (block₅ :: others) w₆ :=
    howns₅.trans (List.Perm.swap clblock block₅ others)
  refine (kfree_returns hboth).bind fun _ w₇ h₇ => .pure ?_
  exact ⟨block₅, rfl, h₇.2, hblock₅⟩

/-- A loop that returns has a buffer, and has stored at most a record an entry. -/
theorem listEntries_only {P : Nat × Nat → Prop} {dirs : List (List UInt8)} {block : Region}
    {out : List UInt8} (hdirs : ∀ dir ∈ dirs, dir.length = fatDirSize)
    (hle : out.length + recSize * dirs.length ≤ 2 ^ 32 - 64) :
    IssuesUntil FatWorld.reads P (listEntries platform dirs (some block) out) fun result =>
      ∃ block' out', result = some (some block', out') ∧
        out'.length ≤ out.length + recSize * dirs.length := by
  induction dirs generalizing block out with
  | nil => exact .pure ⟨block, out, rfl, Nat.le_add_right _ _⟩
  | cons dir dirs ih =>
    have hdir := hdirs dir List.mem_cons_self
    have hrest : ∀ dir ∈ dirs, dir.length = fatDirSize :=
      fun d hd => hdirs d (List.mem_cons_of_mem dir hd)
    rw [List.length_cons, Nat.mul_add, Nat.mul_one] at hle ⊢
    unfold listEntries
    split
    · exact .pure ⟨block, out, rfl, Nat.le_add_right _ _⟩
    split
    · refine (ih hrest (by omega)).mono fun result h => ?_
      obtain ⟨block', out', hresult, hlen⟩ := h
      exact ⟨block', out', hresult, by omega⟩
    · have hrec := length_dirRecord hdir
      have hpos : 0 < recSize := by decide
      refine (krealloc_issues fun h0 => ?_).bind fun ptr h => ?_
      · exact absurd h0 (alignedSize_ne_zero (by omega) (by omega))
      · obtain ⟨new, rfl, -⟩ := h
        refine (store_silent _ _ _).issues.bind fun _ _ => ?_
        refine (ih hrest (by rw [List.length_append, hrec]; omega)).mono fun result h => ?_
        obtain ⟨block', out', hresult, hlen⟩ := h
        rw [List.length_append, hrec] at hlen
        exact ⟨block', out', hresult, by omega⟩

/-- A call that returns has listed the entries of a buffer that is not NULL. -/
theorem getDirContents_only {pdir : FatDir} {isRoot : Prop} [Decidable isRoot]
    {B : Buf × Nat → Prop} (hread : priv.Reads (readDir platform priv fuel pdir isRoot) B)
    (hsize : ∀ r, B r → r.2 < 2 ^ 32) :
    priv.Reads (getDirContents platform priv fuel pdir isRoot) fun result =>
      (∃ l, result = some l) ∧ ∃ r, B r ∧ r.1.ptr ≠ none := by
  unfold getDirContents
  refine hread.bind fun r hr => ?_
  obtain ⟨cldata, clsize⟩ := r
  have hcount := dirEntries_fits (show clsize < 2 ^ 32 from hsize _ hr) cldata
  have hfits : ([] : List UInt8).length + recSize * (dirEntries cldata clsize).length ≤
      2 ^ 32 - 64 := by
    rw [List.length_nil]
    omega
  refine (kalloc_issues recSize).bind fun ptr hptr => ?_
  cases ptr with
  | none => exact absurd (hptr rfl) (by decide)
  | some block =>
    refine (listEntries_only (fun dir => length_of_mem_dirEntries) hfits).bind
      fun result ⟨block', out, hresult, hlen⟩ => ?_
    subst hresult
    rw [List.length_nil, Nat.zero_add] at hlen
    have hsome : ∀ b : Region, alignedSize (out.length + 1) = 0 → 0 < b.size := by
      intro b h0
      exact absurd h0 (alignedSize_ne_zero (Nat.succ_pos _) (by omega))
    refine (krealloc_issues (hsome block')).bind fun ptr ⟨new, hnew, _⟩ => ?_
    subst hnew
    refine (krealloc_issues (hsome new)).bind fun ptr _ => ?_
    refine (store_silent _ _ _).issues.bind fun _ _ => ?_
    cases hnull : cldata.ptr with
    | none => exact kfree_null_issues.bind fun _ (h : False) => h.elim
    | some clblock =>
      exact (kfree_silent _).issues.bind fun _ _ =>
        .pure ⟨⟨_, rfl⟩, (cldata, clsize), hr, by simp [hnull]⟩

/-! ## What the disk holds -/

/-- The bytes of a directory on a device: those of the root directory, or those of the
clusters that its entry's first cluster leads through. -/
inductive HoldsDir (dev : BlkDev σ) (priv : FatPriv) (pdir : FatDir) (isRoot : Prop) :
    List UInt8 → Prop
  | root {bytes : List UInt8} : isRoot →
      Yields (dev.call ((priv.startLba + priv.rootDirSector) % 2 ^ 32) priv.nrRootDirSectors)
        (fun answer => fit (priv.bytesPerSector * priv.nrRootDirSectors) answer.2 = bytes) →
      HoldsDir dev priv pdir isRoot bytes
  | chain {fat : Nat → Nat} {cs : List Nat} {stop : Nat} {contents : Nat → List UInt8} :
      ¬ isRoot → Trail fat Followed pdir.clusterLow cs stop →
      (∀ c ∈ cs, Returns (nextCluster dev priv c) (fat c)) →
      (∀ c ∈ cs, Yields (readCluster dev priv c) fun answer =>
        fit priv.bytesPerCluster answer.2 = contents c) →
      HoldsDir dev priv pdir isRoot (cs.flatMap contents)

theorem readRootDir_returns (hroom : HasRoom platform limit) (hlimit : limit ≤ 2 ^ 32 - 64)
    (hpos : 0 < priv.bytesPerSector * priv.nrRootDirSectors)
    (hle : priv.bytesPerSector * priv.nrRootDirSectors ≤ limit)
    (hread : Yields (platform.blkdev.call ((priv.startLba + priv.rootDirSector) % 2 ^ 32)
      priv.nrRootDirSectors) fun answer =>
        fit (priv.bytesPerSector * priv.nrRootDirSectors) answer.2 = bytes) (w : FatWorld σ) :
    ReturnsIn (readRootDir platform priv) w fun r w' =>
      r.1.bytes = bytes ∧ r.2 = priv.bytesPerSector * priv.nrRootDirSectors ∧
        ∃ block, r.1.ptr = some block ∧ Owns (some block) w.live w' := by
  unfold readRootDir
  refine (kalloc_returns hroom hpos hle (Nat.le_trans hle hlimit)).bind fun ptr w₁ h₁ => ?_
  obtain ⟨-, block, rfl, hlive, -⟩ := h₁
  refine (recorded_call hread).bind fun answer w₂ ⟨hbytes, hlive₂, _⟩ => .pure ?_
  refine ⟨hbytes, rfl, block, rfl, ?_⟩
  rw [Owns, hlive₂, hlive]
  exact List.Perm.refl _

/-- A chain that is not empty is read into a block of its own. -/
theorem readClusterChain_block {fat : Nat → Nat} {c stop : Nat} {cs : List Nat}
    {contents : Nat → List UInt8} (size : Nat) (htrail : Trail fat Followed c cs stop)
    (htable : ∀ c ∈ cs, Returns (nextCluster platform.blkdev priv c) (fat c))
    (hdata : ∀ c ∈ cs, Yields (readCluster platform.blkdev priv c) fun answer =>
      fit priv.bytesPerCluster answer.2 = contents c)
    (hbytes : cs.flatMap contents ≠ []) (hsize : (cs.flatMap contents).length ≤ 2 ^ 32 - 64)
    (hroom : HasRoom platform (2 ^ 32 - 64)) (hfuel : 2 ^ 16 ≤ fuel) (w : FatWorld σ) :
    ReturnsIn (readClusterChain platform priv fuel c size) w fun r w' =>
      r.1.bytes = cs.flatMap contents ∧ r.2 = (cs.flatMap contents).length ∧
        ∃ block, r.1.ptr = some block ∧ Owns (some block) w.live w' := by
  have hblock : ∀ c ∈ cs, (contents c).length = priv.bytesPerCluster := by
    intro c hc
    obtain ⟨answer, s, -, hcontents⟩ := hdata c hc w.dev
    rw [← hcontents, length_fit]
  have hlen := List.length_pos_iff.mpr hbytes
  have htotal := length_flatMap_blocks hblock
  have hpos : 0 < cs.length * priv.bytesPerCluster := by omega
  rw [htotal]
  refine (readClusterChain_contents size ?_ (by omega) (Nat.pos_of_mul_pos_left hpos) htrail hdata
    htable (trail_length_lt htrail hfuel) w).mono fun r w' ⟨hn, hbytes, hheld, _⟩ => ?_
  · exact fun live size s hle => hroom live size s (by omega)
  · obtain ⟨block, hptr, -⟩ := hheld.block hpos
    exact ⟨hbytes, hn, block, hptr, hptr ▸ hheld.owns⟩

/-- A directory that is not empty is read into a block of its own. -/
theorem readDir_returns {pdir : FatDir} {isRoot : Prop} [Decidable isRoot]
    (hdir : HoldsDir platform.blkdev priv pdir isRoot bytes) (hbytes : bytes ≠ [])
    (hsize : bytes.length ≤ 2 ^ 32 - 64) (hroom : HasRoom platform (2 ^ 32 - 64))
    (hfuel : 2 ^ 16 ≤ fuel) (w : FatWorld σ) :
    ReturnsIn (readDir platform priv fuel pdir isRoot) w fun r w' =>
      r.1.bytes = bytes ∧ r.2 = bytes.length ∧
        ∃ block, r.1.ptr = some block ∧ Owns (some block) w.live w' := by
  unfold readDir
  cases hdir with
  | root hroot hread =>
    have hlen := List.length_pos_iff.mpr hbytes
    obtain ⟨answer, s, -, hbytes⟩ := hread w.dev
    have hsize' : priv.bytesPerSector * priv.nrRootDirSectors = bytes.length := by
      rw [← hbytes, length_fit]
    rw [if_pos hroot, ← hsize']
    exact readRootDir_returns hroom (Nat.le_refl _) (by omega) (by omega) hread w
  | @chain fat cs stop contents hroot htrail htable hdata =>
    rw [if_neg hroot]
    exact readClusterChain_block 0 htrail htable hdata hbytes hsize hroom hfuel w

end List

/-! ## A deleted entry -/

/-- The root directory of a small disk, with one sector. -/
def rootBytes (sector : Nat → List UInt8) : List UInt8 := fit 512 (fit 512 (sector 3) ++ [])

theorem holdsDir_small (sector : Nat → List UInt8) (pdir : FatDir) :
    HoldsDir (diskPlatform sector).blkdev (FatPriv.ofBpb 1 8 ⟨512, 1, 1, 1, 16, 1⟩) pdir True
      (rootBytes sector) :=
  .root trivial fun _ => ⟨_, _, rfl, rfl⟩

/-- The small volume, its file being deleted. -/
def deletedVolume : Nat → List UInt8
  | 3 => [0xe5] ++ List.replicate 10 32 ++ [0x20] ++ List.replicate 20 0
  | lba => smallVolume lba

end Microboot.Kern.Fs
