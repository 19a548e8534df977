/-
  Kern/Fs/FatReadCount.lean --- what fat_read counts, kern/fs/fat.c.

  The clusters of a file are read until the bytes asked for are delivered, or until
  its chain ends.  `fat_read` clips the request to what is left of the file
  (`full_size`), and counts down `remaining` from there.  The exit at the end of the
  chain computes the count as `size - remaining` all the same: it is too large by
  what was clipped.  The other exits use `full_size`.

  Nothing is assumed of the data on the disk, nor of the chain that a directory
  entry starts: `Trail` is the part of the chain in front of its end.
-/
import Microboot.Foundation.Run
import Microboot.Foundation.Trail
import Microboot.Kern.Fs.FatOpen
import Microboot.Kern.Fs.FatReadOnce

set_option autoImplicit false

namespace Microboot.Kern.Fs

open Microboot.Foundation

/-! ## The disk -/

section Disk

variable {σ : Type} {dev : BlkDev σ} {priv : FatPriv} {fat : Nat → Nat} {c : Nat}

theorem readCluster_yields (hfills : dev.Fills)
    (hbytes : priv.bytesPerCluster = 512 * priv.bpb.sectorsPerCluster) :
    Yields (readCluster dev priv c) fun answer => answer.2.length = priv.bytesPerCluster :=
  fun s => ⟨_, _, rfl, by rw [hbytes]; exact hfills _ _ s⟩

theorem nextCluster_yields (htable : dev.HasTable priv fat) (hc : c < 2 ^ 16) :
    Yields (nextCluster dev priv c) fun next => next = fat c ∧ next < 2 ^ 16 := by
  intro s
  obtain ⟨s', hrun⟩ := htable c hc s
  refine ⟨fat c, s', hrun, rfl, ?_⟩
  rw [← show wordOf _ _ = fat c from congrArg Prod.fst (Option.some.inj hrun)]
  exact wordOf_lt _ _

end Disk

/-! ## The loop over the full clusters -/

section Loop

variable {σ : Type} {dev : BlkDev σ} {priv : FatPriv} {fat : Nat → Nat}
  {fuel clus remaining : Nat} {out : List UInt8}

/-- A round of the loop reads a cluster and follows the table. -/
theorem readFullClusters_round {Q : Walk → Prop} (hfills : dev.Fills)
    (hbytes : priv.bytesPerCluster = 512 * priv.bpb.sectorsPerCluster)
    (htable : dev.HasTable priv fat) (hclus : clus < fatClusterEnd)
    (hmore : priv.bytesPerCluster < remaining)
    (hrest : ∀ out', out'.length = out.length + priv.bytesPerCluster → fat clus < 2 ^ 16 →
      Yields (readFullClusters dev priv fuel (fat clus) (remaining - priv.bytesPerCluster) out')
        Q) :
    Yields (readFullClusters dev priv (fuel + 1) clus remaining out) Q := by
  have hlt : clus < 2 ^ 16 := Nat.lt_trans hclus (by decide)
  unfold readFullClusters
  rw [if_pos hmore, if_neg (Nat.not_le.mpr hclus)]
  refine (readCluster_yields hfills hbytes).bind fun answer hanswer => ?_
  refine (nextCluster_yields htable hlt).bind fun next hnext => ?_
  obtain ⟨rfl, hnext⟩ := hnext
  refine hrest _ ?_ hnext
  rw [List.length_append, List.length_take, hanswer, Nat.min_self]

/-- When the chain ends behind the clusters `cs`, with more than another one to read,
the loop ends the call there. -/
theorem readFullClusters_cut {cs : List Nat} {stop : Nat} (hfills : dev.Fills)
    (hbytes : priv.bytesPerCluster = 512 * priv.bpb.sectorsPerCluster)
    (htable : dev.HasTable priv fat) (hpos : 0 < priv.bytesPerCluster)
    (htrail : Trail fat (· < fatClusterEnd) clus cs stop) (hclus : clus < 2 ^ 16)
    (hmore : cs.length * priv.bytesPerCluster + priv.bytesPerCluster < remaining)
    (hfuel : remaining < fuel) :
    Yields (readFullClusters dev priv fuel clus remaining out) fun walk =>
      walk.chainEnd = true ∧ walk.clus < 2 ^ 16 ∧
        walk.remaining = remaining - cs.length * priv.bytesPerCluster ∧
        walk.out.length = out.length + cs.length * priv.bytesPerCluster := by
  induction htrail generalizing fuel remaining out with
  | here hstop =>
    obtain ⟨fuel, rfl⟩ : ∃ n, fuel = n + 1 := ⟨fuel - 1, by omega⟩
    unfold readFullClusters
    rw [if_pos (by omega), if_pos (Nat.not_lt.mp hstop)]
    exact .pure ⟨rfl, hclus, by simp, by simp⟩
  | @step c cs stop hgo hrest ih =>
    obtain ⟨fuel, rfl⟩ : ∃ n, fuel = n + 1 := ⟨fuel - 1, by omega⟩
    rw [List.length_cons, Nat.add_mul, Nat.one_mul] at hmore ⊢
    refine readFullClusters_round hfills hbytes htable hgo (by omega) fun out' hout hnext => ?_
    refine (ih hnext (by omega) (by omega)).mono fun walk h => ?_
    obtain ⟨hend, hlt, hrem, hlen⟩ := h
    exact ⟨hend, hlt, by omega, by omega⟩

/-- When the chain goes on for all but the last of the clusters, at most one remains
to be read. -/
theorem readFullClusters_whole (hfills : dev.Fills)
    (hbytes : priv.bytesPerCluster = 512 * priv.bpb.sectorsPerCluster)
    (htable : dev.HasTable priv fat) (hpos : 0 < priv.bytesPerCluster)
    (htrail : ∀ cs stop, Trail fat (· < fatClusterEnd) clus cs stop →
      remaining ≤ cs.length * priv.bytesPerCluster + priv.bytesPerCluster)
    (hclus : clus < 2 ^ 16) (hfuel : remaining < fuel) :
    Yields (readFullClusters dev priv fuel clus remaining out) fun walk =>
      walk.chainEnd = false ∧ walk.clus < 2 ^ 16 ∧ walk.remaining ≤ priv.bytesPerCluster ∧
        walk.out.length + walk.remaining = out.length + remaining := by
  induction fuel generalizing clus remaining out with
  | zero => omega
  | succ fuel ih =>
    by_cases hmore : priv.bytesPerCluster < remaining
    · have hgo : clus < fatClusterEnd := by
        by_contra hstop
        have := htrail [] clus (.here hstop)
        rw [List.length_nil] at this
        omega
      refine readFullClusters_round hfills hbytes htable hgo hmore fun out' hout hnext => ?_
      refine (ih (fun cs stop hrest => ?_) hnext (by omega)).mono
        fun walk ⟨hend, hlt, hrem, hlen⟩ => ⟨hend, hlt, hrem, by omega⟩
      have := htrail (clus :: cs) stop (.step hgo hrest)
      rw [List.length_cons, Nat.add_mul, Nat.one_mul] at this
      omega
    · unfold readFullClusters
      rw [if_neg hmore]
      exact .pure ⟨rfl, hclus, Nat.not_lt.mp hmore, rfl⟩

end Loop

/-! ## A call -/

/-- What is left of the file. -/
def FatFile.left (file : FatFile) : Nat := file.size - file.currentOffset

/-- The bytes from the offset to the end of its cluster. -/
def FatFile.clusterRest (file : FatFile) (priv : FatPriv) : Nat :=
  priv.bytesPerCluster - file.currentOffset % priv.bytesPerCluster

/-- The handle of a regular file, its offset inside of the file. -/
structure FatFile.Regular (file : FatFile) : Prop where
  listing : file.dirContents = none
  size_lt : file.size < 2 ^ 32
  offset_le : file.currentOffset ≤ file.size
  cluster_lt : file.currentCluster < 2 ^ 16

/-- A call returns `n`, has stored `stored` bytes, and has moved the offset by `n`. -/
structure Advances (file : FatFile) (n stored : Nat) (r : ReadResult) : Prop where
  ret : r.ret = asInt n
  stored : r.out.length = stored
  file : ∃ clus < 2 ^ 16, r.file =
    { file with currentCluster := clus, currentOffset := (file.currentOffset + n) % 2 ^ 32 }

/-- The chain ends behind the clusters `cs` that come after the first one, where more
than another cluster of the request is to be read. -/
def CutShort (priv : FatPriv) (fat : Nat → Nat) (file : FatFile) (size : Nat) (cs : List Nat) :
    Prop :=
  (∃ stop, Trail fat (· < fatClusterEnd) (fat file.currentCluster) cs stop) ∧
    file.clusterRest priv + cs.length * priv.bytesPerCluster + priv.bytesPerCluster <
      min size file.left

section Call

variable {σ : Type} {dev : BlkDev σ} {priv : FatPriv} {fat : Nat → Nat} {file : FatFile}
  {size full clus remaining : Nat} {out : List UInt8} {cs cs' : List Nat} {s : σ}

theorem CutShort.unique (h : CutShort priv fat file size cs)
    (h' : CutShort priv fat file size cs') : cs = cs' := by
  obtain ⟨⟨stop, htrail⟩, -⟩ := h
  obtain ⟨⟨stop', htrail'⟩, -⟩ := h'
  exact (htrail.unique htrail').1

/-- The number of bytes that a call is to deliver. -/
theorem FatFile.Regular.fullSize_eq (h : file.Regular) :
    min size ((file.size + 2 ^ 32 - file.currentOffset) % 2 ^ 32) = min size file.left := by
  have hlt := h.size_lt
  have hle := h.offset_le
  unfold FatFile.left
  omega

/-- The exit at the end of the chain counts from the size of the request. -/
theorem readOnward_cut {stop : Nat} (hfills : dev.Fills)
    (hbytes : priv.bytesPerCluster = 512 * priv.bpb.sectorsPerCluster)
    (htable : dev.HasTable priv fat) (hpos : 0 < priv.bytesPerCluster)
    (htrail : Trail fat (· < fatClusterEnd) clus cs stop) (hclus : clus < 2 ^ 16)
    (hmore : cs.length * priv.bytesPerCluster + priv.bytesPerCluster < remaining) :
    Yields (readOnward dev priv file size full clus remaining out)
      (Advances file (size - (remaining - cs.length * priv.bytesPerCluster))
        (out.length + cs.length * priv.bytesPerCluster)) := by
  unfold readOnward
  refine (readFullClusters_cut hfills hbytes htable hpos htrail hclus hmore
    (Nat.lt_succ_self _)).bind fun walk ⟨hend, hlt, hrem, hlen⟩ => ?_
  rw [if_pos hend]
  refine .pure ⟨?_, hlen, walk.clus, hlt, ?_⟩
  · rw [hrem]
  · rw [hrem]

/-- The other exit counts from the clipped size, and stores all that remained. -/
theorem readOnward_whole (hfills : dev.Fills)
    (hbytes : priv.bytesPerCluster = 512 * priv.bpb.sectorsPerCluster)
    (htable : dev.HasTable priv fat) (hpos : 0 < priv.bytesPerCluster)
    (htrail : ∀ cs stop, Trail fat (· < fatClusterEnd) clus cs stop →
      remaining ≤ cs.length * priv.bytesPerCluster + priv.bytesPerCluster)
    (hclus : clus < 2 ^ 16) :
    Yields (readOnward dev priv file size full clus remaining out)
      (Advances file full (out.length + remaining)) := by
  unfold readOnward
  refine (readFullClusters_whole hfills hbytes htable hpos htrail hclus
    (Nat.lt_succ_self _)).bind fun walk ⟨hend, hlt, hrem, hlen⟩ => ?_
  rw [if_neg (by rw [hend]; exact Bool.false_ne_true)]
  have hall : walk.remaining - min priv.bytesPerCluster walk.remaining = 0 := by omega
  dsimp only
  rw [hall, Nat.sub_zero]
  split
  · refine (readCluster_yields hfills hbytes).bind fun answer hanswer => ?_
    refine .pure ⟨rfl, ?_, walk.clus, hlt, rfl⟩
    rw [List.length_append, List.length_take, hanswer]
    omega
  · refine .pure ⟨rfl, ?_, walk.clus, hlt, rfl⟩
    change walk.out.length = _
    omega

/-- The device fails the read of the first cluster. -/
def FirstReadFails (dev : BlkDev σ) (priv : FatPriv) (file : FatFile) (s : σ) : Prop :=
  ∀ answer s', readCluster dev priv file.currentCluster s = some (answer, s') →
    answer.1 ≠ priv.bpb.sectorsPerCluster

/-- A first read that does not fail gives the blocks of a cluster. -/
theorem first_read (hfirst : ¬ FirstReadFails dev priv file s) :
    ∃ answer s', readCluster dev priv file.currentCluster s = some (answer, s') ∧
      answer.1 = priv.bpb.sectorsPerCluster := by
  refine ⟨_, _, rfl, ?_⟩
  by_contra hne
  refine hfirst fun answer s' h => ?_
  have hcode := congrArg (fun p => p.1.1) (Option.some.inj h)
  exact fun heq => hne (hcode.trans heq)

/-- Behind its first cluster, a call goes on from that cluster or from the next. -/
theorem fatRead_behind {Q : ReadResult → Prop} (hfills : dev.Fills)
    (hbytes : priv.bytesPerCluster = 512 * priv.bpb.sectorsPerCluster)
    (htable : dev.HasTable priv fat) (hpos : 0 < priv.bytesPerCluster) (hfile : file.Regular)
    (hsome : min size file.left ≠ 0) (hfirst : ¬ FirstReadFails dev priv file s)
    (hrest : ∀ clus out, clus < 2 ^ 16 →
      out.length = min (file.clusterRest priv) (min size file.left) →
      (file.clusterRest priv ≤ min size file.left → clus = fat file.currentCluster) →
      Yields (readOnward dev priv file size (min size file.left) clus
        (min size file.left - min (file.clusterRest priv) (min size file.left)) out) Q) :
    ∃ r s', fatRead dev priv file size s = some (r, s') ∧ Q r := by
  obtain ⟨answer, s₁, hread, hcode⟩ := first_read hfirst
  have hlen : answer.2.length = priv.bytesPerCluster := by
    obtain ⟨answer', s', hread', hlen⟩ := readCluster_yields hfills hbytes s
    rw [hread] at hread'
    cases hread'
    exact hlen
  have hmod := Nat.mod_lt file.currentOffset hpos
  have hout : ((answer.2.drop (file.currentOffset % priv.bytesPerCluster)).take
      (min (file.clusterRest priv) (min size file.left))).length =
        min (file.clusterRest priv) (min size file.left) := by
    rw [List.length_take, List.length_drop, hlen]
    unfold FatFile.clusterRest
    omega
  unfold fatRead
  dsimp only
  rw [hfile.fullSize_eq, if_neg hsome, hfile.listing]
  dsimp only
  rw [bind_run hread, hcode, if_neg (not_not.mpr rfl), if_neg (Nat.ne_of_gt hpos)]
  refine (show Yields _ Q from ?_) s₁
  split
  · refine (nextCluster_yields htable hfile.cluster_lt).bind fun next ⟨hnext, hlt⟩ => ?_
    exact hrest next _ hlt hout fun _ => hnext
  · rename_i hinside
    rw [pure_bind]
    refine hrest file.currentCluster _ hfile.cluster_lt hout fun hle => ?_
    exact absurd (Nat.min_eq_left hle) hinside

/-- The call that the end of the chain cuts short. -/
theorem fatRead_cut (hfills : dev.Fills)
    (hbytes : priv.bytesPerCluster = 512 * priv.bpb.sectorsPerCluster)
    (htable : dev.HasTable priv fat) (hpos : 0 < priv.bytesPerCluster) (hfile : file.Regular)
    (hsome : min size file.left ≠ 0) (hfirst : ¬ FirstReadFails dev priv file s)
    (hcut : CutShort priv fat file size cs) :
    ∃ r s', fatRead dev priv file size s = some (r, s') ∧
      Advances file
        (size - (min size file.left -
          (file.clusterRest priv + cs.length * priv.bytesPerCluster)))
        (file.clusterRest priv + cs.length * priv.bytesPerCluster) r := by
  obtain ⟨⟨stop, htrail⟩, hmore⟩ := hcut
  refine fatRead_behind hfills hbytes htable hpos hfile hsome hfirst
    fun clus out hlt hout hnext => ?_
  obtain rfl := hnext (by omega)
  have hrest : min (file.clusterRest priv) (min size file.left) = file.clusterRest priv :=
    Nat.min_eq_left (by omega)
  rw [hrest] at hout ⊢
  refine (readOnward_cut hfills hbytes htable hpos htrail hlt (by omega)).mono fun r hr => ?_
  rwa [hout, Nat.sub_sub] at hr

/-- The call that is not cut short. -/
theorem fatRead_whole (hfills : dev.Fills)
    (hbytes : priv.bytesPerCluster = 512 * priv.bpb.sectorsPerCluster)
    (htable : dev.HasTable priv fat) (hpos : 0 < priv.bytesPerCluster) (hfile : file.Regular)
    (hsome : min size file.left ≠ 0) (hfirst : ¬ FirstReadFails dev priv file s)
    (hwhole : ∀ cs, ¬ CutShort priv fat file size cs) :
    ∃ r s', fatRead dev priv file size s = some (r, s') ∧
      Advances file (min size file.left) (min size file.left) r := by
  refine fatRead_behind hfills hbytes htable hpos hfile hsome hfirst
    fun clus out hlt hout hnext => ?_
  have hend : ∀ cs stop, Trail fat (· < fatClusterEnd) clus cs stop →
      min size file.left - min (file.clusterRest priv) (min size file.left) ≤
        cs.length * priv.bytesPerCluster + priv.bytesPerCluster := by
    intro cs stop htrail
    by_cases hle : file.clusterRest priv ≤ min size file.left
    · obtain rfl := hnext hle
      by_contra hmore
      exact hwhole cs ⟨⟨stop, htrail⟩, by omega⟩
    · omega
  refine (readOnward_whole hfills hbytes htable hpos hend hlt).mono fun r hr => ?_
  rwa [hout, Nat.add_sub_cancel' (Nat.min_le_right _ _)] at hr

end Call

/-! ## Counting -/

/-- The call returns -1 and leaves the handle as it was, or it returns the number of
the bytes it has stored, which are at most those asked for and which the offset has
grown by; the offset is inside of the file. -/
def Counted (fileSize : Nat) (file : FatFile) (size : Nat) (r : ReadResult) : Prop :=
  ((r.ret = -1 ∧ r.file = file) ∨
    (r.ret = r.out.length ∧ r.out.length ≤ size ∧
      r.file.currentOffset = file.currentOffset + r.out.length)) ∧
    r.file.currentOffset ≤ fileSize

/-- Where a call counts what it stores: a cluster has bytes, a request that the end of
the chain cuts short is not larger than what is left of the file, and an `int` holds
the number of bytes. -/
def CountsRight (priv : FatPriv) (fat : Nat → Nat) (file : FatFile) (size : Nat) : Prop :=
  0 < priv.bytesPerCluster ∧
    (∀ cs, CutShort priv fat file size cs → size ≤ file.left ∧
      file.clusterRest priv + cs.length * priv.bytesPerCluster < 2 ^ 31) ∧
    ((∀ cs, ¬ CutShort priv fat file size cs) → min size file.left < 2 ^ 31)

/-- The calls of a handle, with the state of the device. -/
def readStep {σ : Type} (dev : BlkDev σ) (priv : FatPriv) :
    FatFile × σ → Nat → Except Unit (FatFile × σ)
  | (file, s), size =>
    match fatRead dev priv file size s with
    | some (r, s') => .ok (r.file, s')
    | none => .error ()

/-- The call returns, and counts what it stores. -/
def CallCounts {σ : Type} (dev : BlkDev σ) (priv : FatPriv) (fileSize : Nat) (x : FatFile × σ)
    (size : Nat) : Prop :=
  ∃ r s', fatRead dev priv x.1 size x.2 = some (r, s') ∧ Counted fileSize x.1 size r

/-- The call delivers nothing, or its first read fails, or it counts right. -/
def CallSound {σ : Type} (dev : BlkDev σ) (priv : FatPriv) (fat : Nat → Nat) (x : FatFile × σ)
    (size : Nat) : Prop :=
  min size x.1.left = 0 ∨ FirstReadFails dev priv x.1 x.2 ∨ CountsRight priv fat x.1 size

section Counting

variable {σ : Type} {dev : BlkDev σ} {priv : FatPriv} {fat : Nat → Nat} {file : FatFile}
  {size n stored : Nat} {r : ReadResult} {s s' : σ}

/-- A count is right if it is that of the bytes stored, and not negative. -/
theorem Advances.counted_iff (h : Advances file n stored r) (hfile : file.Regular)
    (hn : n < 2 ^ 32) (hpos : 0 < n) (hstored : stored ≤ min size file.left) :
    Counted file.size file size r ↔ n = stored ∧ n < 2 ^ 31 := by
  obtain ⟨hret, hlen, clus, -, hafter⟩ := h
  have hoffset : r.file.currentOffset = (file.currentOffset + n) % 2 ^ 32 := by rw [hafter]
  have hlt := hfile.size_lt
  have hle := hfile.offset_le
  unfold FatFile.left at hstored
  unfold Counted
  rw [asInt_eq hn] at hret
  constructor
  · rintro ⟨⟨-, hsame⟩ | ⟨hcount, -, -⟩, -⟩
    · rw [hsame] at hoffset
      omega
    · split at hret
      all_goals omega
  · rintro ⟨rfl, hint⟩
    rw [if_pos hint] at hret
    exact ⟨Or.inr ⟨by omega, by omega, by omega⟩, by omega⟩

/-- A call that delivers nothing changes nothing. -/
theorem fatRead_ended (dev : BlkDev σ) (priv : FatPriv) (s : σ) (hfile : file.Regular)
    (hnone : min size file.left = 0) :
    ∃ s', fatRead dev priv file size s = some ({ ret := 0, file := file, out := [] }, s') :=
  fatRead_nothing (by rw [hfile.fullSize_eq, hnone]) s

/-- A call whose first read fails changes nothing. -/
theorem fatRead_failed (hfile : file.Regular) (hsome : min size file.left ≠ 0)
    (hfirst : FirstReadFails dev priv file s) :
    ∃ s', fatRead dev priv file size s = some ({ ret := -1, file := file, out := [] }, s') := by
  obtain ⟨answer, s', hread⟩ : ∃ answer s', readCluster dev priv file.currentCluster s =
    some (answer, s') := ⟨_, _, rfl⟩
  refine ⟨s', ?_⟩
  unfold fatRead
  dsimp only
  rw [hfile.fullSize_eq, if_neg hsome, hfile.listing]
  dsimp only
  rw [bind_run hread, if_pos (hfirst _ _ hread)]
  rfl

/-- Without bytes in a cluster, a call whose first read succeeds faults. -/
theorem fatRead_faults (hfile : file.Regular) (hsome : min size file.left ≠ 0)
    (hfirst : ¬ FirstReadFails dev priv file s) (hzero : priv.bytesPerCluster = 0) :
    fatRead dev priv file size s = none := by
  obtain ⟨answer, s', hread, hcode⟩ := first_read hfirst
  unfold fatRead
  dsimp only
  rw [hfile.fullSize_eq, if_neg hsome, hfile.listing]
  dsimp only
  rw [bind_run hread, if_neg (not_not.mpr hcode), if_pos hzero]

/-- Behind a first read that succeeds a call stores bytes, and its count is the right
one exactly where `CountsRight` says so. -/
theorem fatRead_advances (hfills : dev.Fills)
    (hbytes : priv.bytesPerCluster = 512 * priv.bpb.sectorsPerCluster)
    (htable : dev.HasTable priv fat) (hpos : 0 < priv.bytesPerCluster) (hfile : file.Regular)
    (hsize : size < 2 ^ 32) (hsome : min size file.left ≠ 0)
    (hfirst : ¬ FirstReadFails dev priv file s) :
    ∃ n stored r s', fatRead dev priv file size s = some (r, s') ∧ Advances file n stored r ∧
      n < 2 ^ 32 ∧ 0 < n ∧ stored ≤ min size file.left ∧
      (n = stored ∧ n < 2 ^ 31 ↔ CountsRight priv fat file size) := by
  have hmod := Nat.mod_lt file.currentOffset hpos
  have hrest : 0 < file.clusterRest priv := Nat.sub_pos_of_lt hmod
  by_cases hcut : ∃ cs, CutShort priv fat file size cs
  · obtain ⟨cs, hcut⟩ := hcut
    obtain ⟨r, s', hrun, hr⟩ := fatRead_cut hfills hbytes htable hpos hfile hsome hfirst hcut
    have hmore := hcut.2
    refine ⟨_, _, r, s', hrun, hr, by omega, by omega, by omega, ?_⟩
    refine ⟨fun ⟨hsame, hint⟩ => ⟨hpos, fun cs' hcut' => ?_, fun hwhole => absurd hcut (hwhole cs)⟩,
      fun ⟨_, hcuts, _⟩ => ?_⟩
    · rw [← hcut.unique hcut']
      omega
    · have := hcuts cs hcut
      omega
  · have hwhole : ∀ cs, ¬ CutShort priv fat file size cs := not_exists.mp hcut
    obtain ⟨r, s', hrun, hr⟩ := fatRead_whole hfills hbytes htable hpos hfile hsome hfirst hwhole
    refine ⟨_, _, r, s', hrun, hr, by omega, by omega, Nat.le_refl _, ?_⟩
    exact ⟨fun ⟨_, hint⟩ => ⟨hpos, fun cs hcut' => absurd hcut' (hwhole cs), fun _ => hint⟩,
      fun ⟨_, _, hint⟩ => ⟨rfl, hint hwhole⟩⟩

/-- One call counts exactly where it is sound. -/
theorem callCounts_iff (hfills : dev.Fills)
    (hbytes : priv.bytesPerCluster = 512 * priv.bpb.sectorsPerCluster)
    (htable : dev.HasTable priv fat) (hfile : file.Regular) (hsize : size < 2 ^ 32) :
    CallCounts dev priv file.size (file, s) size ↔ CallSound dev priv fat (file, s) size := by
  by_cases hnone : min size file.left = 0
  · obtain ⟨s', hrun⟩ := fatRead_ended dev priv s hfile hnone
    exact ⟨fun _ => .inl hnone,
      fun _ => ⟨_, s', hrun, .inr ⟨rfl, Nat.zero_le _, rfl⟩, hfile.offset_le⟩⟩
  by_cases hfirst : FirstReadFails dev priv file s
  · obtain ⟨s', hrun⟩ := fatRead_failed hfile hnone hfirst
    exact ⟨fun _ => .inr (.inl hfirst),
      fun _ => ⟨_, s', hrun, .inl ⟨rfl, rfl⟩, hfile.offset_le⟩⟩
  have hsound : CallSound dev priv fat (file, s) size ↔ CountsRight priv fat file size := by
    unfold CallSound
    rw [or_iff_right hnone, or_iff_right hfirst]
  rw [hsound]
  rcases Nat.eq_zero_or_pos priv.bytesPerCluster with hzero | hpos
  · refine ⟨fun ⟨r, s', hrun, _⟩ => ?_, fun h => absurd h.1 (by omega)⟩
    rw [fatRead_faults hfile hnone hfirst hzero] at hrun
    cases hrun
  obtain ⟨n, stored, r, s', hrun, hr, hn, hmoves, hstored, hright⟩ :=
    fatRead_advances hfills hbytes htable hpos hfile hsize hnone hfirst
  rw [← hright, ← hr.counted_iff hfile hn hmoves hstored]
  refine ⟨fun ⟨r', s'', hrun', hcounts⟩ => ?_, fun hcounts => ⟨r, s', hrun, hcounts⟩⟩
  rw [hrun] at hrun'
  cases hrun'
  exact hcounts

/-- A call that counts right leaves the handle of the file. -/
theorem fatRead_regular (hfills : dev.Fills)
    (hbytes : priv.bytesPerCluster = 512 * priv.bpb.sectorsPerCluster)
    (htable : dev.HasTable priv fat) (hfile : file.Regular) (hsize : size < 2 ^ 32)
    (hrun : fatRead dev priv file size s = some (r, s'))
    (hinside : r.file.currentOffset ≤ file.size) :
    r.file.Regular ∧ r.file.size = file.size := by
  have hsame : r.file = file → r.file.Regular ∧ r.file.size = file.size := by
    rintro heq
    rw [heq]
    exact ⟨hfile, rfl⟩
  by_cases hnone : min size file.left = 0
  · obtain ⟨s'', hrun'⟩ := fatRead_ended dev priv s hfile hnone
    rw [hrun] at hrun'
    cases hrun'
    exact hsame rfl
  by_cases hfirst : FirstReadFails dev priv file s
  · obtain ⟨s'', hrun'⟩ := fatRead_failed hfile hnone hfirst
    rw [hrun] at hrun'
    cases hrun'
    exact hsame rfl
  rcases Nat.eq_zero_or_pos priv.bytesPerCluster with hzero | hpos
  · rw [fatRead_faults hfile hnone hfirst hzero] at hrun
    cases hrun
  obtain ⟨n, stored, r', s'', hrun', hr, -⟩ :=
    fatRead_advances hfills hbytes htable hpos hfile hsize hnone hfirst
  rw [hrun] at hrun'
  cases hrun'
  obtain ⟨clus, hclus, hafter⟩ := hr.file
  rw [hafter] at hinside ⊢
  exact ⟨⟨hfile.listing, hfile.size_lt, hinside, hclus⟩, rfl⟩

end Counting

/-! ## Any number of calls -/

/-- The handle that is made of a regular file's entry. -/
theorem FatFile.regular_ofDir {entry : List UInt8} {listing : Option (List UInt8)}
    {file : FatFile}
    (hregular : (FatDir.ofEntry entry).attrs &&& (fatAttrDir ||| fatAttrVolid) = 0)
    (hopen : FatFile.ofDir (FatDir.ofEntry entry) listing = some file) :
    file.Regular ∧ file.size = (FatDir.ofEntry entry).size := by
  rw [FatFile.ofDir, if_pos hregular] at hopen
  cases hopen
  have hlow := wordOf_lt entry 28
  have hhigh := wordOf_lt entry 30
  refine ⟨⟨rfl, ?_, Nat.zero_le _, wordOf_lt _ _⟩, rfl⟩
  change wordOf entry 28 + 2 ^ 16 * wordOf entry 30 < 2 ^ 32
  omega

/-- On the handle of a regular file, whatever the disk holds and however the reads of
its data go, all calls count what they store exactly if all are sound. -/
theorem fatReads_count_iff {σ : Type} {dev : BlkDev σ} {priv : FatPriv} {fat : Nat → Nat}
    {startLba numSectors : Nat} {s₀ s₁ s : σ} {entry : List UInt8} {file : FatFile}
    {listing : Option (List UInt8)} {sizes : List Nat} (hfills : dev.Fills)
    (hmount : fatCreate dev startLba numSectors s₀ = some (.ok priv, s₁))
    (htable : dev.HasTable priv fat)
    (hregular : (FatDir.ofEntry entry).attrs &&& (fatAttrDir ||| fatAttrVolid) = 0)
    (hopen : FatFile.ofDir (FatDir.ofEntry entry) listing = some file)
    (hsizes : ∀ n ∈ sizes, n < 2 ^ 32) :
    AllSteps (readStep dev priv) (CallCounts dev priv (FatDir.ofEntry entry).size) (file, s)
        sizes ↔
      AllSteps (readStep dev priv) (CallSound dev priv fat) (file, s) sizes := by
  have hbytes := fatCreate_bytesPerCluster hmount
  refine AllSteps.iff_of_invariant
    (fun x => x.1.Regular ∧ x.1.size = (FatDir.ofEntry entry).size) ?_ ?_
    (FatFile.regular_ofDir hregular hopen)
  · rintro ⟨file, s⟩ size hmem ⟨hfile, hsize⟩
    rw [← hsize]
    exact callCounts_iff hfills hbytes htable hfile (hsizes size hmem)
  · rintro ⟨file, s⟩ size hmem ⟨file', s'⟩ ⟨hfile, hsize⟩ ⟨r, s'', hrun, -, hinside⟩ hstep
    dsimp only [readStep] at hrun hsize hinside hstep
    rw [hrun] at hstep
    cases hstep
    rw [← hsize] at hinside ⊢
    exact fatRead_regular hfills hbytes htable hfile (hsizes size hmem) hrun hinside

/-! ## A chain shorter than its file -/

/-- A volume's device fills its buffers. -/
theorem Volume.fills_device (v : Volume) : v.device.Fills := by
  intro lba n s
  change (v.bytes lba n).length = 512 * n
  rw [Volume.bytes, length_flatMap_blocks fun lba _ => v.sector_length lba, List.length_range',
    Nat.mul_comm]

/-- Where no sector number wraps around, the device of a volume reads the volume's
table. -/
theorem Volume.hasTable_device (v : Volume)
    (hfits : v.startLba + v.priv.fatStartSector + 256 ≤ 2 ^ 32) :
    v.device.HasTable v.priv v.fat := by
  intro c hc s
  have hbps : v.priv.bytesPerSector = 512 := v.bytesPerSector_eq
  refine ⟨s, ?_⟩
  change some (wordOf (v.bytes _ 1) _, s) = _
  rw [hbps, Nat.mod_eq_of_lt (by omega : c * 2 < 2 ^ 32), Volume.bytes, List.range'_one,
    List.flatMap_cons, List.flatMap_nil, List.append_nil]
  rw [Nat.mod_eq_of_lt (show v.priv.startLba + _ < 2 ^ 32 by
    change v.startLba + _ < 2 ^ 32
    omega)]
  rfl

/-- A file of 3000 bytes by its entry, in the three clusters from 2 on. -/
def shortChainEntry : List UInt8 :=
  List.replicate 11 65 ++ [0x20] ++ List.replicate 14 0 ++ [2, 0, 0xb8, 0x0b, 0, 0]

/-- The handle of this file. -/
def shortChainFile : FatFile where
  startCluster := 2
  currentCluster := 2
  currentOffset := 0
  size := 3000
  dirContents := none

/-- Reading 600 bytes and then 1000. -/
theorem fatReads_count_shortChain :
    AllSteps (readStep threeClusters.device threeClusters.priv)
        (CallCounts threeClusters.device threeClusters.priv (FatDir.ofEntry shortChainEntry).size)
        (shortChainFile, ()) [600, 1000] ↔
      AllSteps (readStep threeClusters.device threeClusters.priv)
        (CallSound threeClusters.device threeClusters.priv threeClusters.fat)
        (shortChainFile, ()) [600, 1000] := by
  obtain ⟨s, hmount⟩ := fatCreate_returns threeClusters.servedBy_device ()
  exact fatReads_count_iff threeClusters.fills_device hmount
    (threeClusters.hasTable_device (by decide +kernel)) (by decide)
    (show FatFile.ofDir (FatDir.ofEntry shortChainEntry) none = some shortChainFile by decide)
    (by decide)

/-- Reading 4000 bytes stores the 1536 of the chain, and returns 2536. -/
theorem fatReads_miscount :
    ¬∀ (σ : Type) (dev : BlkDev σ) (priv : FatPriv) (fat : Nat → Nat) (startLba numSectors : Nat)
      (s₀ s₁ s : σ) (entry : List UInt8) (file : FatFile) (sizes : List Nat), dev.Fills →
      fatCreate dev startLba numSectors s₀ = some (.ok priv, s₁) → dev.HasTable priv fat →
      (FatDir.ofEntry entry).attrs &&& (fatAttrDir ||| fatAttrVolid) = 0 →
      FatFile.ofDir (FatDir.ofEntry entry) none = some file → (∀ n ∈ sizes, n < 2 ^ 32) →
      AllSteps (readStep dev priv) (CallCounts dev priv (FatDir.ofEntry entry).size) (file, s)
        sizes := by
  intro h
  obtain ⟨s, hmount⟩ := fatCreate_returns threeClusters.servedBy_device ()
  obtain ⟨⟨r, s', hrun, hcounted, -⟩, -⟩ := h Unit threeClusters.device threeClusters.priv
    threeClusters.fat threeClusters.startLba threeClusters.numSectors () s () shortChainEntry
    shortChainFile [4000] threeClusters.fills_device hmount
    (threeClusters.hasTable_device (by decide +kernel)) (by decide) (by decide) (by decide)
  have hcall : (fatRead threeClusters.device threeClusters.priv shortChainFile 4000 ()).map
      (fun p => (p.1.ret, p.1.out.length)) = some (2536, 1536) := by decide +kernel
  dsimp only at hrun
  rw [hrun, Option.map_some] at hcall
  obtain ⟨hret, hout⟩ := Prod.mk.inj (Option.some.inj hcall)
  rw [hret, hout] at hcounted
  omega

end Microboot.Kern.Fs
