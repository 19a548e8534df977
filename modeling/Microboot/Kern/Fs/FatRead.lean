/-
  Kern/Fs/FatRead.lean --- reading a regular file call by call.

  The handle keeps an absolute offset and the cluster the offset is in.  They
  are in step (`InStep`) after a call unless the call crosses into a further
  cluster and ends on the last byte of a cluster before the end of the file: the
  loop over the full clusters then leaves the last cluster to the final, partial
  read, which does not advance.  Such a call stalls (`Stalls`), and the next one
  would deliver the same cluster again.

  `readFile` is the file as it should read: a byte sequence and a cursor.  The
  run lemma says that every sequence of calls in which nothing is asked for
  after a stall reads like it.
-/
import Mathlib.Tactic.Ring
import Microboot.Kern.Fs.Fat

set_option autoImplicit false

namespace Microboot.Kern.Fs

open Microboot.Foundation

/-! ## Reading a byte sequence -/

/-- What a sequence of reads of these sizes gives: each the next bytes, and
their number. -/
def readFile : List UInt8 → List Nat → List (Int × List UInt8)
  | _, [] => []
  | contents, n :: ns =>
    (asInt (contents.take n).length, contents.take n) :: readFile (contents.drop n) ns

/-- The calls together deliver the bytes asked for from the start of the
contents on, each call returns the number of bytes it delivered, and a call made
when everything has been delivered returns 0. -/
def Delivers (contents : List UInt8) (sizes : List Nat)
    (results : List (Int × List UInt8)) : Prop :=
  results.length = sizes.length ∧
    (results.map Prod.snd).flatten = contents.take sizes.sum ∧
    (∀ r ∈ results, r.1 = asInt r.2.length) ∧
    ∀ before r after, results = before ++ r :: after →
      (before.map Prod.snd).flatten.length = contents.length → r.1 = 0

theorem readFile_length (contents : List UInt8) (sizes : List Nat) :
    (readFile contents sizes).length = sizes.length := by
  induction sizes generalizing contents with
  | nil => rfl
  | cons n ns ih => rw [readFile, List.length_cons, ih, List.length_cons]

theorem readFile_flatten (contents : List UInt8) (sizes : List Nat) :
    ((readFile contents sizes).map Prod.snd).flatten = contents.take sizes.sum := by
  induction sizes generalizing contents with
  | nil => simp [readFile]
  | cons n ns ih =>
    rw [readFile, List.map_cons, List.flatten_cons, ih, List.sum_cons, List.take_add]

theorem readFile_ret {contents : List UInt8} {sizes : List Nat} {r : Int × List UInt8}
    (h : r ∈ readFile contents sizes) : r.1 = asInt r.2.length := by
  induction sizes generalizing contents with
  | nil => cases h
  | cons n ns ih =>
    rw [readFile, List.mem_cons] at h
    cases h with
    | inl h => rw [h]
    | inr h => exact ih h

/-- When all of the contents have been read, every further read is empty. -/
theorem readFile_done {contents : List UInt8} {sizes : List Nat} {r : Int × List UInt8}
    {before after : List (Int × List UInt8)}
    (h : readFile contents sizes = before ++ r :: after)
    (hall : (before.map Prod.snd).flatten.length = contents.length) : r.1 = 0 := by
  induction sizes generalizing contents before with
  | nil => simp [readFile] at h
  | cons n ns ih =>
    rw [readFile] at h
    cases before with
    | nil =>
      have hnil : contents = [] := by simpa using hall.symm
      rw [List.nil_append, List.cons.injEq] at h
      rw [← h.1, hnil, List.take_nil]
      rfl
    | cons b before =>
      rw [List.cons_append, List.cons.injEq] at h
      apply ih h.2
      rw [List.map_cons, List.flatten_cons, List.length_append, ← h.1, List.length_take] at hall
      rw [List.length_drop]
      omega

theorem delivers_readFile (contents : List UInt8) (sizes : List Nat) :
    Delivers contents sizes (readFile contents sizes) :=
  ⟨readFile_length contents sizes, readFile_flatten contents sizes,
    fun _ hr => readFile_ret hr, fun _ _ _ h hall => readFile_done h hall⟩

/-! ## When a call stalls -/

/-- A call for `n` bytes at offset `o` stalls: it reads more than the rest of its
first cluster, and ends on a cluster boundary before the end of the file. -/
def Stalls (clusterSize fileSize o n : Nat) : Prop :=
  clusterSize - o % clusterSize < min n (fileSize - o) ∧
    (o + min n (fileSize - o)) % clusterSize = 0 ∧ o + min n (fileSize - o) < fileSize

/-- From offset `o` on, nothing is asked for after a call that stalls. -/
def Steady (clusterSize fileSize : Nat) : Nat → List Nat → Prop
  | _, [] => True
  | o, n :: ns =>
    (Stalls clusterSize fileSize o n → ∀ n' ∈ ns, n' = 0) ∧
      Steady clusterSize fileSize (o + min n (fileSize - o)) ns

instance (clusterSize fileSize o n : Nat) : Decidable (Stalls clusterSize fileSize o n) :=
  inferInstanceAs (Decidable (_ ∧ _ ∧ _))

instance decidableSteady (clusterSize fileSize : Nat) :
    ∀ (o : Nat) (sizes : List Nat), Decidable (Steady clusterSize fileSize o sizes)
  | _, [] => isTrue trivial
  | o, n :: ns =>
    haveI := decidableSteady clusterSize fileSize (o + min n (fileSize - o)) ns
    inferInstanceAs (Decidable ((_ → _) ∧ _))

/-! ## One cluster -/

namespace Volume

variable {v : Volume} {σ : Type} {dev : BlkDev σ}

theorem bytesPerCluster_priv : v.priv.bytesPerCluster = v.clusterSize := by
  change v.bpb.bytesPerSector * v.bpb.sectorsPerCluster = _
  rw [show v.bpb.bytesPerSector = 512 from v.bytesPerSector_eq]
  rfl

theorem clusterSize_pos : 0 < v.clusterSize :=
  Nat.mul_pos (by decide) v.sectorsPerCluster_pos

theorem length_bytes (lba n : Nat) : (v.bytes lba n).length = 512 * n := by
  rw [bytes, length_flatMap_blocks fun lba _ => v.sector_length lba, List.length_range',
    Nat.mul_comm]

theorem length_clusterBytes (c : Nat) : (v.clusterBytes c).length = v.clusterSize :=
  v.length_bytes _ _

theorem IsCluster.hasCluster {c : Nat} (h : v.IsCluster c) : v.priv.HasCluster c :=
  ⟨h.1, h.2.1⟩

theorem readCluster_returns (hdev : v.ServedBy dev) {c : Nat} (h : v.IsCluster c) :
    Returns (readCluster dev v.priv c) (v.bpb.sectorsPerCluster, v.clusterBytes c) := by
  have hsectors : v.priv.dataStartSector + (c - 2) * v.bpb.sectorsPerCluster +
      v.bpb.sectorsPerCluster ≤ v.numSectors := h.hasCluster.sectors_le
  have hfits := v.partition_fits
  have hpos : 0 < v.bpb.sectorsPerCluster := v.sectorsPerCluster_pos
  have hsector : sectorOfCluster v.priv c =
      v.priv.dataStartSector + (c - 2) * v.bpb.sectorsPerCluster :=
    h.hasCluster.sectorOfCluster_eq (Nat.le_trans (Nat.le_add_left _ _) hfits)
  unfold readCluster
  rw [hsector]
  change Returns (dev.call ((v.startLba + _) % 2 ^ 32) v.bpb.sectorsPerCluster) _
  rw [Nat.mod_eq_of_lt (by omega)]
  exact hdev _ _ (by omega) (by omega)

theorem nextCluster_returns (hdev : v.ServedBy dev) {c : Nat} (h : v.IsCluster c) :
    Returns (nextCluster dev v.priv c) (v.fat c) := by
  have hfat : v.priv.fatStartSector + c * 2 / 512 < v.numSectors :=
    h.hasCluster.fat_lt (Nat.le_trans (Nat.le_add_right _ _) (Nat.le_add_right _ _))
  have hfits := v.partition_fits
  have hlast := h.2.2
  have hbps : v.priv.bytesPerSector = 512 := v.bytesPerSector_eq
  unfold nextCluster
  simp only [hbps]
  rw [Nat.mod_eq_of_lt (by omega : c * 2 < 2 ^ 32)]
  change Returns (dev.call ((v.startLba + _) % 2 ^ 32) 1 >>= _) _
  rw [Nat.mod_eq_of_lt (by omega)]
  apply Returns.bind (hdev _ 1 (by omega) (by omega))
  have hone : v.bytes (v.startLba + (v.priv.fatStartSector + c * 2 / 512)) 1 =
      v.sector (v.startLba + (v.priv.fatStartSector + c * 2 / 512)) := by
    simp [bytes]
  dsimp only
  rw [hone]
  exact Returns.pure _

/-- `clus` is the first cluster of `cs`, if there is one. -/
def AtHead (clus : Nat) (cs : List Nat) : Prop := ∀ c ∈ cs.head?, clus = c

theorem Chain.isCluster {cs : List Nat} {c : Nat} (h : v.Chain (c :: cs)) : v.IsCluster c := by
  cases cs with
  | nil => exact h.1
  | cons d cs => exact h.1

/-- The entry of a cluster of a chain leads to the rest of the chain. -/
theorem Chain.next {cs : List Nat} {c : Nat} (h : v.Chain (c :: cs)) :
    AtHead (v.fat c) cs ∧ v.Chain cs := by
  cases cs with
  | nil => exact ⟨fun c hc => by simp at hc, trivial⟩
  | cons d cs =>
    refine ⟨fun c hc => ?_, h.2.2⟩
    rw [List.head?_cons, Option.mem_some_iff] at hc
    rw [← hc]
    exact h.2.1

theorem Chain.drop {cs : List Nat} (h : v.Chain cs) (i : Nat) : v.Chain (cs.drop i) := by
  induction i generalizing cs with
  | zero => exact h
  | succ i ih =>
    cases cs with
    | nil => exact h
    | cons c cs => exact ih h.next.2

end Volume

/-! ## The loop over the full clusters -/

section Read

variable {v : Volume} {σ : Type} {dev : BlkDev σ} {dir : FatDir} {chain : List Nat}

/-- From the head of a chain `cs` that covers what remains, the loop reads `j`
clusters and stops at the head of the rest, with at most one cluster left to
read. -/
theorem readFullClusters_returns (hdev : v.ServedBy dev) (fuel : Nat) :
    ∀ (cs : List Nat) (clus remaining : Nat) (out : List UInt8), remaining < fuel →
    v.Chain cs → Volume.AtHead clus cs → remaining ≤ cs.length * v.clusterSize →
    ∃ j rest clus', remaining = j * v.clusterSize + rest ∧ rest ≤ v.clusterSize ∧
      (rest = 0 → remaining = 0) ∧ j ≤ cs.length ∧ Volume.AtHead clus' (cs.drop j) ∧
      Returns (readFullClusters dev v.priv fuel clus remaining out)
        { clus := clus'
          remaining := rest
          out := out ++ (cs.take j).flatMap v.clusterBytes
          chainEnd := false } := by
  have hsize := v.clusterSize_pos
  induction fuel with
  | zero => intro cs clus remaining out hfuel; omega
  | succ fuel ih =>
    intro cs clus remaining out hfuel hchain hhead hcovers
    unfold readFullClusters
    rw [Volume.bytesPerCluster_priv]
    by_cases hmore : remaining > v.clusterSize
    · rw [if_pos hmore]
      cases cs with
      | nil => rw [List.length_nil, Nat.zero_mul] at hcovers; omega
      | cons c cs =>
        have hclus : clus = c := hhead c rfl
        subst hclus
        have hc := hchain.isCluster
        have hnotEnd : ¬ clus ≥ fatClusterEnd := by
          have := hc.2.2
          unfold fatClusterEnd
          omega
        rw [List.length_cons, Nat.add_mul, Nat.one_mul] at hcovers
        obtain ⟨j, rest, clus', hrem, hrest, hzero, hj, hhead', hret⟩ :=
          ih cs (v.fat clus) (remaining - v.clusterSize) (out ++ v.clusterBytes clus)
            (by omega) hchain.next.2 hchain.next.1 (by omega)
        have hfull : (v.clusterBytes clus).take v.clusterSize = v.clusterBytes clus :=
          List.take_of_length_le (Nat.le_of_eq (Volume.length_clusterBytes clus))
        refine ⟨j + 1, rest, clus', ?_, hrest, ?_, ?_, hhead', ?_⟩
        · rw [Nat.add_mul, Nat.one_mul]
          omega
        · intro h0
          have := hzero h0
          omega
        · rw [List.length_cons]
          omega
        · rw [if_neg hnotEnd]
          apply Returns.bind (Volume.readCluster_returns hdev hc)
          apply Returns.bind (Volume.nextCluster_returns hdev hc)
          rw [hfull, List.take_succ_cons, List.flatMap_cons, ← List.append_assoc]
          exact hret
    · rw [if_neg hmore]
      refine ⟨0, remaining, clus, by omega, by omega, fun h0 => h0, Nat.zero_le _, hhead, ?_⟩
      rw [List.take_zero, List.flatMap_nil, List.append_nil]
      exact Returns.pure _

/-! ## One call -/

/-- The handle `file` is in step with the offset `o` of a file: its current
cluster is the one that the offset is in. -/
structure InStep (v : Volume) (dir : FatDir) (chain : List Nat) (o : Nat) (file : FatFile) :
    Prop where
  listing : file.dirContents = none
  size : file.size = dir.size
  offset : file.currentOffset = o
  offset_le : o ≤ dir.size
  cluster : o < dir.size → ∃ cs, chain.drop (o / v.clusterSize) = file.currentCluster :: cs

/-- A call that asks for nothing, or is made at the end of the file, does
nothing. -/
theorem fatRead_nothing {priv : FatPriv} {file : FatFile} {n : Nat}
    (hn : min n ((file.size + 2 ^ 32 - file.currentOffset) % 2 ^ 32) = 0) :
    Returns (fatRead dev priv file n) { ret := 0, file := file, out := [] } := by
  unfold fatRead
  simp only [hn, if_true]
  exact Returns.pure _

/-- Behind the first cluster a call reads the `remaining` bytes of the clusters
`cs`, and leaves its handle at the head of what is left of them. -/
theorem readOnward_returns (hdev : v.ServedBy dev) {cs : List Nat} (clus remaining : Nat)
    (hchain : v.Chain cs) (hhead : Volume.AtHead clus cs)
    (hcovers : remaining ≤ cs.length * v.clusterSize) (file : FatFile) (size fullSize : Nat)
    (out : List UInt8) :
    ∃ j rest clus', remaining = j * v.clusterSize + rest ∧ rest ≤ v.clusterSize ∧
      (rest = 0 → remaining = 0) ∧ Volume.AtHead clus' (cs.drop j) ∧
      Returns (readOnward dev v.priv file size fullSize clus remaining out)
        { ret := asInt fullSize
          file := { file with
            currentCluster := clus'
            currentOffset := (file.currentOffset + fullSize) % 2 ^ 32 }
          out := out ++ (cs.flatMap v.clusterBytes).take remaining } := by
  obtain ⟨j, rest, clus', hrem, hrest, hzero, hj, hhead', hret⟩ :=
    readFullClusters_returns hdev (remaining + 1) cs clus remaining out (Nat.lt_succ_self _)
      hchain hhead hcovers
  refine ⟨j, rest, clus', hrem, hrest, hzero, hhead', ?_⟩
  have htake := take_flatMap_blocks (fun c _ => v.length_clusterBytes c) hj rest
  rw [hrem] at hret ⊢
  unfold readOnward
  apply Returns.bind hret
  simp only [Bool.false_eq_true, if_false]
  rw [Volume.bytesPerCluster_priv, htake, Nat.min_eq_right hrest, Nat.sub_self, Nat.sub_zero]
  by_cases hpos : rest > 0
  · cases hdrop : cs.drop j with
    | nil =>
      have hlen : cs.length ≤ j := List.drop_eq_nil_iff.mp hdrop
      have := Nat.mul_le_mul_right v.clusterSize hlen
      omega
    | cons c rest' =>
      have hc : clus' = c := hhead' c (by rw [hdrop]; rfl)
      have hcluster : v.IsCluster c := by
        have := hchain.drop j
        rw [hdrop] at this
        exact this.isCluster
      rw [if_pos hpos, hc, List.flatMap_cons, List.take_append_of_le_length
        (by rw [Volume.length_clusterBytes]; exact hrest), ← List.append_assoc]
      exact Returns.bind (Returns.bind (Volume.readCluster_returns hdev hcluster)
        (Returns.pure _)) (Returns.pure _)
  · have hrest0 : rest = 0 := by omega
    rw [if_neg hpos, hrest0, List.take_zero, List.append_nil]
    exact Returns.bind (Returns.pure _) (Returns.pure _)

namespace InStep

variable {o n : Nat} {file : FatFile} {cs : List Nat}

/-- The number of bytes a call at offset `o` is to deliver. -/
theorem fullSize_eq (hfile : v.RegularFile dir chain) (h : InStep v dir chain o file) :
    min n ((file.size + 2 ^ 32 - o) % 2 ^ 32) = min n (dir.size - o) := by
  have hle := h.offset_le
  have hlt := hfile.size_lt
  rw [h.size]
  omega

/-- The bytes asked for: the rest of the cluster the offset is in, and then the
clusters behind it. -/
theorem contents_eq (hcs : chain.drop (o / v.clusterSize) = file.currentCluster :: cs) :
    ((v.contents dir chain).drop o).take n =
      ((v.clusterBytes file.currentCluster).drop (o % v.clusterSize)).take
          (min n (dir.size - o)) ++
        (cs.flatMap v.clusterBytes).take
          (min n (dir.size - o) - (v.clusterSize - o % v.clusterSize)) := by
  rw [Volume.contents, List.drop_take, List.take_take, drop_flatMap_blocks_of_cons
    (fun c _ => v.length_clusterBytes c) hcs v.clusterSize_pos, List.take_append,
    List.length_drop, Volume.length_clusterBytes]

/-- The clusters from the offset on cover what is left of the file. -/
theorem covers (hfile : v.RegularFile dir chain) (h : InStep v dir chain o file)
    (hcs : chain.drop (o / v.clusterSize) = file.currentCluster :: cs) :
    dir.size - o + o % v.clusterSize ≤ (cs.length + 1) * v.clusterSize := by
  have hlen : chain.length - o / v.clusterSize = cs.length + 1 := by
    rw [← List.length_drop, hcs, List.length_cons]
  have hchain : chain.length * v.clusterSize =
      o / v.clusterSize * v.clusterSize + (cs.length + 1) * v.clusterSize := by
    rw [← Nat.add_mul]
    congr 1
    omega
  have hcovers := hfile.covers
  have hsplit := Nat.div_add_mod' o v.clusterSize
  have hle := h.offset_le
  omega

/-- A handle stays in step when its offset moves inside its cluster. -/
theorem stay (h : InStep v dir chain o file) {m : Nat} (hm : m ≤ dir.size - o)
    (hinside : o % v.clusterSize + m < v.clusterSize) :
    InStep v dir chain (o + m) { file with currentOffset := o + m } := by
  have hdiv : (o + m) / v.clusterSize = o / v.clusterSize := by
    conv_lhs => rw [← Nat.div_add_mod' o v.clusterSize]
    rw [Nat.add_assoc, Nat.mul_comm, Nat.mul_add_div v.clusterSize_pos,
      Nat.div_eq_of_lt hinside, Nat.add_zero]
  have hle := h.offset_le
  refine ⟨h.listing, h.size, rfl, by omega, fun hlt => ?_⟩
  rw [hdiv]
  exact h.cluster (by omega)

/-- A handle at the head of the cluster that its new offset is in is in step. -/
theorem advance (hfile : v.RegularFile dir chain) (h : InStep v dir chain o file)
    (hcs : chain.drop (o / v.clusterSize) = file.currentCluster :: cs) {m j rest clus : Nat}
    (hm : m ≤ dir.size - o)
    (hsplit : o % v.clusterSize + m = v.clusterSize + (j * v.clusterSize + rest))
    (hrest : o + m < dir.size → rest < v.clusterSize)
    (hhead : Volume.AtHead clus (cs.drop j)) :
    InStep v dir chain (o + m)
      { file with currentCluster := clus, currentOffset := o + m } := by
  have hle := h.offset_le
  refine ⟨h.listing, h.size, rfl, by omega, fun hlt => ?_⟩
  have hoffset : o + m = v.clusterSize * (o / v.clusterSize + 1 + j) + rest := by
    have hdiv := Nat.div_add_mod' o v.clusterSize
    have hmul : v.clusterSize * (o / v.clusterSize + 1 + j) =
        o / v.clusterSize * v.clusterSize + v.clusterSize + j * v.clusterSize := by ring
    omega
  have hquot : (o + m) / v.clusterSize = o / v.clusterSize + 1 + j := by
    rw [hoffset, Nat.mul_add_div v.clusterSize_pos, Nat.div_eq_of_lt (hrest hlt), Nat.add_zero]
  have hdrop : chain.drop ((o + m) / v.clusterSize) = cs.drop j := by
    rw [hquot, ← List.drop_drop, ← List.drop_drop, hcs, List.drop_one, List.tail_cons]
  rw [hdrop]
  cases hrestChain : cs.drop j with
  | nil =>
    -- the chain covers the file, so it does not end in front of the offset
    exfalso
    have hend : chain.length ≤ (o + m) / v.clusterSize := by
      rw [← List.drop_eq_nil_iff, hdrop, hrestChain]
    have hcovers := hfile.covers
    have hbytes := Nat.mul_le_mul_right v.clusterSize hend
    have hfloor := Nat.div_mul_le_self (o + m) v.clusterSize
    omega
  | cons c cs' =>
    refine ⟨cs', ?_⟩
    rw [hhead c (by rw [hrestChain]; rfl)]

end InStep

section Call

variable {o n : Nat} {file : FatFile} {cs : List Nat}

/-- A call that stays inside its first cluster moves the offset only. -/
theorem fatRead_inside (hdev : v.ServedBy dev) (hfile : v.RegularFile dir chain)
    (h : InStep v dir chain o file)
    (hcs : chain.drop (o / v.clusterSize) = file.currentCluster :: cs)
    (hsome : 0 < min n (dir.size - o))
    (hmove : o % v.clusterSize + min n (dir.size - o) < v.clusterSize) :
    Returns (fatRead dev v.priv file n)
      { ret := asInt (min n (dir.size - o))
        file := { file with currentOffset := o + min n (dir.size - o) }
        out := ((v.contents dir chain).drop o).take n } := by
  have hchain : v.Chain (file.currentCluster :: cs) := by
    rw [← hcs]
    exact hfile.valid.drop _
  have hle := h.offset_le
  have hlt := hfile.size_lt
  have hsize := v.clusterSize_pos
  obtain ⟨j, rest, clus', hrem, -, -, hhead', hret⟩ :=
    readOnward_returns hdev file.currentCluster 0 hchain
      (fun c hc => by rwa [List.head?_cons, Option.mem_some_iff] at hc) (Nat.zero_le _) file n
      (min n (dir.size - o))
      (((v.clusterBytes file.currentCluster).drop (o % v.clusterSize)).take
        (min n (dir.size - o)))
  have hj : j = 0 := by
    cases j with
    | zero => rfl
    | succ j => rw [Nat.add_mul] at hrem; omega
  rw [hj, List.drop_zero] at hhead'
  have hadvance : (o + min n (dir.size - o)) % 2 ^ 32 = o + min n (dir.size - o) :=
    Nat.mod_eq_of_lt (by omega)
  have hcnt : min (v.clusterSize - o % v.clusterSize) (min n (dir.size - o)) =
      min n (dir.size - o) := Nat.min_eq_right (by omega)
  have hnone : min n (dir.size - o) - (v.clusterSize - o % v.clusterSize) = 0 := by omega
  rw [hhead' _ rfl, h.offset, hadvance, h.listing, List.take_zero] at hret
  rw [InStep.contents_eq hcs, hnone, List.take_zero]
  unfold fatRead
  simp only [InStep.fullSize_eq hfile h, h.listing, Volume.bytesPerCluster_priv, h.offset,
    if_neg (Nat.ne_of_gt hsome), if_neg (Nat.ne_of_gt hsize)]
  apply Returns.bind (Volume.readCluster_returns hdev hchain.isCluster)
  rw [if_neg (by exact fun hne => hne rfl), hcnt, if_neg (by omega), Nat.sub_self]
  exact Returns.bind (Returns.pure _) hret

/-- A call that reads its first cluster to the end goes on from the next. -/
theorem fatRead_beyond (hdev : v.ServedBy dev) (hfile : v.RegularFile dir chain)
    (h : InStep v dir chain o file)
    (hcs : chain.drop (o / v.clusterSize) = file.currentCluster :: cs)
    (hsome : 0 < min n (dir.size - o))
    (hmove : v.clusterSize ≤ o % v.clusterSize + min n (dir.size - o)) :
    ∃ j rest clus', o % v.clusterSize + min n (dir.size - o) =
        v.clusterSize + (j * v.clusterSize + rest) ∧
      rest ≤ v.clusterSize ∧ (rest = 0 → j = 0) ∧ Volume.AtHead clus' (cs.drop j) ∧
      Returns (fatRead dev v.priv file n)
        { ret := asInt (min n (dir.size - o))
          file := { file with
            currentCluster := clus'
            currentOffset := o + min n (dir.size - o) }
          out := ((v.contents dir chain).drop o).take n } := by
  have hchain : v.Chain (file.currentCluster :: cs) := by
    rw [← hcs]
    exact hfile.valid.drop _
  have hle := h.offset_le
  have hlt := hfile.size_lt
  have hsize := v.clusterSize_pos
  have hmod := Nat.mod_lt o hsize
  have hcovers := InStep.covers hfile h hcs
  rw [Nat.add_mul, Nat.one_mul] at hcovers
  obtain ⟨j, rest, clus', hrem, hrest, hzero, hhead', hret⟩ :=
    readOnward_returns hdev (v.fat file.currentCluster)
      (min n (dir.size - o) - (v.clusterSize - o % v.clusterSize)) hchain.next.2 hchain.next.1
      (by omega) file n (min n (dir.size - o))
      (((v.clusterBytes file.currentCluster).drop (o % v.clusterSize)).take
        (v.clusterSize - o % v.clusterSize))
  have hj : rest = 0 → j = 0 := by
    intro h0
    have hrem0 := hzero h0
    cases j with
    | zero => rfl
    | succ j => rw [Nat.add_mul] at hrem; omega
  refine ⟨j, rest, clus', by omega, hrest, hj, hhead', ?_⟩
  have hlen : ((v.clusterBytes file.currentCluster).drop (o % v.clusterSize)).length =
      v.clusterSize - o % v.clusterSize := by
    rw [List.length_drop, Volume.length_clusterBytes]
  have hadvance : (o + min n (dir.size - o)) % 2 ^ 32 = o + min n (dir.size - o) :=
    Nat.mod_eq_of_lt (by omega)
  rw [h.offset, hadvance, h.listing, List.take_of_length_le (Nat.le_of_eq hlen)] at hret
  rw [InStep.contents_eq hcs, List.take_of_length_le (by omega)]
  unfold fatRead
  simp only [InStep.fullSize_eq hfile h, h.listing, Volume.bytesPerCluster_priv, h.offset,
    if_neg (Nat.ne_of_gt hsome), if_neg (Nat.ne_of_gt hsize)]
  apply Returns.bind (Volume.readCluster_returns hdev hchain.isCluster)
  rw [if_neg (by exact fun hne => hne rfl), Nat.min_eq_left (by omega), if_pos rfl,
    List.take_of_length_le (Nat.le_of_eq hlen)]
  exact Returns.bind (Volume.nextCluster_returns hdev hchain.isCluster) hret

/-- A call at offset `o` delivers the bytes asked for that are in the file, and
leaves its handle in step unless it stalls. -/
theorem fatRead_inStep (hdev : v.ServedBy dev) (hfile : v.RegularFile dir chain)
    (h : InStep v dir chain o file) (hsome : 0 < min n (dir.size - o)) :
    ∃ file', Returns (fatRead dev v.priv file n)
        { ret := asInt (min n (dir.size - o))
          file := file'
          out := ((v.contents dir chain).drop o).take n } ∧
      (¬ Stalls v.clusterSize dir.size o n →
        InStep v dir chain (o + min n (dir.size - o)) file') := by
  obtain ⟨cs, hcs⟩ := h.cluster (by omega)
  have hmod := Nat.mod_lt o v.clusterSize_pos
  by_cases hmove : o % v.clusterSize + min n (dir.size - o) < v.clusterSize
  · exact ⟨_, fatRead_inside hdev hfile h hcs hsome hmove,
      fun _ => h.stay (Nat.min_le_right _ _) hmove⟩
  · obtain ⟨j, rest, clus', hsplit, hrest, hj, hhead', hret⟩ :=
      fatRead_beyond hdev hfile h hcs hsome (by omega)
    refine ⟨_, hret, fun hsteady => ?_⟩
    apply h.advance hfile hcs (Nat.min_le_right _ _) hsplit (fun hlt => ?_) hhead'
    -- a full last cluster is what a stall is
    by_contra hfull
    have hrest' : rest = v.clusterSize := by omega
    apply hsteady
    refine ⟨by have := v.clusterSize_pos; omega, ?_, hlt⟩
    rw [Nat.add_mod, ← Nat.mod_mod o, ← Nat.add_mod, hsplit, hrest']
    simp

end Call

/-! ## A run of calls -/

theorem length_contents (hfile : v.RegularFile dir chain) :
    (v.contents dir chain).length = dir.size := by
  rw [Volume.contents, List.length_take,
    length_flatMap_blocks fun c _ => v.length_clusterBytes c]
  exact Nat.min_eq_left hfile.covers

/-- Calls that ask for nothing read nothing. -/
theorem fatReads_zeros {sizes : List Nat} (h : ∀ n ∈ sizes, n = 0) (file : FatFile)
    (contents : List UInt8) :
    Returns (fatReads dev v.priv file sizes) (readFile contents sizes) := by
  induction sizes with
  | nil => exact Returns.pure _
  | cons n ns ih =>
    have hn : n = 0 := h n (by simp)
    subst hn
    exact Returns.bind (fatRead_nothing (Nat.zero_min _))
      (Returns.bind (ih fun n hn => h n (by simp [hn])) (Returns.pure _))

/-- From a handle in step with offset `o`, steady calls read the contents from
`o` on. -/
theorem fatReads_inStep (hdev : v.ServedBy dev) (hfile : v.RegularFile dir chain)
    {sizes : List Nat} {o : Nat} {file : FatFile} (h : InStep v dir chain o file)
    (hsteady : Steady v.clusterSize dir.size o sizes) :
    Returns (fatReads dev v.priv file sizes)
      (readFile ((v.contents dir chain).drop o) sizes) := by
  induction sizes generalizing o file with
  | nil => exact Returns.pure _
  | cons n ns ih =>
    have hlen : ((v.contents dir chain).drop o).length = dir.size - o := by
      rw [List.length_drop, length_contents hfile]
    have hdrop : ((v.contents dir chain).drop o).drop n =
        (v.contents dir chain).drop (o + min n (dir.size - o)) := by
      rw [← List.drop_drop, ← hlen, List.drop_eq_drop_iff]
      omega
    rw [readFile, hdrop, List.length_take, hlen]
    by_cases hsome : 0 < min n (dir.size - o)
    · obtain ⟨file', hret, hstep⟩ := fatRead_inStep hdev hfile h hsome
      by_cases hstall : Stalls v.clusterSize dir.size o n
      · exact Returns.bind hret
          (Returns.bind (fatReads_zeros (hsteady.1 hstall) file' _) (Returns.pure _))
      · exact Returns.bind hret
          (Returns.bind (ih (hstep hstall) hsteady.2) (Returns.pure _))
    · have hnone : min n (dir.size - o) = 0 := by omega
      have hempty : ((v.contents dir chain).drop o).take n = [] :=
        List.eq_nil_of_length_eq_zero (by rw [List.length_take, hlen, hnone])
      have hret : Returns (fatRead dev v.priv file n) { ret := 0, file := file, out := [] } :=
        fatRead_nothing (by rw [h.offset, InStep.fullSize_eq hfile h, hnone])
      rw [hempty, hnone]
      rw [Steady, hnone] at hsteady
      exact Returns.bind hret (Returns.bind (ih h hsteady.2) (Returns.pure _))

/-- Mounting a volume finds its layout. -/
theorem fatCreate_returns (hdev : v.ServedBy dev) :
    Returns (fatCreate dev v.startLba v.numSectors) (.ok v.priv) := by
  have hcover : 2 * (v.clusterCount + 2) ≤ 512 * v.bpb.sectorsPerFat := v.fat_covers
  have hdata : v.bpb.nrFats * v.bpb.sectorsPerFat ≤ v.priv.dataStartSector :=
    Nat.le_trans (Nat.le_add_left _ v.bpb.nrReservedSectors) (Nat.le_add_right _ _)
  have hfats : 1 * v.bpb.sectorsPerFat ≤ v.bpb.nrFats * v.bpb.sectorsPerFat :=
    Nat.mul_le_mul_right _ v.nrFats_pos
  have hfits : v.priv.dataStartSector ≤ v.numSectors := v.data_fits
  have hone : v.bytes v.startLba 1 = v.sector v.startLba := by simp [Volume.bytes]
  unfold fatCreate
  apply Returns.bind (hdev v.startLba 1 (Nat.le_refl _) (by omega))
  simp only [hone]
  rw [if_neg (by exact fun hne => hne v.bytesPerSector_eq)]
  exact Returns.pure _

/-- On a freshly opened handle of a regular file, every sequence of calls that
asks for nothing after a stall delivers the file's contents in order. -/
theorem fatReads_delivers (hdev : v.ServedBy dev) (hfile : v.RegularFile dir chain)
    (listing : Option (List UInt8)) {sizes : List Nat}
    (hsteady : Steady v.clusterSize dir.size 0 sizes) :
    ∃ file results, FatFile.ofDir dir listing = some file ∧
      Returns (fatReads dev v.priv file sizes) results ∧
      Delivers (v.contents dir chain) sizes results := by
  have hopen : FatFile.ofDir dir listing = some
      { startCluster := dir.clusterLow
        currentCluster := dir.clusterLow
        currentOffset := 0
        size := dir.size
        dirContents := none } := by
    rw [FatFile.ofDir, if_pos hfile.regular]
  have hfresh : InStep v dir chain 0
      { startCluster := dir.clusterLow
        currentCluster := dir.clusterLow
        currentOffset := 0
        size := dir.size
        dirContents := none } := by
    refine ⟨rfl, rfl, rfl, Nat.zero_le _, fun hlt => ?_⟩
    have hcovers := hfile.covers
    rw [Nat.zero_div, List.drop_zero]
    cases chain with
    | nil => rw [List.length_nil, Nat.zero_mul] at hcovers; omega
    | cons c cs =>
      cases hfile.start with
      | inl h => cases h
      | inr h =>
        rw [List.head?_cons, Option.some.injEq] at h
        exact ⟨cs, by rw [h]⟩
  have hrun := fatReads_inStep hdev hfile hfresh hsteady
  rw [List.drop_zero] at hrun
  exact ⟨_, _, hopen, hrun, delivers_readFile _ _⟩

end Read

/-! ## A file of three clusters -/

/-- The device that a volume's sectors make. -/
def Volume.device (v : Volume) : BlkDev Unit where
  read lba n s := ((n, v.bytes lba n), s)

theorem Volume.servedBy_device (v : Volume) : v.ServedBy v.device :=
  fun _ _ _ _ s => ⟨s, rfl⟩

theorem length_smallBoot : (List.replicate 11 0 ++ [0, 2, 1, 1, 0, 1, 16, 0, 6, 0, 0xf8, 1, 0] ++
    List.replicate 488 0 : List UInt8).length = 512 := by
  decide +kernel

theorem smallPartition_fits : 0 + 6 ≤ 2 ^ 32 := by decide

/-- A volume with one sector for each of its regions, and three clusters of one
sector that make up one chain. -/
def threeClusters : Volume where
  sector
    | 0 => List.replicate 11 0 ++ [0, 2, 1, 1, 0, 1, 16, 0, 6, 0, 0xf8, 1, 0] ++
        List.replicate 488 0
    | 1 => [0xf8, 0xff, 0xff, 0xff, 3, 0, 4, 0, 0xff, 0xff] ++ List.replicate 502 0
    | lba => List.replicate 512 (UInt8.ofNat lba)
  startLba := 0
  numSectors := 6
  sector_length lba := by
    split
    · exact length_smallBoot
    · decide +kernel
    · exact List.length_replicate
  partition_fits := smallPartition_fits
  bytesPerSector_eq := by decide +kernel
  sectorsPerCluster_pos := by decide +kernel
  nrFats_pos := by decide +kernel
  data_fits := by decide +kernel
  fat_covers := by decide +kernel

/-- A file of 1300 bytes in the three clusters. -/
def threeClustersFile : FatDir := { attrs := 0x20, clusterLow := 2, size := 1300 }

theorem regularFile_threeClusters :
    threeClusters.RegularFile threeClustersFile [2, 3, 4] where
  regular := by decide
  start := Or.inr rfl
  valid := by decide +kernel
  covers := by decide +kernel
  size_lt := by decide

/-- Reading 600 bytes and then up to 1000 delivers the file. -/
theorem fatReads_delivers_threeClusters :
    ∃ file results, FatFile.ofDir threeClustersFile none = some file ∧
      Returns (fatReads threeClusters.device threeClusters.priv file [600, 1000]) results ∧
      Delivers (threeClusters.contents threeClustersFile [2, 3, 4]) [600, 1000] results :=
  fatReads_delivers threeClusters.servedBy_device regularFile_threeClusters none
    (by decide +kernel)

/-- Reading 1024 bytes stalls: the next byte is one of the second cluster, not
the first of the third. -/
theorem fatReads_repeats_cluster :
    ¬ ∃ file results, FatFile.ofDir threeClustersFile none = some file ∧
      Returns (fatReads threeClusters.device threeClusters.priv file [1024, 1]) results ∧
      Delivers (threeClusters.contents threeClustersFile [2, 3, 4]) [1024, 1] results := by
  intro ⟨file, results, hopen, hret, _, hdata, _⟩
  obtain ⟨_, hrun⟩ := hret ()
  have hfile : file =
      { startCluster := 2, currentCluster := 2, currentOffset := 0, size := 1300,
        dirContents := none } := by
    have hfresh : FatFile.ofDir threeClustersFile none = some
        { startCluster := 2, currentCluster := 2, currentOffset := 0, size := 1300,
          dirContents := none } := by decide
    rw [hfresh] at hopen
    exact (Option.some.inj hopen).symm
  have hlast : (fatReads threeClusters.device threeClusters.priv file [1024, 1] ()).map
      (fun p => (p.1.map Prod.snd).flatten.getLast?) = some (some 4) := by
    rw [hfile]
    decide +kernel
  have hwant : ((threeClusters.contents threeClustersFile [2, 3, 4]).take
      [1024, 1].sum).getLast? = some 5 := by decide +kernel
  rw [hrun, Option.map_some, hdata, hwant] at hlast
  revert hlast
  decide

end Microboot.Kern.Fs
