/-
  Kern/Fs/FatChain.lean --- reading a whole cluster chain, kern/fs/fat.c.

  `read_cluster_chain` grows its buffer by one cluster a round and follows the
  file allocation table while `cluster <= FAT_CLUSTER_END`.  The first of the
  end-of-chain markers is `FAT_CLUSTER_END` itself, so that marker is taken for
  one more cluster.

  `LeadsTo` is the path of the loop: the clusters it goes through and the number
  it arrives at.  Behind a larger marker the loop ends with the data of the path;
  at the first marker it goes on, and the buffer only grows.
-/
import Microboot.Kern.Fs.FatFollow
import Microboot.Kern.Fs.FatRead

set_option autoImplicit false

namespace Microboot.Kern.Fs

open Microboot.Foundation

/-! ## The path of the loop -/

namespace Volume

variable (v : Volume)

/-- From `clus` the file allocation table leads through the data clusters of a list
to the number `stop`. -/
def LeadsTo : Nat → List Nat → Nat → Prop
  | clus, [], stop => clus = stop
  | clus, c :: cs, stop => clus = c ∧ v.IsCluster c ∧ LeadsTo (v.fat c) cs stop

variable {v}

/-- A chain leads to its end-of-chain marker. -/
theorem Chain.leadsTo {c : Nat} {cs : List Nat} (h : v.Chain (c :: cs)) :
    v.LeadsTo c (c :: cs) (v.fat ((c :: cs).getLast (List.cons_ne_nil c cs))) := by
  induction cs generalizing c with
  | nil => exact ⟨rfl, h.1, rfl⟩
  | cons d cs ih =>
    refine ⟨rfl, h.1, ?_⟩
    rw [List.getLast_cons (List.cons_ne_nil d cs), h.2.1]
    exact ih h.2.2

/-- The marker at the end of a chain. -/
theorem Chain.marker_ge {c : Nat} {cs : List Nat} (h : v.Chain (c :: cs)) :
    fatClusterEnd ≤ v.fat ((c :: cs).getLast (List.cons_ne_nil c cs)) := by
  induction cs generalizing c with
  | nil => exact h.2
  | cons d cs ih =>
    rw [List.getLast_cons (List.cons_ne_nil d cs)]
    exact ih h.2.2

/-- A data cluster is followed. -/
theorem IsCluster.followed {c : Nat} (h : v.IsCluster c) : Followed c := by
  obtain ⟨htwo, -, hlast⟩ := h
  unfold Followed fatClusterEnd
  omega

theorem LeadsTo.isCluster {c stop : Nat} {cs : List Nat} (h : v.LeadsTo c cs stop) :
    ∀ d ∈ cs, v.IsCluster d := by
  induction cs generalizing c with
  | nil => nofun
  | cons d cs ih =>
    obtain ⟨rfl, hc, hrest⟩ := h
    exact List.forall_mem_cons.mpr ⟨hc, ih hrest⟩

/-- A path to a number that is not followed is the trail of the loop. -/
theorem LeadsTo.trail {c stop : Nat} {cs : List Nat} (h : v.LeadsTo c cs stop)
    (hstop : ¬ Followed stop) : Trail v.fat Followed c cs stop := by
  induction cs generalizing c with
  | nil =>
    obtain rfl : c = stop := h
    exact .here hstop
  | cons d cs ih =>
    obtain ⟨rfl, hc, hrest⟩ := h
    exact .step hc.followed (ih hrest)

end Volume

/-! ## A chain that ends at the first marker -/

section Onward

variable {σ : Type} {platform : Platform σ} {v : Volume} {priv : FatPriv} {fuel c asize : Nat}
  {data : Buf}

/-- The buffer only grows, and its size has 32 bits. -/
theorem readClusterChainLoop_grows (hc : c < 2 ^ 16) (hpos : 0 < priv.bytesPerCluster)
    (hfits : priv.bytesPerCluster < 2 ^ 32) (hback : Backed data asize) (hasize : asize < 2 ^ 32) :
    priv.Reads (readClusterChainLoop platform priv fuel c asize data) fun result =>
      ∃ r, result = some r ∧ data.bytes.length ≤ r.1.bytes.length ∧ r.2 < 2 ^ 32 := by
  induction fuel generalizing c asize data with
  | zero => exact .stop _
  | succ fuel ih =>
    by_cases hfollow : Followed c
    · refine readClusterChainLoop_step (D := fun _ => True) (readCluster_issues hc)
        (nextCluster_issues hc) hfollow hpos hfits hback hasize
        fun next hnext data' _ _ _ hback' hlt => ?_
      refine (ih hnext hback' hlt).mono fun result ⟨r, hr, hgrown, hsize⟩ => ⟨r, hr, ?_, hsize⟩
      rw [hback'.length] at hgrown
      rw [hback.length]
      omega
    · rw [readClusterChainLoop_stop hfollow]
      exact .pure ⟨_, rfl, Nat.le_refl _, hasize⟩

/-- The entry of a data cluster is what the table says. -/
theorem nextCluster_fat (hdev : v.ServedBy platform.blkdev) (hc : v.IsCluster c) :
    Issues FatWorld.reads v.priv.Accesses (nextCluster platform.recorded v.priv c)
      fun next => next = v.fat c :=
  (nextCluster_table hc.followed.lt (Volume.nextCluster_returns hdev hc)).mono fun _ h => h.1

/-- Arrived at a number that it follows, the loop goes on. -/
theorem readClusterChainLoop_onward (hdev : v.ServedBy platform.blkdev) {cs : List Nat}
    {stop : Nat} (hpath : v.LeadsTo c cs stop) (hstop : Followed stop)
    (hfits : v.clusterSize < 2 ^ 32) (hback : Backed data asize) (hasize : asize < 2 ^ 32) :
    v.priv.Reads (readClusterChainLoop platform v.priv fuel c asize data) fun result =>
      ∃ r, result = some r ∧
        data.bytes.length + (cs.length + 1) * v.clusterSize ≤ r.1.bytes.length := by
  have hbytes : v.priv.bytesPerCluster = v.clusterSize := Volume.bytesPerCluster_priv
  have hpos := v.clusterSize_pos
  induction cs generalizing c fuel asize data with
  | nil =>
    obtain rfl : c = stop := hpath
    cases fuel with
    | zero => exact .stop _
    | succ fuel =>
      refine readClusterChainLoop_step (D := fun _ => True) (readCluster_issues hstop.lt)
        (nextCluster_issues hstop.lt) hstop (by omega) (by omega) hback hasize
        fun next hnext data' _ _ _ hback' hlt => ?_
      refine (readClusterChainLoop_grows hnext (by omega) (by omega) hback' hlt).mono
        fun result ⟨r, hr, hgrown, _⟩ => ⟨r, hr, ?_⟩
      rw [hback'.length] at hgrown
      rw [hback.length, List.length_nil, Nat.zero_add, Nat.one_mul]
      omega
  | cons d cs ih =>
    obtain ⟨rfl, hc, hpath⟩ := hpath
    cases fuel with
    | zero => exact .stop _
    | succ fuel =>
      refine readClusterChainLoop_step (D := fun _ => True) (readCluster_issues hc.followed.lt)
        (nextCluster_fat hdev hc) hc.followed (by omega) (by omega) hback hasize
        fun next hnext data' _ _ _ hback' hlt => ?_
      subst hnext
      refine (ih hpath hback' hlt).mono fun result ⟨r, hr, hgrown⟩ => ⟨r, hr, ?_⟩
      rw [hback'.length] at hgrown
      rw [hback.length, List.length_cons, Nat.add_mul (cs.length + 1), Nat.one_mul]
      omega

end Onward

/-! ## read_cluster_chain -/

section Chain

variable {σ : Type} {platform : Platform σ} {v : Volume} {fuel size c : Nat} {cs : List Nat}
  {w : FatWorld σ}

/-- From `w`, `read_cluster_chain` on the first cluster of a chain returns a buffer
with the contents of the chain, sets `*size` to their length, and reads no other
cluster. -/
def ReadsChain (platform : Platform σ) (v : Volume) (c : Nat) (cs : List Nat) (fuel size : Nat)
    (w : FatWorld σ) : Prop :=
  ∃ buf w' reads,
    (readClusterChain platform v.priv fuel c size).run w =
      some (.ok (buf, (c :: cs).length * v.priv.bytesPerCluster), w') ∧
    buf.bytes = (c :: cs).flatMap v.clusterBytes ∧
    (∃ block ∈ w'.live, buf.ptr = some block ∧ buf.bytes.length ≤ block.size) ∧
    w'.reads = w.reads ++ reads ∧ ∀ r ∈ reads, ∃ d ∈ c :: cs, v.priv.ClusterAccess d r

theorem readsChain_of_marker (hdev : v.ServedBy platform.blkdev) (hchain : v.Chain (c :: cs))
    (hroom : HasRoom platform ((c :: cs).length * v.priv.bytesPerCluster))
    (hfuel : (c :: cs).length < fuel)
    (hmarker : v.fat ((c :: cs).getLast (List.cons_ne_nil c cs)) ≠ fatClusterEnd)
    (hfits : (c :: cs).length * v.priv.bytesPerCluster < 2 ^ 32) :
    ReadsChain platform v c cs fuel size w := by
  have hbytes : v.priv.bytesPerCluster = v.clusterSize := Volume.bytesPerCluster_priv
  have hge := hchain.marker_ge
  have hstop : ¬ Followed (v.fat ((c :: cs).getLast (List.cons_ne_nil c cs))) := fun h =>
    hmarker (Nat.le_antisymm h.2 hge)
  -- the size is a multiple of 512
  have hlimit : (c :: cs).length * v.priv.bytesPerCluster ≤ 2 ^ 32 - 64 := by
    rw [hbytes, Volume.clusterSize, Nat.mul_left_comm] at hfits ⊢
    omega
  have hpath := hchain.leadsTo
  have hdata : ∀ d ∈ c :: cs, Yields (readCluster platform.blkdev v.priv d)
      fun answer => fit v.priv.bytesPerCluster answer.2 = v.clusterBytes d := by
    intro d hd s
    obtain ⟨s', hread⟩ := Volume.readCluster_returns hdev (hpath.isCluster d hd) s
    exact ⟨_, s', hread, by rw [hbytes]; exact fit_eq_self (v.length_clusterBytes d)⟩
  obtain ⟨⟨buf, n⟩, w', hrun, hn, hcontents, hbuf, hreads⟩ := readClusterChain_contents size hroom
    hlimit (by rw [hbytes]; exact v.clusterSize_pos) (hpath.trail hstop) hdata
    (fun d hd => Volume.nextCluster_returns hdev (hpath.isCluster d hd)) hfuel w
  have hpos : 0 < (c :: cs).length * v.priv.bytesPerCluster := by
    rw [hbytes]
    exact Nat.mul_pos (Nat.succ_pos _) v.clusterSize_pos
  obtain ⟨block, hptr, hblock⟩ := hbuf.block hpos
  have howns := hbuf.owns
  rw [hptr] at howns
  refine ⟨buf, w', _, by rw [hrun, ← hn], hcontents,
    ⟨block, howns.mem, hptr, by rw [hbuf.length]; exact hblock⟩, hreads, fun r hr => ?_⟩
  obtain ⟨d, hd, hr⟩ := List.mem_flatMap.mp hr
  simp only [FatPriv.roundReads, List.mem_cons, List.not_mem_nil, or_false] at hr
  exact ⟨d, hd, hr⟩

/-- The size of a cluster has 32 bits. -/
theorem Volume.clusterSize_lt (v : Volume) : v.clusterSize < 2 ^ 32 := by
  have hsectors : v.bpb.sectorsPerCluster < 256 := byteOf_lt _ _
  unfold Volume.clusterSize
  omega

/-- The contents of a chain, and the marker it ends with, bound what the call can
return. -/
theorem ReadsChain.bounds {R : Buf × Nat → Prop} (h : ReadsChain platform v c cs fuel size w)
    (hR : v.priv.Reads (readClusterChain platform v.priv fuel c size) R) :
    ∃ buf : Buf, buf.bytes.length = (c :: cs).length * v.clusterSize ∧
      R (buf, (c :: cs).length * v.clusterSize) := by
  obtain ⟨buf, w', reads, hrun, hbytes, -⟩ := h
  rw [Volume.bytesPerCluster_priv] at hrun
  refine ⟨buf, ?_, (hR w _ w' hrun).2⟩
  rw [hbytes, length_flatMap_blocks fun d _ => v.length_clusterBytes d]

/-- A chain that ends at the first marker is not read: one more cluster is. -/
theorem ReadsChain.marker_ne (h : ReadsChain platform v c cs fuel size w)
    (hdev : v.ServedBy platform.blkdev) (hchain : v.Chain (c :: cs)) :
    v.fat ((c :: cs).getLast (List.cons_ne_nil c cs)) ≠ fatClusterEnd := by
  intro hmarker
  have hpath := hchain.leadsTo
  rw [hmarker] at hpath
  have hsize := v.clusterSize_pos
  obtain ⟨buf, hlen, hlonger⟩ := h.bounds (readClusterChain_result size
    (readClusterChainLoop_onward hdev hpath (by decide) v.clusterSize_lt backed_null (by decide)))
  dsimp only at hlonger
  rw [hlen, List.length_nil, Nat.zero_add, Nat.add_mul, Nat.one_mul] at hlonger
  omega

/-- The size that is returned has 32 bits. -/
theorem ReadsChain.size_lt (h : ReadsChain platform v c cs fuel size w) (hc : v.IsCluster c) :
    (c :: cs).length * v.priv.bytesPerCluster < 2 ^ 32 := by
  have hbytes : v.priv.bytesPerCluster = v.clusterSize := Volume.bytesPerCluster_priv
  have hsize := v.clusterSize_pos
  have hlt := v.clusterSize_lt
  obtain ⟨buf, -, -, hfits⟩ := h.bounds (readClusterChain_result size
    (readClusterChainLoop_grows hc.followed.lt (by omega) (by omega) backed_null (by decide)))
  rwa [hbytes]

/-- Given room on the heap, `read_cluster_chain` reads a chain exactly if the chain
does not end at the first of the end-of-chain markers, and its size has 32 bits. -/
theorem readClusterChain_readsChain_iff (hdev : v.ServedBy platform.blkdev)
    (hchain : v.Chain (c :: cs))
    (hroom : HasRoom platform ((c :: cs).length * v.priv.bytesPerCluster))
    (hfuel : (c :: cs).length < fuel) :
    ReadsChain platform v c cs fuel size w ↔
      v.fat ((c :: cs).getLast (List.cons_ne_nil c cs)) ≠ fatClusterEnd ∧
        (c :: cs).length * v.priv.bytesPerCluster < 2 ^ 32 :=
  ⟨fun h => ⟨h.marker_ne hdev hchain, h.size_lt hchain.isCluster⟩,
    fun h => readsChain_of_marker hdev hchain hroom hfuel h.1 h.2⟩

end Chain

/-! ## Two chains of three clusters -/

/-- The disk of a volume, and a heap that does not run out. -/
def Volume.platform (v : Volume) : Platform Unit :=
  { diskPlatform v.sector with blkdev := v.device }

theorem Volume.hasRoom_platform (v : Volume) {limit : Nat} (h : limit ≤ 2 ^ 32 - 64) :
    HasRoom v.platform limit := hasRoom_diskPlatform v.sector h

/-- The chain 2, 3, 4 with the marker 0xffff. -/
theorem readClusterChain_readsChain_threeClusters :
    ReadsChain threeClusters.platform threeClusters 2 [3, 4] 4 0 ⟨(), [], []⟩ ↔
      threeClusters.fat ([2, 3, 4].getLast (List.cons_ne_nil 2 [3, 4])) ≠ fatClusterEnd ∧
        [2, 3, 4].length * threeClusters.priv.bytesPerCluster < 2 ^ 32 :=
  readClusterChain_readsChain_iff threeClusters.servedBy_device (by decide +kernel)
    (threeClusters.hasRoom_platform (by decide +kernel)) (by decide)

/-- The sectors of the volume of three clusters, with 0xfff8 at the end of the chain. -/
def firstMarkerSector : Nat → List UInt8
  | 0 => List.replicate 11 0 ++ [0, 2, 1, 1, 0, 1, 16, 0, 6, 0, 0xf8, 1, 0] ++
      List.replicate 488 0
  | 1 => [0xf8, 0xff, 0xff, 0xff, 3, 0, 4, 0, 0xf8, 0xff] ++ List.replicate 502 0
  | lba => List.replicate 512 (UInt8.ofNat lba)

theorem length_firstMarkerSector (lba : Nat) : (firstMarkerSector lba).length = 512 := by
  unfold firstMarkerSector
  split
  · exact length_smallBoot
  · decide +kernel
  · exact List.length_replicate

def firstMarker : Volume where
  sector := firstMarkerSector
  startLba := 0
  numSectors := 6
  sector_length := length_firstMarkerSector
  partition_fits := smallPartition_fits
  bytesPerSector_eq := by decide +kernel
  sectorsPerCluster_pos := by decide +kernel
  nrFats_pos := by decide +kernel
  data_fits := by decide +kernel
  fat_covers := by decide +kernel

/-- This chain is not read, however far the loop is followed. -/
theorem readClusterChain_overruns :
    ¬∀ (σ : Type) (platform : Platform σ) (v : Volume) (c : Nat) (cs : List Nat) (size : Nat)
      (w : FatWorld σ), v.ServedBy platform.blkdev → v.Chain (c :: cs) →
      HasRoom platform ((c :: cs).length * v.priv.bytesPerCluster) →
      ∃ fuel, ReadsChain platform v c cs fuel size w := by
  intro h
  have hdev : firstMarker.ServedBy firstMarker.platform.blkdev := firstMarker.servedBy_device
  have hchain : firstMarker.Chain [2, 3, 4] := by decide +kernel
  obtain ⟨fuel, hreads⟩ := h Unit firstMarker.platform firstMarker 2 [3, 4] 0 ⟨(), [], []⟩ hdev
    hchain (firstMarker.hasRoom_platform (by decide +kernel))
  exact hreads.marker_ne hdev hchain (by decide +kernel)

end Microboot.Kern.Fs
