/-
  Kern/Fs/FatFollow.lean --- following a chain to its end, kern/fs/fat.c.

  `read_cluster_chain` goes on from every number from 1 to `FAT_CLUSTER_END`, and
  keeps no record of those it has been at.  Whether it ends is up to the file
  allocation table: if the table leads to a number that is not followed, the numbers
  on the way (a `Trail`) are all different, and the loop ends behind them; if it leads
  into a cycle, the call does not return.

  `readClusterChainLoop_returns` is the loop on a trail, for any table and any data.
  Of the data a relation `D` between a cluster and its contents is kept.
-/
import Microboot.Foundation.Trail
import Microboot.Kern.Fs.FatSectors

set_option autoImplicit false

namespace Microboot.Kern.Fs

open Microboot.Foundation

/-- The numbers that the loop goes on from. -/
def Followed (c : Nat) : Prop := 0 < c ∧ c ≤ fatClusterEnd

instance (c : Nat) : Decidable (Followed c) := inferInstanceAs (Decidable (_ ∧ _))

theorem Followed.lt {c : Nat} (h : Followed c) : c < 2 ^ 16 := Nat.lt_of_le_of_lt h.2 (by decide)

/-- A trail has less numbers than the loop makes rounds. -/
theorem trail_length_lt {fat : Nat → Nat} {c stop fuel : Nat} {cs : List Nat}
    (h : Trail fat Followed c cs stop) (hfuel : 2 ^ 16 ≤ fuel) : cs.length < fuel := by
  have hle : cs.length ≤ 0xfff9 := h.length_le fun d hd => Nat.lt_succ_of_le hd.2
  omega

/-- The reads of a round: the data of a cluster, and its entry. -/
def FatPriv.roundReads (priv : FatPriv) (c : Nat) : List (Nat × Nat) :=
  [priv.dataAccess c, priv.fatAccess c]

section Rounds

variable {σ : Type} {platform : Platform σ} {priv : FatPriv} {limit fuel c next asize : Nat}
  {w : FatWorld σ} {data : Buf} {others : List Region}

/-! ## Recorded reads -/

/-- A read of the device, as it is recorded. -/
theorem recorded_call {A : Int × List UInt8 → Prop} {lba n : Nat}
    (h : Yields (platform.blkdev.call lba n) A) :
    ReturnsIn (ExceptT.lift (platform.recorded.call lba n) : FatM σ _) w fun answer w' =>
      A answer ∧ w'.live = w.live ∧ w'.reads = w.reads ++ [(lba, n)] := by
  obtain ⟨answer, s, hrun, hA⟩ := h w.dev
  have hread : platform.blkdev.read lba n w.dev = (answer, s) := Option.some.inj hrun
  refine .lift (show platform.recorded.call lba n w =
    some (answer, { w with dev := s, reads := w.reads ++ [(lba, n)] }) from ?_) ⟨hA, rfl, rfl⟩
  change some (platform.recorded.read lba n w) = _
  simp only [Platform.recorded, hread]

theorem readCluster_recorded {A : Int × List UInt8 → Prop}
    (h : Yields (readCluster platform.blkdev priv c) A) :
    ReturnsIn (ExceptT.lift (readCluster platform.recorded priv c) : FatM σ _) w
      fun answer w' => A answer ∧ w'.live = w.live ∧ w'.reads = w.reads ++ [priv.dataAccess c] :=
  recorded_call h

theorem nextCluster_recorded (h : Returns (nextCluster platform.blkdev priv c) next) :
    ReturnsIn (ExceptT.lift (nextCluster platform.recorded priv c) : FatM σ _) w
      fun n w' => n = next ∧ w'.live = w.live ∧ w'.reads = w.reads ++ [priv.fatAccess c] := by
  obtain ⟨s, hs⟩ := h w.dev
  have hread := congrArg Prod.fst (Option.some.inj hs)
  exact .lift rfl ⟨hread, rfl, rfl⟩

/-- The entry that the device gives, as the driver reads it. -/
theorem nextCluster_table (hc : c < 2 ^ 16)
    (h : Returns (nextCluster platform.blkdev priv c) next) :
    Issues FatWorld.reads priv.Accesses (nextCluster platform.recorded priv c)
      fun n => n = next ∧ n < 2 ^ 16 := by
  intro w n w' hrun
  obtain ⟨hlog, hlt⟩ := nextCluster_issues hc w n w' hrun
  obtain ⟨s, hs⟩ := h w.dev
  refine ⟨hlog, ?_, hlt⟩
  have hread := congrArg Prod.fst (Option.some.inj hs)
  have hread' := congrArg Prod.fst (Option.some.inj hrun)
  exact hread'.symm.trans hread

/-! ## The loop on a trail -/

/-- A buffer of the loop: what it holds, and its block, unless it is empty and NULL. -/
structure Held (data : Buf) (asize : Nat) (others : List Region) (w : FatWorld σ) : Prop where
  length : data.bytes.length = asize
  owns : Owns data.ptr others w
  block : 0 < asize → ∃ block, data.ptr = some block ∧ asize ≤ block.size
  null : asize = 0 → data.ptr = none

/-- The loop ends at a number that it does not follow. -/
theorem readClusterChainLoop_stop (h : ¬ Followed c) :
    readClusterChainLoop platform priv (fuel + 1) c asize data = return some (data, asize) :=
  if_neg h

/-- A round of the loop. -/
theorem readClusterChainLoop_follow (h : Followed c) :
    readClusterChainLoop platform priv (fuel + 1) c asize data = (do
      let some ndata ← FatM.krealloc platform data.ptr ((asize + priv.bytesPerCluster) % 2 ^ 32)
        | FatM.kfree data.ptr
          return none
      let (_, clbuf) ← readCluster platform.recorded priv c
      FatM.store (some ndata) asize priv.bytesPerCluster
      let next ← nextCluster platform.recorded priv c
      readClusterChainLoop platform priv fuel next ((asize + priv.bytesPerCluster) % 2 ^ 32)
        { ptr := some ndata, bytes := data.bytes ++ fit priv.bytesPerCluster clbuf }) :=
  if_pos h

/-- A round appends the contents of a cluster. -/
theorem readClusterChainLoop_round {D : List UInt8 → Prop}
    {Q : Option (Buf × Nat) → FatWorld σ → Prop} (hroom : HasRoom platform limit)
    (hfollow : Followed c)
    (hdata : Yields (readCluster platform.blkdev priv c)
      fun answer => D (fit priv.bytesPerCluster answer.2))
    (hnext : Returns (nextCluster platform.blkdev priv c) next)
    (hheld : Held data asize others w) (hpos : 0 < priv.bytesPerCluster)
    (hle : asize + priv.bytesPerCluster ≤ limit)
    (hfits : asize + priv.bytesPerCluster ≤ 2 ^ 32 - 64)
    (hrest : ∀ data' bytes w', D bytes → data'.bytes = data.bytes ++ bytes →
      Held data' (asize + priv.bytesPerCluster) others w' →
      w'.reads = w.reads ++ priv.roundReads c →
      ReturnsIn (readClusterChainLoop platform priv fuel next (asize + priv.bytesPerCluster)
        data') w' Q) :
    ReturnsIn (readClusterChainLoop platform priv (fuel + 1) c asize data) w Q := by
  rw [readClusterChainLoop_follow hfollow, Nat.mod_eq_of_lt (by omega)]
  refine (krealloc_returns hroom hheld.owns (by omega) hle hfits).bind fun ptr w₁ h₁ => ?_
  obtain ⟨hreads₁, block, rfl, howns₁, hblock⟩ := h₁
  refine (readCluster_recorded hdata).bind fun answer w₂ ⟨hanswer, hlive₂, hreads₂⟩ => ?_
  refine (store_returns hblock).bind fun _ w₃ h₃ => ?_
  subst h₃
  refine (nextCluster_recorded hnext).bind fun n w₄ h₄ => ?_
  obtain ⟨rfl, hlive₄, hreads₄⟩ := h₄
  refine hrest _ _ w₄ hanswer rfl ⟨?_, ?_, fun _ => ⟨block, rfl, hblock⟩, fun h0 => by omega⟩ ?_
  · rw [List.length_append, length_fit, hheld.length]
  · rw [Owns, hlive₄, hlive₂]
    exact howns₁
  · rw [hreads₄, hreads₂, hreads₁, FatPriv.roundReads, List.append_assoc]
    rfl

/-- The loop goes along a trail, and ends behind it with the contents of its clusters. -/
theorem readClusterChainLoop_returns {D : Nat → List UInt8 → Prop} {fat : Nat → Nat}
    {cs : List Nat} {stop : Nat} (hroom : HasRoom platform limit) (hlimit : limit ≤ 2 ^ 32 - 64)
    (hpos : 0 < priv.bytesPerCluster) (htrail : Trail fat Followed c cs stop)
    (hdata : ∀ d ∈ cs, Yields (readCluster platform.blkdev priv d)
      fun answer => D d (fit priv.bytesPerCluster answer.2))
    (htable : ∀ d ∈ cs, Returns (nextCluster platform.blkdev priv d) (fat d))
    (hfuel : cs.length < fuel) (hheld : Held data asize others w)
    (hle : asize + cs.length * priv.bytesPerCluster ≤ limit) :
    ReturnsIn (readClusterChainLoop platform priv fuel c asize data) w fun result w' =>
      ∃ buf blocks, result = some (buf, asize + cs.length * priv.bytesPerCluster) ∧
        List.Forall₂ D cs blocks ∧ buf.bytes = data.bytes ++ blocks.flatten ∧
        Held buf (asize + cs.length * priv.bytesPerCluster) others w' ∧
        w'.reads = w.reads ++ cs.flatMap priv.roundReads := by
  induction htrail generalizing fuel asize data w with
  | here hstop =>
    obtain ⟨fuel, rfl⟩ : ∃ n, fuel = n + 1 := ⟨fuel - 1, by omega⟩
    rw [readClusterChainLoop_stop hstop]
    exact .pure ⟨data, [], by simp, .nil, by simp, by simpa using hheld, by simp⟩
  | @step c cs stop hgo hrest ih =>
    obtain ⟨fuel, rfl⟩ : ∃ n, fuel = n + 1 := ⟨fuel - 1, by omega⟩
    rw [List.length_cons, Nat.add_mul, Nat.one_mul] at hle ⊢
    have hsplit : asize + (cs.length * priv.bytesPerCluster + priv.bytesPerCluster) =
        asize + priv.bytesPerCluster + cs.length * priv.bytesPerCluster := by omega
    rw [hsplit] at hle ⊢
    rw [List.length_cons] at hfuel
    refine readClusterChainLoop_round hroom hgo (hdata c List.mem_cons_self)
      (htable c List.mem_cons_self) hheld hpos (by omega) (by omega)
      fun data' bytes w' hbytes hdata' hheld' hreads => ?_
    refine (ih (fun d hd => hdata d (List.mem_cons_of_mem c hd))
      (fun d hd => htable d (List.mem_cons_of_mem c hd)) (by omega) hheld' hle).mono
      fun result w'' ⟨buf, blocks, hresult, hblocks, hbuf, hheld'', hreads'⟩ => ?_
    refine ⟨buf, bytes :: blocks, hresult, .cons hbytes hblocks, ?_, hheld'', ?_⟩
    · rw [hbuf, hdata', List.flatten_cons, List.append_assoc]
    · rw [hreads', hreads, List.flatMap_cons, List.append_assoc]

/-! ## The loop on any heap -/

/-- In a round the call ends, and has made some of the round's reads, or it has made
both and goes on from the next number. -/
theorem readClusterChainLoop_goes (w : FatWorld σ) (asize : Nat) (data : Buf)
    (hfollow : Followed c)
    (hnext : Returns (nextCluster platform.blkdev priv c) next) :
    (∃ result w' reads, w'.reads = w.reads ++ reads ∧ reads <+: priv.roundReads c ∧
      ∀ fuel, (readClusterChainLoop platform priv (fuel + 1) c asize data).run w =
        some (result, w')) ∨
    ∃ data' w', w'.reads = w.reads ++ priv.roundReads c ∧
      ∀ fuel, (readClusterChainLoop platform priv (fuel + 1) c asize data).run w =
        (readClusterChainLoop platform priv fuel next ((asize + priv.bytesPerCluster) % 2 ^ 32)
          data').run w' := by
  simp only [readClusterChainLoop_follow hfollow]
  obtain ⟨result, w₁, hgrow, hreads₁⟩ :=
    krealloc_silent platform data.ptr ((asize + priv.bytesPerCluster) % 2 ^ 32) w
  rcases result with stopped | ptr
  · exact .inl ⟨_, w₁, [], by simpa using hreads₁, List.nil_prefix,
      fun fuel => run_bind_error _ hgrow⟩
  simp only [run_bind_ok _ hgrow]
  cases ptr with
  | none =>
    obtain ⟨result, w₂, hfree, hreads₂⟩ := kfree_silent data.ptr w₁
    have hnothing : w₂.reads = w.reads ++ [] := by rw [hreads₂, hreads₁, List.append_nil]
    cases result with
    | error stopped =>
      exact .inl ⟨_, w₂, [], hnothing, List.nil_prefix, fun fuel => run_bind_error _ hfree⟩
    | ok u => exact .inl ⟨_, w₂, [], hnothing, List.nil_prefix, fun fuel => run_bind_ok _ hfree⟩
  | some block =>
    obtain ⟨answer, w₂, hread, -, -, hreads₂⟩ := readCluster_recorded (w := w₁)
      (show Yields (readCluster platform.blkdev priv c) fun _ => True from
        fun s => ⟨_, _, rfl, trivial⟩)
    obtain ⟨result, w₃, hstore, hreads₃⟩ :=
      store_silent (some block) asize priv.bytesPerCluster w₂
    have hone : w₃.reads = w.reads ++ [priv.dataAccess c] := by rw [hreads₃, hreads₂, hreads₁]
    cases result with
    | error stopped =>
      exact .inl ⟨_, w₃, [priv.dataAccess c], hone, List.prefix_append _ [priv.fatAccess c],
        fun fuel => (run_bind_ok _ hread).trans (run_bind_error _ hstore)⟩
    | ok u =>
      obtain ⟨n, w₄, hentry, rfl, -, hreads₄⟩ := nextCluster_recorded (w := w₃) hnext
      refine .inr ⟨{
          ptr := some block
          bytes := data.bytes ++ fit priv.bytesPerCluster answer.2 }, w₄, ?_,
        fun fuel => (run_bind_ok _ hread).trans
          ((run_bind_ok _ hstore).trans (run_bind_ok _ hentry))⟩
      rw [hreads₄, hone, List.append_assoc]
      rfl

/-- Whatever the heap does, the loop ends on a trail, and does not read beyond it. -/
theorem readClusterChainLoop_ends (w : FatWorld σ) (asize : Nat) (data : Buf)
    {fat : Nat → Nat} {cs : List Nat} {stop : Nat} (htrail : Trail fat Followed c cs stop)
    (htable : ∀ d ∈ cs, Returns (nextCluster platform.blkdev priv d) (fat d)) :
    ∃ result w' reads, w'.reads = w.reads ++ reads ∧ reads <+: cs.flatMap priv.roundReads ∧
      ∀ fuel, cs.length < fuel →
        (readClusterChainLoop platform priv fuel c asize data).run w = some (result, w') := by
  induction htrail generalizing asize data w with
  | here hstop =>
    refine ⟨.ok (some (data, asize)), w, [], by simp, List.nil_prefix, fun fuel hfuel => ?_⟩
    obtain ⟨fuel, rfl⟩ : ∃ n, fuel = n + 1 := ⟨fuel - 1, by omega⟩
    rw [readClusterChainLoop_stop hstop]
    rfl
  | @step c cs stop hgo hrest ih =>
    have hround := readClusterChainLoop_goes w asize data hgo (htable c List.mem_cons_self)
    rw [List.flatMap_cons]
    rcases hround with ⟨result, w', reads, hreads, hprefix, hrun⟩ | ⟨data', w', hreads, hrun⟩
    · refine ⟨result, w', reads, hreads, hprefix.trans (List.prefix_append _ _),
        fun fuel hfuel => ?_⟩
      obtain ⟨fuel, rfl⟩ : ∃ n, fuel = n + 1 := ⟨fuel - 1, by omega⟩
      exact hrun fuel
    · obtain ⟨result, w'', reads, hreads', hprefix, hrun'⟩ :=
        ih w' _ data' fun d hd => htable d (List.mem_cons_of_mem c hd)
      refine ⟨result, w'', priv.roundReads c ++ reads, ?_,
        List.prefix_append_right_inj _ |>.mpr hprefix, fun fuel hfuel => ?_⟩
      · rw [hreads', hreads, List.append_assoc]
      · obtain ⟨fuel, rfl⟩ : ∃ n, fuel = n + 1 := ⟨fuel - 1, by omega⟩
        rw [List.length_cons] at hfuel
        rw [hrun, hrun' fuel (by omega)]

/-! ## Loops that return -/

/-- What is stored in a buffer of the loop is inside of its block, and the buffer is
NULL as long as nothing is. -/
structure Backed (data : Buf) (asize : Nat) : Prop where
  length : data.bytes.length = asize
  block : ∀ block ∈ data.ptr, 0 < asize ∧ asize ≤ block.size
  null : data.ptr = none → asize = 0

/-- A round that returns has stored a cluster more, its size not wrapping around. -/
theorem readClusterChainLoop_step {D : List UInt8 → Prop} {N : Nat → Prop}
    {R : Option (Buf × Nat) → Prop}
    (hread : Issues FatWorld.reads priv.Accesses (readCluster platform.recorded priv c)
      fun answer => D (fit priv.bytesPerCluster answer.2))
    (hnext : Issues FatWorld.reads priv.Accesses (nextCluster platform.recorded priv c) N)
    (hfollow : Followed c) (hpos : 0 < priv.bytesPerCluster) (hfits : priv.bytesPerCluster < 2 ^ 32)
    (hback : Backed data asize) (hasize : asize < 2 ^ 32)
    (hrest : ∀ next, N next → ∀ data' bytes, D bytes → data'.bytes = data.bytes ++ bytes →
      Backed data' (asize + priv.bytesPerCluster) → asize + priv.bytesPerCluster < 2 ^ 32 →
      priv.Reads (readClusterChainLoop platform priv fuel next (asize + priv.bytesPerCluster)
        data') R) :
    priv.Reads (readClusterChainLoop platform priv (fuel + 1) c asize data) R := by
  have hgrow : priv.Reads
      (FatM.krealloc platform data.ptr ((asize + priv.bytesPerCluster) % 2 ^ 32)) fun ptr =>
        (ptr = none → data.ptr = none) ∧
          (2 ^ 32 ≤ asize + priv.bytesPerCluster → ∀ new ∈ ptr, new.size < asize) := by
    cases hptr : data.ptr with
    | none =>
      have hnull := hback.null hptr
      exact (krealloc_reads none _).mono fun ptr _ => ⟨fun _ => rfl, fun h => by omega⟩
    | some block =>
      obtain ⟨hdata, hblock⟩ := hback.block block hptr
      refine (krealloc_issues fun _ => by omega).mono fun ptr ⟨new, hnew, hshrunk⟩ => ?_
      subst hnew
      refine ⟨nofun, fun hwrap new' hnew' => ?_⟩
      cases hnew'
      have := hshrunk (by omega)
      omega
  rw [readClusterChainLoop_follow hfollow]
  refine hgrow.bind fun ptr ⟨hnone, hwrap⟩ => ?_
  cases ptr with
  | none =>
    rw [hnone rfl]
    exact kfree_null_issues.bind fun _ (h : False) => h.elim
  | some block =>
    refine (IssuesUntil.lift hread).bind fun answer hanswer => ?_
    refine (store_issues _ _ _).bind fun _ hstore => ?_
    rw [Option.elim_some] at hstore
    have hlt : asize + priv.bytesPerCluster < 2 ^ 32 := by
      by_contra hover
      have := hwrap (by omega) block rfl
      omega
    rw [Nat.mod_eq_of_lt hlt]
    refine (IssuesUntil.lift hnext).bind fun next hN =>
      hrest next hN _ _ hanswer rfl ⟨?_, ?_, nofun⟩ hlt
    · rw [List.length_append, length_fit, hback.length]
    · rintro block' h
      cases h
      exact ⟨by omega, hstore⟩

/-- A loop that returns gives a buffer, has followed a trail, and stored it in less
than 4 GiB. -/
theorem readClusterChainLoop_only {D : Nat → List UInt8 → Prop} {fat : Nat → Nat}
    (htable : platform.blkdev.HasTable priv fat)
    (hread : ∀ d < 2 ^ 16, Issues FatWorld.reads priv.Accesses
      (readCluster platform.recorded priv d) fun answer => D d (fit priv.bytesPerCluster answer.2))
    (hc : c < 2 ^ 16) (hpos : 0 < priv.bytesPerCluster) (hfits : priv.bytesPerCluster < 2 ^ 32)
    (hback : Backed data asize) (hasize : asize < 2 ^ 32) :
    priv.Reads (readClusterChainLoop platform priv fuel c asize data) fun result =>
      ∃ r, result = some r ∧ ∃ cs stop blocks, Trail fat Followed c cs stop ∧
        List.Forall₂ D cs blocks ∧ r.1.bytes = data.bytes ++ blocks.flatten ∧
        Backed r.1 r.2 ∧ r.2 = asize + cs.length * priv.bytesPerCluster ∧ r.2 < 2 ^ 32 := by
  induction fuel generalizing c asize data with
  | zero => exact .stop _
  | succ fuel ih =>
    by_cases hfollow : Followed c
    · refine readClusterChainLoop_step (hread c hc) (nextCluster_table hc (htable c hc)) hfollow
        hpos hfits hback hasize fun next ⟨hn, hlt⟩ data' bytes hbytes hdata' hback' hasize' => ?_
      subst hn
      refine (ih hlt hback' hasize').mono fun result ⟨r, hr, cs, stop, blocks, htrail, hblocks,
        hdata, hback'', hsize, hlt⟩ => ⟨r, hr, c :: cs, stop, bytes :: blocks,
          .step hfollow htrail, .cons hbytes hblocks, ?_, hback'', ?_, hlt⟩
      · rw [hdata, hdata', List.flatten_cons, List.append_assoc]
      · rw [hsize, List.length_cons, Nat.add_mul, Nat.one_mul]
        omega
    · rw [readClusterChainLoop_stop hfollow]
      exact .pure ⟨_, rfl, [], c, [], .here hfollow, .nil, by simp, hback, by simp, hasize⟩

/-- Without bytes in a cluster no call that follows a number returns: the buffer stays
NULL. -/
theorem readClusterChainLoop_null (hfollow : Followed c) (hzero : priv.bytesPerCluster = 0) :
    priv.Reads (readClusterChainLoop platform priv fuel c 0 { ptr := none, bytes := [] })
      fun _ => False := by
  cases fuel with
  | zero => exact .stop _
  | succ fuel =>
    rw [readClusterChainLoop_follow hfollow, hzero]
    refine kalloc_zero_issues.bind fun ptr hptr => ?_
    subst hptr
    exact kfree_null_issues.bind fun _ (h : False) => h.elim

/-! ## read_cluster_chain -/

/-- The loop starts from an empty buffer. -/
theorem readClusterChain_run (size : Nat) (w : FatWorld σ) :
    (readClusterChain platform priv fuel c size).run w =
      (readClusterChainLoop platform priv fuel c 0 { ptr := none, bytes := [] } >>= fun
        | some (data, asize) => return (data, asize)
        | none => return ({ ptr := none, bytes := [] }, size) : FatM σ (Buf × Nat)).run w := rfl

/-- What the loop returns, the call returns. -/
theorem readClusterChain_result {R : Buf × Nat → Prop} (size : Nat)
    (hloop : priv.Reads
      (readClusterChainLoop platform priv fuel c 0 { ptr := none, bytes := [] })
      fun result => ∃ r, result = some r ∧ R r) :
    priv.Reads (readClusterChain platform priv fuel c size) R := by
  intro w result w' hrun
  rw [readClusterChain_run] at hrun
  refine (hloop.bind fun result ⟨r, hr, hR⟩ => ?_) w result w' hrun
  subst hr
  exact .pure hR

theorem held_null (w : FatWorld σ) : Held { ptr := none, bytes := [] } 0 w.live w :=
  ⟨rfl, List.Perm.refl _, fun hpos => absurd hpos (Nat.lt_irrefl 0), fun _ => rfl⟩

theorem backed_null : Backed { ptr := none, bytes := [] } 0 :=
  ⟨rfl, fun _ h => (Option.not_mem_none _ h).elim, fun _ => rfl⟩

/-- On a trail the call returns the contents of its clusters. -/
theorem readClusterChain_returns {D : Nat → List UInt8 → Prop} {fat : Nat → Nat}
    {cs : List Nat} {stop : Nat} (size : Nat)
    (hroom : HasRoom platform (cs.length * priv.bytesPerCluster))
    (hlimit : cs.length * priv.bytesPerCluster ≤ 2 ^ 32 - 64) (hpos : 0 < priv.bytesPerCluster)
    (htrail : Trail fat Followed c cs stop)
    (hdata : ∀ d ∈ cs, Yields (readCluster platform.blkdev priv d)
      fun answer => D d (fit priv.bytesPerCluster answer.2))
    (htable : ∀ d ∈ cs, Returns (nextCluster platform.blkdev priv d) (fat d))
    (hfuel : cs.length < fuel) (w : FatWorld σ) :
    ReturnsIn (readClusterChain platform priv fuel c size) w fun r w' =>
      ∃ blocks, r.2 = cs.length * priv.bytesPerCluster ∧ List.Forall₂ D cs blocks ∧
        r.1.bytes = blocks.flatten ∧ Held r.1 (cs.length * priv.bytesPerCluster) w.live w' ∧
        w'.reads = w.reads ++ cs.flatMap priv.roundReads := by
  rw [ReturnsIn, readClusterChain_run]
  refine (readClusterChainLoop_returns hroom hlimit hpos htrail hdata htable hfuel (held_null w)
    (Nat.le_of_eq (Nat.zero_add _))).bind fun result w' h => ?_
  obtain ⟨buf, blocks, rfl, hblocks, hbuf, hheld, hreads⟩ := h
  rw [Nat.zero_add] at hheld ⊢
  exact .pure ⟨blocks, rfl, hblocks, hbuf, hheld, hreads⟩

/-- Where the contents of the clusters are known, those of the blocks are. -/
theorem flatten_of_forall₂ {contents : Nat → List UInt8} {cs : List Nat}
    {blocks : List (List UInt8)}
    (h : List.Forall₂ (fun d bytes => bytes = contents d) cs blocks) :
    blocks.flatten = cs.flatMap contents := by
  induction h with
  | nil => rfl
  | cons hhead _ ih => rw [List.flatten_cons, List.flatMap_cons, ih, hhead]

/-- Where the contents of the clusters are known, those of the buffer are. -/
theorem readClusterChain_contents {contents : Nat → List UInt8} {fat : Nat → Nat}
    {cs : List Nat} {stop : Nat} (size : Nat)
    (hroom : HasRoom platform (cs.length * priv.bytesPerCluster))
    (hlimit : cs.length * priv.bytesPerCluster ≤ 2 ^ 32 - 64) (hpos : 0 < priv.bytesPerCluster)
    (htrail : Trail fat Followed c cs stop)
    (hdata : ∀ d ∈ cs, Yields (readCluster platform.blkdev priv d)
      fun answer => fit priv.bytesPerCluster answer.2 = contents d)
    (htable : ∀ d ∈ cs, Returns (nextCluster platform.blkdev priv d) (fat d))
    (hfuel : cs.length < fuel) (w : FatWorld σ) :
    ReturnsIn (readClusterChain platform priv fuel c size) w fun r w' =>
      r.2 = cs.length * priv.bytesPerCluster ∧ r.1.bytes = cs.flatMap contents ∧
        Held r.1 (cs.length * priv.bytesPerCluster) w.live w' ∧
        w'.reads = w.reads ++ cs.flatMap priv.roundReads := by
  refine (readClusterChain_returns (D := fun d bytes => bytes = contents d) size hroom hlimit hpos
    htrail hdata htable hfuel w).mono fun r w' ⟨blocks, hsize, hblocks, hbytes, hrest⟩ =>
      ⟨hsize, ?_, hrest⟩
  rw [hbytes, flatten_of_forall₂ hblocks]

/-- A call that returns has followed a trail, of less than 4 GiB, and returns NULL only
if it is empty. -/
theorem readClusterChain_only {D : Nat → List UInt8 → Prop} {fat : Nat → Nat}
    (htable : platform.blkdev.HasTable priv fat)
    (hread : ∀ d < 2 ^ 16, Issues FatWorld.reads priv.Accesses
      (readCluster platform.recorded priv d) fun answer => D d (fit priv.bytesPerCluster answer.2))
    (hc : c < 2 ^ 16) (hpos : 0 < priv.bytesPerCluster) (hfits : priv.bytesPerCluster < 2 ^ 32)
    (size : Nat) :
    priv.Reads (readClusterChain platform priv fuel c size) fun r =>
      ∃ cs stop blocks, Trail fat Followed c cs stop ∧ List.Forall₂ D cs blocks ∧
        r.1.bytes = blocks.flatten ∧ Backed r.1 r.2 ∧ r.2 = cs.length * priv.bytesPerCluster ∧
        r.2 < 2 ^ 32 := by
  refine readClusterChain_result size ((readClusterChainLoop_only htable hread hc hpos hfits
    backed_null (by decide)).mono fun result ⟨r, hr, h⟩ => ⟨r, hr, ?_⟩)
  simpa only [Nat.zero_add, List.nil_append] using h

/-- From the start cluster `c` the call ends, whatever the heap does: it visits the
clusters of the list, each at most once, and returns behind the last one if the heap
has room for their contents. -/
structure EndsOn (platform : Platform σ) (priv : FatPriv) (c : Nat) (cs : List Nat) : Prop where
  nodup : cs.Nodup
  ends : ∀ size w, ∃ result w' reads, w'.reads = w.reads ++ reads ∧
    reads <+: cs.flatMap priv.roundReads ∧ ∀ fuel, cs.length < fuel →
      (readClusterChain platform priv fuel c size).run w = some (result, w')
  returns : 0 < priv.bytesPerCluster → cs.length * priv.bytesPerCluster ≤ 2 ^ 32 - 64 →
    HasRoom platform (cs.length * priv.bytesPerCluster) → ∀ fuel size w, cs.length < fuel →
      ∃ r w', (readClusterChain platform priv fuel c size).run w = some (.ok r, w') ∧
        w'.reads = w.reads ++ cs.flatMap priv.roundReads

/-- However many rounds are made, the call does not return. -/
def NeverReturns (platform : Platform σ) (priv : FatPriv) (c : Nat) : Prop :=
  ∀ fuel size w r w', (readClusterChain platform priv fuel c size).run w ≠ some (.ok r, w')

theorem endsOn_of_trail {fat : Nat → Nat} {cs : List Nat} {stop : Nat}
    (htable : platform.blkdev.HasTable priv fat) (htrail : Trail fat Followed c cs stop) :
    EndsOn platform priv c cs where
  nodup := htrail.nodup
  ends := by
    intro size w
    obtain ⟨result, w', reads, hreads, hprefix, hrun⟩ := readClusterChainLoop_ends w 0
      { ptr := none, bytes := [] } htrail fun d hd => htable d (htrail.goes d hd).lt
    simp only [readClusterChain_run]
    cases result with
    | error stopped =>
      exact ⟨_, w', reads, hreads, hprefix, fun fuel hfuel => run_bind_error _ (hrun fuel hfuel)⟩
    | ok result =>
      cases result with
      | none =>
        exact ⟨_, w', reads, hreads, hprefix, fun fuel hfuel => run_bind_ok _ (hrun fuel hfuel)⟩
      | some r =>
        exact ⟨_, w', reads, hreads, hprefix, fun fuel hfuel => run_bind_ok _ (hrun fuel hfuel)⟩
  returns := by
    intro hpos hlimit hroom fuel size w hfuel
    obtain ⟨r, w', hrun, -, -, -, -, -, hreads⟩ := readClusterChain_returns
      (D := fun _ _ => True) size hroom hlimit hpos htrail (fun d _ s => ⟨_, _, rfl, trivial⟩)
      (fun d hd => htable d (htrail.goes d hd).lt) hfuel w
    exact ⟨r, w', hrun, hreads⟩

theorem neverReturns_of_endless {startLba numSectors : Nat} {fat : Nat → Nat} {s s' : σ}
    (hmount : fatCreate platform.blkdev startLba numSectors s = some (.ok priv, s'))
    (htable : platform.blkdev.HasTable priv fat) (hc : c < 2 ^ 16)
    (hendless : ¬∃ cs stop, Trail fat Followed c cs stop) : NeverReturns platform priv c := by
  intro fuel size w r w' hrun
  have hbytes := fatCreate_bytesPerCluster hmount
  have hsectors := (fatCreate_mounted hmount).sectorsPerCluster_lt
  rcases Nat.eq_zero_or_pos priv.bytesPerCluster with hzero | hpos
  · have hnever : priv.Reads (readClusterChain platform priv fuel c size) fun _ => False :=
      readClusterChain_result size ((readClusterChainLoop_null (Trail.endless hendless).1
        hzero).mono fun _ (h : False) => h.elim)
    exact (hnever w _ w' hrun).2
  · obtain ⟨cs, stop, -, htrail, -⟩ :=
      (readClusterChain_only (D := fun _ _ => True) htable (fun d hd => readCluster_issues hd) hc
        hpos (by omega) size w _ w' hrun).2
    exact hendless ⟨cs, stop, htrail⟩

/-- Whether `read_cluster_chain` ends is up to the file allocation table: on a path to
a number that is not followed it visits each number at most once; else it does not
return. -/
theorem readClusterChain_visits {startLba numSectors : Nat} {fat : Nat → Nat} {s s' : σ}
    (hmount : fatCreate platform.blkdev startLba numSectors s = some (.ok priv, s'))
    (htable : platform.blkdev.HasTable priv fat) (hc : c < 2 ^ 16) :
    (∀ cs stop, Trail fat Followed c cs stop → EndsOn platform priv c cs) ∧
      ((¬∃ cs stop, Trail fat Followed c cs stop) → NeverReturns platform priv c) :=
  ⟨fun _ _ htrail => endsOn_of_trail htable htrail, neverReturns_of_endless hmount htable hc⟩

end Rounds

/-! ## A cluster that is its own successor -/

/-- The heap of this platform does not run out. -/
theorem hasRoom_diskPlatform (sector : Nat → List UInt8) {limit : Nat}
    (h : limit ≤ 2 ^ 32 - 64) : HasRoom (diskPlatform sector) limit := by
  intro live size s hle hlt
  refine ⟨_, _, rfl, ?_⟩
  by_cases h0 : alignedSize size = 0
  · rw [alignedSize_eq_zero (by omega) h0]
    exact Nat.zero_le _
  · exact le_alignedSize hlt h0

/-- The table that a device without a state has. -/
theorem hasTable_unit (dev : BlkDev Unit) (priv : FatPriv) :
    dev.HasTable priv fun c => ((nextCluster dev priv c ()).map Prod.fst).getD 0 :=
  fun _ _ s => ⟨s, rfl⟩

/-- The small volume, the entry of cluster 2 naming cluster 2 again. -/
def selfLoop : Nat → List UInt8
  | 1 => smallBoot 1 1
  | 2 => [0xf8, 0xff, 0xff, 0xff, 2, 0]
  | _ => []

/-- The chain 2, 3, of two clusters. -/
theorem readClusterChain_visits_small :
    (∀ cs stop, Trail (fun c => ((nextCluster (diskPlatform smallVolume).blkdev
        (FatPriv.ofBpb 1 8 ⟨512, 1, 1, 1, 16, 1⟩) c ()).map Prod.fst).getD 0) Followed 2 cs stop →
      EndsOn (diskPlatform smallVolume) (FatPriv.ofBpb 1 8 ⟨512, 1, 1, 1, 16, 1⟩) 2 cs) ∧
    ((¬∃ cs stop, Trail (fun c => ((nextCluster (diskPlatform smallVolume).blkdev
        (FatPriv.ofBpb 1 8 ⟨512, 1, 1, 1, 16, 1⟩) c ()).map Prod.fst).getD 0) Followed 2 cs stop) →
      NeverReturns (diskPlatform smallVolume) (FatPriv.ofBpb 1 8 ⟨512, 1, 1, 1, 16, 1⟩) 2) :=
  readClusterChain_visits
    (show fatCreate (diskPlatform smallVolume).blkdev 1 8 () =
      some (.ok (FatPriv.ofBpb 1 8 ⟨512, 1, 1, 1, 16, 1⟩), ()) by decide +kernel)
    (hasTable_unit _ _) (by decide)

/-- The call from cluster 2 of this volume goes round for ever. -/
theorem readClusterChain_selfLoop :
    ¬∀ (σ : Type) (platform : Platform σ) (priv : FatPriv) (fat : Nat → Nat)
      (startLba numSectors c size : Nat) (s s' : σ) (w : FatWorld σ),
      fatCreate platform.blkdev startLba numSectors s = some (.ok priv, s') →
      platform.blkdev.HasTable priv fat → c < 2 ^ 16 →
      (∀ limit ≤ 2 ^ 32 - 64, HasRoom platform limit) →
      ∃ fuel r w', (readClusterChain platform priv fuel c size).run w = some (.ok r, w') := by
  intro h
  have hmount : fatCreate (diskPlatform selfLoop).blkdev 1 8 () =
      some (.ok (FatPriv.ofBpb 1 8 ⟨512, 1, 1, 1, 16, 1⟩), ()) := by decide +kernel
  have htable := hasTable_unit (diskPlatform selfLoop).blkdev
    (FatPriv.ofBpb 1 8 ⟨512, 1, 1, 1, 16, 1⟩)
  obtain ⟨fuel, r, w', hrun⟩ := h Unit (diskPlatform selfLoop) _ _ 1 8 2 0 () () ⟨(), [], []⟩
    hmount htable (by decide) fun limit hlimit => hasRoom_diskPlatform selfLoop hlimit
  refine neverReturns_of_endless hmount htable (by decide) ?_ fuel 0 _ r w' hrun
  rintro ⟨cs, stop, htrail⟩
  exact Trail.not_of_fixed (by decide) (by decide +kernel) htrail

end Microboot.Kern.Fs
