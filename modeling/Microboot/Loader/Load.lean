/-
  Loader/Load.lean --- loader/load.S, the first stage.

  The first stage reads one sector of the kernel image, finds the size of the image in
  it, and reads the image from its start, 128 sectors at a time.  All it tells the BIOS
  is the disk address packet at 0x500, so a run is the packets it asks with.

  The upper six bytes of a packet's block number are never written.  The rest of the
  count goes into the last request whatever it is, and is compared as a signed word.
  The buffers grow up to the stack at 7000:f000, and what interrupt 13h does to a caller
  whose stack it reads a sector over is not known.
-/
import Mathlib.Algebra.Group.Nat.Defs
import Mathlib.Data.List.Basic
import Mathlib.Tactic.SplitIfs

set_option autoImplicit false

namespace Microboot.Loader

/-! ## The disk address packet -/

/-- The packet of interrupt 13h, function 42h, at `dsk_addr`. -/
structure DiskPacket where
  size : UInt8
  zero : UInt8
  numSec : UInt16
  bufOff : UInt16
  bufSeg : UInt16
  loLba : UInt16
  /-- `dsk_hi_lba` and the four bytes behind it. -/
  hiLba : BitVec 48

namespace DiskPacket

/-- The first block that is asked for. -/
def lba (pkt : DiskPacket) : Nat := pkt.loLba.toNat + 65536 * pkt.hiLba.toNat

/-- The blocks that are asked for. -/
def sectors (pkt : DiskPacket) : List Nat := List.range' pkt.lba pkt.numSec.toNat

/-- Where the blocks go to. -/
def buf (pkt : DiskPacket) : Nat := 16 * pkt.bufSeg.toNat + pkt.bufOff.toNat

/-- The blocks do not go over the stack of `read_sector`: four words of arguments, two for the
frame, eight for `pusha` and three for the interrupt, down from 7000:f000. -/
def ClearOfStack (pkt : DiskPacket) : Prop :=
  pkt.buf + 512 * pkt.numSec.toNat ≤ 0x7F000 - 34 ∨ 0x7F000 ≤ pkt.buf

instance (pkt : DiskPacket) : Decidable pkt.ClearOfStack := inferInstanceAs (Decidable (_ ∨ _))

end DiskPacket

/-! ## load.S -/

/-- What interrupt 13h does. -/
inductive Answer where
  /-- It returns with the carry flag clear. -/
  | done
  /-- It returns with the carry flag set. -/
  | carry
  /-- It does not return to `read_sector`. -/
  | lost
deriving DecidableEq

/-- How a run ends. -/
inductive Exit where
  /-- At `.xfer`, on the way to the second stage. -/
  | xfer
  /-- In `disk_error`, or wherever interrupt 13h went. -/
  | stopped (answer : Answer)
  /-- In the handler of a divide error. -/
  | divideError
deriving DecidableEq

/-- How the run ends whose last request is answered so. -/
def Answer.exit : Answer → Exit
  | .done => .xfer
  | answer => .stopped answer

/-- `kimage_start`. -/
def kimageStart : UInt16 := 1

/-- `read_sector`: the packet that it asks with. -/
def readSector (pkt : DiskPacket) (start numSec off seg : UInt16) : DiskPacket :=
  { pkt with bufSeg := seg, bufOff := off, numSec := numSec, loLba := start }

/-- The comparison at `.read_sectors` is signed. -/
theorem toInt16_lt_iff (ax : UInt16) : ax.toInt16 < 0x80 ↔ ax.toNat < 128 ∨ 32768 ≤ ax.toNat := by
  have hax : ax.toInt16.toInt = if 2 * ax.toNat < 65536 then (ax.toNat : Int)
      else ax.toNat - 65536 := BitVec.toInt_eq_toNat_cond ax.toBitVec
  have h128 : (0x80 : Int16).toInt = 128 := rfl
  have hlt := ax.toNat_lt
  rw [Int16.lt_iff_toInt_lt, hax, h128]
  split_ifs with h
  · omega
  · omega

theorem toNat_sub_128 {ax : UInt16} (h : 128 ≤ ax.toNat) : (ax - 0x80).toNat = ax.toNat - 128 :=
  UInt16.toNat_sub_of_le ax 0x80 (UInt16.le_iff_toNat_le.mpr h)

/-- `.read_sectors` and `.read_last`: the packets from here on, and the end of the run. -/
def readSectors (int13 : DiskPacket → Answer) (pkt : DiskPacket) (ax bx cx : UInt16) :
    List DiskPacket × Exit :=
  if ax.toInt16 < 0x80 then
    let pkt := readSector pkt bx ax 0 cx
    ([pkt], (int13 pkt).exit)
  else
    let pkt := readSector pkt bx 0x80 0 cx
    match int13 pkt with
    | .done =>
      let (requests, exit) := readSectors int13 pkt (ax - 0x80) (bx + 0x80) (cx + 0x1000)
      (pkt :: requests, exit)
    | answer => ([pkt], .stopped answer)
termination_by ax.toNat
decreasing_by
  have h := (toInt16_lt_iff ax).not.mp ‹¬ ax.toInt16 < 0x80›
  rw [toNat_sub_128 (by omega)]
  omega

/-- A run of the first stage. -/
structure Run where
  /-- The request for the first sector. -/
  first : DiskPacket
  /-- The requests of the loop. -/
  loop : List DiskPacket
  exit : Exit

/-- The first request of `_start`, which stores two zero words at the bytes 0 and 1 before. -/
def firstRequest (pkt : DiskPacket) : DiskPacket :=
  readSector { pkt with size := 0, zero := 0, numSec := pkt.numSec &&& 0xFF00 } kimageStart 1 0
    0x07E0

/-- `_start`, up to the second stage, for an image that begins with `size`. -/
def start (int13 : DiskPacket → Answer) (pkt : DiskPacket) (size : UInt32) : Run :=
  let first := firstRequest pkt
  match int13 first with
  | .done =>
    -- `div bx`, of the two words of the size
    if 65536 ≤ size.toNat / 512 then
      ⟨first, [], .divideError⟩
    else
      let ax := UInt16.ofNat (size.toNat / 512)
      let dx := UInt16.ofNat (size.toNat % 512)
      if ax = 0 then
        ⟨first, [], .xfer⟩
      else
        let ax := if dx = 0 then ax else ax + 1
        let (loop, exit) := readSectors int13 first ax kimageStart 0x07E0
        ⟨first, loop, exit⟩
  | answer => ⟨first, [], .stopped answer⟩

/-! ## The loop -/

section Loop

variable {int13 : DiskPacket → Answer} {pkt : DiskPacket} {ax bx cx : UInt16}

theorem readSectors_last (h : ax.toNat < 128 ∨ 32768 ≤ ax.toNat) :
    readSectors int13 pkt ax bx cx =
      ([readSector pkt bx ax 0 cx], (int13 (readSector pkt bx ax 0 cx)).exit) := by
  rw [readSectors, if_pos ((toInt16_lt_iff ax).mpr h)]

theorem readSectors_more (h : ¬ (ax.toNat < 128 ∨ 32768 ≤ ax.toNat))
    (hdone : int13 (readSector pkt bx 0x80 0 cx) = .done) :
    readSectors int13 pkt ax bx cx =
      let (requests, exit) := readSectors int13 (readSector pkt bx 0x80 0 cx) (ax - 0x80)
        (bx + 0x80) (cx + 0x1000)
      (readSector pkt bx 0x80 0 cx :: requests, exit) := by
  rw [readSectors, if_neg (fun hlt => h ((toInt16_lt_iff ax).mp hlt))]
  simp only [hdone]

theorem readSectors_stopped (h : ¬ (ax.toNat < 128 ∨ 32768 ≤ ax.toNat))
    (hdone : int13 (readSector pkt bx 0x80 0 cx) ≠ .done) :
    readSectors int13 pkt ax bx cx =
      ([readSector pkt bx 0x80 0 cx], .stopped (int13 (readSector pkt bx 0x80 0 cx))) := by
  rw [readSectors, if_neg (fun hlt => h ((toInt16_lt_iff ax).mp hlt))]
  cases hanswer : int13 (readSector pkt bx 0x80 0 cx) with
  | done => exact absurd hanswer hdone
  | carry => simp only [hanswer]
  | lost => simp only [hanswer]

/-- Induction over the rounds of the loop. -/
theorem readSectors_induction (int13 : DiskPacket → Answer)
    {motive : DiskPacket → UInt16 → UInt16 → UInt16 → Prop}
    (last : ∀ pkt ax bx cx, ax.toNat < 128 ∨ 32768 ≤ ax.toNat → motive pkt ax bx cx)
    (more : ∀ pkt ax bx cx, ¬ (ax.toNat < 128 ∨ 32768 ≤ ax.toNat) →
      int13 (readSector pkt bx 0x80 0 cx) = .done →
      motive (readSector pkt bx 0x80 0 cx) (ax - 0x80) (bx + 0x80) (cx + 0x1000) →
      motive pkt ax bx cx)
    (stopped : ∀ pkt ax bx cx, ¬ (ax.toNat < 128 ∨ 32768 ≤ ax.toNat) →
      int13 (readSector pkt bx 0x80 0 cx) ≠ .done → motive pkt ax bx cx)
    (pkt : DiskPacket) (ax bx cx : UInt16) : motive pkt ax bx cx := by
  induction hn : ax.toNat using Nat.strongRecOn generalizing pkt ax bx cx with
  | ind n ih =>
    by_cases hlast : ax.toNat < 128 ∨ 32768 ≤ ax.toNat
    · exact last pkt ax bx cx hlast
    · by_cases hdone : int13 (readSector pkt bx 0x80 0 cx) = .done
      · refine more pkt ax bx cx hlast hdone (ih (ax - 0x80).toNat ?_ _ _ _ _ rfl)
        rw [toNat_sub_128 (by omega)]
        omega
      · exact stopped pkt ax bx cx hlast hdone

/-- Every request of a run that gets to `.xfer` has been answered. -/
theorem readSectors_answered (h : (readSectors int13 pkt ax bx cx).2 = .xfer) :
    ∀ req ∈ (readSectors int13 pkt ax bx cx).1, int13 req = .done := by
  induction pkt, ax, bx, cx using readSectors_induction int13 with
  | last pkt ax bx cx hlast =>
    rw [readSectors_last hlast] at h ⊢
    refine List.forall_mem_singleton.mpr ?_
    cases hanswer : int13 (readSector pkt bx ax 0 cx) with
    | done => rfl
    | carry => rw [hanswer] at h; cases h
    | lost => rw [hanswer] at h; cases h
  | more pkt ax bx cx hlast hdone ih =>
    rw [readSectors_more hlast hdone] at h ⊢
    exact List.forall_mem_cons.mpr ⟨hdone, ih h⟩
  | stopped pkt ax bx cx hlast hdone =>
    rw [readSectors_stopped hlast hdone] at h
    cases h

/-- A packet that asks for the blocks of the image goes where they belong. -/
structure Placed (hi : BitVec 48) (req : DiskPacket) : Prop where
  hiLba : req.hiLba = hi
  bufOff : req.bufOff = 0
  bufSeg : req.bufSeg = 0x7C0 + 0x20 * req.loLba

theorem segment_succ (hcx : cx = 0x7C0 + 0x20 * bx) : cx + 0x1000 = 0x7C0 + 0x20 * (bx + 0x80) := by
  rw [hcx, UInt16.mul_add, UInt16.add_assoc]
  rfl

theorem readSectors_placed (hcx : cx = 0x7C0 + 0x20 * bx) :
    ∀ req ∈ (readSectors int13 pkt ax bx cx).1, Placed pkt.hiLba req := by
  induction pkt, ax, bx, cx using readSectors_induction int13 with
  | last pkt ax bx cx hlast =>
    rw [readSectors_last hlast]
    exact List.forall_mem_singleton.mpr ⟨rfl, rfl, hcx⟩
  | more pkt ax bx cx hlast hdone ih =>
    rw [readSectors_more hlast hdone]
    exact List.forall_mem_cons.mpr ⟨⟨rfl, rfl, hcx⟩, ih (segment_succ hcx)⟩
  | stopped pkt ax bx cx hlast hdone =>
    rw [readSectors_stopped hlast hdone]
    exact List.forall_mem_singleton.mpr ⟨rfl, rfl, hcx⟩

/-- A request for no sector, or for more than 128. -/
def BadCount (req : DiskPacket) : Prop :=
  ¬ (1 ≤ req.numSec.toNat ∧ req.numSec.toNat ≤ 128)

/-- Behind whole requests alone, the last request is for nothing, or, where the comparison
takes the count for a negative one, for more than 128 sectors. -/
theorem readSectors_badCount (pkt : DiskPacket) (bx cx : UInt16)
    (hdone : ∀ req, int13 req = .done) (hax : 128 ∣ ax.toNat) :
    ∃ req ∈ (readSectors int13 pkt ax bx cx).1, BadCount req := by
  induction pkt, ax, bx, cx using readSectors_induction int13 with
  | last pkt ax bx cx hlast =>
    rw [readSectors_last hlast]
    refine ⟨_, List.mem_singleton_self _, ?_⟩
    show ¬ (1 ≤ ax.toNat ∧ ax.toNat ≤ 128)
    omega
  | more pkt ax bx cx hlast _ ih =>
    rw [readSectors_more hlast (hdone _)]
    obtain ⟨req, hreq, hbad⟩ := ih (by rw [toNat_sub_128 (by omega)]; omega)
    exact ⟨req, List.mem_cons_of_mem _ hreq, hbad⟩
  | stopped pkt ax bx cx _ hnot => exact absurd (hdone _) hnot

end Loop

/-! ## The stack -/

section Stack

variable {hi : BitVec 48} {req : DiskPacket}

/-- Where a placed packet's blocks go to. -/
theorem Placed.buf_eq (h : Placed hi req) (hlba : req.loLba.toNat ≤ 953) :
    req.buf = 0x7C00 + 512 * req.loLba.toNat := by
  have hmul : (0x20 * req.loLba).toNat = 32 * req.loLba.toNat := by
    rw [UInt16.toNat_mul]
    show 32 * req.loLba.toNat % 65536 = _
    omega
  have hseg : req.bufSeg.toNat = 0x7C0 + 32 * req.loLba.toNat := by
    rw [h.bufSeg, UInt16.toNat_add, hmul]
    show (0x7C0 + 32 * req.loLba.toNat) % 65536 = _
    omega
  have hoff : req.bufOff.toNat = 0 := by rw [h.bufOff]; rfl
  rw [DiskPacket.buf, hseg, hoff]
  omega

/-- The first 952 blocks stay below the stack. -/
theorem Placed.clearOfStack (h : Placed hi req)
    (hend : req.loLba.toNat + req.numSec.toNat ≤ 953) : req.ClearOfStack := by
  have hbuf := h.buf_eq (by omega)
  left
  omega

/-- The next one goes over it. -/
theorem Placed.not_clearOfStack (h : Placed 0 req) (hmem : 953 ∈ req.sectors) :
    ¬ req.ClearOfStack := by
  have hlba : req.lba = req.loLba.toNat := by rw [DiskPacket.lba, h.hiLba]; rfl
  rw [DiskPacket.sectors, List.mem_range'_1, hlba] at hmem
  have hbuf := h.buf_eq hmem.1
  rintro (hclear | hclear)
  · omega
  · omega

end Stack

/-! ## The sectors of the image -/

/-- The sectors of an image. -/
def nrSectors (size : UInt32) : Nat := (size.toNat + 511) / 512

/-- A request that the BIOS answers: it is for 1 to 128 of the `n` sectors behind the loader, and
they do not go over the stack. -/
structure Valid (n : Nat) (req : DiskPacket) : Prop where
  count : 1 ≤ req.numSec.toNat ∧ req.numSec.toNat ≤ 128
  onDisk : ∀ s ∈ req.sectors, 1 ≤ s ∧ s ≤ n
  clear : req.ClearOfStack

/-- A BIOS that reads what it is asked for. -/
def Reads (n : Nat) (int13 : DiskPacket → Answer) : Prop :=
  ∀ req, Valid n req → int13 req = .done

/-- Requests one behind the other. -/
def Consecutive (requests : List DiskPacket) : Prop :=
  ∃ b, requests.flatMap DiskPacket.sectors =
    List.range' b (requests.flatMap DiskPacket.sectors).length

/-- A run that reads `n` sectors. -/
structure Loads (n : Nat) (run : Run) : Prop where
  exit : run.exit = .xfer
  counts : ∀ req ∈ run.first :: run.loop, 1 ≤ req.numSec.toNat ∧ req.numSec.toNat ≤ 128
  sectors : ∀ s, s ∈ (run.first :: run.loop).flatMap DiskPacket.sectors ↔ 1 ≤ s ∧ s ≤ n
  consecutive : Consecutive run.loop

section Image

variable {int13 : DiskPacket → Answer} {pkt : DiskPacket} {ax bx cx : UInt16} {n : Nat}

theorem sectors_eq {start numSec off seg : UInt16} (hhi : pkt.hiLba = 0) :
    (readSector pkt start numSec off seg).sectors = List.range' start.toNat numSec.toNat := by
  have hlba : (readSector pkt start numSec off seg).lba = start.toNat := by
    show start.toNat + 65536 * pkt.hiLba.toNat = start.toNat
    rw [hhi]
    rfl
  rw [DiskPacket.sectors, hlba]
  rfl

/-- The requests of the loop, while they are for sectors of the image. -/
theorem valid_of_le (hhi : pkt.hiLba = 0) (hcx : cx = 0x7C0 + 0x20 * bx) (hbx : 1 ≤ bx.toNat)
    (hax : 1 ≤ ax.toNat ∧ ax.toNat ≤ 128) (hend : bx.toNat + ax.toNat ≤ n + 1) (hn : n ≤ 952) :
    Valid n (readSector pkt bx ax 0 cx) := by
  have hplaced : Placed pkt.hiLba (readSector pkt bx ax 0 cx) := ⟨rfl, rfl, hcx⟩
  refine ⟨hax, fun s hs => ?_, hplaced.clearOfStack ?_⟩
  · rw [sectors_eq hhi, List.mem_range'_1] at hs
    omega
  · show bx.toNat + ax.toNat ≤ 953
    omega

/-- The loop reads the sectors from `bx` on. -/
theorem readSectors_loads (hreads : Reads n int13) (hn : n ≤ 952) (hhi : pkt.hiLba = 0)
    (hcx : cx = 0x7C0 + 0x20 * bx) (hbx : 1 ≤ bx.toNat) (hend : bx.toNat + ax.toNat = n + 1)
    (hax : ¬ 128 ∣ ax.toNat) :
    (readSectors int13 pkt ax bx cx).2 = .xfer ∧
      (∀ req ∈ (readSectors int13 pkt ax bx cx).1,
        1 ≤ req.numSec.toNat ∧ req.numSec.toNat ≤ 128) ∧
      (readSectors int13 pkt ax bx cx).1.flatMap DiskPacket.sectors =
        List.range' bx.toNat ax.toNat := by
  induction pkt, ax, bx, cx using readSectors_induction int13 with
  | last pkt ax bx cx hlast =>
    have hcount : 1 ≤ ax.toNat ∧ ax.toNat ≤ 128 := by omega
    have hdone := hreads _ (valid_of_le hhi hcx hbx hcount (Nat.le_of_eq hend) hn)
    rw [readSectors_last hlast, hdone]
    refine ⟨rfl, List.forall_mem_singleton.mpr hcount, ?_⟩
    rw [List.flatMap_singleton, sectors_eq hhi]
  | more pkt ax bx cx hlast hdone ih =>
    have hbx' : (bx + 0x80).toNat = bx.toNat + 128 := by
      rw [UInt16.toNat_add]
      show (bx.toNat + 128) % 65536 = _
      omega
    have hax' : (ax - 0x80).toNat = ax.toNat - 128 := toNat_sub_128 (by omega)
    obtain ⟨hexit, hcounts, hsectors⟩ := ih hhi (segment_succ hcx) (by omega) (by omega)
      (by rw [hax']; omega)
    rw [readSectors_more hlast hdone]
    refine ⟨hexit, List.forall_mem_cons.mpr ⟨(by decide : 1 ≤ 128 ∧ 128 ≤ 128), hcounts⟩, ?_⟩
    have hsplit : ax.toNat = 128 + (ax.toNat - 128) := by omega
    rw [List.flatMap_cons, hsectors, sectors_eq hhi, hbx', hax']
    conv_rhs => rw [hsplit, ← List.range'_append_1]
    rfl
  | stopped pkt ax bx cx hlast hnot =>
    refine absurd (hreads _ (valid_of_le hhi hcx hbx (by decide) ?_ hn)) hnot
    show bx.toNat + 128 ≤ n + 1
    omega

end Image

/-! ## The run -/

section Runs

variable {int13 : DiskPacket → Answer} {pkt : DiskPacket} {size : UInt32}

theorem start_not_done (hdone : int13 (firstRequest pkt) ≠ .done) :
    (start int13 pkt size).exit ≠ .xfer := by
  unfold start
  cases hanswer : int13 (firstRequest pkt) with
  | done => exact absurd hanswer hdone
  | carry => simp
  | lost => simp

/-- An image of less than a sector is read with its size. -/
theorem start_of_lt (hdone : int13 (firstRequest pkt) = .done) (h : size.toNat < 512) :
    start int13 pkt size = ⟨firstRequest pkt, [], .xfer⟩ := by
  have hq : size.toNat / 512 = 0 := Nat.div_eq_of_lt h
  unfold start
  simp only [hdone, hq]
  rfl

/-- Any other is read from its start. -/
theorem start_of_le (hdone : int13 (firstRequest pkt) = .done) (h : 512 ≤ size.toNat)
    (hlt : size.toNat < 2 ^ 25) :
    start int13 pkt size =
      let (loop, exit) := readSectors int13 (firstRequest pkt) (UInt16.ofNat (nrSectors size)) 1
        0x07E0
      ⟨firstRequest pkt, loop, exit⟩ := by
  have hq : ¬ 65536 ≤ size.toNat / 512 := by omega
  have hax : UInt16.ofNat (size.toNat / 512) ≠ 0 := fun h0 => by
    have := congrArg UInt16.toNat h0
    rw [UInt16.toNat_ofNat'] at this
    have hzero : (0 : UInt16).toNat = 0 := rfl
    omega
  have hdx : UInt16.ofNat (size.toNat % 512) = 0 ↔ size.toNat % 512 = 0 := by
    rw [← UInt16.toNat_inj, UInt16.toNat_ofNat']
    have hzero : (0 : UInt16).toNat = 0 := rfl
    omega
  have hsectors : (if UInt16.ofNat (size.toNat % 512) = 0 then UInt16.ofNat (size.toNat / 512)
      else UInt16.ofNat (size.toNat / 512) + 1) = UInt16.ofNat (nrSectors size) := by
    simp only [hdx]
    split_ifs with h0
    · congr 1
      rw [nrSectors]
      omega
    · rw [show nrSectors size = size.toNat / 512 + 1 by rw [nrSectors]; omega, UInt16.ofNat_add]
      rfl
  unfold start
  simp only [hdone, if_neg hq, if_neg hax, hsectors]
  rfl

theorem start_first (int13 : DiskPacket → Answer) (pkt : DiskPacket) (size : UInt32) :
    (start int13 pkt size).first = firstRequest pkt := by
  unfold start
  cases hanswer : int13 (firstRequest pkt) with
  | done =>
    simp only [hanswer]
    split_ifs <;> rfl
  | carry => simp only [hanswer]
  | lost => simp only [hanswer]

theorem firstRequest_placed (pkt : DiskPacket) : Placed pkt.hiLba (firstRequest pkt) :=
  ⟨rfl, rfl, rfl⟩

/-- The requests of a run that gets to `.xfer`. -/
theorem start_requests (hlt : size.toNat < 2 ^ 25) (h : (start int13 pkt size).exit = .xfer) :
    ∀ req ∈ (start int13 pkt size).first :: (start int13 pkt size).loop,
      Placed pkt.hiLba req ∧ int13 req = .done := by
  have hdone : int13 (firstRequest pkt) = .done :=
    by_contra fun hnot => start_not_done hnot h
  rw [start_first]
  refine List.forall_mem_cons.mpr ⟨⟨firstRequest_placed pkt, hdone⟩, ?_⟩
  rcases Nat.lt_or_ge size.toNat 512 with hshort | hlong
  · rw [start_of_lt hdone hshort]
    exact List.forall_mem_nil _
  · have hplaced : ∀ req ∈ (readSectors int13 (firstRequest pkt) (UInt16.ofNat (nrSectors size)) 1
        0x07E0).1, Placed (firstRequest pkt).hiLba req := readSectors_placed rfl
    rw [start_of_le hdone hlong hlt] at h ⊢
    exact fun req hreq => ⟨hplaced req hreq, readSectors_answered h req hreq⟩

/-- The packets of a run that reads the image have no upper part. -/
theorem Loads.hiLba (h : Loads (nrSectors size) (start int13 pkt size))
    (hlt : size.toNat < 2 ^ 25) : pkt.hiLba = 0 := by
  have hmem : (firstRequest pkt).lba ∈ (firstRequest pkt).sectors := List.mem_singleton_self _
  have hle := ((h.sectors (firstRequest pkt).lba).mp (by
    rw [start_first, List.flatMap_cons]
    exact List.mem_append_left _ hmem)).2
  have hlba : (firstRequest pkt).lba = 1 + 65536 * pkt.hiLba.toNat := rfl
  rw [hlba, nrSectors] at hle
  apply BitVec.eq_of_toNat_eq
  show pkt.hiLba.toNat = 0
  omega

/-- An image of whole requests is not read as it should be by any BIOS that answers. -/
theorem not_loads_of_dvd (hdone : ∀ req, int13 req = .done) (hpos : 1 ≤ size.toNat)
    (hlt : size.toNat < 2 ^ 25) (hdvd : 128 ∣ nrSectors size) :
    ¬ Loads (nrSectors size) (start int13 pkt size) := by
  intro h
  have hlong : 512 ≤ size.toNat := by
    rw [nrSectors] at hdvd
    omega
  have hax : 128 ∣ (UInt16.ofNat (nrSectors size)).toNat := by
    rw [UInt16.toNat_ofNat']
    omega
  obtain ⟨req, hreq, hbad⟩ := readSectors_badCount (firstRequest pkt) 1 0x07E0 hdone hax
  refine hbad (h.counts req (List.mem_cons_of_mem _ ?_))
  rw [start_of_le (hdone _) hlong hlt]
  exact hreq

/-- A BIOS that is lost with its caller's stack. -/
def stackBios (req : DiskPacket) : Answer := if req.ClearOfStack then .done else .lost

/-- An image of more than 952 sectors goes over the stack. -/
theorem not_loads_of_lt (hhi : pkt.hiLba = 0) (hlt : size.toNat < 2 ^ 25)
    (hmany : 952 < nrSectors size) : ¬ Loads (nrSectors size) (start stackBios pkt size) := by
  intro h
  obtain ⟨req, hreq, hmem⟩ := List.mem_flatMap.mp ((h.sectors 953).mpr ⟨by decide, hmany⟩)
  obtain ⟨hplaced, hanswer⟩ := start_requests hlt h.exit req hreq
  rw [hhi] at hplaced
  rw [stackBios, if_neg (hplaced.not_clearOfStack hmem)] at hanswer
  cases hanswer

/-- An image that fits below the stack, and does not consist of whole requests, is read. -/
theorem start_loads (hreads : Reads (nrSectors size) int13) (hpos : 1 ≤ size.toNat)
    (hhi : pkt.hiLba = 0) (hdvd : ¬ 128 ∣ nrSectors size) (hmany : nrSectors size ≤ 952) :
    Loads (nrSectors size) (start int13 pkt size) := by
  have hn : 1 ≤ nrSectors size := by
    rw [nrSectors]
    omega
  have hfirst : Valid (nrSectors size) (firstRequest pkt) :=
    valid_of_le hhi rfl (by decide) (by decide) (Nat.succ_le_succ hn) hmany
  have hsectors : (firstRequest pkt).sectors = List.range' 1 1 := sectors_eq hhi
  have hdone := hreads _ hfirst
  rcases Nat.lt_or_ge size.toNat 512 with hshort | hlong
  · have hone : nrSectors size = 1 := by
      rw [nrSectors]
      omega
    rw [start_of_lt hdone hshort]
    refine ⟨rfl, List.forall_mem_singleton.mpr hfirst.count, fun s => ?_, ⟨0, rfl⟩⟩
    rw [List.flatMap_singleton, hsectors, List.mem_range'_1, hone]
    omega
  · have hax : (UInt16.ofNat (nrSectors size)).toNat = nrSectors size := by
      rw [UInt16.toNat_ofNat']
      omega
    have hfirstHi : (firstRequest pkt).hiLba = 0 := hhi
    have hend : (1 : UInt16).toNat + (UInt16.ofNat (nrSectors size)).toNat =
        nrSectors size + 1 := by
      rw [hax]
      exact Nat.add_comm 1 _
    obtain ⟨hexit, hcounts, hloop⟩ := readSectors_loads hreads hmany hfirstHi
      (rfl : (0x07E0 : UInt16) = 0x7C0 + 0x20 * 1) (by decide) hend (by rwa [hax])
    rw [hax] at hloop
    rw [start_of_le hdone hlong (by rw [nrSectors] at hmany; omega)]
    refine ⟨hexit, List.forall_mem_cons.mpr ⟨hfirst.count, hcounts⟩, fun s => ?_, 1, ?_⟩
    · rw [List.flatMap_cons, hsectors, hloop, List.mem_append, List.mem_range'_1,
        List.mem_range'_1]
      show _ ∨ (1 ≤ s ∧ s < 1 + nrSectors size) ↔ _
      omega
    · rw [hloop, List.length_range']
      rfl

/-- The first stage reads an image with every BIOS that reads what it is asked for if the packet's
upper part is zero, the last request is not empty, and the image stays below the stack. -/
theorem start_loads_iff (pkt : DiskPacket) (size : UInt32) (hpos : 1 ≤ size.toNat)
    (hlt : size.toNat < 2 ^ 25) :
    (∀ int13, Reads (nrSectors size) int13 → Loads (nrSectors size) (start int13 pkt size)) ↔
      pkt.hiLba = 0 ∧ ¬ 128 ∣ nrSectors size ∧ nrSectors size ≤ 952 := by
  constructor
  · intro h
    have hall := h (fun _ => .done) fun _ _ => rfl
    have hhi := hall.hiLba hlt
    refine ⟨hhi, fun hdvd => not_loads_of_dvd (fun _ => rfl) hpos hlt hdvd hall, ?_⟩
    refine Nat.le_of_not_lt fun hmany => not_loads_of_lt hhi hlt hmany (h stackBios ?_)
    exact fun req hvalid => if_pos hvalid.clear
  · rintro ⟨hhi, hdvd, hmany⟩ int13 hreads
    exact start_loads hreads hpos hhi hdvd hmany

/-- An image of a thousand bytes, two sectors. -/
theorem start_loads_thousand :
    Loads (nrSectors 1000) (start (fun _ => .done) ⟨0, 0, 0, 0, 0, 0, 0⟩ 1000) :=
  (start_loads_iff ⟨0, 0, 0, 0, 0, 0, 0⟩ 1000 (by decide) (by decide)).mpr
    ⟨rfl, by decide, by decide⟩ _ fun _ _ => rfl

/-- An image of 64 KiB ends with a request for no sector. -/
theorem start_empty_request :
    ¬ Loads (nrSectors 65536) (start (fun _ => .done) ⟨0, 0, 0, 0, 0, 0, 0⟩ 65536) :=
  not_loads_of_dvd (fun _ => rfl) (by decide) (by decide) (by decide)

end Runs

end Microboot.Loader
