/-
  Kern/Io/BiosRead.lean --- reading many blocks, `bdrive_read` of kern/io/bios_drive.c.

  A read is cut into requests for as many blocks as fit the low memory buffer.  The
  loop counts the blocks that are left in a signed variable, and `MIN` compares it as
  an unsigned one; the number of the first block has 64 bits, the offset 32.

  Here the blocks may have any size, `bdrive_read4k` keeps a list of its requests, and
  what it copies goes to memory.  The numbers of blocks are 64-bit numbers: behind the
  last one comes 0, as in the code.  Low memory is not part of the memory that is read to.
-/
import Microboot.Foundation.Moves
import Microboot.Kern.Io.BiosDrive

set_option autoImplicit false

namespace Microboot.Kern.Io

open Microboot.Foundation

/-! ## The model -/

/-- The arguments of a call of `bdrive_read4k`. -/
structure ReadRequest where
  lba : UInt64
  blocks : UInt32
  deriving DecidableEq, Repr

/-- What the BIOS works on, the memory that is read to, and the requests so far. -/
structure Reading where
  low : LowMem
  mem : Mem
  requests : List ReadRequest

/-- `bdrive_read4k(dev, lba, blocks, buffer)` -/
def bdriveRead4kTo (bios : Bios) (dev : BDrive) (lba : UInt64) (blocks : UInt32) (buffer : Nat)
    (s : Reading) : Except Fault (Int × Reading) := do
  let ((code, bytes), low) ← bdriveRead4k bios dev lba blocks s.low
  return (code,
    { low := low
      mem := s.mem.storeBytes buffer bytes
      requests := s.requests ++ [⟨lba, blocks⟩] })

/-- The loop of `bdrive_read`.  It goes on for ever if a block is larger than the low memory
buffer. -/
def bdriveReadToLoop (bios : Bios) (dev : BDrive) (lba : UInt64) :
    Nat → Int32 → UInt32 → Nat → Reading → Except Fault (Option Int × Reading)
  | 0, blocksLeft, _, _, s => if blocksLeft > 0 then .error .hang else return (none, s)
  | fuel + 1, blocksLeft, offset, cursor, s =>
    if blocksLeft > 0 then do
      let maxBlocks := 4096 / dev.blockSize
      let nrBlocks := min blocksLeft.toUInt32 maxBlocks
      let (code, s) ← bdriveRead4kTo bios dev (lba + offset.toUInt64) nrBlocks cursor s
      if code ≠ 0 then return (some (-1), s)
      bdriveReadToLoop bios dev lba fuel (blocksLeft.toUInt32 - nrBlocks).toInt32
        (offset + nrBlocks) (cursor + (nrBlocks * dev.blockSize).toNat) s
    else return (none, s)

/-- `bdrive_read(dev, lba, blocks, buffer)` -/
def bdriveReadTo (bios : Bios) (dev : BDrive) (lba : UInt64) (blocks : UInt32) (buffer : Nat)
    (s : Reading) : Except Fault (Int × Reading) := do
  let (code, s) ← bdriveReadToLoop bios dev lba blocks.toNat blocks.toInt32 0 buffer s
  return (code.getD blocks.toInt32.toInt, s)

/-! ## Ranges of blocks -/

/-- The numbers of `n` blocks from `lba` on, in order. -/
def blockRange (lba : UInt64) (n : Nat) : List UInt64 :=
  (List.range n).map fun i => lba + UInt64.ofNat i

/-- What a request asks for. -/
def ReadRequest.covers (r : ReadRequest) : List UInt64 := blockRange r.lba r.blocks.toNat

/-- The contents of `n` blocks of the drive from `lba` on. -/
def blockData (drives : Drives) (drive : UInt8) (lba : UInt64) (n : Nat) : List UInt8 :=
  (blockRange lba n).flatMap fun k => drives drive k.toNat

section Ranges

variable {lba : UInt64} {drives : Drives} {drive : UInt8} {k n size : Nat}

theorem blockRange_add :
    blockRange lba (k + n) = blockRange lba k ++ blockRange (lba + UInt64.ofNat k) n := by
  unfold blockRange
  rw [List.range_add, List.map_append, List.map_map]
  refine congrArg _ (List.map_congr_left fun i _ => ?_)
  show lba + UInt64.ofNat (k + i) = lba + UInt64.ofNat k + UInt64.ofNat i
  rw [UInt64.ofNat_add, UInt64.add_assoc]

theorem blockData_add : blockData drives drive lba (k + n) =
    blockData drives drive lba k ++ blockData drives drive (lba + UInt64.ofNat k) n := by
  unfold blockData
  rw [blockRange_add, List.flatMap_append]

theorem blockData_one : blockData drives drive lba 1 = drives drive lba.toNat := by
  simp [blockData, blockRange]

theorem length_blockData (hblocks : ∀ k, (drives drive k).length = size) :
    (blockData drives drive lba n).length = n * size := by
  rw [blockData, length_flatMap_blocks fun k _ => hblocks k.toNat, blockRange, List.length_map,
    List.length_range]

end Ranges

/-! ## What the BIOS promises for reads -/

/-- The call is for the packet in `low_mem_disk_addr`, and the packet for as many blocks of
that size as there is room for in `low_mem_buffer`. -/
structure AddressedBlocks (bios : Bios) (blockSize : Nat) (regs : IntRegs) (packet : DiskAddr) :
    Prop where
  at_packet : realToLin regs.ds.toUInt32 regs.esi = bios.lowMemDiskAddr
  size : packet.size = 16
  at_buffer : realToLin (packedSegof packet.buffer) (packedOffof packet.buffer) =
    bios.lowMemBuffer
  fits : packet.numSectors.toNat * blockSize ≤ lowMemSize

/-- The buffer with the blocks that the packet names, of the drive in DL. -/
def LowMem.readBlocks (s : LowMem) (size : Nat) (regs : IntRegs) : List UInt8 :=
  blockData s.drives regs.edx.toUInt8 (UInt64.ofNat s.diskAddr.lba) s.diskAddr.numSectors.toNat ++
    s.buffer.drop (s.diskAddr.numSectors.toNat * size)

/-- Interrupt 0x13 reads exactly the blocks that the packet names to the buffer, and clears
the carry flag. -/
def Int13Reads (bios : Bios) (size : Nat) : Prop :=
  ∀ (regs : IntRegs) (s : LowMem), regs.eax = 0x4200 → AddressedBlocks bios size regs s.diskAddr →
    (bios.interrupt 0x13 regs s).1.flags &&& eflCf = 0 ∧
    (bios.interrupt 0x13 regs s).2.drives = s.drives ∧
    (bios.interrupt 0x13 regs s).2.buffer = s.readBlocks size regs

section Read

variable {bios : Bios} {dev : BDrive} {lba : UInt64} {blocks left offset : UInt32} {s : Reading}
  {buffer cursor : Nat}

theorem addressedBlocks (bios : Bios) (dev : BDrive) (lba : UInt64) {size : Nat}
    (hsize : 1 ≤ size) (hfits : blocks.toNat * size ≤ 4096) :
    (diskPacket bios lba blocks).numSectors.toNat = blocks.toNat ∧
      AddressedBlocks bios size (diskRegs bios dev 0x4200) (diskPacket bios lba blocks) := by
  have hnum : (diskPacket bios lba blocks).numSectors.toNat = blocks.toNat := by
    have hle := Nat.le_mul_of_pos_right blocks.toNat hsize
    rw [diskPacket, UInt32.toNat_toUInt16]
    omega
  -- the number of blocks has no part in the addresses
  have haddressed : Addressed bios (diskRegs bios dev 0x4200) (diskPacket bios lba 0) :=
    addressed bios dev 0x4200 lba (by decide)
  obtain ⟨hpacket, hlength, hbuffer, -⟩ := haddressed
  refine ⟨hnum, hpacket, hlength, hbuffer, ?_⟩
  rw [hnum]
  exact hfits

/-- One request: its blocks are stored. -/
theorem bdriveRead4kTo_blocks (hbios : Int13Reads bios dev.blockSize.toNat)
    (hsize : 1 ≤ dev.blockSize.toNat)
    (hblocks : ∀ k, (s.low.drives dev.driveNr k).length = dev.blockSize.toNat)
    (hfits : blocks.toNat * dev.blockSize.toNat ≤ 4096) (lba : UInt64) (buffer : Nat) :
    ∃ s', bdriveRead4kTo bios dev lba blocks buffer s = .ok (0, s') ∧
      s'.low.drives = s.low.drives ∧ s'.requests = s.requests ++ [⟨lba, blocks⟩] ∧
      s'.mem = s.mem.storeBytes buffer (blockData s.low.drives dev.driveNr lba blocks.toNat) := by
  generalize hs₁ : ({ s.low with diskAddr := diskPacket bios lba blocks } : LowMem) = s₁
  have hpacket : s₁.diskAddr = diskPacket bios lba blocks := by rw [← hs₁]
  obtain ⟨hnum, haddressed⟩ := addressedBlocks bios dev lba hsize hfits
  obtain ⟨hflag, hdrives, hbuffer⟩ := hbios (diskRegs bios dev 0x4200) s₁ rfl (hpacket ▸ haddressed)
  have hlength : (blocks * dev.blockSize).toNat = blocks.toNat * dev.blockSize.toNat := by
    rw [UInt32.toNat_mul]
    exact Nat.mod_eq_of_lt (by omega)
  have hdrive : (diskRegs bios dev 0x4200).edx.toUInt8 = dev.driveNr := by simp [diskRegs]
  have hbytes : (s₁.readBlocks dev.blockSize.toNat (diskRegs bios dev 0x4200)).take
      (blocks * dev.blockSize).toNat = blockData s.low.drives dev.driveNr lba blocks.toNat := by
    rw [LowMem.readBlocks, hpacket, lba_diskPacket, hnum, hdrive, UInt64.ofNat_toNat, ← hs₁,
      hlength, ← length_blockData hblocks, List.take_left]
  have hcheck : blocks * dev.blockSize ≤ 4096 := by
    rw [UInt32.le_iff_toNat_le, hlength]
    exact hfits
  refine ⟨⟨(bios.interrupt 0x13 (diskRegs bios dev 0x4200) s₁).2, _, _⟩, ?_, ?_, rfl, rfl⟩
  · rw [bdriveRead4kTo, bdriveRead4k, require_of _ hcheck, ok_bind]
    simp only [hs₁]
    rw [require_of _ (not_not.mpr hflag), ok_bind, hbuffer, hbytes]
    rfl
  · rw [hdrives, ← hs₁]

theorem toInt_toInt32 (hleft : left.toNat < 2 ^ 31) : left.toInt32.toInt = left.toNat := by
  refine BitVec.toInt_eq_toNat_of_lt ?_
  have hsame : left.toInt32.toBitVec.toNat = left.toNat := rfl
  omega

/-- The sizes in a round: a request has at least one block, and no more than fit. -/
theorem toNat_nrBlocks (hsize : 1 ≤ dev.blockSize.toNat) (hmax : dev.blockSize.toNat ≤ 4096)
    (hleft : 0 < left.toNat) :
    1 ≤ (min left (4096 / dev.blockSize)).toNat ∧
      (min left (4096 / dev.blockSize)).toNat ≤ left.toNat ∧
      (min left (4096 / dev.blockSize)).toNat * dev.blockSize.toNat ≤ 4096 := by
  have hchunk : (4096 / dev.blockSize).toNat = 4096 / dev.blockSize.toNat := UInt32.toNat_div _ _
  have hone : 1 ≤ 4096 / dev.blockSize.toNat := (Nat.one_le_div_iff hsize).mpr hmax
  have hfits : 4096 / dev.blockSize.toNat * dev.blockSize.toNat ≤ 4096 := Nat.div_mul_le_self _ _
  have hmin : min left (4096 / dev.blockSize) =
      if left ≤ 4096 / dev.blockSize then left else 4096 / dev.blockSize := rfl
  rw [hmin]
  split
  next hle =>
    rw [UInt32.le_iff_toNat_le, hchunk] at hle
    exact ⟨hleft, Nat.le_refl _, (Nat.mul_le_mul_right _ hle).trans hfits⟩
  next hnot =>
    rw [UInt32.le_iff_toNat_le, hchunk] at hnot
    rw [hchunk]
    exact ⟨hone, Nat.le_of_not_le hnot, hfits⟩

/-- The number of the first block of the next request. -/
theorem lba_next (hoffset : offset.toNat + blocks.toNat < 2 ^ 32) :
    lba + (offset + blocks).toUInt64 = lba + offset.toUInt64 + UInt64.ofNat blocks.toNat := by
  have hsum : (offset + blocks).toUInt64 = offset.toUInt64 + UInt64.ofNat blocks.toNat := by
    apply UInt64.toNat_inj.mp
    simp only [UInt64.toNat_add, UInt32.toNat_toUInt64, UInt32.toNat_add, UInt64.toNat_ofNat']
    omega
  rw [hsum, UInt64.add_assoc]

/-- What the loop leaves: the blocks that were left are read, in requests that cover them
in order. -/
theorem bdriveReadToLoop_blocks (hbios : Int13Reads bios dev.blockSize.toNat)
    (hsize : 1 ≤ dev.blockSize.toNat) (hmax : dev.blockSize.toNat ≤ 4096) (lba : UInt64)
    (fuel : Nat) (left offset : UInt32) (cursor : Nat) (s : Reading)
    (hfuel : left.toNat ≤ fuel) (hleft : left.toNat < 2 ^ 31)
    (hoffset : offset.toNat + left.toNat < 2 ^ 32)
    (hblocks : ∀ k, (s.low.drives dev.driveNr k).length = dev.blockSize.toNat) :
    ∃ s' requests, bdriveReadToLoop bios dev lba fuel left.toInt32 offset cursor s =
        .ok (none, s') ∧
      s'.mem = s.mem.storeBytes cursor
        (blockData s.low.drives dev.driveNr (lba + offset.toUInt64) left.toNat) ∧
      s'.requests = s.requests ++ requests ∧
      requests.flatMap ReadRequest.covers = blockRange (lba + offset.toUInt64) left.toNat ∧
      ∀ r ∈ requests, 1 ≤ r.blocks.toNat ∧ r.blocks.toNat * dev.blockSize.toNat ≤ 4096 := by
  induction fuel generalizing left offset cursor s with
  | zero =>
    have hzero : left = 0 := UInt32.toNat_inj.mp (Nat.le_zero.mp hfuel)
    subst hzero
    exact ⟨s, [], rfl, rfl, (List.append_nil _).symm, rfl, nofun⟩
  | succ fuel ih =>
    have hpos : left.toInt32 > 0 ↔ 0 < left.toNat := by
      rw [gt_iff_lt, Int32.lt_iff_toInt_lt, toInt_toInt32 hleft]
      exact Int.natCast_pos
    rw [bdriveReadToLoop]
    by_cases hzero : left.toNat = 0
    · rw [if_neg (hpos.not.mpr (by omega)), hzero]
      exact ⟨s, [], rfl, rfl, (List.append_nil _).symm, rfl, nofun⟩
    · rw [if_pos (hpos.mpr (Nat.pos_of_ne_zero hzero)), UInt32.toUInt32_toInt32]
      obtain ⟨hone, hle, hfits⟩ :=
        toNat_nrBlocks hsize hmax (Nat.pos_of_ne_zero hzero)
      dsimp only
      generalize min left (4096 / dev.blockSize) = nrBlocks at hone hle hfits ⊢
      -- one request
      obtain ⟨s₁, hread, hdrives, hrequests₁, hmem₁⟩ := bdriveRead4kTo_blocks hbios hsize hblocks
        hfits (lba + offset.toUInt64) cursor
      rw [hread, ok_bind]
      -- and the rest
      have hrest : (left - nrBlocks).toNat = left.toNat - nrBlocks.toNat :=
        UInt32.toNat_sub_of_le _ _ (UInt32.le_iff_toNat_le.mpr hle)
      have hnext : (offset + nrBlocks).toNat = offset.toNat + nrBlocks.toNat := by
        rw [UInt32.toNat_add]
        exact Nat.mod_eq_of_lt (by omega)
      have hlength : (nrBlocks * dev.blockSize).toNat = nrBlocks.toNat * dev.blockSize.toNat := by
        rw [UInt32.toNat_mul]
        exact Nat.mod_eq_of_lt (by omega)
      obtain ⟨s', requests, hloop, hmem, hrequests, hcover, hall⟩ := ih (left - nrBlocks)
        (offset + nrBlocks) (cursor + (nrBlocks * dev.blockSize).toNat) s₁ (by omega) (by omega)
        (by omega) (hdrives ▸ hblocks)
      have hsplit : left.toNat = nrBlocks.toNat + (left - nrBlocks).toNat := by omega
      rw [lba_next (by omega)] at hmem hcover
      refine ⟨s', ⟨lba + offset.toUInt64, nrBlocks⟩ :: requests, hloop, ?_, ?_, ?_, ?_⟩
      · rw [hmem, hmem₁, hdrives, hsplit, blockData_add, storeBytes_append,
          length_blockData hblocks, hlength]
      · rw [hrequests, hrequests₁, List.append_assoc, List.singleton_append]
      · rw [List.flatMap_cons, hcover, hsplit, blockRange_add]
        rfl
      · exact List.forall_mem_cons.mpr ⟨⟨hone, hfits⟩, hall⟩

end Read

/-- Data that is stored has each of its blocks at its place. -/
theorem seg_blockData {drives : Drives} {drive : UInt8} {lba : UInt64} {n size buffer i : Nat}
    {m : Mem} (hblocks : ∀ k, (drives drive k).length = size) (hi : i < n)
    (hseg : Seg m buffer (blockData drives drive lba n)) :
    Seg m (buffer + i * size) (drives drive (lba + UInt64.ofNat i).toNat) := by
  obtain ⟨rest, rfl⟩ := Nat.exists_eq_add_of_lt hi
  rw [Nat.add_assoc, blockData_add, seg_append, length_blockData hblocks, Nat.add_comm rest 1,
    blockData_add, seg_append, blockData_one] at hseg
  exact hseg.2.1

/-- With a BIOS that reads blocks of the size of the device, `bdrive_read` returns the number
of blocks.  Its requests have at least one block and fit the low memory buffer, and they cover
the blocks from `lba` on in order; these are stored from `buffer` on, one behind the other,
and nothing else is written. -/
theorem bdriveReadTo_blocks {bios : Bios} (dev : BDrive)
    (hbios : Int13Reads bios dev.blockSize.toNat) (hsize : 1 ≤ dev.blockSize.toNat)
    (hmax : dev.blockSize.toNat ≤ 4096) (lba : UInt64) {n : UInt32} (hn : n.toNat < 2 ^ 31)
    (buffer : Nat) (s : Reading)
    (hblocks : ∀ k, (s.low.drives dev.driveNr k).length = dev.blockSize.toNat) :
    ∃ s' requests, bdriveReadTo bios dev lba n buffer s = .ok ((n.toNat : Int), s') ∧
      s'.requests = s.requests ++ requests ∧
      (∀ r ∈ requests, 1 ≤ r.blocks.toNat ∧ r.blocks.toNat * dev.blockSize.toNat ≤ 4096) ∧
      requests.flatMap ReadRequest.covers = blockRange lba n.toNat ∧
      s'.mem = s.mem.storeBytes buffer (blockData s.low.drives dev.driveNr lba n.toNat) ∧
      (∀ x, (∀ k < n.toNat * dev.blockSize.toNat, x ≠ wrap (buffer + k)) → s'.mem x = s.mem x) ∧
      (buffer + n.toNat * dev.blockSize.toNat ≤ 2 ^ 32 → ∀ i < n.toNat,
        Seg s'.mem (buffer + i * dev.blockSize.toNat)
          (s.low.drives dev.driveNr (lba + UInt64.ofNat i).toNat)) := by
  obtain ⟨s', requests, hloop, hmem, hrequests, hcover, hall⟩ := bdriveReadToLoop_blocks hbios hsize
    hmax lba n.toNat n 0 buffer s (Nat.le_refl _) hn (Nat.lt_trans (by simpa using hn) (by decide))
    hblocks
  have hlength : (blockData s.low.drives dev.driveNr lba n.toNat).length =
      n.toNat * dev.blockSize.toNat := length_blockData hblocks
  have hlba : lba + (0 : UInt32).toUInt64 = lba := by simp
  rw [hlba] at hmem hcover
  refine ⟨s', requests, ?_, hrequests, hall, hcover, hmem, fun x hx => ?_, fun hfits i hi => ?_⟩
  · rw [bdriveReadTo, hloop, ok_bind, ← toInt_toInt32 hn]
    rfl
  · rw [hmem]
    refine storeBytes_apply_of_ne ?_
    rwa [hlength]
  · rw [hmem]
    exact seg_blockData hblocks hi (seg_storeBytes (by rwa [hlength]))

/-! ## A drive with large blocks -/

/-- A BIOS that reads blocks of that size. -/
def blockBios (size : Nat) : Bios :=
  { plainBios with
    interrupt := fun _ regs s =>
      ({ regs with flags := 0 }, { s with buffer := s.readBlocks size regs }) }

/-- Each block of 2048 bytes is filled with its number. -/
def numbered : Reading where
  low := { zeroLowMem with drives := fun _ k => List.replicate 2048 (UInt8.ofNat k) }
  mem := fun _ => 0
  requests := []

/-- Three blocks, two of them in the first request. -/
theorem bdriveReadTo_three : ∃ (s' : Reading) (requests : List ReadRequest),
    bdriveReadTo (blockBios 2048) ⟨2048, 0x80⟩ 5 3 65536 numbered = .ok (3, s') ∧
      requests.flatMap ReadRequest.covers = [5, 6, 7] ∧
      ∀ i < 3, Seg s'.mem (65536 + i * 2048)
        (List.replicate 2048 (UInt8.ofNat ((5 : UInt64) + UInt64.ofNat i).toNat)) := by
  have hbios : Int13Reads (blockBios 2048) 2048 := fun regs s _ _ => ⟨by simp [blockBios], rfl, rfl⟩
  obtain ⟨s', requests, hrun, -, -, hcover, -, -, hstored⟩ :=
    bdriveReadTo_blocks ⟨2048, 0x80⟩ hbios (by decide) (by decide) 5 (n := 3) (by decide) 65536
      numbered fun k => List.length_replicate
  exact ⟨s', requests, hrun, hcover, hstored (by decide)⟩

end Microboot.Kern.Io
