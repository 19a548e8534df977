/-
  Kern/Io/BiosDrive.lean --- hard disks behind the BIOS, kern/io/bios_drive.c.

  A transfer goes through a buffer of 4096 bytes in the memory that the BIOS can
  reach, block by block of at most that size: `bdrive_read4k` and `bdrive_write4k`
  fill in a disk address packet and call interrupt 0x13, and `bdrive_read` and
  `bdrive_write` cut a request into such transfers.

  The BIOS is a parameter; `Int13` says what its documentation promises of the two
  extended calls.  A request of one block makes the round trip through the disk.
  The check in `bdrive_write4k` compares the bytes to write with the size of one
  block, not with that of the buffer, and fails for every larger request.
-/
import Microboot.Kern.Stdlib

set_option autoImplicit false

namespace Microboot.Kern.Io

/-! ## Real mode -/

/-- `SEGOF(x)` -/
def segof (x : UInt32) : UInt32 := x >>> 4

/-- `OFFOF(x)` -/
def offof (x : UInt32) : UInt32 := x &&& 0x0f

/-- `REAL_TO_LIN(uint32_t, seg, off)` -/
def realToLin (seg off : UInt32) : UInt32 := (seg <<< 4) + off

/-- `PACKED_SEGOF(real)` -/
def packedSegof (real : UInt32) : UInt32 := real >>> 16

/-- `PACKED_OFFOF(real)` -/
def packedOffof (real : UInt32) : UInt32 := real &&& 0xffff

/-! ## The BIOS -/

/-- `struct disk_addr` -/
structure DiskAddr where
  size : UInt8
  zero : UInt8
  numSectors : UInt16
  buffer : UInt32
  lowLba : UInt32
  highLba : UInt32
  deriving DecidableEq, Repr

/-- `struct int_regs` -/
structure IntRegs where
  edi : UInt32
  esi : UInt32
  ebp : UInt32
  esp : UInt32
  ebx : UInt32
  edx : UInt32
  ecx : UInt32
  eax : UInt32
  flags : UInt16
  es : UInt16
  ds : UInt16
  fs : UInt16
  gs : UInt16
  deriving DecidableEq, Repr

/-- `EFL_CF` -/
def eflCf : UInt16 := 0x0001

/-- The drives, by number: the contents of their sectors. -/
abbrev Drives : Type := UInt8 → Nat → List UInt8

/-- What the BIOS works on: `low_mem_disk_addr`, `low_mem_buffer`, and the drives. -/
structure LowMem where
  diskAddr : DiskAddr
  buffer : List UInt8
  drives : Drives

/-- The BIOS, and where the two variables are: in the memory of the real mode. -/
structure Bios where
  lowMemDiskAddr : UInt32
  lowMemBuffer : UInt32
  diskAddr_lt : lowMemDiskAddr.toNat < 2 ^ 20
  buffer_lt : lowMemBuffer.toNat < 2 ^ 20
  interrupt : Nat → IntRegs → LowMem → IntRegs × LowMem

/-- `sizeof` of the low memory buffer. -/
def lowMemSize : Nat := 4096

/-- The size of the sectors that the BIOS transfers. -/
def sectorSize : Nat := 512

/-! ## The driver -/

/-- `blkdev_t` of a drive, with its `struct bdrive_priv`. -/
structure BDrive where
  blockSize : UInt32
  driveNr : UInt8
  deriving DecidableEq, Repr

/-- `bdrive_create(drive_nr)`: the block device. -/
def bdriveDev (driveNr : UInt8) : BDrive :=
  { blockSize := 512
    driveNr := driveNr }

/-- The packet that both transfers fill in. -/
def diskPacket (bios : Bios) (lba : UInt64) (blocks : UInt32) : DiskAddr :=
  let bufSeg := (segof bios.lowMemBuffer).toUInt16
  let bufOff := (offof bios.lowMemBuffer).toUInt16
  { size := 16
    zero := 0
    numSectors := blocks.toUInt16
    buffer := bufOff.toUInt32 ||| (bufSeg.toUInt32 <<< 16)
    lowLba := (lba &&& 0xffffffff).toUInt32
    highLba := (lba >>> 32).toUInt32 }

/-- The registers of the call. -/
def diskRegs (bios : Bios) (dev : BDrive) (eax : UInt32) : IntRegs :=
  { edi := 0
    esi := offof bios.lowMemDiskAddr
    ebp := 0
    esp := 0
    ebx := 0
    edx := dev.driveNr.toUInt32
    ecx := 0
    eax := eax
    flags := 0
    es := 0
    ds := (segof bios.lowMemDiskAddr).toUInt16
    fs := 0
    gs := 0 }

/-- `bdrive_read4k(dev, lba, blocks, buffer)`: the return value, and the bytes that are
stored at `buffer`. -/
def bdriveRead4k (bios : Bios) (dev : BDrive) (lba : UInt64) (blocks : UInt32) (s : LowMem) :
    Except Fault ((Int × List UInt8) × LowMem) := do
  require (blocks * dev.blockSize ≤ 4096) "Read would have overflowed"
  let s := { s with diskAddr := diskPacket bios lba blocks }
  let (regs, s) := bios.interrupt 0x13 (diskRegs bios dev 0x4200) s
  require (¬ regs.flags &&& eflCf ≠ 0) "Error reading from disk"
  return ((0, s.buffer.take (blocks * dev.blockSize).toNat), s)

/-- The loop of `bdrive_read`, with the bytes stored so far.  It goes on for ever if a
block is larger than the low memory buffer. -/
def bdriveReadLoop (bios : Bios) (dev : BDrive) (lba : UInt64) :
    Nat → Int32 → UInt32 → List UInt8 → LowMem →
    Except Fault ((Option Int × List UInt8) × LowMem)
  | 0, blocksLeft, _, out, s =>
    if blocksLeft > 0 then .error .hang else return ((none, out), s)
  | fuel + 1, blocksLeft, offset, out, s =>
    if blocksLeft > 0 then do
      let maxBlocks := 4096 / dev.blockSize
      let nrBlocks := min blocksLeft.toUInt32 maxBlocks
      let ((code, bytes), s) ← bdriveRead4k bios dev (lba + offset.toUInt64) nrBlocks s
      if code ≠ 0 then return ((some (-1), out ++ bytes), s)
      bdriveReadLoop bios dev lba fuel (blocksLeft.toUInt32 - nrBlocks).toInt32
        (offset + nrBlocks) (out ++ bytes) s
    else return ((none, out), s)

/-- `bdrive_read(dev, lba, blocks, buffer)`: the return value, and the bytes that are
stored at `buffer`. -/
def bdriveRead (bios : Bios) (dev : BDrive) (lba : UInt64) (blocks : UInt32) (s : LowMem) :
    Except Fault ((Int × List UInt8) × LowMem) := do
  let ((code, out), s) ← bdriveReadLoop bios dev lba blocks.toNat blocks.toInt32 0 [] s
  return ((code.getD blocks.toInt32.toInt, out), s)

/-- `bdrive_write4k(dev, lba, blocks, buffer)` -/
def bdriveWrite4k (bios : Bios) (dev : BDrive) (lba : UInt64) (blocks : UInt32)
    (buffer : List UInt8) (s : LowMem) : Except Fault (Int × LowMem) := do
  require (blocks * 512 ≤ dev.blockSize) "Write would have overflowed"
  let bytes := buffer.take (blocks * dev.blockSize).toNat
  let s := { s with
    diskAddr := diskPacket bios lba blocks
    buffer := bytes ++ s.buffer.drop bytes.length }
  let (regs, s) := bios.interrupt 0x13 (diskRegs bios dev 0x4300) s
  require (¬ regs.flags &&& eflCf ≠ 0) "Error writing to disk"
  return (0, s)

/-- The loop of `bdrive_write`; `cursor` is what of the buffer is left. -/
def bdriveWriteLoop (bios : Bios) (dev : BDrive) (lba : UInt64) :
    Nat → UInt32 → UInt32 → List UInt8 → LowMem → Except Fault (Option Int × LowMem)
  | 0, blocksLeft, _, _, s => if blocksLeft > 0 then .error .hang else return (none, s)
  | fuel + 1, blocksLeft, offset, cursor, s =>
    if blocksLeft > 0 then do
      let maxBlocks := 4096 / dev.blockSize
      let nrBlocks := min blocksLeft maxBlocks
      let (code, s) ← bdriveWrite4k bios dev (lba + offset.toUInt64) nrBlocks cursor s
      if code ≠ 0 then return (some (-1), s)
      bdriveWriteLoop bios dev lba fuel (blocksLeft - nrBlocks) (offset + nrBlocks)
        (cursor.drop (nrBlocks * dev.blockSize).toNat) s
    else return (none, s)

/-- `bdrive_write(dev, lba, blocks, buffer)` -/
def bdriveWrite (bios : Bios) (dev : BDrive) (lba : UInt64) (blocks : UInt32)
    (buffer : List UInt8) (s : LowMem) : Except Fault (Int × LowMem) := do
  let (code, s) ← bdriveWriteLoop bios dev lba blocks.toNat blocks 0 buffer s
  return (code.getD blocks.toInt32.toInt, s)

/-! ## What the BIOS promises -/

/-- The call is for the packet in `low_mem_disk_addr`, and the packet for as many
sectors as there is room for in `low_mem_buffer`. -/
structure Addressed (bios : Bios) (regs : IntRegs) (packet : DiskAddr) : Prop where
  at_packet : realToLin regs.ds.toUInt32 regs.esi = bios.lowMemDiskAddr
  size : packet.size = 16
  at_buffer : realToLin (packedSegof packet.buffer) (packedOffof packet.buffer) =
    bios.lowMemBuffer
  fits : packet.numSectors.toNat * sectorSize ≤ lowMemSize

/-- The first sector that the packet names. -/
def DiskAddr.lba (packet : DiskAddr) : Nat := packet.lowLba.toNat + 2 ^ 32 * packet.highLba.toNat

/-- The buffer with the sectors that the packet names, of the drive in DL. -/
def LowMem.readSectors (s : LowMem) (regs : IntRegs) : List UInt8 :=
  (List.range s.diskAddr.numSectors.toNat).flatMap
    (fun i => s.drives regs.edx.toUInt8 (s.diskAddr.lba + i)) ++
  s.buffer.drop (s.diskAddr.numSectors.toNat * sectorSize)

/-- The drives with the sectors that the packet names, of the drive in DL, written from
the buffer. -/
def LowMem.writeSectors (s : LowMem) (regs : IntRegs) : Drives := fun drive k =>
  if drive = regs.edx.toUInt8 ∧ s.diskAddr.lba ≤ k ∧
    k < s.diskAddr.lba + s.diskAddr.numSectors.toNat
  then (s.buffer.drop ((k - s.diskAddr.lba) * sectorSize)).take sectorSize
  else s.drives drive k

/-- Interrupt 0x13 transfers exactly the sectors that the packet names, between the drive
and the buffer, and clears the carry flag. -/
structure Int13 (bios : Bios) : Prop where
  read : ∀ (regs : IntRegs) (s : LowMem), regs.eax = 0x4200 → Addressed bios regs s.diskAddr →
    (bios.interrupt 0x13 regs s).1.flags &&& eflCf = 0 ∧
    (bios.interrupt 0x13 regs s).2.drives = s.drives ∧
    (bios.interrupt 0x13 regs s).2.buffer = s.readSectors regs
  write : ∀ (regs : IntRegs) (s : LowMem), regs.eax = 0x4300 → Addressed bios regs s.diskAddr →
    (bios.interrupt 0x13 regs s).1.flags &&& eflCf = 0 ∧
    (bios.interrupt 0x13 regs s).2.buffer = s.buffer ∧
    (bios.interrupt 0x13 regs s).2.drives = s.writeSectors regs

/-! ## One transfer -/

section Transfer

variable {bios : Bios} {dev : BDrive} {lba : UInt64} {blocks a eax : UInt32} {s : LowMem}

/-- An address in the memory of the real mode is read back from its segment and offset. -/
theorem realToLin_segof (ha : a.toNat < 2 ^ 20) :
    realToLin (segof a).toUInt16.toUInt32 (offof a) = a := by
  have hlow : a.toNat &&& 15 = a.toNat % 16 := Nat.and_two_pow_sub_one_eq_mod a.toNat 4
  apply UInt32.toNat_inj.mp
  unfold realToLin segof offof
  simp only [UInt32.toNat_add, UInt32.toNat_shiftLeft, UInt32.toNat_shiftRight, UInt32.toNat_and,
    UInt16.toNat_toUInt32, UInt32.toNat_toUInt16, UInt32.reduceToNat, Nat.shiftRight_eq_div_pow,
    Nat.shiftLeft_eq, hlow, Nat.reduceMod, Nat.reducePow]
  omega

/-- The two halves of a packed address. -/
theorem packed_halves {seg off : UInt32} (hseg : seg.toNat < 2 ^ 16) (hoff : off.toNat < 2 ^ 16) :
    packedSegof (off ||| (seg <<< 16)) = seg ∧ packedOffof (off ||| (seg <<< 16)) = off := by
  have hmask : ∀ x : Nat, x &&& 65535 = x % 2 ^ 16 := fun x => Nat.and_two_pow_sub_one_eq_mod x 16
  have hpacked : (off ||| (seg <<< 16)).toNat = seg.toNat * 2 ^ 16 + off.toNat := by
    have hor := Nat.shiftLeft_add_eq_or_of_lt hoff seg.toNat
    rw [Nat.shiftLeft_eq, Nat.or_comm] at hor
    have hshift : (seg <<< 16).toNat = seg.toNat * 2 ^ 16 := by
      simp only [UInt32.toNat_shiftLeft, Nat.shiftLeft_eq, UInt32.reduceToNat, Nat.reduceMod]
      omega
    rw [UInt32.toNat_or, hshift]
    exact hor.symm
  constructor
  · apply UInt32.toNat_inj.mp
    rw [packedSegof, UInt32.toNat_shiftRight, hpacked, Nat.shiftRight_eq_div_pow]
    simp only [UInt32.reduceToNat, Nat.reduceMod]
    omega
  · apply UInt32.toNat_inj.mp
    rw [packedOffof, UInt32.toNat_and, hpacked]
    simp only [UInt32.reduceToNat, hmask]
    omega

theorem lba_diskPacket (bios : Bios) (lba : UInt64) (blocks : UInt32) :
    (diskPacket bios lba blocks).lba = lba.toNat := by
  have hmask : ∀ x : Nat, x &&& 4294967295 = x % 2 ^ 32 :=
    fun x => Nat.and_two_pow_sub_one_eq_mod x 32
  have hlt := lba.toNat_lt
  simp only [diskPacket, DiskAddr.lba, UInt64.toNat_toUInt32, UInt64.toNat_and,
    UInt64.toNat_shiftRight, UInt64.reduceToNat, Nat.shiftRight_eq_div_pow, hmask,
    Nat.reduceMod]
  omega

/-- Both transfers address the packet and the buffer as the BIOS expects it. -/
theorem addressed (bios : Bios) (dev : BDrive) (eax : UInt32) (lba : UInt64)
    (hblocks : blocks.toNat ≤ 8) :
    Addressed bios (diskRegs bios dev eax) (diskPacket bios lba blocks) where
  at_packet := realToLin_segof bios.diskAddr_lt
  size := rfl
  at_buffer := by
    have hseg := (segof bios.lowMemBuffer).toUInt16.toNat_lt
    have hoff := (offof bios.lowMemBuffer).toUInt16.toNat_lt
    rw [← UInt16.toNat_toUInt32] at hseg hoff
    obtain ⟨hs, ho⟩ := packed_halves hseg hoff
    have hlinear := realToLin_segof bios.buffer_lt
    have hsmall : (offof bios.lowMemBuffer).toUInt16.toUInt32 = offof bios.lowMemBuffer := by
      have hlow : bios.lowMemBuffer.toNat &&& 15 = bios.lowMemBuffer.toNat % 16 :=
        Nat.and_two_pow_sub_one_eq_mod _ 4
      apply UInt32.toNat_inj.mp
      simp only [offof, UInt16.toNat_toUInt32, UInt32.toNat_toUInt16, UInt32.toNat_and,
        UInt32.reduceToNat, hlow]
      omega
    simp only [diskPacket]
    rw [hs, ho, hsmall, hlinear]
  fits := by
    have hnum : (diskPacket bios lba blocks).numSectors.toNat = blocks.toNat := by
      rw [diskPacket, UInt32.toNat_toUInt16]
      omega
    rw [hnum, sectorSize, lowMemSize]
    omega

end Transfer

/-! ## The round trip of one block -/

section Block

variable {bios : Bios} {driveNr : UInt8} {lba : UInt64} {s : LowMem} {buf : List UInt8}

theorem edx_diskRegs (eax : UInt32) :
    (diskRegs bios (bdriveDev driveNr) eax).edx.toUInt8 = driveNr := by
  simp [diskRegs, bdriveDev]

/-- A write of one block writes its sector. -/
theorem bdriveWrite4k_block (hbios : Int13 bios) (driveNr : UInt8) (lba : UInt64) (s : LowMem)
    (hbuf : buf.length = sectorSize) :
    ∃ s', bdriveWrite4k bios (bdriveDev driveNr) lba 1 buf s = .ok (0, s') ∧
      ∀ drive k, s'.drives drive k =
        if drive = driveNr ∧ k = lba.toNat then buf else s.drives drive k := by
  have hbytes : buf.take (1 * (bdriveDev driveNr).blockSize).toNat = buf :=
    List.take_of_length_le (Nat.le_of_eq hbuf)
  generalize hs₁ : ({ s with
    diskAddr := diskPacket bios lba 1
    buffer := buf ++ s.buffer.drop buf.length } : LowMem) = s₁
  have hpacket : s₁.diskAddr = diskPacket bios lba 1 := by rw [← hs₁]
  obtain ⟨hflag, -, hdrives⟩ := hbios.write (diskRegs bios (bdriveDev driveNr) 0x4300) s₁ rfl
    (hpacket ▸ addressed bios _ _ lba (by decide))
  refine ⟨(bios.interrupt 0x13 (diskRegs bios (bdriveDev driveNr) 0x4300) s₁).2, ?_,
    fun drive k => ?_⟩
  · have hcheck : (1 : UInt32) * 512 ≤ (bdriveDev driveNr).blockSize :=
      show (1 : UInt32) * 512 ≤ 512 by decide
    rw [bdriveWrite4k, require_of _ hcheck, ok_bind]
    simp only [hbytes, hs₁]
    rw [require_of _ (not_not.mpr hflag)]
    rfl
  · have hnum : (diskPacket bios lba 1).numSectors.toNat = 1 := rfl
    rw [hdrives, LowMem.writeSectors, hpacket, lba_diskPacket, hnum, edx_diskRegs]
    have hk : lba.toNat ≤ k ∧ k < lba.toNat + 1 ↔ k = lba.toNat := by omega
    simp only [hk]
    split
    · next h =>
      rw [h.2, Nat.sub_self, Nat.zero_mul, List.drop_zero, ← hs₁, ← hbuf, List.take_left]
    · rw [← hs₁]

/-- A read of one block reads its sector. -/
theorem bdriveRead4k_block (hbios : Int13 bios)
    (hsector : (s.drives driveNr lba.toNat).length = sectorSize) :
    ∃ s', bdriveRead4k bios (bdriveDev driveNr) lba 1 s =
        .ok ((0, s.drives driveNr lba.toNat), s') ∧ s'.drives = s.drives := by
  generalize hs₁ : ({ s with diskAddr := diskPacket bios lba 1 } : LowMem) = s₁
  have hpacket : s₁.diskAddr = diskPacket bios lba 1 := by rw [← hs₁]
  obtain ⟨hflag, hdrives, hbuffer⟩ := hbios.read (diskRegs bios (bdriveDev driveNr) 0x4200) s₁ rfl
    (hpacket ▸ addressed bios _ _ lba (by decide))
  have hnum : (diskPacket bios lba 1).numSectors.toNat = 1 := rfl
  refine ⟨(bios.interrupt 0x13 (diskRegs bios (bdriveDev driveNr) 0x4200) s₁).2, ?_, ?_⟩
  · have hcheck : (1 : UInt32) * (bdriveDev driveNr).blockSize ≤ 4096 :=
      show (1 : UInt32) * 512 ≤ 4096 by decide
    have hbytes : (s₁.readSectors (diskRegs bios (bdriveDev driveNr) 0x4200)).take
        (1 * (bdriveDev driveNr).blockSize).toNat = s.drives driveNr lba.toNat := by
      rw [LowMem.readSectors, hpacket, lba_diskPacket, hnum, edx_diskRegs, ← hs₁]
      have htake : (1 * (bdriveDev driveNr).blockSize).toNat = sectorSize := rfl
      rw [htake, ← hsector]
      simp
    rw [bdriveRead4k, require_of _ hcheck, ok_bind]
    simp only [hs₁]
    rw [require_of _ (not_not.mpr hflag), ok_bind, hbuffer, hbytes]
    rfl
  · rw [hdrives, ← hs₁]

/-- A request for one block is one transfer. -/
theorem bdriveWrite_block (hbios : Int13 bios) (driveNr : UInt8) (lba : UInt64) (s : LowMem)
    (hbuf : buf.length = sectorSize) :
    ∃ s', bdriveWrite bios (bdriveDev driveNr) lba 1 buf s = .ok (1, s') ∧
      ∀ drive k, s'.drives drive k =
        if drive = driveNr ∧ k = lba.toNat then buf else s.drives drive k := by
  obtain ⟨s', hwrite, hdrives⟩ := bdriveWrite4k_block hbios driveNr lba s hbuf
  refine ⟨s', ?_, hdrives⟩
  have hchunk : min (1 : UInt32) (4096 / (bdriveDev driveNr).blockSize) = 1 :=
    show min (1 : UInt32) (4096 / 512) = 1 by decide
  have hlba : lba + (0 : UInt32).toUInt64 = lba := by simp
  have hone : (1 : UInt32).toNat = 0 + 1 := rfl
  have hleft : ¬ (1 - 1 : UInt32) > 0 := by decide
  rw [bdriveWrite, hone, bdriveWriteLoop, if_pos (by decide)]
  simp only [hchunk, hlba, hwrite, ok_bind, ne_eq, not_true_eq_false, if_false]
  rw [bdriveWriteLoop, if_neg hleft]
  rfl

theorem bdriveRead_block (hbios : Int13 bios)
    (hsector : (s.drives driveNr lba.toNat).length = sectorSize) :
    ∃ s', bdriveRead bios (bdriveDev driveNr) lba 1 s =
        .ok ((1, s.drives driveNr lba.toNat), s') ∧ s'.drives = s.drives := by
  obtain ⟨s', hread, hdrives⟩ := bdriveRead4k_block hbios hsector
  refine ⟨s', ?_, hdrives⟩
  have hchunk : min (1 : UInt32).toInt32.toUInt32 (4096 / (bdriveDev driveNr).blockSize) = 1 :=
    show min (1 : UInt32).toInt32.toUInt32 (4096 / 512) = 1 by decide
  have hlba : lba + (0 : UInt32).toUInt64 = lba := by simp
  have hone : (1 : UInt32).toNat = 0 + 1 := rfl
  have hleft : ¬ ((1 : UInt32).toInt32.toUInt32 - 1).toInt32 > 0 := by decide
  rw [bdriveRead, hone, bdriveReadLoop, if_pos (by decide)]
  simp only [hchunk, hlba, hread, ok_bind, ne_eq, not_true_eq_false, if_false, List.nil_append]
  rw [bdriveReadLoop, if_neg hleft]
  rfl

/-- A write of more than one block fails in its first transfer. -/
theorem bdriveWrite_fails (bios : Bios) {n : UInt32} (hn : 2 ≤ n.toNat) :
    bdriveWrite bios (bdriveDev driveNr) lba n buf s =
      .error (.assert "Write would have overflowed") := by
  have hchunk : 2 ≤ (min n (4096 / (bdriveDev driveNr).blockSize)).toNat ∧
      (min n (4096 / (bdriveDev driveNr).blockSize)).toNat ≤ 8 := by
    have height : (4096 / (bdriveDev driveNr).blockSize).toNat = 8 :=
      show ((4096 : UInt32) / 512).toNat = 8 by decide
    have hmin : min n (4096 / (bdriveDev driveNr).blockSize) =
        if n ≤ 4096 / (bdriveDev driveNr).blockSize then n
        else 4096 / (bdriveDev driveNr).blockSize := rfl
    rw [hmin]
    split
    · next hle =>
      rw [UInt32.le_iff_toNat_le, height] at hle
      exact ⟨hn, hle⟩
    · rw [height]
      decide
  have hcheck : ¬ min n (4096 / (bdriveDev driveNr).blockSize) * 512 ≤
      (bdriveDev driveNr).blockSize := by
    have hsize : (bdriveDev driveNr).blockSize.toNat = 512 := rfl
    have hsector : (512 : UInt32).toNat = 512 := rfl
    rw [UInt32.le_iff_toNat_le, UInt32.toNat_mul, hsize, hsector]
    omega
  have hleft : n > 0 := by
    rw [gt_iff_lt, UInt32.lt_iff_toNat_lt]
    exact Nat.lt_of_lt_of_le (by decide) hn
  obtain ⟨k, hk⟩ := Nat.exists_eq_succ_of_ne_zero (n := n.toNat) (by omega)
  rw [bdriveWrite, hk, bdriveWriteLoop, if_pos hleft]
  simp only [bdriveWrite4k, require, if_neg hcheck, error_bind]

end Block

/-- A write returns the number of blocks, a read that follows returns it with the blocks
that were written, and no other sector has changed. -/
def RoundTrip (bios : Bios) (dev : BDrive) (lba : UInt64) (n : UInt32) (buf : List UInt8)
    (s : LowMem) : Prop :=
  ∃ s₁ s₂, bdriveWrite bios dev lba n buf s = .ok ((n.toNat : Int), s₁) ∧
    bdriveRead bios dev lba n s₁ = .ok (((n.toNat : Int), buf), s₂) ∧
    ∀ drive k, ¬ (drive = dev.driveNr ∧ lba.toNat ≤ k ∧ k < lba.toNat + n.toNat) →
      s₁.drives drive k = s.drives drive k ∧ s₂.drives drive k = s.drives drive k

/-- With a BIOS that does what it should, exactly the requests for one block make the
round trip. -/
theorem bdrive_roundTrip_iff {bios : Bios} (hbios : Int13 bios) (driveNr : UInt8) (lba : UInt64)
    {n : UInt32} (hpos : 1 ≤ n.toNat) (hlt : n.toNat < 2 ^ 31) {buf : List UInt8}
    (hbuf : buf.length = n.toNat * sectorSize) (s : LowMem) :
    RoundTrip bios (bdriveDev driveNr) lba n buf s ↔ n = 1 := by
  constructor
  · rintro ⟨s₁, s₂, hwrite, -⟩
    by_contra hne
    have htwo : 2 ≤ n.toNat := by
      have : n.toNat ≠ 1 := fun h => hne (UInt32.toNat_inj.mp h)
      omega
    rw [bdriveWrite_fails bios htwo] at hwrite
    cases hwrite
  · rintro rfl
    have hone : (1 : UInt32).toNat = 1 := rfl
    rw [hone, Nat.one_mul] at hbuf
    obtain ⟨s₁, hwrite, hdrives⟩ := bdriveWrite_block hbios driveNr lba s hbuf
    have hsector : s₁.drives driveNr lba.toNat = buf := by
      rw [hdrives, if_pos ⟨rfl, rfl⟩]
    obtain ⟨s₂, hread, hsame⟩ := bdriveRead_block hbios (hsector ▸ hbuf)
    rw [hsector] at hread
    refine ⟨s₁, s₂, hwrite, hread, fun drive k hout => ?_⟩
    have hnot : ¬ (drive = driveNr ∧ k = lba.toNat) := by
      rintro ⟨rfl, rfl⟩
      exact hout ⟨rfl, Nat.le_refl _, by omega⟩
    rw [hsame, hdrives, if_neg hnot]
    exact ⟨rfl, rfl⟩

/-! ## A BIOS -/

/-- A BIOS that transfers sectors. -/
def plainBios : Bios where
  lowMemDiskAddr := 0x9000
  lowMemBuffer := 0x8000
  diskAddr_lt := by decide
  buffer_lt := by decide
  interrupt := fun _ regs s =>
    ({ regs with flags := 0 },
      { s with
        buffer := if regs.eax = 0x4200 then s.readSectors regs else s.buffer
        drives := if regs.eax = 0x4300 then s.writeSectors regs else s.drives })

theorem int13_plainBios : Int13 plainBios where
  read regs s heax _ := by simp [plainBios, heax]
  write regs s heax _ := by simp [plainBios, heax]

/-- Low memory and drives, all zero. -/
def zeroLowMem : LowMem where
  diskAddr :=
    { size := 0
      zero := 0
      numSectors := 0
      buffer := 0
      lowLba := 0
      highLba := 0 }
  buffer := List.replicate lowMemSize 0
  drives := fun _ _ => List.replicate sectorSize 0

theorem bdrive_roundTrip_iff_block :
    RoundTrip plainBios (bdriveDev 0x80) 5 1 (List.replicate 512 7) zeroLowMem ↔ (1 : UInt32) = 1 :=
  bdrive_roundTrip_iff int13_plainBios 0x80 5 (by decide) (by decide)
    (by rw [List.length_replicate]; rfl) zeroLowMem

/-- Two blocks do not make the round trip. -/
theorem bdrive_twoBlocks : Int13 plainBios ∧
    ¬ RoundTrip plainBios (bdriveDev 0x80) 5 2 (List.replicate 1024 7) zeroLowMem := by
  refine ⟨int13_plainBios, ?_⟩
  rintro ⟨s₁, s₂, hwrite, -⟩
  rw [bdriveWrite_fails plainBios (by decide)] at hwrite
  cases hwrite

end Microboot.Kern.Io
