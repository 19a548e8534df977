/-
  Kern/Io/Pci.lean --- looking for devices on the PCI bus, kern/io/pci.c.

  The configuration space of a function is read a dword at a time, and a word is chosen
  from it.  The choice is the wrong way round.  `pci_check_func` asks for the two ids
  of a device at each other's offset, so that it recognises what it looks for;
  `pci_check` and `pci_get_header_type` have the offsets of the standard.

  The configuration space is a parameter.  What becomes of a network card that is
  recognised is not modelled; its descriptor is.
-/
import Microboot.Foundation.Run
import Microboot.Kern.Stdlib

set_option autoImplicit false

namespace Microboot.Kern.Io

open Microboot.Foundation

/-! ## The model -/

/-- The configuration space: bus, device, function and dword register. -/
abbrev ConfigSpace : Type := UInt8 → BitVec 5 → BitVec 3 → BitVec 6 → UInt32

/-- `PCI_REG(reg, off)` -/
def pciReg (reg off : UInt8) : UInt8 := reg * 4 + off

/-- `pci_addr_t`.  The two low bits of `reg_off` select nothing. -/
structure PciAddr where
  regOff : UInt8
  funcNum : BitVec 3
  devNum : BitVec 5
  busNum : UInt8
  reserved0 : BitVec 7
  enable : BitVec 1
  deriving DecidableEq, Repr

/-- `outl(PCI_CFG_ADDR, addr)` and `inl(PCI_CFG_DATA)`. -/
def ConfigSpace.read (cfg : ConfigSpace) (addr : PciAddr) : UInt32 :=
  cfg addr.busNum addr.devNum addr.funcNum ((addr.regOff >>> 2).toBitVec.setWidth 6)

/-- `pci_cfg_read_dword(bus, device, func, off)` -/
def pciCfgReadDword (cfg : ConfigSpace) (bus device func off : UInt8) : Except Fault UInt32 := do
  require (off &&& 3 = 0) "Unaligned PCI read attempt"
  return cfg.read
    { regOff := off
      funcNum := func.toBitVec.setWidth 3
      devNum := device.toBitVec.setWidth 5
      busNum := bus
      reserved0 := 0
      enable := 1 }

/-- `pci_cfg_read_word(bus, device, func, off)` -/
def pciCfgReadWord (cfg : ConfigSpace) (bus device func off : UInt8) : Except Fault UInt16 := do
  let ret ← pciCfgReadDword cfg bus device func (off &&& 0xfc)
  return if off &&& 2 ≠ 0 then (ret &&& 0xFFFF).toUInt16 else (ret >>> 16).toUInt16

/-- `read_dev(desc, bus, device, func)` -/
def readDev (cfg : ConfigSpace) (bus device func : UInt8) : Except Fault (List UInt32) :=
  (List.range 16).mapM fun i => pciCfgReadDword cfg bus device func (pciReg (UInt8.ofNat i) 0)

/-- `pci_check_func(bus, device, func)`: the descriptor that `ne2k_init` is called with, if
it is. -/
def pciCheckFunc (cfg : ConfigSpace) (bus device func : UInt8) :
    Except Fault (Option (List UInt32)) := do
  let vid ← pciCfgReadWord cfg bus device func 2
  let did ← pciCfgReadWord cfg bus device func 0
  if vid = 0x10ec ∧ did = 0x8029 then
    let buf ← readDev cfg bus device func
    return some buf
  else
    return none

/-- `pci_get_header_type(bus, device, func)` -/
def pciGetHeaderType (cfg : ConfigSpace) (bus device func : UInt8) : Except Fault UInt8 := do
  let word ← pciCfgReadWord cfg bus device func (pciReg 3 2)
  return word.toUInt8

/-- A round of the loop of `pci_check`, after the functions that were examined. -/
def pciCheckOther (cfg : ConfigSpace) (bus device : UInt8)
    (examined : List (UInt8 × Option (List UInt32))) (i : UInt8) :
    Except Fault (List (UInt8 × Option (List UInt32))) := do
  let vid ← pciCfgReadWord cfg bus device i 0
  if vid ≠ 0xFFFF then
    let found ← pciCheckFunc cfg bus device i
    return examined ++ [(i, found)]
  else
    return examined

/-- `pci_check(bus, device)`: the functions that were examined, in order, each with what
`pci_check_func` made of it. -/
def pciCheck (cfg : ConfigSpace) (bus device : UInt8) :
    Except Fault (List (UInt8 × Option (List UInt32))) := do
  let vid ← pciCfgReadWord cfg bus device 0 0
  if vid ≠ 0xFFFF then
    let found ← pciCheckFunc cfg bus device 0
    let headerType ← pciGetHeaderType cfg bus device 0
    if headerType &&& 0x80 ≠ 0 then
      [1, 2, 3, 4, 5, 6, 7].foldlM (pciCheckOther cfg bus device) [(0, found)]
    else
      return [(0, found)]
  else
    return []

/-! ## What is in the configuration space -/

/-- The dword that has the byte at an offset. -/
def dwordAt (cfg : ConfigSpace) (bus device func off : UInt8) : UInt32 :=
  cfg bus (device.toBitVec.setWidth 5) (func.toBitVec.setWidth 3)
    ((off >>> 2).toBitVec.setWidth 6)

/-- The byte at an offset; dwords are little-endian. -/
def byteAt (cfg : ConfigSpace) (bus device func off : UInt8) : UInt8 :=
  (dwordAt cfg bus device func off >>> (8 * (off &&& 3)).toUInt32).toUInt8

/-- The 16-bit value at an offset. -/
def wordAt (cfg : ConfigSpace) (bus device func off : UInt8) : UInt16 :=
  UInt16.ofNat ((byteAt cfg bus device func off).toNat +
    256 * (byteAt cfg bus device func (off + 1)).toNat)

/-- The vendor id. -/
def vendorId (cfg : ConfigSpace) (bus device func : UInt8) : UInt16 :=
  wordAt cfg bus device func 0

/-- The device id. -/
def deviceId (cfg : ConfigSpace) (bus device func : UInt8) : UInt16 :=
  wordAt cfg bus device func 2

/-- A device that `id` and `type` tell about has the function. -/
def PresentBy (id : UInt8 → UInt16) (type : UInt8) (func : UInt8) : Prop :=
  id 0 ≠ 0xFFFF ∧ (func = 0 ∨ type &&& 0x80 ≠ 0 ∧ id func ≠ 0xFFFF)

instance (id : UInt8 → UInt16) (type func : UInt8) : Decidable (PresentBy id type func) :=
  inferInstanceAs (Decidable (_ ∧ (_ ∨ _ ∧ _)))

/-- The function is one that `pci_check` is to examine: the vendor ids tell which functions
there are, and bit 7 of the header type that there are more than one. -/
def Present (cfg : ConfigSpace) (bus device func : UInt8) : Prop :=
  PresentBy (vendorId cfg bus device) (byteAt cfg bus device 0 0x0E) func

instance (cfg : ConfigSpace) (bus device func : UInt8) :
    Decidable (Present cfg bus device func) := inferInstanceAs (Decidable (PresentBy _ _ _))

/-- `pci_check` examines the functions that are present. -/
def ExaminesPresent (cfg : ConfigSpace) (bus device : UInt8) : Prop :=
  ∃ examined, pciCheck cfg bus device = .ok examined ∧
    ∀ func < 8, func ∈ examined.map Prod.fst ↔ Present cfg bus device func

/-! ## Words -/

section Words

variable {cfg : ConfigSpace} {bus device func off : UInt8}

/-- The words of a dword are at offsets that differ in bit 1. -/
theorem offset_facts : ∀ off : UInt8, off % 2 = 0 →
    (off + 1) >>> 2 = off >>> 2 ∧ (off ^^^ 2) >>> 2 = off >>> 2 ∧
      ((off ^^^ 2) + 1) >>> 2 = off >>> 2 ∧ (off &&& 0xfc) >>> 2 = off >>> 2 ∧
      (off &&& 0xfc) &&& 3 = 0 ∧
      (off &&& 2 = 0 ∧ off &&& 3 = 0 ∧ (off + 1) &&& 3 = 1 ∧
          (off ^^^ 2) &&& 3 = 2 ∧ ((off ^^^ 2) + 1) &&& 3 = 3 ∨
        off &&& 2 ≠ 0 ∧ off &&& 3 = 2 ∧ (off + 1) &&& 3 = 3 ∧
          (off ^^^ 2) &&& 3 = 0 ∧ ((off ^^^ 2) + 1) &&& 3 = 1) :=
  byte_all (by decide +kernel)

/-- Two bytes of a word. -/
theorem ofNat_bytes (x : UInt32) :
    UInt16.ofNat (x.toUInt8.toNat + 256 * (x >>> 8).toUInt8.toNat) = x.toUInt16 := by
  apply UInt16.toNat_inj.mp
  rw [UInt16.toNat_ofNat', UInt32.toNat_toUInt8, UInt32.toNat_toUInt8, UInt32.toNat_toUInt16,
    UInt32.toNat_shiftRight, Nat.shiftRight_eq_div_pow]
  show (x.toNat % 256 + 256 * (x.toNat / 256 % 256)) % 65536 = x.toNat % 65536
  omega

/-- The words of a dword, by their offsets. -/
theorem wordAt_eq (heven : off % 2 = 0) :
    wordAt cfg bus device func off =
        (if off &&& 2 ≠ 0 then (dwordAt cfg bus device func off >>> 16).toUInt16
          else (dwordAt cfg bus device func off).toUInt16) ∧
      wordAt cfg bus device func (off ^^^ 2) =
        (if off &&& 2 ≠ 0 then (dwordAt cfg bus device func off).toUInt16
          else (dwordAt cfg bus device func off >>> 16).toUInt16) := by
  obtain ⟨hnext, hother, hlast, -, -, hbits⟩ := offset_facts off heven
  unfold wordAt byteAt dwordAt
  rw [hnext, hother, hlast]
  generalize cfg bus _ _ _ = d
  have hlow : UInt16.ofNat ((d >>> (8 * 0 : UInt8).toUInt32).toUInt8.toNat +
      256 * (d >>> (8 * 1 : UInt8).toUInt32).toUInt8.toNat) = d.toUInt16 := by
    have := ofNat_bytes d
    simpa using this
  have hhigh : UInt16.ofNat ((d >>> (8 * 2 : UInt8).toUInt32).toUInt8.toNat +
      256 * (d >>> (8 * 3 : UInt8).toUInt32).toUInt8.toNat) = (d >>> 16).toUInt16 := by
    have := ofNat_bytes (d >>> 16)
    simpa [← Nat.shiftRight_add] using this
  rcases hbits with ⟨h2, h0, h1, h0', h1'⟩ | ⟨h2, h0, h1, h0', h1'⟩
  · rw [h0, h1, h0', h1', if_neg (not_not.mpr h2), if_neg (not_not.mpr h2)]
    exact ⟨hlow, hhigh⟩
  · rw [h0, h1, h0', h1', if_pos h2, if_pos h2]
    exact ⟨hhigh, hlow⟩

/-- The word that is read is the other one of its dword. -/
theorem pciCfgReadWord_eq (heven : off % 2 = 0) :
    pciCfgReadWord cfg bus device func off =
      .ok (wordAt cfg bus device func (off ^^^ 2)) := by
  obtain ⟨-, -, -, hdword, haligned, -⟩ := offset_facts off heven
  rw [(wordAt_eq heven).2]
  unfold pciCfgReadWord pciCfgReadDword ConfigSpace.read dwordAt
  rw [require_of _ haligned]
  dsimp only
  rw [hdword]
  generalize cfg bus _ _ _ = d
  have hmask : (d &&& 0xFFFF).toUInt16 = d.toUInt16 := by
    apply UInt16.toNat_inj.mp
    have hand : d.toNat &&& 65535 = d.toNat % 65536 := Nat.and_two_pow_sub_one_eq_mod _ 16
    rw [UInt32.toNat_toUInt16, UInt32.toNat_toUInt16, UInt32.toNat_and]
    show (d.toNat &&& 65535) % 65536 = d.toNat % 65536
    rw [hand, Nat.mod_mod]
  rw [← hmask]
  rfl

theorem pciCfgReadWord_eq_iff (heven : off % 2 = 0) :
    pciCfgReadWord cfg bus device func off = .ok (wordAt cfg bus device func off) ↔
      wordAt cfg bus device func (off ^^^ 2) = wordAt cfg bus device func off := by
  rw [pciCfgReadWord_eq heven, Except.ok.injEq]

/-- What is read for the header type is the byte two before it. -/
theorem pciGetHeaderType_eq :
    pciGetHeaderType cfg bus device func = .ok (byteAt cfg bus device func 0x0C) := by
  unfold pciGetHeaderType
  rw [pciCfgReadWord_eq (by decide)]
  show Except.ok (UInt16.ofNat _).toUInt8 = _
  congr 1
  apply UInt8.toNat_inj.mp
  rw [UInt16.toNat_toUInt8, UInt16.toNat_ofNat']
  have := (byteAt cfg bus device func 0x0C).toNat_lt
  show ((byteAt cfg bus device func 0x0C).toNat + 256 * _) % 65536 % 256 = _
  omega

end Words

/-! ## The functions of a device -/

section Functions

variable {cfg : ConfigSpace} {bus device func : UInt8}

theorem readDev_ok (cfg : ConfigSpace) (bus device func : UInt8) :
    ∃ buf, readDev cfg bus device func = .ok buf := by
  unfold readDev
  generalize List.range 16 = l
  induction l with
  | nil => exact ⟨[], rfl⟩
  | cons i l ih =>
    obtain ⟨rest, hrest⟩ := ih
    have haligned : ∀ reg : UInt8, pciReg reg 0 &&& 3 = 0 := byte_all (by decide +kernel)
    rw [List.mapM_cons, hrest]
    unfold pciCfgReadDword
    rw [require_of _ (haligned _)]
    exact ⟨_, rfl⟩

theorem pciCheckFunc_ok (cfg : ConfigSpace) (bus device func : UInt8) :
    ∃ found, pciCheckFunc cfg bus device func = .ok found := by
  obtain ⟨buf, hbuf⟩ := readDev_ok cfg bus device func
  unfold pciCheckFunc
  rw [pciCfgReadWord_eq (by decide), pciCfgReadWord_eq (by decide), hbuf]
  simp only [bind, Except.bind]
  split
  · exact ⟨_, rfl⟩
  · exact ⟨_, rfl⟩

/-- At offset 0 the device id is read. -/
theorem pciCfgReadWord_zero :
    pciCfgReadWord cfg bus device func 0 = .ok (deviceId cfg bus device func) :=
  pciCfgReadWord_eq (by decide)

/-- A round of the loop. -/
theorem pciCheckOther_ok (cfg : ConfigSpace) (bus device : UInt8)
    (examined : List (UInt8 × Option (List UInt32))) (i : UInt8) :
    ∃ all, pciCheckOther cfg bus device examined i = .ok all ∧
      all.map Prod.fst = examined.map Prod.fst ++
        [i].filter fun i => deviceId cfg bus device i ≠ 0xFFFF := by
  obtain ⟨found, hfound⟩ := pciCheckFunc_ok cfg bus device i
  unfold pciCheckOther
  rw [pciCfgReadWord_zero, ok_bind, hfound, ok_bind]
  by_cases hid : deviceId cfg bus device i ≠ 0xFFFF
  · refine ⟨examined ++ [(i, found)], if_pos hid, ?_⟩
    rw [List.filter_cons_of_pos (by simpa using hid)]
    simp
  · refine ⟨examined, if_neg hid, ?_⟩
    rw [List.filter_cons_of_neg (by simpa using hid)]
    simp

/-- The loop examines the functions that have a device id. -/
theorem pciCheckOthers_ok (cfg : ConfigSpace) (bus device : UInt8) (is : List UInt8)
    (examined : List (UInt8 × Option (List UInt32))) :
    ∃ all, is.foldlM (pciCheckOther cfg bus device) examined = .ok all ∧
      all.map Prod.fst = examined.map Prod.fst ++
        is.filter fun i => deviceId cfg bus device i ≠ 0xFFFF := by
  refine foldlM_ok (fun done (all : List (UInt8 × Option (List UInt32))) =>
    all.map Prod.fst = examined.map Prod.fst ++
      done.filter fun i => deviceId cfg bus device i ≠ 0xFFFF) (by simp) ?_
  intro done i all _ hall
  obtain ⟨all', hok, hfuncs⟩ := pciCheckOther_ok cfg bus device all i
  exact ⟨all', hok, by rw [hfuncs, hall, List.filter_append, List.append_assoc]⟩

/-- `pci_check` examines the functions that the device ids and the cache line size tell about. -/
theorem pciCheck_funcs (cfg : ConfigSpace) (bus device : UInt8) :
    ∃ examined, pciCheck cfg bus device = .ok examined ∧
      ∀ func < 8, func ∈ examined.map Prod.fst ↔
        PresentBy (deviceId cfg bus device) (byteAt cfg bus device 0 0x0C) func := by
  obtain ⟨found, hfound⟩ := pciCheckFunc_ok cfg bus device 0
  unfold pciCheck PresentBy
  rw [pciCfgReadWord_zero, ok_bind, hfound, ok_bind, pciGetHeaderType_eq, ok_bind]
  by_cases hid : deviceId cfg bus device 0 ≠ 0xFFFF
  · by_cases hmulti : byteAt cfg bus device 0 0x0C &&& 0x80 ≠ 0
    · obtain ⟨all, hall, hfuncs⟩ := pciCheckOthers_ok cfg bus device
        [1, 2, 3, 4, 5, 6, 7] [(0, found)]
      refine ⟨all, by rw [if_pos hid, if_pos hmulti]; exact hall, fun func hlt => ?_⟩
      have hother : func ∈ ([1, 2, 3, 4, 5, 6, 7] : List UInt8) ↔ func ≠ 0 := by
        revert hlt
        exact byte_all (P := fun func => func < 8 → (func ∈ _ ↔ func ≠ 0)) (by decide +kernel) func
      rw [hfuncs, List.map_singleton, List.singleton_append, List.mem_cons, List.mem_filter, hother]
      by_cases hfirst : func = 0
      · simp [hfirst, hid]
      · simp [hfirst, hid, hmulti]
    · refine ⟨[(0, found)], by rw [if_pos hid, if_neg hmulti]; rfl, fun func _ => ?_⟩
      simp [hid, not_not.mp hmulti]
  · refine ⟨[], if_neg hid, fun func _ => ?_⟩
    simp [not_not.mp hid]

/-- A word is read right exactly if the other word of its dword is the same.  The functions
that are present are examined exactly if the device ids and the cache line size say the same
of them as the vendor ids and the header type. -/
theorem pciReads_iff (cfg : ConfigSpace) (bus device : UInt8) :
    (∀ func off : UInt8, off % 2 = 0 →
      (pciCfgReadWord cfg bus device func off = .ok (wordAt cfg bus device func off) ↔
        wordAt cfg bus device func (off ^^^ 2) = wordAt cfg bus device func off)) ∧
      (ExaminesPresent cfg bus device ↔
        ∀ func < 8, PresentBy (deviceId cfg bus device) (byteAt cfg bus device 0 0x0C) func ↔
          PresentBy (vendorId cfg bus device) (byteAt cfg bus device 0 0x0E) func) := by
  obtain ⟨examined, hcheck, hfuncs⟩ := pciCheck_funcs cfg bus device
  refine ⟨fun func off heven => pciCfgReadWord_eq_iff heven, fun h func hlt => ?_, fun h => ?_⟩
  · obtain ⟨examined', hcheck', hpresent⟩ := h
    rw [hcheck] at hcheck'
    cases hcheck'
    exact (hfuncs func hlt).symm.trans (hpresent func hlt)
  · exact ⟨examined, hcheck, fun func hlt => (hfuncs func hlt).trans (h func hlt)⟩

/-- A bus with no device. -/
def emptyBus : ConfigSpace := fun _ _ _ _ => 0xFFFFFFFF

theorem pciReads_emptyBus :
    pciCfgReadWord emptyBus 0 0 0 2 = .ok (wordAt emptyBus 0 0 0 2) ∧
      ExaminesPresent emptyBus 0 0 :=
  ⟨((pciReads_iff emptyBus 0 0).1 0 2 (by decide)).mpr (by decide +kernel),
    (pciReads_iff emptyBus 0 0).2.mpr fun _ _ =>
      iff_of_false (fun h => h.1 (by decide +kernel)) fun h => h.1 (by decide +kernel)⟩

/-- Every function has the ids of the card that is looked for, in a device that has more
functions than one. -/
def cardBus : ConfigSpace := fun _ _ _ reg =>
  if reg = 0 then 0x802910ec else if reg = 3 then 0x00800000 else 0

/-- What is read for the vendor id is the device id, and only the first function is examined. -/
theorem cardBus_misread :
    (pciCfgReadWord cardBus 0 0 0 0 = .ok 0x8029 ∧ wordAt cardBus 0 0 0 0 = 0x10ec) ∧
      Present cardBus 0 0 1 ∧ ¬ ExaminesPresent cardBus 0 0 := by
  refine ⟨⟨by decide +kernel, by decide +kernel⟩, by decide +kernel, ?_⟩
  rintro ⟨examined, hcheck, hall⟩
  have hfuncs : (pciCheck cardBus 0 0).map (List.map Prod.fst) = .ok [0] := by decide +kernel
  rw [hcheck] at hfuncs
  have hone := (hall 1 (by decide)).mpr (by decide +kernel)
  rw [Except.ok.inj hfuncs] at hone
  exact absurd hone (by decide)

end Functions

end Microboot.Kern.Io
