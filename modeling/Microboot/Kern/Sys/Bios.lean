/-
  Kern/Sys/Bios.lean --- calls of the BIOS, kern/sys/bios.S.

  `_internal_bios_interrupt` leaves the protected mode, runs an interrupt routine of the
  BIOS on the registers of `bios_regs`, and comes back.  What the routine may change and
  the kernel wants back is saved: the registers on the stack, the rest in cells of the
  section.

  Both masks are saved in the cell of the first, the one for the other controller, and
  the cell for the interrupt flag gets whatever is in `%al`.

  The routine is any function of the registers, the flags, the controllers and the
  keyboard.  It does not write to the section or to the kernel's stack.
-/
import Microboot.Foundation.Run
import Microboot.Kern.Io.BiosDrive

set_option autoImplicit false

namespace Microboot.Kern.Sys

open Microboot.Foundation Microboot.Kern.Io

/-! ## The interrupt controllers -/

/-- An 8259: its mask, and how many words of an initialization it waits for. -/
structure Pic where
  mask : UInt8
  expects : Nat
  deriving DecidableEq, Repr

/-- A word to the first port.  One with bit 4 starts an initialization, which clears the mask
and goes on with two to four words. -/
def Pic.command (pic : Pic) (word : UInt8) : Pic :=
  if word &&& 0x10 ≠ 0 then
    { mask := 0
      expects := 1 + (if word &&& 0x02 = 0 then 1 else 0) + if word &&& 0x01 ≠ 0 then 1 else 0 }
  else pic

/-- A word to the second port. -/
def Pic.data (pic : Pic) (word : UInt8) : Pic :=
  match pic.expects with
  | 0 => { pic with mask := word }
  | n + 1 => { pic with expects := n }

/-! ## The processor -/

/-- `pushal`, from the top of the stack. -/
structure GeneralRegs where
  edi : UInt32
  esi : UInt32
  ebp : UInt32
  esp : UInt32
  ebx : UInt32
  edx : UInt32
  ecx : UInt32
  eax : UInt32
  deriving DecidableEq, Repr

namespace GeneralRegs

/-- `%al` -/
def al (regs : GeneralRegs) : UInt8 := regs.eax.toUInt8

/-- `%al` is a part of `%eax`. -/
def setAl (regs : GeneralRegs) (value : UInt8) : GeneralRegs :=
  { regs with eax := UInt32.ofNat (regs.eax.toNat / 256 * 256 + value.toNat) }

@[simp] theorem al_setAl (regs : GeneralRegs) (value : UInt8) : (regs.setAl value).al = value := by
  refine UInt8.toNat_inj.mp ?_
  have hvalue := value.toNat_lt
  have heax := regs.eax.toNat_lt
  rw [al, setAl, UInt32.toNat_toUInt8, UInt32.toNat_ofNat']
  omega

end GeneralRegs

/-- The low half of the flags: the interrupt flag, the six that arithmetic sets, and the rest. -/
structure Flags where
  interrupt : Bool
  status : UInt16
  other : UInt16
  deriving DecidableEq, Repr

/-- What `popfw` reads. -/
def Flags.ofWord (word : UInt16) : Flags where
  interrupt := word &&& 0x0200 ≠ 0
  status := word &&& 0x08d5
  other := word &&& 0xf52a

/-- What `pushfw` writes. -/
def Flags.word (flags : Flags) : UInt16 :=
  flags.status ||| flags.other ||| if flags.interrupt then 0x0200 else 0

/-- The status flags of a sum. -/
def sumStatus (a b : UInt32) : UInt16 :=
  let sum := a + b
  let bit := fun (p : Bool) (n : UInt16) => if p then n else 0
  let ones := (List.range 8).countP fun k => sum.toNat / 2 ^ k % 2 = 1
  bit (sum < a) 0x0001 ||| bit (ones % 2 = 0) 0x0004 |||
    bit (16 ≤ a.toNat % 16 + b.toNat % 16) 0x0010 ||| bit (sum = 0) 0x0040 |||
    bit (2 ^ 31 ≤ sum.toNat) 0x0080 |||
    bit ((2 ^ 31 ≤ a.toNat) = (2 ^ 31 ≤ b.toNat) ∧ (2 ^ 31 ≤ a.toNat) ≠ (2 ^ 31 ≤ sum.toNat)) 0x0800

/-- The operand of `lidt` and `sgdt`. -/
structure TableReg where
  limit : UInt16
  base : UInt32
  deriving DecidableEq, Repr

/-- The registers that the code reads or writes. -/
structure Cpu where
  regs : GeneralRegs
  flags : Flags
  ds : UInt16
  es : UInt16
  cr0 : UInt32
  gdtr : TableReg
  idtr : TableReg
  deriving DecidableEq, Repr

/-- What a routine of the BIOS may change.  The keyboard has bytes that were not read. -/
structure Hardware where
  cpu : Cpu
  pic0 : Pic
  pic1 : Pic
  keyboard : List UInt8
  deriving DecidableEq, Repr

/-! ## The ports -/

/-- `inb(portnumber)`, for the ports that are read. -/
def Hardware.inb (hw : Hardware) (port : UInt16) : UInt8 × Hardware :=
  if port = 0x21 then (hw.pic0.mask, hw)
  else if port = 0xa1 then (hw.pic1.mask, hw)
  else (hw.keyboard.headD 0, { hw with keyboard := hw.keyboard.tail })

/-- `outb(portnumber, data)`, for the ports that are written. -/
def Hardware.outb (hw : Hardware) (port : UInt16) (data : UInt8) : Hardware :=
  if port = 0x20 then { hw with pic0 := hw.pic0.command data }
  else if port = 0x21 then { hw with pic0 := hw.pic0.data data }
  else if port = 0xa0 then { hw with pic1 := hw.pic1.command data }
  else { hw with pic1 := hw.pic1.data data }

/-- `interrupts_pic_init()` -/
def interruptsPicInit (hw : Hardware) : Hardware :=
  [(0x21, 0xff), (0xa1, 0xff), (0x20, 0x11), (0x21, 0x20), (0x21, 0x04), (0x21, 0x01),
    (0xa0, 0x11), (0xa1, 0x28), (0xa1, 0x02), (0xa1, 0x01), (0x21, 0), (0xa1, 0)].foldl
    (fun hw out => hw.outb out.1 out.2) hw

/-- The port of both mask functions. -/
def maskPort (pic : UInt32) : UInt16 := if pic.toInt32 > 0 then 0x21 else 0xa1

/-- `get_pic_mask(pic)` -/
def getPicMask (pic : UInt32) (hw : Hardware) : UInt8 × Hardware := hw.inb (maskPort pic)

/-- `set_pic_mask(pic, mask)` -/
def setPicMask (pic : UInt32) (mask : UInt8) (hw : Hardware) : Hardware :=
  hw.outb (maskPort pic) mask

/-! ## The machine -/

/-- The variables of the section `bios`. -/
structure Cells where
  savedIf : UInt8
  savedGdtPtr : TableReg
  savedIdtPtr : TableReg
  pic1SavedMask : UInt8
  pic2SavedMask : UInt8
  savedEsp : UInt32
  savedEbp : UInt32
  savedEax : UInt32
  savedDs : UInt16
  savedEs : UInt16
  savedFl : UInt16
  biosRegs : IntRegs
  deriving DecidableEq, Repr

/-- `realmode_idt_ptr` -/
def realmodeIdtPtr : TableReg := ⟨0x3ff, 0⟩

/-- The section as it is loaded. -/
def Cells.initial : Cells where
  savedIf := 0
  savedGdtPtr := ⟨0, 0⟩
  savedIdtPtr := ⟨0, 0⟩
  pic1SavedMask := 0
  pic2SavedMask := 0
  savedEsp := 0
  savedEbp := 0
  savedEax := 0
  savedDs := 0
  savedEs := 0
  savedFl := 0
  biosRegs := ⟨0, 0, 0, 0, 0, 0, 0, 0, 0, 0, 0, 0, 0⟩

/-- The machine, with the words of the kernel's stack from `%esp` up. -/
structure Machine extends Hardware where
  stack : List UInt32
  cells : Cells
  deriving DecidableEq, Repr

/-- What a function of C need not keep. -/
structure Scratch where
  eax : UInt32
  ecx : UInt32
  edx : UInt32
  status : UInt16

/-- What is not in the section: the routines of the BIOS, with the instruction that calls them;
what the compiled functions leave in the registers they need not keep; the addresses of
`bios_regs` and `intr`. -/
structure Outside where
  interrupt : UInt8 → Hardware → Hardware
  getPicMask : Machine → Scratch
  setPicMask : Machine → Scratch
  interruptsPicInit : Machine → Scratch
  biosRegs : UInt32
  intr : UInt32

namespace Machine

/-- `push` -/
def push (m : Machine) (value : UInt32) : Machine :=
  { m with
    cpu.regs.esp := m.cpu.regs.esp - 4
    stack := value :: m.stack }

/-- `add $n, %esp`, over whole words. -/
def addEsp (m : Machine) (words : Nat) : Machine :=
  let n := UInt32.ofNat (4 * words)
  { m with
    cpu.flags.status := sumStatus m.cpu.regs.esp n
    cpu.regs.esp := m.cpu.regs.esp + n
    stack := m.stack.drop words }

/-- `pushal` -/
def pushal (m : Machine) : Machine :=
  let r := m.cpu.regs
  { m with
    cpu.regs.esp := r.esp - 32
    stack := [r.edi, r.esi, r.ebp, r.esp, r.ebx, r.edx, r.ecx, r.eax] ++ m.stack }

/-- `popal`, which skips `%esp`. -/
def popal (m : Machine) : Machine :=
  let word := fun i => m.stack.getD i 0
  { m with
    cpu.regs := ⟨word 0, word 1, word 2, m.cpu.regs.esp + 32, word 4, word 5, word 6, word 7⟩
    stack := m.stack.drop 8 }

/-- `pop %ebp` -/
def popEbp (m : Machine) : Machine :=
  { m with
    cpu.regs.ebp := m.stack.headD 0
    cpu.regs.esp := m.cpu.regs.esp + 4
    stack := m.stack.tail }

/-- `cli` and `sti` -/
def setInterrupt (m : Machine) (enabled : Bool) : Machine :=
  { m with cpu.flags.interrupt := enabled }

/-- What a call of a function of C leaves behind. -/
def afterCall (m : Machine) (scratch : Scratch) : Machine :=
  { m with
    cpu.regs.eax := scratch.eax
    cpu.regs.ecx := scratch.ecx
    cpu.regs.edx := scratch.edx
    cpu.flags.status := scratch.status }

/-- Stores to cells in the real mode.  With another segment in `%ds` they go to memory behind
the cells; all of `bios_regs` that they could reach but `fs` and `gs` is written afterwards. -/
def storeReal (m : Machine) (cells : Cells) : Machine :=
  if m.cpu.ds = 0 then { m with cells := cells } else m

end Machine

/-! ## bios.S -/

section Code

variable (out : Outside)

/-- A call of `get_pic_mask`. -/
def callGetPicMask (pic : UInt32) (m : Machine) : Machine :=
  let m := m.push pic
  let (mask, hw) := getPicMask pic m.toHardware
  let m := { m with toHardware := hw }.afterCall (out.getPicMask m)
  { m with cpu.regs := m.cpu.regs.setAl mask }.addEsp 1

/-- A call of `interrupts_pic_init`. -/
def callInterruptsPicInit (m : Machine) : Machine :=
  { m with toHardware := interruptsPicInit m.toHardware }.afterCall (out.interruptsPicInit m)

/-- A call of `set_pic_mask`, with the mask in a cell. -/
def callSetPicMask (pic : UInt32) (mask : UInt8) (m : Machine) : Machine :=
  let m := { m with cpu.regs.eax := mask.toUInt32 }
  let m := (m.push m.cpu.regs.eax).push pic
  let hw := setPicMask pic mask m.toHardware
  ({ m with toHardware := hw }.afterCall (out.setPicMask m)).addEsp 2

/-- `in $0x60, %al` -/
def clearKeyboard (m : Machine) : Machine :=
  let (byte, hw) := m.toHardware.inb 0x60
  let m := { m with toHardware := hw }
  { m with cpu.regs := m.cpu.regs.setAl byte }

/-- A call of `set_if`. -/
def callSetIf (value : UInt8) (m : Machine) : Machine :=
  let m := { m with cpu.regs.eax := value.toUInt32 }
  let m := m.push m.cpu.regs.eax
  let m := { m with cpu.flags.status := sumStatus value.toUInt32 0 }
  (m.setInterrupt (value.toUInt32 ≠ 0)).addEsp 1

/-- `_internal_bios_interrupt`, up to the masks.  `get_if` is not called. -/
def biosEnter (m : Machine) : Machine :=
  let m := m.push m.cpu.regs.ebp
  let m := { m with cpu.regs.ebp := m.cpu.regs.esp }
  let m := m.pushal
  let m := { m with cells.savedIf := m.cpu.regs.al }
  let m := m.setInterrupt false
  let m := { m with cells.savedGdtPtr := m.cpu.gdtr, cells.savedIdtPtr := m.cpu.idtr }
  { m with cpu.idtr := realmodeIdtPtr }

/-- A mask is saved; the cell is `pic1_saved_mask` both times. -/
def savePicMask (pic : UInt32) (m : Machine) : Machine :=
  let m := callGetPicMask out pic m
  { m with cells.pic1SavedMask := m.cpu.regs.al }

/-- The number of the interrupt, for the instruction at `intr`. -/
def biosPatch (intrNum : UInt8) (m : Machine) : Machine :=
  let m := { m with cpu.regs.ebx := out.intr }
  { m with cpu.regs := m.cpu.regs.setAl intrNum }

/-- The part in front of the jump to the real mode. -/
def biosSave (intrNum : UInt8) (m : Machine) : Machine :=
  biosPatch out intrNum (savePicMask out 1 (savePicMask out 0 (biosEnter m)))

/-- The part in the real mode.  What `and`, `or` and `xor` do to the status flags is overwritten
before it is read. -/
def biosCall (intrNum : UInt8) (m : Machine) : Machine :=
  let m := { m with cpu.cr0 := m.cpu.cr0 &&& 0xfffe, cpu.ds := 0, cpu.es := 0 }
  let m := { m with cells.savedEsp := m.cpu.regs.esp, cells.savedEbp := m.cpu.regs.ebp }
  let r := m.cells.biosRegs
  let m := { m with
    cpu.regs := ⟨r.edi, r.esi, r.ebp, 0xf000, r.ebx, r.edx, r.ecx, r.eax⟩
    cpu.flags := .ofWord r.flags
    cpu.es := r.es
    cpu.ds := r.ds }
  let m := { m with toHardware := out.interrupt intrNum m.toHardware }
  let m := m.setInterrupt false
  let m := m.storeReal { m.cells with
    savedEax := m.cpu.regs.eax
    savedDs := m.cpu.ds
    savedEs := m.cpu.es
    savedFl := m.cpu.flags.word }
  { m with cpu.cr0 := m.cpu.cr0 ||| 1, cpu.regs.eax := m.cpu.cr0 ||| 1 }

/-- The part behind it, up to the stack of the kernel.  The words that are pushed down from the
38th byte of `bios_regs` are the routine's. -/
def biosLeave (m : Machine) : Machine :=
  let m := { m with cpu.ds := 0x10, cpu.es := 0x10, cpu.idtr := m.cells.savedIdtPtr }
  let m := { m with cpu.regs.ebp := m.cells.savedEbp }
  let m := { m with cpu.flags.status := sumStatus out.biosRegs 38 }
  let m := { m with
    cells.biosRegs.ds := m.cells.savedDs
    cells.biosRegs.es := m.cells.savedEs
    cells.biosRegs.flags := m.cpu.flags.word &&& 0xfffe ||| m.cells.savedFl
    cells.biosRegs.eax := m.cells.savedEax
    cells.biosRegs.ecx := m.cpu.regs.ecx
    cells.biosRegs.edx := m.cpu.regs.edx
    cells.biosRegs.ebx := m.cpu.regs.ebx
    cells.biosRegs.esp := out.biosRegs + 32
    cells.biosRegs.ebp := m.cpu.regs.ebp
    cells.biosRegs.esi := m.cpu.regs.esi
    cells.biosRegs.edi := m.cpu.regs.edi }
  { m with cpu.regs.eax := m.cells.savedEax, cpu.regs.esp := m.cells.savedEsp }

/-- The rest, up to `ret`. -/
def biosRestore (m : Machine) : Machine :=
  let m := biosLeave out m
  let m := callInterruptsPicInit out m
  let m := callSetPicMask out 0 m.cells.pic1SavedMask m
  let m := callSetPicMask out 1 m.cells.pic2SavedMask m
  let m := clearKeyboard m
  let m := callSetIf m.cells.savedIf m
  m.popal.popEbp

/-- `_internal_bios_interrupt(intr_num)`, from its first instruction to `ret`. -/
def internalBiosInterrupt (intrNum : UInt8) (m : Machine) : Machine :=
  biosRestore out (biosCall out intrNum (biosSave out intrNum m))

/-- `bios_interrupt(number, regs)`: what is left in `regs`, and the machine.  The registers of
`m` are those that the call of `_internal_bios_interrupt` is made with. -/
def biosInterrupt (number : Int32) (regs : IntRegs) (m : Machine) : IntRegs × Machine :=
  let m := { m with cells.biosRegs := regs }
  let m := internalBiosInterrupt out number.toUInt32.toUInt8 m
  (m.cells.biosRegs, m)

end Code

/-! ## The calls of C -/

section Calls

variable (out : Outside) (m : Machine)

/-- The word that both controllers are started with, which announces three more. -/
theorem command_start (pic : Pic) : pic.command 0x11 = ⟨0, 3⟩ := rfl

theorem interruptsPicInit_eq (hw : Hardware) :
    interruptsPicInit hw = { hw with pic0 := ⟨0, 0⟩, pic1 := ⟨0, 0⟩ } := by
  simp [interruptsPicInit, Hardware.outb, command_start, Pic.data]

/-- `get_pic_mask(1)` reads the mask of the first controller. -/
theorem getPicMask_one (hw : Hardware) : getPicMask 1 hw = (hw.pic0.mask, hw) := rfl

theorem setPicMask_zero (mask : UInt8) (hw : Hardware) :
    setPicMask 0 mask hw = { hw with pic1 := hw.pic1.data mask } := rfl

theorem setPicMask_one (mask : UInt8) (hw : Hardware) :
    setPicMask 1 mask hw = { hw with pic0 := hw.pic0.data mask } := rfl

theorem getPicMask_keeps (pic : UInt32) (hw : Hardware) : (getPicMask pic hw).2 = hw := by
  rw [getPicMask, maskPort]
  split <;> rfl

theorem getPicMask_push (pic value : UInt32) :
    (getPicMask pic (m.push value).toHardware).1 = (getPicMask pic m.toHardware).1 := by
  rw [getPicMask, getPicMask, maskPort]
  split <;> rfl

theorem setPicMask_cpu (pic : UInt32) (mask : UInt8) (hw : Hardware) (cpu : Cpu) :
    setPicMask pic mask { hw with cpu := cpu } = { setPicMask pic mask hw with cpu := cpu } := by
  rw [setPicMask, setPicMask, maskPort]
  split <;> rfl

theorem setPicMask_keeps (pic : UInt32) (mask : UInt8) (hw : Hardware) :
    (setPicMask pic mask hw).cpu = hw.cpu := by
  rw [setPicMask, maskPort]
  split <;> rfl

/-- An argument that was pushed is dropped again. -/
theorem addEsp_push (value : UInt32) : (m.push value).addEsp 1 =
    { m with cpu.flags.status := sumStatus (m.cpu.regs.esp - 4) 4 } := by
  have hesp : m.cpu.regs.esp - 4 + UInt32.ofNat (4 * 1) = m.cpu.regs.esp :=
    UInt32.sub_add_cancel _ 4
  simp only [Machine.addEsp, Machine.push, hesp]
  rfl

theorem addEsp_push_push (value value' : UInt32) : ((m.push value).push value').addEsp 2 =
    { m with cpu.flags.status := sumStatus (m.cpu.regs.esp - 4 - 4) 8 } := by
  have hesp : m.cpu.regs.esp - 4 - 4 + UInt32.ofNat (4 * 2) = m.cpu.regs.esp := by
    have htwo : UInt32.ofNat (4 * 2) = 4 + 4 := rfl
    rw [htwo, ← UInt32.add_assoc, UInt32.sub_add_cancel, UInt32.sub_add_cancel]
  simp only [Machine.addEsp, Machine.push, hesp]
  rfl

theorem callGetPicMask_eq (pic : UInt32) : ∃ s, callGetPicMask out pic m = m.afterCall s ∧
    s.eax.toUInt8 = (getPicMask pic m.toHardware).1 := by
  obtain ⟨mask, hmask⟩ : ∃ mask, mask = (getPicMask pic m.toHardware).1 := ⟨_, rfl⟩
  obtain ⟨s, hs⟩ : ∃ s, s = out.getPicMask (m.push pic) := ⟨_, rfl⟩
  have hread : getPicMask pic (m.push pic).toHardware = (mask, (m.push pic).toHardware) := by
    rw [hmask, ← getPicMask_push m pic pic]
    exact Prod.ext rfl (getPicMask_keeps _ _)
  refine ⟨⟨(({ m.cpu.regs with eax := s.eax }).setAl mask).eax, s.ecx, s.edx,
    sumStatus (m.cpu.regs.esp - 4) 4⟩, ?_, ?_⟩
  · rw [callGetPicMask]
    simp only [hread]
    rw [← hs]
    exact addEsp_push { m.afterCall s with cpu.regs := (m.afterCall s).cpu.regs.setAl mask } pic
  · rw [← hmask]
    exact GeneralRegs.al_setAl _ mask

theorem callSetPicMask_eq (pic : UInt32) (mask : UInt8) : ∃ s, callSetPicMask out pic mask m =
    { m with toHardware := setPicMask pic mask m.toHardware }.afterCall s := by
  obtain ⟨m₁, hm₁⟩ : ∃ m₁ : Machine, m₁ = { m with cpu.regs.eax := mask.toUInt32 } := ⟨_, rfl⟩
  obtain ⟨s, hs⟩ : ∃ s, s = out.setPicMask ((m₁.push mask.toUInt32).push pic) := ⟨_, rfl⟩
  obtain ⟨hw, hhw⟩ : ∃ hw, hw = setPicMask pic mask m.toHardware := ⟨_, rfl⟩
  have hcpu : hw.cpu = m.cpu := by
    rw [hhw]
    exact setPicMask_keeps _ _ _
  have heax : m₁.cpu.regs.eax = mask.toUInt32 := by rw [hm₁]
  have hset : setPicMask pic mask ((m₁.push mask.toUInt32).push pic).toHardware =
      { hw with cpu := ((m₁.push mask.toUInt32).push pic).cpu } := by
    rw [hhw, hm₁]
    exact setPicMask_cpu pic mask m.toHardware _
  refine ⟨⟨s.eax, s.ecx, s.edx, sumStatus (m.cpu.regs.esp - 4 - 4) 8⟩, ?_⟩
  have hdrop := addEsp_push_push ({ m with toHardware := { hw with cpu := m.cpu } }.afterCall s)
    mask.toUInt32 pic
  rw [callSetPicMask, ← hm₁]
  simp only [heax, hset, ← hs, ← hhw]
  rw [hm₁]
  refine hdrop.trans ?_
  rw [← hcpu]
  rfl

theorem callSetIf_eq (value : UInt8) :
    ∃ s, callSetIf value m = (m.setInterrupt (value ≠ 0)).afterCall s := by
  have hzero : value.toUInt32 ≠ 0 ↔ value ≠ 0 := by
    rw [not_iff_not, ← UInt32.toNat_inj, ← UInt8.toNat_inj, UInt8.toNat_toUInt32]
    rfl
  refine ⟨⟨value.toUInt32, m.cpu.regs.ecx, m.cpu.regs.edx, sumStatus (m.cpu.regs.esp - 4) 4⟩, ?_⟩
  rw [callSetIf]
  simp only [hzero]
  exact addEsp_push { m with
    cpu.regs.eax := value.toUInt32
    cpu.flags.status := sumStatus value.toUInt32 0
    cpu.flags.interrupt := value ≠ 0 } value.toUInt32

theorem savePicMask_eq (pic : UInt32) : ∃ s, savePicMask out pic m =
    { m.afterCall s with cells.pic1SavedMask := (getPicMask pic m.toHardware).1 } := by
  obtain ⟨s, hs, hal⟩ := callGetPicMask_eq out m pic
  refine ⟨s, ?_⟩
  rw [← hal]
  simp only [savePicMask, hs]
  rfl

/-- What a call leaves as it was. -/
structure Balanced (m m' : Machine) : Prop where
  stack : m'.stack = m.stack
  esp : m'.cpu.regs.esp = m.cpu.regs.esp
  idt : m'.cpu.idtr = m.cpu.idtr
  cells : m'.cells = m.cells

variable {m} in
theorem Balanced.trans {m' m'' : Machine} (h : Balanced m m') (h' : Balanced m' m'') :
    Balanced m m'' :=
  ⟨h'.stack.trans h.stack, h'.esp.trans h.esp, h'.idt.trans h.idt, h'.cells.trans h.cells⟩

theorem callInterruptsPicInit_spec : Balanced m (callInterruptsPicInit out m) ∧
    (callInterruptsPicInit out m).pic0 = ⟨0, 0⟩ ∧ (callInterruptsPicInit out m).pic1 = ⟨0, 0⟩ := by
  rw [callInterruptsPicInit, interruptsPicInit_eq]
  exact ⟨⟨rfl, rfl, rfl, rfl⟩, rfl, rfl⟩

theorem callSetPicMask_zero (mask : UInt8) : Balanced m (callSetPicMask out 0 mask m) ∧
    (callSetPicMask out 0 mask m).pic0 = m.pic0 ∧
    (callSetPicMask out 0 mask m).pic1 = m.pic1.data mask := by
  obtain ⟨s, hs⟩ := callSetPicMask_eq out m 0 mask
  rw [hs, setPicMask_zero]
  exact ⟨⟨rfl, rfl, rfl, rfl⟩, rfl, rfl⟩

theorem callSetPicMask_one (mask : UInt8) : Balanced m (callSetPicMask out 1 mask m) ∧
    (callSetPicMask out 1 mask m).pic0 = m.pic0.data mask ∧
    (callSetPicMask out 1 mask m).pic1 = m.pic1 := by
  obtain ⟨s, hs⟩ := callSetPicMask_eq out m 1 mask
  rw [hs, setPicMask_one]
  exact ⟨⟨rfl, rfl, rfl, rfl⟩, rfl, rfl⟩

theorem clearKeyboard_spec : Balanced m (clearKeyboard m) ∧
    (clearKeyboard m).pic0 = m.pic0 ∧ (clearKeyboard m).pic1 = m.pic1 :=
  ⟨⟨rfl, rfl, rfl, rfl⟩, rfl, rfl⟩

theorem callSetIf_spec (value : UInt8) : Balanced m (callSetIf value m) ∧
    ((callSetIf value m).pic0 = m.pic0 ∧ (callSetIf value m).pic1 = m.pic1) ∧
    (callSetIf value m).cpu.flags.interrupt = decide (value ≠ 0) := by
  obtain ⟨s, hs⟩ := callSetIf_eq m value
  rw [hs]
  exact ⟨⟨rfl, rfl, rfl, rfl⟩, ⟨rfl, rfl⟩, rfl⟩

end Calls

/-! ## The parts of the code -/

section Parts

variable (out : Outside) (intrNum : UInt8) (m : Machine)

/-- What is saved. -/
structure Saved (m m' : Machine) : Prop where
  stack : m'.stack = [m.cpu.regs.edi, m.cpu.regs.esi, m.cpu.regs.esp - 4, m.cpu.regs.esp - 4,
    m.cpu.regs.ebx, m.cpu.regs.edx, m.cpu.regs.ecx, m.cpu.regs.eax, m.cpu.regs.ebp] ++ m.stack
  esp : m'.cpu.regs.esp = m.cpu.regs.esp - 4 - 32
  savedIf : m'.cells.savedIf = m.cpu.regs.al
  idt : m'.cells.savedIdtPtr = m.cpu.idtr
  pic1SavedMask : m'.cells.pic1SavedMask = m.pic0.mask
  pic2SavedMask : m'.cells.pic2SavedMask = m.cells.pic2SavedMask

theorem biosSave_saved : Saved m (biosSave out intrNum m) := by
  obtain ⟨s₀, h₀⟩ := savePicMask_eq out (biosEnter m) 0
  obtain ⟨s₁, h₁⟩ := savePicMask_eq out (savePicMask out 0 (biosEnter m)) 1
  rw [h₀, getPicMask_one] at h₁
  rw [biosSave, h₀, h₁]
  exact ⟨rfl, rfl, rfl, rfl, rfl, rfl⟩

/-- The cells that are written in front of the jump only. -/
structure SameCells (c c' : Cells) : Prop where
  savedIf : c'.savedIf = c.savedIf
  idt : c'.savedIdtPtr = c.savedIdtPtr
  pic1SavedMask : c'.pic1SavedMask = c.pic1SavedMask
  pic2SavedMask : c'.pic2SavedMask = c.pic2SavedMask

/-- Whatever the routine does, the stack and the cells are there. -/
theorem biosCall_keeps : (biosCall out intrNum m).stack = m.stack ∧
    (biosCall out intrNum m).cells.savedEsp = m.cpu.regs.esp ∧
    SameCells m.cells (biosCall out intrNum m).cells := by
  simp only [biosCall, Machine.storeReal]
  split
  · exact ⟨rfl, rfl, rfl, rfl, rfl, rfl⟩
  · exact ⟨rfl, rfl, rfl, rfl, rfl, rfl⟩

theorem biosLeave_spec : (biosLeave out m).stack = m.stack ∧
    (biosLeave out m).cpu.regs.esp = m.cells.savedEsp ∧
    (biosLeave out m).cpu.idtr = m.cells.savedIdtPtr ∧
    SameCells m.cells (biosLeave out m).cells :=
  ⟨rfl, rfl, rfl, rfl, rfl, rfl, rfl⟩

/-- What is restored from the stack and the cells. -/
structure FromCells (m m' : Machine) : Prop where
  regs : m'.cpu.regs = ⟨m.stack.getD 0 0, m.stack.getD 1 0, m.stack.getD 8 0,
    m.cells.savedEsp + 32 + 4, m.stack.getD 4 0, m.stack.getD 5 0, m.stack.getD 6 0,
    m.stack.getD 7 0⟩
  stack : m'.stack = m.stack.drop 9
  pic0 : m'.pic0 = ⟨m.cells.pic2SavedMask, 0⟩
  pic1 : m'.pic1 = ⟨m.cells.pic1SavedMask, 0⟩
  interrupt : m'.cpu.flags.interrupt = decide (m.cells.savedIf ≠ 0)
  idt : m'.cpu.idtr = m.cells.savedIdtPtr
  cells : SameCells m.cells m'.cells

theorem biosRestore_fromCells : FromCells m (biosRestore out m) := by
  unfold biosRestore
  extract_lets m₁ m₂ m₃ m₄ m₅ m₆
  obtain ⟨hstack, hesp, hidt, hcells⟩ : m₁.stack = m.stack ∧ m₁.cpu.regs.esp = m.cells.savedEsp ∧
      m₁.cpu.idtr = m.cells.savedIdtPtr ∧ SameCells m.cells m₁.cells := biosLeave_spec out m
  obtain ⟨hb₂, h0₂, h1₂⟩ : Balanced m₁ m₂ ∧ m₂.pic0 = ⟨0, 0⟩ ∧ m₂.pic1 = ⟨0, 0⟩ :=
    callInterruptsPicInit_spec out m₁
  obtain ⟨hb₃, h0₃, h1₃⟩ : Balanced m₂ m₃ ∧ m₃.pic0 = m₂.pic0 ∧
      m₃.pic1 = m₂.pic1.data m₂.cells.pic1SavedMask := callSetPicMask_zero out m₂ _
  obtain ⟨hb₄, h0₄, h1₄⟩ : Balanced m₃ m₄ ∧ m₄.pic0 = m₃.pic0.data m₃.cells.pic2SavedMask ∧
      m₄.pic1 = m₃.pic1 := callSetPicMask_one out m₃ _
  obtain ⟨hb₅, h0₅, h1₅⟩ : Balanced m₄ m₅ ∧ m₅.pic0 = m₄.pic0 ∧ m₅.pic1 = m₄.pic1 :=
    clearKeyboard_spec m₄
  obtain ⟨hb₆, ⟨h0₆, h1₆⟩, hif⟩ : Balanced m₅ m₆ ∧ (m₆.pic0 = m₅.pic0 ∧ m₆.pic1 = m₅.pic1) ∧
      m₆.cpu.flags.interrupt = decide (m₅.cells.savedIf ≠ 0) := callSetIf_spec m₅ _
  clear_value m₁ m₂ m₃ m₄ m₅ m₆
  have hb₅' := ((hb₂.trans hb₃).trans hb₄).trans hb₅
  have hb := hb₅'.trans hb₆
  have hstack₆ : m₆.stack = m.stack := hb.stack.trans hstack
  have hesp₆ : m₆.cpu.regs.esp = m.cells.savedEsp := hb.esp.trans hesp
  refine ⟨?_, ?_, ?_, ?_, ?_, hb.idt.trans hidt, ?_⟩
  · have hhead : (m.stack.drop 8).headD 0 = m.stack.getD 8 0 := by
      rw [List.headD_eq_head?_getD, List.head?_drop, List.getD_eq_getElem?_getD]
    rw [Machine.popEbp, Machine.popal]
    simp only [hstack₆, hesp₆]
    rw [hhead]
  · rw [Machine.popEbp, Machine.popal]
    simp only [hstack₆, List.tail_drop]
  · change m₆.pic0 = _
    rw [h0₆, h0₅, h0₄, h0₃, h0₂, hb₃.cells, hb₂.cells, hcells.pic2SavedMask]
    rfl
  · change m₆.pic1 = _
    rw [h1₆, h1₅, h1₄, h1₃, h1₂, hb₂.cells, hcells.pic1SavedMask]
    rfl
  · change m₆.cpu.flags.interrupt = _
    rw [hif, hb₅'.cells, hcells.savedIf]
  · change SameCells m.cells m₆.cells
    rwa [hb.cells]

/-- A call, whatever the routine does: the registers, the stack and the interrupt table are as
they were; the second controller has the mask of the first one, and the first one what is in the
cell that is never written. -/
structure Returned (m m' : Machine) : Prop where
  regs : m'.cpu.regs = m.cpu.regs
  stack : m'.stack = m.stack
  idt : m'.cpu.idtr = m.cpu.idtr
  pic0 : m'.pic0 = ⟨m.cells.pic2SavedMask, 0⟩
  pic1 : m'.pic1 = ⟨m.pic0.mask, 0⟩
  interrupt : m'.cpu.flags.interrupt = decide (m.cpu.regs.al ≠ 0)
  pic2SavedMask : m'.cells.pic2SavedMask = m.cells.pic2SavedMask

theorem internalBiosInterrupt_returned : Returned m (internalBiosInterrupt out intrNum m) := by
  have hs := biosSave_saved out intrNum m
  obtain ⟨hstack, hesp, hc⟩ := biosCall_keeps out intrNum (biosSave out intrNum m)
  have hr := biosRestore_fromCells out (biosCall out intrNum (biosSave out intrNum m))
  have hsum : m.cpu.regs.esp - 4 - 32 + 32 + 4 = m.cpu.regs.esp := by
    rw [UInt32.sub_add_cancel, UInt32.sub_add_cancel]
  rw [hs.stack] at hstack
  rw [internalBiosInterrupt]
  refine ⟨?_, ?_, ?_, ?_, ?_, ?_, ?_⟩
  · rw [hr.regs, hstack, hesp, hs.esp, hsum]
    rfl
  · rw [hr.stack, hstack]
    rfl
  · rw [hr.idt, hc.idt, hs.idt]
  · rw [hr.pic0, hc.pic2SavedMask, hs.pic2SavedMask]
  · rw [hr.pic1, hc.pic1SavedMask, hs.pic1SavedMask]
  · rw [hr.interrupt, hc.savedIf, hs.savedIf]
  · rw [hr.cells.pic2SavedMask, hc.pic2SavedMask, hs.pic2SavedMask]

theorem biosInterrupt_returned (number : Int32) (regs : IntRegs) :
    Returned m (biosInterrupt out number regs m).2 := by
  have h := internalBiosInterrupt_returned out number.toUInt32.toUInt8
    { m with cells.biosRegs := regs }
  rw [biosInterrupt]
  exact { h with }

end Parts

/-! ## Runs -/

/-- A call of `bios_interrupt`, with the machine it is made on. -/
structure BiosCall where
  out : Outside
  number : Int32
  regs : IntRegs
  machine : Machine

/-- A call takes the cells as the calls before it left them. -/
def BiosCall.Step (cells : Cells) (call : BiosCall) (cells' : Cells) : Prop :=
  call.machine.cells = cells ∧
    cells' = (biosInterrupt call.out call.number call.regs call.machine).2.cells

/-- No call writes the cell for the second mask. -/
theorem pic2SavedMask_zero {calls : List BiosCall} {cells : Cells}
    (hrun : Run BiosCall.Step Cells.initial calls cells) : cells.pic2SavedMask = 0 := by
  induction hrun with
  | nil => rfl
  | snoc _ hcall ih =>
    obtain ⟨rfl, rfl⟩ := hcall
    exact (biosInterrupt_returned _ _ _ _).pic2SavedMask.trans ih

/-- The masks, the interrupt flag and the general registers are as they were. -/
structure Restored (m m' : Machine) : Prop where
  pic0 : m'.pic0.mask = m.pic0.mask
  pic1 : m'.pic1.mask = m.pic1.mask
  interrupt : m'.cpu.flags.interrupt = m.cpu.flags.interrupt
  regs : m'.cpu.regs = m.cpu.regs

/-- Routines that change nothing. -/
def idleBios : Outside where
  interrupt _ hw := hw
  getPicMask _ := ⟨0, 0, 0, 0⟩
  setPicMask _ := ⟨0, 0, 0, 0⟩
  interruptsPicInit _ := ⟨0, 0, 0, 0⟩
  biosRegs := 0x8058
  intr := 0x80f7

/-- A kernel that is not interrupted, with `eax` for the call. -/
def callerMachine (mask0 mask1 : UInt8) (interrupt : Bool) (eax : UInt32) : Machine where
  cpu :=
    { regs := ⟨0, 0, 0x6fff0, 0x6ffd8, 0, 0, 0, eax⟩
      flags := ⟨interrupt, 0, 2⟩
      ds := 0x10
      es := 0x10
      cr0 := 0x11
      gdtr := ⟨39, 0x1000000⟩
      idtr := ⟨2047, 0x1001000⟩ }
  pic0 := ⟨mask0, 0⟩
  pic1 := ⟨mask1, 0⟩
  keyboard := []
  stack := [0x1000400, 0x10]
  cells := .initial

end Microboot.Kern.Sys
