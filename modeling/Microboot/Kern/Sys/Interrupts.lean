/-
  Kern/Sys/Interrupts.lean --- interrupts, kern/sys/interrupts.c and interrupts_stubs.S.

  An interrupt pushes the flags and the address of the program on its stack and goes to a
  stub of its own, by way of its gate in `idt`.  The stub pushes the number of the
  interrupt and goes on in `call_int_handle`, which pushes the registers, calls
  `interrupts_handle_int` with a pointer to all this, and pops them again.

  A handler is a function of the memory, the words that were written to ports and the
  state `σ` of whatever else it works on; one that does not return has no result.  What
  the compiled functions leave in the memory below their argument is left out.
-/
import Microboot.Foundation.Loop
import Microboot.Foundation.Stack
import Microboot.Kern.Sys.Bios
import Microboot.Kern.Sys.Syscall

set_option autoImplicit false

namespace Microboot.Kern.Sys

open Microboot.Foundation

variable {σ : Type}

/-! ## The gates -/

/-- `KERNEL_CSEL` -/
def kernelCsel : UInt16 := 0x08

/-- `INTR_COUNT` -/
def intrCount : Nat := 256

/-- The byte of `idt_entry_t` that consists of bit fields. -/
structure GateBits where
  gateType : Nat
  storageSegment : Nat
  dpl : Nat
  present : Nat
  deriving DecidableEq, Repr

/-- The fields of the byte, from the low bits. -/
def GateBits.ofByte (b : UInt8) : GateBits where
  gateType := b.toNat % 16
  storageSegment := b.toNat / 16 % 2
  dpl := b.toNat / 32 % 4
  present := b.toNat / 128

/-- The byte of the fields, each cut to its width. -/
def GateBits.byte (bits : GateBits) : UInt8 :=
  UInt8.ofNat (bits.gateType % 16 + 16 * (bits.storageSegment % 2) + 32 * (bits.dpl % 4) +
    128 * (bits.present % 2))

/-- An assignment to a bit field of the entry at `p`. -/
def setGateBits (m : Mem) (p : Nat) (f : GateBits → GateBits) : Mem :=
  m.store8 (p + 5) (f (.ofByte (m.load8 (p + 5)))).byte

/-- `make_gate(i, fn, dpl, gate_type)`, for the entry at `p`. -/
def makeGate (m : Mem) (p : Nat) (fn : UInt32) (dpl gateType : Nat) : Mem :=
  let m := m.storeBytes p (bytes16 (fn &&& 0xffff).toUInt16)
  let m := m.storeBytes (p + 6) (bytes16 ((fn &&& 0xffff0000) >>> 16).toUInt16)
  let m := m.store8 (p + 4) 0
  let m := setGateBits m p fun bits => { bits with dpl := dpl }
  let m := setGateBits m p fun bits => { bits with gateType := gateType }
  let m := setGateBits m p fun bits => { bits with present := 1 }
  m.storeBytes (p + 2) (bytes16 kernelCsel)

/-- A gate, as the processor reads it. -/
structure Gate where
  offset : UInt32
  selector : UInt16
  bits : GateBits
  deriving DecidableEq, Repr

/-- The gate in the eight bytes at `p`. -/
def gateAt (m : Mem) (p : Nat) : Gate where
  offset := UInt32.ofNat (m.load16 p + 65536 * m.load16 (p + 6))
  selector := word16 m (p + 2)
  bits := .ofByte (m.load8 (p + 5))

/-! ## The handlers -/

/-- What the handlers work on: the memory, the words written to ports, and the rest. -/
structure IntrSystem (σ : Type) where
  mem : Mem
  outs : List (UInt16 × UInt8)
  world : σ

/-- `outb(portnumber, data)` -/
def IntrSystem.outb (s : IntrSystem σ) (port : UInt16) (data : UInt8) : IntrSystem σ :=
  { s with outs := s.outs ++ [(port, data)] }

/-- `intr_handler` -/
abbrev IntrHandler (σ : Type) : Type := UInt32 → UInt32 → IntrSystem σ → Option (IntrSystem σ)

/-- `ll_intr_handler`, of the address of the frame. -/
abbrev LlIntrHandler (σ : Type) : Type := Nat → IntrSystem σ → Option (IntrSystem σ)

/-- `bound_handlers` and `ll_bound_handlers`; `NULL` is `none`. -/
structure Handlers (σ : Type) where
  bound : Vector (Option (IntrHandler σ)) intrCount
  llBound : Vector (Option (LlIntrHandler σ)) intrCount

/-- `register_handler(int_no, handler)` -/
def registerHandler (h : Handlers σ) (intNo : Int) (handler : Option (IntrHandler σ)) :
    Handlers σ :=
  if intNo ≥ 0 ∧ intNo < intrCount then
    { h with bound := h.bound.setIfInBounds intNo.toNat handler }
  else h

/-- `register_ll_handler(int_no, handler)` -/
def registerLlHandler (h : Handlers σ) (intNo : Int) (handler : Option (LlIntrHandler σ)) :
    Handlers σ :=
  if intNo ≥ 0 ∧ intNo < intrCount then
    { h with llBound := h.llBound.setIfInBounds intNo.toNat handler }
  else h

/-- `intr_frame_t` at an address. -/
def frameAt (m : Mem) (p : Nat) : IntrFrame where
  gs := word16 m p
  fs := word16 m (p + 2)
  es := word16 m (p + 4)
  ds := word16 m (p + 6)
  ss := word16 m (p + 8)
  edi := word32 m (p + 10)
  esi := word32 m (p + 14)
  ebp := word32 m (p + 18)
  ebx := word32 m (p + 22)
  edx := word32 m (p + 26)
  ecx := word32 m (p + 30)
  eax := word32 m (p + 34)
  esp := word32 m (p + 38)
  intNo := word32 m (p + 42)
  errCode := word32 m (p + 46)
  eip := word32 m (p + 50)
  cs := word32 m (p + 54)
  eflags := word32 m (p + 58)

/-- The bytes of `intr_frame_t`. -/
def IntrFrame.bytes (f : IntrFrame) : List UInt8 :=
  [bytes16 f.gs, bytes16 f.fs, bytes16 f.es, bytes16 f.ds, bytes16 f.ss,
    bytes32 f.edi, bytes32 f.esi, bytes32 f.ebp, bytes32 f.ebx, bytes32 f.edx, bytes32 f.ecx,
    bytes32 f.eax, bytes32 f.esp, bytes32 f.intNo, bytes32 f.errCode,
    bytes32 f.eip, bytes32 f.cs, bytes32 f.eflags].flatten

/-- `dump_regs(frame)`, with what it prints of a frame to the console and the debug output. -/
def dumpRegs (print : IntrFrame → σ → σ) : LlIntrHandler σ := fun frame s =>
  some { s with world := print (frameAt s.mem frame) s.world }

/-- `exception(frame)`, which hangs. -/
def exception : LlIntrHandler σ := fun _ _ => none

/-- `do_nothing(int_no, err_no)` -/
def doNothing : IntrHandler σ := fun _ _ s => some s

/-- `interrupts_eoi(irq)`.  The argument is not reduced to the number of a line. -/
def interruptsEoi (irq : Int) (s : IntrSystem σ) : IntrSystem σ :=
  let s := s.outb 0x20 0x20
  if irq ≥ 0x28 then s.outb 0xa0 0x20 else s

/-- The call of a handler by `interrupts_handle_int`.  A number behind the tables has none. -/
def callHandler (h : Handlers σ) (frame : Nat) (s : IntrSystem σ) : Option (IntrSystem σ) := do
  let f := frameAt s.mem frame
  match ← h.bound[f.intNo.toNat]? with
  | some handler => handler f.intNo f.errCode s
  | none =>
    match ← h.llBound[f.intNo.toNat]? with
    | some handler => handler frame s
    | none => return s

/-- `interrupts_handle_int(frame)` -/
def interruptsHandleInt (h : Handlers σ) (frame : Nat) (s : IntrSystem σ) :
    Option (IntrSystem σ) := do
  let s ← callHandler h frame s
  let intNo := (frameAt s.mem frame).intNo
  if intNo ≥ 0x20 ∧ intNo < 0x30 then
    return interruptsEoi intNo.toInt32.toInt s
  else return s

/-! ## The processor -/

/-- The registers of `pushal`. -/
inductive Reg
  | eax | ecx | edx | ebx | esp | ebp | esi | edi
  deriving DecidableEq, Repr

/-- The segment registers of the data. -/
inductive SegReg
  | ss | ds | es | fs | gs
  deriving DecidableEq, Repr

/-- The registers of a program. -/
@[ext] structure Context where
  reg : Reg → UInt32
  seg : SegReg → UInt16
  eip : UInt32
  cs : UInt16
  eflags : UInt32

/-- The interrupt flag. -/
def eflIf : UInt32 := 0x200

/-- The processor, and what the handlers work on. -/
structure IntrMachine (σ : Type) where
  ctx : Context
  idtr : TableReg
  sys : IntrSystem σ

namespace IntrMachine

/-- A register is set. -/
def setReg (m : IntrMachine σ) (r : Reg) (v : UInt32) : IntrMachine σ :=
  { m with ctx.reg := Function.update m.ctx.reg r v }

/-- A segment register is set. -/
def setSeg (m : IntrMachine σ) (s : SegReg) (v : UInt16) : IntrMachine σ :=
  { m with ctx.seg := Function.update m.ctx.seg s v }

/-- The address in `%esp`. -/
def sp (m : IntrMachine σ) : Nat := (m.ctx.reg .esp).toNat

@[simp] theorem setReg_self (m : IntrMachine σ) (r : Reg) (v : UInt32) :
    (m.setReg r v).ctx.reg r = v := by
  simp [setReg]

theorem setReg_of_ne (m : IntrMachine σ) {r r' : Reg} (v : UInt32) (h : r' ≠ r) :
    (m.setReg r v).ctx.reg r' = m.ctx.reg r' := by
  simp [setReg, h]

theorem setReg_sp (m : IntrMachine σ) (v : UInt32) : (m.setReg .esp v).sp = v.toNat :=
  congrArg UInt32.toNat (m.setReg_self .esp v)

/-- Bytes are pushed. -/
def push (m : IntrMachine σ) (b : List UInt8) : IntrMachine σ :=
  let m := m.setReg .esp (m.ctx.reg .esp - UInt32.ofNat b.length)
  { m with sys.mem := m.sys.mem.storeBytes m.sp b }

end IntrMachine

/-- The instructions of the stubs, without jumps and calls. -/
inductive Instr
  | cli
  | sti
  | pushImm (v : UInt32)
  | pushReg (r : Reg)
  | pushSeg (s : SegReg)
  | popReg (r : Reg)
  | popSeg (s : SegReg)
  | addEsp (n : UInt32)
  deriving DecidableEq, Repr

/-- One instruction.  `%esp` is pushed as it was before, and what is popped into it is not
added to. -/
def Instr.run (m : IntrMachine σ) : Instr → IntrMachine σ
  | .cli => { m with ctx.eflags := m.ctx.eflags &&& ~~~eflIf }
  | .sti => { m with ctx.eflags := m.ctx.eflags ||| eflIf }
  | .pushImm v => m.push (bytes32 v)
  | .pushReg r => m.push (bytes32 (m.ctx.reg r))
  | .pushSeg s => m.push (bytes16 (m.ctx.seg s))
  | .popReg r => (m.setReg .esp (m.ctx.reg .esp + 4)).setReg r (word32 m.sys.mem m.sp)
  | .popSeg s => (m.setReg .esp (m.ctx.reg .esp + 2)).setSeg s (word16 m.sys.mem m.sp)
  | .addEsp n =>
    let status := (sumStatus (m.ctx.reg .esp) n).toUInt32
    { m.setReg .esp (m.ctx.reg .esp + n) with
      ctx.eflags := m.ctx.eflags &&& ~~~0x8d5 ||| status }

/-- Instructions, one after the other. -/
def runInstrs (m : IntrMachine σ) (code : List Instr) : IntrMachine σ := code.foldl Instr.run m

/-- The flags that an interrupt through a trap gate clears: `TF`, `NT`, `RF` and `VM`. -/
def trapMask : UInt32 := 0x34100

/-- The processor goes to a gate: an interrupt gate, of type 14, clears the interrupt flag, a
trap gate, of type 15, does not.  It stays on the stack. -/
def IntrMachine.deliver (m : IntrMachine σ) (gate : Gate) (errCode : Option UInt32) :
    IntrMachine σ :=
  let eflags := m.ctx.eflags
  let m := m.push (bytes32 eflags)
  let m := m.push (bytes32 m.ctx.cs.toUInt32)
  let m := m.push (bytes32 m.ctx.eip)
  let m := match errCode with
    | some errCode => m.push (bytes32 errCode)
    | none => m
  let cleared := if gate.bits.gateType = 14 then trapMask ||| eflIf else trapMask
  { m with
    ctx.eip := gate.offset
    ctx.cs := gate.selector
    ctx.eflags := eflags &&& ~~~cleared }

/-- `iret`, without a change of the stack. -/
def IntrMachine.iret (m : IntrMachine σ) : IntrMachine σ :=
  let word := fun i => word32 m.sys.mem (m.sp + i)
  let m' := m.setReg .esp (m.ctx.reg .esp + 12)
  { m' with
    ctx.eip := word 0
    ctx.cs := (word 4).toUInt16
    ctx.eflags := word 8 }

/-! ## interrupts_stubs.S -/

/-- The interrupts with a stub of `EXC_ERR`. -/
def errVectors : List Nat := [8, 10, 11, 12, 13, 14, 17]

/-- `EXC`, `EXC_ERR` and `IRQ`: the stub of an interrupt, up to the jump. -/
def intrStub (n : Nat) : List Instr :=
  if n ∈ errVectors then [.cli, .pushImm (UInt32.ofNat n)]
  else [.cli, .pushImm 0, .pushImm (UInt32.ofNat n)]

/-- `call_int_handle`, up to the call. -/
def callIntHandleEntry : List Instr :=
  [.pushReg .esp, .pushReg .eax, .pushReg .ecx, .pushReg .edx, .pushReg .ebx, .pushReg .ebp,
    .pushReg .esi, .pushReg .edi,
    .pushSeg .ss, .pushSeg .ds, .pushSeg .es, .pushSeg .fs, .pushSeg .gs,
    .pushReg .esp]

/-- `call_int_handle`, behind the call and up to `iret`. -/
def callIntHandleExit : List Instr :=
  [.popReg .esp,
    .popSeg .gs, .popSeg .fs, .popSeg .es, .popSeg .ds, .popSeg .ss,
    .popReg .edi, .popReg .esi, .popReg .ebp,
    .popReg .ebx, .popReg .edx, .popReg .ecx, .popReg .eax, .popReg .esp,
    .addEsp 8,
    .sti]

/-- `interrupts_stubs`: the addresses of the stubs, which are at places of their own. -/
structure Stubs where
  addrs : List UInt32
  length_eq : addrs.length = intrCount
  nodup : addrs.Nodup

/-- The address of a stub. -/
def Stubs.addr (stubs : Stubs) (n : Nat) : UInt32 := stubs.addrs.getD n 0

/-- What a function of C leaves in the registers it need not keep. -/
def IntrMachine.afterCall (m : IntrMachine σ) (scratch : Scratch) : IntrMachine σ :=
  let m := ((m.setReg .eax scratch.eax).setReg .ecx scratch.ecx).setReg .edx scratch.edx
  { m with ctx.eflags := m.ctx.eflags &&& ~~~0x8d5 ||| scratch.status.toUInt32 }

/-- The gate of an interrupt, if the table has one that is present and of a type that the
processor knows. -/
def IntrMachine.gate? (m : IntrMachine σ) (n : Nat) : Option Gate :=
  let gate := gateAt m.sys.mem (m.idtr.base.toNat + 8 * n)
  if 8 * n + 7 ≤ m.idtr.limit.toNat ∧ gate.bits.present = 1 ∧ gate.bits.storageSegment = 0 ∧
      (gate.bits.gateType = 14 ∨ gate.bits.gateType = 15) then some gate
  else none

/-- A stub and `call_int_handle`, from the first instruction of the stub to the instruction of
the program that is run next.  There is no result if no stub is there, or the handler does
not return. -/
def serve (stubs : Stubs) (h : Handlers σ) (scratch : Scratch) (m : IntrMachine σ) :
    Option (IntrMachine σ) := do
  let stub ← stubs.addrs.findIdx? (· = m.ctx.eip)
  let m := runInstrs m (intrStub stub ++ callIntHandleEntry)
  let sys ← interruptsHandleInt h (word32 m.sys.mem m.sp).toNat m.sys
  let m := { m with sys := sys }.afterCall scratch
  return (runInstrs m callIntHandleExit).iret

/-- An interrupt, from the instruction that it comes in front of to the one that is run next.
There is no result if the processor finds no gate. -/
def interrupt (stubs : Stubs) (h : Handlers σ) (scratch : Scratch) (n : Nat)
    (errCode : Option UInt32) (m : IntrMachine σ) : Option (IntrMachine σ) := do
  serve stubs h scratch (m.deliver (← m.gate? n) errCode)

/-! ## interrupts_init -/

/-- The writes of `disable_pic`. -/
def disablePicOuts : List (UInt16 × UInt8) := [(0x21, 0xff), (0xa1, 0xff)]

/-- The writes of `interrupts_pic_init`. -/
def picInitOuts : List (UInt16 × UInt8) :=
  [(0x21, 0xff), (0xa1, 0xff), (0x20, 0x11), (0x21, 0x20), (0x21, 0x04), (0x21, 0x01),
    (0xa0, 0x11), (0xa1, 0x28), (0xa1, 0x02), (0xa1, 0x01), (0x21, 0), (0xa1, 0)]

/-- `IRQ_TO_INTR(x)` -/
def irqToIntr (irq : Int) : Int := irq + 32

/-- A round of the loop of `interrupts_init`: the gate, and the tables of handlers. -/
def initGate (stubs : Stubs) (idt i : Nat) (s : Handlers σ × Mem) : Handlers σ × Mem :=
  let m := makeGate s.2 (idt + 8 * i) (stubs.addr i) 0 15
  let h := { s.1 with bound := s.1.bound.setIfInBounds i none }
  (registerLlHandler h i (some exception), m)

/-- The loop of `interrupts_init`. -/
def initGates (stubs : Stubs) (idt : Nat) (h : Handlers σ) (m : Mem) : Handlers σ × Mem :=
  forUpto intrCount (initGate stubs idt) (h, m)

/-- `interrupts_init()`, with the tables of handlers as they are before, and `idt` at an
address. -/
def interruptsInit (stubs : Stubs) (idt : UInt32) (print : IntrFrame → σ → σ) (h : Handlers σ)
    (m : IntrMachine σ) : Handlers σ × IntrMachine σ :=
  let m := Instr.cli.run m
  let outs := m.sys.outs ++ disablePicOuts
  let tables := initGates stubs idt.toNat h m.sys.mem
  let h := registerHandler tables.1 (irqToIntr 0) (some doNothing)
  let h := registerLlHandler h 3 (some (dumpRegs print))
  let outs := outs ++ picInitOuts
  let m := { m with sys.mem := tables.2, sys.outs := outs, idtr := ⟨0x7ff, idt⟩ }
  (h, Instr.sti.run m)

end Microboot.Kern.Sys
