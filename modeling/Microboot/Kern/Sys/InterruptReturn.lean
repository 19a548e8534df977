/-
  Kern/Sys/InterruptReturn.lean --- the way into a handler and back.

  What the stub of an interrupt pushes is `intr_frame_t`, with the registers of the
  program, and an argument that points to it.  What is popped behind the call is what the
  frame holds then.  The stack pointer is popped from the frame, too, and the flags and the
  address of the program are found from there: a handler may change everything but this
  field, and the word of the argument.
-/
import Microboot.Kern.Sys.Interrupts

set_option autoImplicit false

namespace Microboot.Kern.Sys

open Microboot.Foundation

variable {σ : Type}

/-! ## The frame of a program -/

/-- The register of a frame. -/
def IntrFrame.reg (f : IntrFrame) : Reg → UInt32
  | .eax => f.eax
  | .ecx => f.ecx
  | .edx => f.edx
  | .ebx => f.ebx
  | .esp => f.esp
  | .ebp => f.ebp
  | .esi => f.esi
  | .edi => f.edi

/-- The segment register of a frame. -/
def IntrFrame.seg (f : IntrFrame) : SegReg → UInt16
  | .ss => f.ss
  | .ds => f.ds
  | .es => f.es
  | .fs => f.fs
  | .gs => f.gs

/-- The registers that a frame holds, with the stack pointer of the program. -/
def IntrFrame.context (f : IntrFrame) (esp : UInt32) : Context where
  reg := Function.update f.reg .esp esp
  seg := f.seg
  eip := f.eip
  cs := f.cs.toUInt16
  eflags := f.eflags

namespace IntrMachine

/-- The frame of the program for an interrupt. -/
def intrFrame (m : IntrMachine σ) (n : Nat) (errCode : UInt32) : IntrFrame where
  gs := m.ctx.seg .gs
  fs := m.ctx.seg .fs
  es := m.ctx.seg .es
  ds := m.ctx.seg .ds
  ss := m.ctx.seg .ss
  edi := m.ctx.reg .edi
  esi := m.ctx.reg .esi
  ebp := m.ctx.reg .ebp
  ebx := m.ctx.reg .ebx
  edx := m.ctx.reg .edx
  ecx := m.ctx.reg .ecx
  eax := m.ctx.reg .eax
  esp := m.ctx.reg .esp - 20
  intNo := UInt32.ofNat n
  errCode := errCode
  eip := m.ctx.eip
  cs := m.ctx.cs.toUInt32
  eflags := m.ctx.eflags

/-- The address of the frame. -/
def framePtr (m : IntrMachine σ) : Nat := m.sp - 62

/-- The memory with the frame and the pointer to it on the stack. -/
def saved (m : IntrMachine σ) (n : Nat) (errCode : UInt32) : IntrSystem σ :=
  { m.sys with
    mem := m.sys.mem.storeBytes (m.sp - 66)
      (bytes32 (m.ctx.reg .esp - 62) ++ (m.intrFrame n errCode).bytes) }

end IntrMachine

theorem IntrFrame.length_bytes (f : IntrFrame) : f.bytes.length = 62 := by
  simp [IntrFrame.bytes]

/-- The frame whose bytes are at `p`. -/
theorem frameAt_of_seg {m : Mem} {p : Nat} {f : IntrFrame} (h : Seg m p f.bytes) :
    frameAt m p = f := by
  simp only [IntrFrame.bytes, List.flatten_cons, List.flatten_nil, seg_append,
    length_bytes16, length_bytes32] at h
  obtain ⟨hgs, hfs, hes, hds, hss, hedi, hesi, hebp, hebx, hedx, hecx, heax, hesp, hint, herr, heip,
    hcs, hfl, -⟩ := h
  simp only [frameAt, hgs.word16, hfs.word16, hes.word16, hds.word16, hss.word16, hedi.word32,
    hesi.word32, hebp.word32, hebx.word32, hedx.word32, hecx.word32, heax.word32, hesp.word32,
    hint.word32, herr.word32, heip.word32, hcs.word32, hfl.word32]

/-! ## The way in -/

/-- The stack pointer does not wrap around. -/
theorem toNat_sub_ofNat {a : UInt32} {n : Nat} (h : n ≤ a.toNat) :
    (a - UInt32.ofNat n).toNat = a.toNat - n := by
  have ha := a.toNat_lt
  have hn : (UInt32.ofNat n).toNat = n := UInt32.toNat_ofNat_of_lt' (Nat.lt_of_le_of_lt h ha)
  rw [UInt32.toNat_sub_of_le _ _ (UInt32.le_iff_toNat_le.mpr (hn.symm ▸ h)), hn]

section Entry

variable {m₀ m : IntrMachine σ} {u b : List UInt8}

/-- The bytes `u` have been pushed, and no register but `%esp` has changed. -/
structure Pushed (m₀ m : IntrMachine σ) (u : List UInt8) : Prop where
  reg : ∀ r, r ≠ .esp → m.ctx.reg r = m₀.ctx.reg r
  seg : m.ctx.seg = m₀.ctx.seg
  idtr : m.idtr = m₀.idtr
  esp : m.ctx.reg .esp = m₀.ctx.reg .esp - UInt32.ofNat u.length
  room : u.length ≤ m₀.sp
  sys : m.sys = { m₀.sys with mem := m₀.sys.mem.storeBytes (m₀.sp - u.length) u }

namespace Pushed

theorem start (m : IntrMachine σ) : Pushed m m [] where
  reg := fun _ _ => rfl
  seg := rfl
  idtr := rfl
  esp := (UInt32.sub_zero _).symm
  room := Nat.zero_le _
  sys := rfl

theorem sp_eq (h : Pushed m₀ m u) : m.sp = m₀.sp - u.length := by
  unfold IntrMachine.sp
  rw [h.esp, toNat_sub_ofNat h.room]

theorem push_reg (m : IntrMachine σ) (b : List UInt8) :
    (m.push b).ctx.reg =
      Function.update m.ctx.reg .esp (m.ctx.reg .esp - UInt32.ofNat b.length) := rfl

theorem push (h : Pushed m₀ m u) (hroom : b.length + u.length ≤ m₀.sp) :
    Pushed m₀ (m.push b) (b ++ u) := by
  have hlt : m₀.sp < 2 ^ 32 := (m₀.ctx.reg .esp).toNat_lt
  have hsum : b.length + u.length = (b ++ u).length := (List.length_append ..).symm
  have hesp : (m.push b).ctx.reg .esp = m₀.ctx.reg .esp - UInt32.ofNat (b ++ u).length := by
    have hb : b.length ≤ m.sp := by
      rw [h.sp_eq]
      omega
    apply UInt32.toNat_inj.mp
    rw [push_reg, Function.update_self, toNat_sub_ofNat hb, toNat_sub_ofNat (hsum ▸ hroom)]
    change m.sp - b.length = m₀.sp - _
    rw [h.sp_eq]
    omega
  have hsp : (m.push b).sp = m₀.sp - (b ++ u).length := by
    unfold IntrMachine.sp
    rw [hesp, toNat_sub_ofNat (hsum ▸ hroom)]
  refine ⟨fun r hr => ?_, h.seg, h.idtr, hesp, hsum ▸ hroom, ?_⟩
  · exact (Function.update_of_ne hr _ _).trans (h.reg r hr)
  · have hmem : (m.push b).sys = { m.sys with mem := m.sys.mem.storeBytes (m.push b).sp b } := rfl
    have hdown : m₀.sp - u.length = m₀.sp - (b ++ u).length + b.length := by omega
    rw [hmem, hsp, h.sys]
    dsimp only
    rw [hdown, storeBytes_push (by omega)]

/-- What happens to the flags and the address of the next instruction does not matter. -/
theorem congr {m' : IntrMachine σ} (h : Pushed m₀ m u) (hreg : m'.ctx.reg = m.ctx.reg)
    (hseg : m'.ctx.seg = m.ctx.seg) (hidtr : m'.idtr = m.idtr) (hsys : m'.sys = m.sys) :
    Pushed m₀ m' u where
  reg := by rw [hreg]; exact h.reg
  seg := hseg.trans h.seg
  idtr := hidtr.trans h.idtr
  esp := by rw [hreg]; exact h.esp
  room := h.room
  sys := hsys.trans h.sys

theorem pushReg (h : Pushed m₀ m u) {r : Reg} (hr : r ≠ .esp) (hroom : 4 + u.length ≤ m₀.sp) :
    Pushed m₀ (Instr.run m (.pushReg r)) (bytes32 (m₀.ctx.reg r) ++ u) := by
  rw [← h.reg r hr]
  exact h.push hroom

theorem pushEsp (h : Pushed m₀ m u) (hroom : 4 + u.length ≤ m₀.sp) :
    Pushed m₀ (Instr.run m (.pushReg .esp))
      (bytes32 (m₀.ctx.reg .esp - UInt32.ofNat u.length) ++ u) := by
  rw [← h.esp]
  exact h.push hroom

theorem pushSeg (h : Pushed m₀ m u) (s : SegReg) (hroom : 2 + u.length ≤ m₀.sp) :
    Pushed m₀ (Instr.run m (.pushSeg s)) (bytes16 (m₀.ctx.seg s) ++ u) := by
  rw [← h.seg]
  exact h.push hroom

theorem pushRegs (h : Pushed m₀ m u) (rs : List Reg) (hrs : Reg.esp ∉ rs)
    (hroom : 4 * rs.length + u.length ≤ m₀.sp) :
    Pushed m₀ (runInstrs m (rs.map .pushReg))
      (rs.reverse.flatMap (fun r => bytes32 (m₀.ctx.reg r)) ++ u) := by
  induction rs generalizing m u with
  | nil => exact h
  | cons r rs ih =>
    rw [List.length_cons] at hroom
    have hr : r ≠ .esp := fun heq => hrs (heq ▸ List.mem_cons_self)
    have hfirst := h.pushReg hr (by omega)
    have hrest := ih hfirst (fun hmem => hrs (List.mem_cons_of_mem _ hmem)) (by
      rw [List.length_append, length_bytes32]
      omega)
    rw [List.reverse_cons, List.flatMap_append, List.flatMap_singleton, List.append_assoc]
    exact hrest

theorem pushSegs (h : Pushed m₀ m u) (ss : List SegReg)
    (hroom : 2 * ss.length + u.length ≤ m₀.sp) :
    Pushed m₀ (runInstrs m (ss.map .pushSeg))
      (ss.reverse.flatMap (fun s => bytes16 (m₀.ctx.seg s)) ++ u) := by
  induction ss generalizing m u with
  | nil => exact h
  | cons s ss ih =>
    rw [List.length_cons] at hroom
    have hfirst := h.pushSeg s (by omega)
    have hrest := ih hfirst (by
      rw [List.length_append, length_bytes16]
      omega)
    rw [List.reverse_cons, List.flatMap_append, List.flatMap_singleton, List.append_assoc]
    exact hrest

theorem pushImm (h : Pushed m₀ m u) (v : UInt32) (hroom : 4 + u.length ≤ m₀.sp) :
    Pushed m₀ (Instr.run m (.pushImm v)) (bytes32 v ++ u) := h.push hroom

theorem cli (h : Pushed m₀ m u) : Pushed m₀ (Instr.run m .cli) u := h.congr rfl rfl rfl rfl

end Pushed

/-- The processor pushes the flags, the address of the program and the error code. -/
theorem deliver_pushed (gate : Gate) (errCode : Option UInt32) (hroom : 16 ≤ m.sp) :
    Pushed m (m.deliver gate errCode)
      ((errCode.map bytes32).getD [] ++ (bytes32 m.ctx.eip ++
        (bytes32 m.ctx.cs.toUInt32 ++ (bytes32 m.ctx.eflags ++ [])))) := by
  have hflags := (Pushed.start m).push (b := bytes32 m.ctx.eflags) (by simp; omega)
  have hcs := hflags.push (b := bytes32 m.ctx.cs.toUInt32) (by simp; omega)
  have heip := hcs.push (b := bytes32 m.ctx.eip) (by simp; omega)
  cases errCode with
  | none => exact heip.congr rfl rfl rfl rfl
  | some errCode =>
    exact (heip.push (b := bytes32 errCode) (by simp; omega)).congr rfl rfl rfl rfl

/-- With the stub there is an error code and the number, whether the processor has pushed an
error code or not. -/
theorem intrStub_pushed (gate : Gate) {errCode : Option UInt32} {n : Nat}
    (herr : errCode.isSome = true ↔ n ∈ errVectors) (hroom : 20 ≤ m.sp) :
    Pushed m (runInstrs (m.deliver gate errCode) (intrStub n))
      (bytes32 (UInt32.ofNat n) ++ (bytes32 (errCode.getD 0) ++ (bytes32 m.ctx.eip ++
        (bytes32 m.ctx.cs.toUInt32 ++ (bytes32 m.ctx.eflags ++ []))))) := by
  have hentered := (deliver_pushed gate errCode (m := m) (by omega)).cli
  unfold intrStub
  cases errCode with
  | none =>
    rw [if_neg fun hn => Bool.false_ne_true (herr.mpr hn)]
    exact (hentered.pushImm 0 (by simp; omega)).pushImm (UInt32.ofNat n) (by simp; omega)
  | some errCode =>
    rw [if_pos (herr.mp rfl)]
    exact hentered.pushImm (UInt32.ofNat n) (by simp; omega)

/-- At the call the frame of the program is on the stack, and the pointer to it. -/
theorem entry_pushed (gate : Gate) {errCode : Option UInt32} {n : Nat}
    (herr : errCode.isSome = true ↔ n ∈ errVectors) (hroom : 66 ≤ m.sp) :
    Pushed m (runInstrs (m.deliver gate errCode) (intrStub n ++ callIntHandleEntry))
      (bytes32 (m.ctx.reg .esp - 62) ++ (m.intrFrame n (errCode.getD 0)).bytes) := by
  have hstub := (intrStub_pushed (m := m) gate herr (by omega)).pushEsp (by simp; omega)
  have hregs := hstub.pushRegs [.eax, .ecx, .edx, .ebx, .ebp, .esi, .edi] (by decide)
    (by simp; omega)
  have hsegs := hregs.pushSegs [.ss, .ds, .es, .fs, .gs] (by simp; omega)
  have harg := hsegs.pushEsp (by simp; omega)
  have hcode : runInstrs (m.deliver gate errCode) (intrStub n ++ callIntHandleEntry) =
      Instr.run (runInstrs (runInstrs (Instr.run (runInstrs (m.deliver gate errCode) (intrStub n))
        (.pushReg .esp)) ([.eax, .ecx, .edx, .ebx, .ebp, .esi, .edi].map .pushReg))
          ([.ss, .ds, .es, .fs, .gs].map .pushSeg)) (.pushReg .esp) := by
    unfold runInstrs
    rw [List.foldl_append]
    rfl
  rw [hcode]
  simpa [IntrFrame.bytes, IntrMachine.intrFrame] using harg

end Entry

/-! ## The way out -/

section Exit

variable {sys : IntrSystem σ} {idtr : TableReg} {m : IntrMachine σ} {reg : Reg → UInt32}
  {seg : SegReg → UInt16} {sp : Nat}

/-- The stack pointer is `sp`, and the other registers are `reg` and `seg`. -/
structure Popped (sys : IntrSystem σ) (idtr : TableReg) (m : IntrMachine σ) (reg : Reg → UInt32)
    (seg : SegReg → UInt16) (sp : Nat) : Prop where
  sys_eq : m.sys = sys
  idtr_eq : m.idtr = idtr
  reg_eq : ∀ r, r ≠ .esp → m.ctx.reg r = reg r
  seg_eq : m.ctx.seg = seg
  sp_eq : m.sp = sp

/-- The stack pointer does not wrap around. -/
theorem toNat_add_ofNat {a n : UInt32} (h : a.toNat + n.toNat < 2 ^ 32) :
    (a + n).toNat = a.toNat + n.toNat := by
  rw [UInt32.toNat_add]
  exact Nat.mod_eq_of_lt h

namespace Popped

theorem popReg (h : Popped sys idtr m reg seg sp) {r : Reg} (hr : r ≠ .esp)
    (hroom : sp + 4 < 2 ^ 32) :
    Popped sys idtr (Instr.run m (.popReg r)) (Function.update reg r (word32 sys.mem sp)) seg
      (sp + 4) where
  sys_eq := h.sys_eq
  idtr_eq := h.idtr_eq
  reg_eq r' hr' := by
    rw [Instr.run, h.sys_eq, h.sp_eq]
    by_cases heq : r' = r
    · subst heq
      rw [IntrMachine.setReg_self, Function.update_self]
    · rw [IntrMachine.setReg_of_ne _ _ heq, Function.update_of_ne heq,
        IntrMachine.setReg_of_ne _ _ hr', h.reg_eq r' hr']
  seg_eq := h.seg_eq
  sp_eq := by
    have hsp := h.sp_eq
    unfold IntrMachine.sp at hsp ⊢
    rw [Instr.run, IntrMachine.setReg_of_ne _ _ (Ne.symm hr), IntrMachine.setReg_self,
      toNat_add_ofNat (by rw [hsp]; exact hroom), hsp]
    rfl

/-- What is popped into the stack pointer is where the stack goes on. -/
theorem popEsp (h : Popped sys idtr m reg seg sp) :
    Popped sys idtr (Instr.run m (.popReg .esp)) reg seg (word32 sys.mem sp).toNat where
  sys_eq := h.sys_eq
  idtr_eq := h.idtr_eq
  reg_eq r hr := by
    rw [Instr.run, IntrMachine.setReg_of_ne _ _ hr, IntrMachine.setReg_of_ne _ _ hr, h.reg_eq r hr]
  seg_eq := h.seg_eq
  sp_eq := by rw [Instr.run, IntrMachine.setReg_sp, h.sys_eq, h.sp_eq]

theorem popSeg (h : Popped sys idtr m reg seg sp) (s : SegReg) (hroom : sp + 2 < 2 ^ 32) :
    Popped sys idtr (Instr.run m (.popSeg s)) reg (Function.update seg s (word16 sys.mem sp))
      (sp + 2) where
  sys_eq := h.sys_eq
  idtr_eq := h.idtr_eq
  reg_eq r hr := (IntrMachine.setReg_of_ne m _ hr).trans (h.reg_eq r hr)
  seg_eq := by
    have hrun : (Instr.run m (.popSeg s)).ctx.seg =
        Function.update m.ctx.seg s (word16 m.sys.mem m.sp) := rfl
    rw [hrun, h.seg_eq, h.sys_eq, h.sp_eq]
  sp_eq := by
    have hsp : (m.ctx.reg .esp).toNat = sp := h.sp_eq
    have hrun : (Instr.run m (.popSeg s)).sp = (m.ctx.reg .esp + 2).toNat := m.setReg_sp _
    rw [hrun, toNat_add_ofNat (by rw [hsp]; exact hroom), hsp]
    rfl

theorem addEsp (h : Popped sys idtr m reg seg sp) {n : UInt32} (hroom : sp + n.toNat < 2 ^ 32) :
    Popped sys idtr (Instr.run m (.addEsp n)) reg seg (sp + n.toNat) where
  sys_eq := h.sys_eq
  idtr_eq := h.idtr_eq
  reg_eq r hr := (IntrMachine.setReg_of_ne m _ hr).trans (h.reg_eq r hr)
  seg_eq := h.seg_eq
  sp_eq := by
    have hsp : (m.ctx.reg .esp).toNat = sp := h.sp_eq
    have hrun : (Instr.run m (.addEsp n)).sp = (m.ctx.reg .esp + n).toNat := m.setReg_sp _
    rw [hrun, toNat_add_ofNat (by rw [hsp]; exact hroom), hsp]

/-- A word is left on the stack. -/
theorem skip (h : Popped sys idtr m reg seg sp) (hroom : sp + 4 < 2 ^ 32) :
    Popped sys idtr (m.setReg .esp (m.ctx.reg .esp + 4)) reg seg (sp + 4) where
  sys_eq := h.sys_eq
  idtr_eq := h.idtr_eq
  reg_eq r hr := (IntrMachine.setReg_of_ne m _ hr).trans (h.reg_eq r hr)
  seg_eq := h.seg_eq
  sp_eq := by
    have hsp : (m.ctx.reg .esp).toNat = sp := h.sp_eq
    rw [IntrMachine.setReg_sp, toNat_add_ofNat (by rw [hsp]; exact hroom), hsp]
    rfl

theorem congr_reg {reg' : Reg → UInt32} (h : Popped sys idtr m reg seg sp)
    (hreg : ∀ r, r ≠ .esp → reg r = reg' r) : Popped sys idtr m reg' seg sp :=
  ⟨h.sys_eq, h.idtr_eq, fun r hr => (h.reg_eq r hr).trans (hreg r hr), h.seg_eq, h.sp_eq⟩

theorem sti (h : Popped sys idtr m reg seg sp) : Popped sys idtr (Instr.run m .sti) reg seg sp :=
  ⟨h.sys_eq, h.idtr_eq, h.reg_eq, h.seg_eq, h.sp_eq⟩

/-- `iret` takes the flags and the address of the next instruction from the stack. -/
theorem iret (h : Popped sys idtr m reg seg sp) (esp : UInt32) (hesp : esp.toNat = sp + 12) :
    m.iret = {
      ctx := {
        reg := Function.update reg .esp esp
        seg := seg
        eip := word32 sys.mem sp
        cs := (word32 sys.mem (sp + 4)).toUInt16
        eflags := word32 sys.mem (sp + 8) }
      idtr := idtr
      sys := sys } := by
  have hreg : Function.update m.ctx.reg .esp (m.ctx.reg .esp + 12) =
      Function.update reg .esp esp := by
    funext r
    by_cases hr : r = .esp
    · subst hr
      have hsp := h.sp_eq
      have hlt := esp.toNat_lt
      unfold IntrMachine.sp at hsp
      rw [Function.update_self, Function.update_self, ← UInt32.toNat_inj, toNat_add_ofNat, hsp,
        hesp]
      · rfl
      · rw [hsp]
        exact hesp ▸ hlt
    · rw [Function.update_of_ne hr, Function.update_of_ne hr, h.reg_eq r hr]
  have hiret : m.iret = {
      ctx := {
        reg := Function.update m.ctx.reg .esp (m.ctx.reg .esp + 12)
        seg := m.ctx.seg
        eip := word32 m.sys.mem (m.sp + 0)
        cs := (word32 m.sys.mem (m.sp + 4)).toUInt16
        eflags := word32 m.sys.mem (m.sp + 8) }
      idtr := m.idtr
      sys := m.sys } := rfl
  rw [hiret, hreg, h.seg_eq, h.sp_eq, h.sys_eq, h.idtr_eq, Nat.add_zero]

end Popped

/-- Behind the call the registers are those of the frame at `p`, wherever the function of C has
left other ones. -/
theorem exit_popped {p : Nat} {esp : UInt32} (h : Popped sys idtr m reg seg (p - 4)) (hp : 4 ≤ p)
    (harg : (word32 sys.mem (p - 4)).toNat = p)
    (hframe : (frameAt sys.mem p).esp.toNat = p + 42) (hesp : esp.toNat = p + 62) :
    (runInstrs m callIntHandleExit).iret =
      { ctx := (frameAt sys.mem p).context esp, idtr := idtr, sys := sys } := by
  have hlt := esp.toNat_lt
  have hstart := h.popEsp
  rw [harg] at hstart
  have hsegs := ((((hstart.popSeg .gs (by omega)).popSeg .fs (by omega)).popSeg .es
    (by omega)).popSeg .ds (by omega)).popSeg .ss (by omega)
  have hindex := ((hsegs.popReg (r := .edi) (by decide) (by omega)).popReg (r := .esi) (by decide)
    (by omega)).popReg (r := .ebp) (by decide) (by omega)
  have hgeneral := (((hindex.popReg (r := .ebx) (by decide) (by omega)).popReg (r := .edx)
    (by decide) (by omega)).popReg (r := .ecx) (by decide) (by omega)).popReg (r := .eax)
    (by decide) (by omega)
  have hback := hgeneral.popEsp
  have hsp : (word32 sys.mem (p + 2 + 2 + 2 + 2 + 2 + 4 + 4 + 4 + 4 + 4 + 4 + 4)).toNat = p + 42 :=
    hframe
  rw [hsp] at hback
  have hend := ((hback.addEsp (n := 8) (by simp; omega)).sti).iret esp (by rw [hesp]; rfl)
  refine Eq.trans hend ?_
  congr 2
  · funext r
    cases r <;> rfl
  · funext s
    cases s <;> rfl

end Exit

/-! ## An interrupt -/

section Interrupt

variable {stubs : Stubs} {h : Handlers σ} {scratch : Scratch} {n : Nat} {errCode : Option UInt32}
  {m : IntrMachine σ} {sys : IntrSystem σ}

/-- The stub at the address of a stub is that one. -/
theorem Stubs.findIdx_addr (stubs : Stubs) (hn : n < intrCount) :
    stubs.addrs.findIdx? (· = stubs.addr n) = some n := by
  have hlt : n < stubs.addrs.length := stubs.length_eq.symm ▸ hn
  have haddr : stubs.addr n = stubs.addrs[n] := by
    rw [Stubs.addr, List.getD_eq_getElem?_getD, List.getElem?_eq_getElem hlt, Option.getD_some]
  rw [List.findIdx?_eq_some_iff_getElem]
  refine ⟨hlt, decide_eq_true haddr.symm, fun j hj => ?_⟩
  rw [haddr, decide_eq_true_iff]
  exact fun heq => Nat.ne_of_lt hj ((stubs.nodup.getElem_inj_iff).mp heq)

/-- The interrupt has a gate that leads to its stub, there is room on the stack, and the
processor pushes an error code exactly if the stub does not. -/
structure Arrives (stubs : Stubs) (n : Nat) (errCode : Option UInt32) (m : IntrMachine σ) :
    Prop where
  lt : n < intrCount
  gate : ∃ gate, m.gate? n = some gate ∧ gate.offset = stubs.addr n
  err : errCode.isSome = true ↔ n ∈ errVectors
  room : 66 ≤ m.sp

/-- The argument of the call and the stack pointer in the frame are as they were. -/
structure KeepsPointers (m : IntrMachine σ) (mem : Mem) : Prop where
  arg : word32 mem (m.sp - 66) = m.ctx.reg .esp - 62
  esp : (frameAt mem m.framePtr).esp = m.ctx.reg .esp - 20

/-- The program goes on with the registers that the frame holds behind the call. -/
def IntrMachine.resume (m : IntrMachine σ) (sys : IntrSystem σ) : IntrMachine σ where
  ctx := (frameAt sys.mem m.framePtr).context (m.ctx.reg .esp)
  idtr := m.idtr
  sys := sys

theorem IntrMachine.length_saved (m : IntrMachine σ) (n : Nat) (errCode : UInt32) :
    (bytes32 (m.ctx.reg .esp - 62) ++ (m.intrFrame n errCode).bytes).length = 66 := by
  rw [List.length_append, length_bytes32, IntrFrame.length_bytes]

/-- The pointer and the frame are on the stack. -/
theorem saved_seg (n : Nat) (errCode : UInt32) (hroom : 66 ≤ m.sp) :
    Seg (m.saved n errCode).mem (m.sp - 66)
      (bytes32 (m.ctx.reg .esp - 62) ++ (m.intrFrame n errCode).bytes) := by
  have hlt : m.sp < 2 ^ 32 := (m.ctx.reg .esp).toNat_lt
  unfold IntrMachine.saved
  apply seg_storeBytes
  rw [m.length_saved n errCode]
  omega

/-- The frame on the stack is that of the program. -/
theorem frameAt_saved (n : Nat) (errCode : UInt32) (hroom : 66 ≤ m.sp) :
    frameAt (m.saved n errCode).mem m.framePtr = m.intrFrame n errCode := by
  have hseg := (seg_append.mp (saved_seg n errCode hroom)).2
  have hptr : m.sp - 66 + (bytes32 (m.ctx.reg .esp - 62)).length = m.framePtr := by
    rw [length_bytes32]
    unfold IntrMachine.framePtr
    omega
  rw [hptr] at hseg
  exact frameAt_of_seg hseg

/-- A function of C leaves the stack pointer as it was. -/
theorem afterCall_popped (sys : IntrSystem σ) {sp : Nat} {idtr : TableReg} (scratch : Scratch)
    (hidtr : m.idtr = idtr) (hsp : m.sp = sp) :
    Popped sys idtr ({ m with sys := sys }.afterCall scratch)
      ({ m with sys := sys }.afterCall scratch).ctx.reg m.ctx.seg sp where
  sys_eq := rfl
  idtr_eq := hidtr
  reg_eq _ _ := rfl
  seg_eq := rfl
  sp_eq := by
    have hesp : ({ m with sys := sys }.afterCall scratch).ctx.reg .esp = m.ctx.reg .esp := by
      unfold IntrMachine.afterCall
      dsimp only
      rw [IntrMachine.setReg_of_ne _ _ (by decide), IntrMachine.setReg_of_ne _ _ (by decide),
        IntrMachine.setReg_of_ne _ _ (by decide)]
    rw [← hsp]
    exact congrArg UInt32.toNat hesp

/-- An interrupt is a call of `interrupts_handle_int` with the frame of the program, and
resumes it from the frame. -/
theorem interrupt_eq (harrives : Arrives stubs n errCode m)
    (hkeeps : ∀ sys, interruptsHandleInt h m.framePtr (m.saved n (errCode.getD 0)) = some sys →
      KeepsPointers m sys.mem) :
    interrupt stubs h scratch n errCode m =
      (interruptsHandleInt h m.framePtr (m.saved n (errCode.getD 0))).map m.resume := by
  obtain ⟨gate, hgate, haddr⟩ := harrives.gate
  have hroom := harrives.room
  have hlt : m.sp < 2 ^ 32 := (m.ctx.reg .esp).toNat_lt
  have hentered := entry_pushed (m := m) gate harrives.err hroom
  have hlen := m.length_saved n (errCode.getD 0)
  have hsp := hentered.sp_eq
  have hsys := hentered.sys
  rw [hlen] at hsp hsys
  have hframe : (m.ctx.reg .esp - 62).toNat = m.framePtr := toNat_sub_ofNat (n := 62) (by
    change 62 ≤ m.sp
    omega)
  have harg : (word32 (m.saved n (errCode.getD 0)).mem (m.sp - 66)).toNat = m.framePtr := by
    rw [(seg_append.mp (saved_seg n _ hroom)).1.word32, hframe]
  have hstub : stubs.addrs.findIdx? (· = (m.deliver gate errCode).ctx.eip) = some n :=
    (congrArg (fun a => stubs.addrs.findIdx? (· = a)) haddr).trans
      (stubs.findIdx_addr harrives.lt)
  unfold interrupt
  rw [hgate, Option.bind_eq_bind, Option.bind_some, serve]
  simp only [Option.bind_eq_bind, Option.bind_some, hstub]
  generalize runInstrs (m.deliver gate errCode) (intrStub n ++ callIntHandleEntry) = entered
    at hentered hsp hsys ⊢
  have hsaved : entered.sys = m.saved n (errCode.getD 0) := hsys
  rw [hsp, hsaved, harg]
  cases hhandled : interruptsHandleInt h m.framePtr (m.saved n (errCode.getD 0)) with
  | none => rfl
  | some sys =>
    obtain ⟨hkarg, hkesp⟩ := hkeeps sys hhandled
    have hdown : m.framePtr - 4 = m.sp - 66 := by
      unfold IntrMachine.framePtr
      omega
    have hpopped := afterCall_popped (m := entered) sys scratch hentered.idtr
      (hsp.trans hdown.symm)
    refine congrArg some (exit_popped hpopped ?_ ?_ ?_ ?_)
    · unfold IntrMachine.framePtr
      omega
    · rw [hdown, hkarg, hframe]
    · have hesp := toNat_sub_ofNat (a := m.ctx.reg .esp) (n := 20) (by
        change 20 ≤ m.sp
        omega)
      rw [hkesp]
      refine hesp.trans ?_
      change m.sp - 20 = m.sp - 62 + 42
      omega
    · change m.sp = m.sp - 62 + 62
      omega

end Interrupt

end Microboot.Kern.Sys
