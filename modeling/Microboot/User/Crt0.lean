/-
  User/Crt0.lean --- system calls of a program, user/crt0.S and user/common.h.

  `do_syscall` saves all registers, loads the number of the call and its arguments from the
  stack, and keeps the result in `tmp` while it gets the registers back.

  A program is bound to the kernel by two numbers: call 0 finds the number of a call by its
  name, and the call that is found so finds the address of a symbol.
-/
import Microboot.Kern.Sys.InterruptRun

set_option autoImplicit false

namespace Microboot.User

open Microboot.Foundation Microboot.Kern Microboot.Kern.Sys

variable {σ : Type}

/-! ## do_syscall -/

/-- `pushal` -/
def pushal (m : IntrMachine σ) : IntrMachine σ :=
  let esp := m.ctx.reg .esp
  let m := runInstrs m ([.eax, .ecx, .edx, .ebx].map .pushReg)
  runInstrs (m.push (bytes32 esp)) ([.ebp, .esi, .edi].map .pushReg)

/-- `popal`, which goes over the stack pointer. -/
def popal (m : IntrMachine σ) : IntrMachine σ :=
  let m := runInstrs m ([.edi, .esi, .ebp].map .popReg)
  let m := m.setReg .esp (m.ctx.reg .esp + 4)
  runInstrs m ([.ebx, .edx, .ecx, .eax].map .popReg)

/-- `mov` of a word above the stack pointer to a register. -/
def loadStack (m : IntrMachine σ) (r : Reg) (off : Nat) : IntrMachine σ :=
  m.setReg r (word32 m.sys.mem (m.sp + off))

/-- `do_syscall`, up to the interrupt. -/
def doSyscallEntry (m : IntrMachine σ) : IntrMachine σ :=
  let m := loadStack (pushal m) .eax 36
  let m := loadStack m .ecx 40
  let m := loadStack m .edx 44
  let m := loadStack m .ebx 48
  let m := loadStack m .esi 52
  loadStack m .edi 56

/-- `ret` -/
def ret (m : IntrMachine σ) : IntrMachine σ :=
  { m.setReg .esp (m.ctx.reg .esp + 4) with
    ctx.eip := word32 m.sys.mem m.sp }

/-- `do_syscall`, behind the interrupt, with `tmp` at an address. -/
def doSyscallExit (tmp : Nat) (m : IntrMachine σ) : IntrMachine σ :=
  let m := { m with sys.mem := m.sys.mem.storeBytes tmp (bytes32 (m.ctx.reg .eax)) }
  let m := popal m
  ret (m.setReg .eax (word32 m.sys.mem tmp))

/-- `do_syscall(nr, arg0, arg1, arg2, arg3, arg4)`, from its first instruction to the one behind
the call. -/
def doSyscall (stubs : Stubs) (h : Handlers σ) (scratch : Scratch) (tmp : Nat)
    (m : IntrMachine σ) : Option (IntrMachine σ) := do
  let m ← interrupt stubs h scratch 128 none (doSyscallEntry m)
  return doSyscallExit tmp m

/-! ### The registers -/

section Registers

variable {m : IntrMachine σ}

/-- The bytes of `pushal`. -/
def savedRegs (ctx : Context) : List UInt8 :=
  [Reg.edi, .esi, .ebp, .esp, .ebx, .edx, .ecx, .eax].flatMap fun r => bytes32 (ctx.reg r)

theorem length_savedRegs (ctx : Context) : (savedRegs ctx).length = 32 := by
  simp [savedRegs]

theorem pushal_pushed (hroom : 32 ≤ m.sp) : Pushed m (pushal m) (savedRegs m.ctx) := by
  have hfirst := (Pushed.start m).pushRegs [.eax, .ecx, .edx, .ebx] (by decide) (by simp; omega)
  have hesp := hfirst.push (b := bytes32 (m.ctx.reg .esp)) (by simp; omega)
  have hlast := hesp.pushRegs [.ebp, .esi, .edi] (by decide) (by simp; omega)
  simpa [savedRegs, pushal] using hlast

theorem popRegs_ctx (m : IntrMachine σ) (rs : List Reg) :
    (runInstrs m (rs.map .popReg)).ctx =
      { m.ctx with reg := (runInstrs m (rs.map .popReg)).ctx.reg } := by
  induction rs generalizing m with
  | nil => rfl
  | cons r rs ih => exact ih (Instr.run m (.popReg r))

/-- `popal` leaves all else alone. -/
theorem popal_ctx (m : IntrMachine σ) :
    (popal m).ctx = { m.ctx with reg := (popal m).ctx.reg } := by
  have hfirst := popRegs_ctx m [.edi, .esi, .ebp]
  unfold popal
  dsimp only
  generalize runInstrs m ([Reg.edi, .esi, .ebp].map .popReg) = m₁ at hfirst ⊢
  have hlast := popRegs_ctx (m₁.setReg .esp (m₁.ctx.reg .esp + 4)) [.ebx, .edx, .ecx, .eax]
  generalize (runInstrs (m₁.setReg .esp (m₁.ctx.reg .esp + 4)) _).ctx = ctx at hlast ⊢
  exact hlast.trans (congrArg (fun ctx' : Context => { ctx' with reg := ctx.reg }) hfirst)

/-- `popal` gets them back, but for the stack pointer, which is behind them. -/
theorem popal_popped {sys : IntrSystem σ} {idtr : TableReg} {reg : Reg → UInt32}
    {seg : SegReg → UInt16} {sp : Nat} {ctx : Context} (h : Popped sys idtr m reg seg sp)
    (hsaved : Seg sys.mem sp (savedRegs ctx)) (hroom : sp + 32 < 2 ^ 32) :
    Popped sys idtr (popal m) (Function.update ctx.reg .esp (reg .esp)) seg (sp + 32) := by
  simp only [savedRegs, List.flatMap_cons, List.flatMap_nil, seg_append, length_bytes32] at hsaved
  obtain ⟨hedi, hesi, hebp, -, hebx, hedx, hecx, heax, -⟩ := hsaved
  have hindex := ((h.popReg (r := .edi) (by decide) (by omega)).popReg (r := .esi) (by decide)
    (by omega)).popReg (r := .ebp) (by decide) (by omega)
  have hskip := hindex.skip (by omega)
  have hgeneral := (((hskip.popReg (r := .ebx) (by decide) (by omega)).popReg (r := .edx)
    (by decide) (by omega)).popReg (r := .ecx) (by decide) (by omega)).popReg (r := .eax)
    (by decide) (by omega)
  rw [hedi.word32, hesi.word32, hebp.word32, hebx.word32, hedx.word32, hecx.word32, heax.word32]
    at hgeneral
  refine hgeneral.congr_reg fun r _ => ?_
  cases r <;> rfl

/-- A return, with a register that has been set before. -/
theorem ret_setReg {r : Reg} {v : UInt32} (hr : Reg.esp ≠ r) :
    ret (m.setReg r v) = { m with
      ctx.reg := Function.update (Function.update m.ctx.reg r v) .esp (m.ctx.reg .esp + 4)
      ctx.eip := word32 m.sys.mem m.sp } := by
  have hesp := m.setReg_of_ne v hr
  unfold ret IntrMachine.sp
  rw [hesp]
  rfl

end Registers

/-! ### The call -/

/-- What is on the stack when `do_syscall` is called. -/
structure Call where
  ret : UInt32
  nr : UInt32
  arg0 : UInt32
  arg1 : UInt32
  arg2 : UInt32
  arg3 : UInt32
  arg4 : UInt32

namespace Call

/-- The bytes on the stack. -/
def bytes (c : Call) : List UInt8 :=
  [c.ret, c.nr, c.arg0, c.arg1, c.arg2, c.arg3, c.arg4].flatMap bytes32

/-- The registers at the interrupt. -/
def regs (c : Call) (reg : Reg → UInt32) : Reg → UInt32
  | .eax => c.nr
  | .ecx => c.arg0
  | .edx => c.arg1
  | .ebx => c.arg2
  | .esi => c.arg3
  | .edi => c.arg4
  | .ebp => reg .ebp
  | .esp => reg .esp - 32

theorem length_bytes (c : Call) : c.bytes.length = 28 := by simp [bytes]

/-- The program at the interrupt. -/
def entered (c : Call) (m : IntrMachine σ) : IntrMachine σ :=
  { m with
    ctx.reg := c.regs m.ctx.reg
    sys.mem := m.sys.mem.storeBytes (m.sp - 32) (savedRegs m.ctx) }

end Call

section DoSyscall

variable {m : IntrMachine σ} {c : Call}

/-- A word of the stack is loaded. -/
theorem loadStack_popped {sys : IntrSystem σ} {idtr : TableReg} {reg : Reg → UInt32}
    {seg : SegReg → UInt16} {sp off : Nat} {v : UInt32} (h : Popped sys idtr m reg seg sp)
    (r : Reg) (hr : r ≠ .esp) (hv : word32 sys.mem (sp + off) = v) :
    Popped sys idtr (loadStack m r off) (Function.update reg r v) seg sp where
  sys_eq := h.sys_eq
  idtr_eq := h.idtr_eq
  reg_eq r' hr' := by
    rw [loadStack, h.sys_eq, h.sp_eq, hv]
    by_cases heq : r' = r
    · subst heq
      rw [IntrMachine.setReg_self, Function.update_self]
    · rw [IntrMachine.setReg_of_ne _ _ heq, Function.update_of_ne heq, h.reg_eq r' hr']
  seg_eq := h.seg_eq
  sp_eq := by
    have hsp := h.sp_eq
    unfold IntrMachine.sp at hsp ⊢
    rw [loadStack, IntrMachine.setReg_of_ne _ _ (Ne.symm hr), hsp]

/-- The number and the arguments are in the registers, and the registers on the stack. -/
theorem doSyscallEntry_eq (hcall : Seg m.sys.mem m.sp c.bytes) (hroom : 32 ≤ m.sp)
    (hfits : m.sp + 28 ≤ 2 ^ 32) : doSyscallEntry m = c.entered m := by
  have hpushed := pushal_pushed hroom
  have hlen := length_savedRegs m.ctx
  have hsp : (pushal m).sp = m.sp - 32 := by rw [hpushed.sp_eq, hlen]
  have hsys := hpushed.sys
  rw [hlen] at hsys
  have habove : ∀ off, 32 ≤ off → off + 4 ≤ 60 →
      word32 (pushal m).sys.mem (m.sp - 32 + off) = word32 m.sys.mem (m.sp + (off - 32)) := by
    intro off hoff hoff'
    rw [hsys, show m.sp + (off - 32) = m.sp - 32 + off by omega]
    exact word32_storeBytes_of_disjoint (by omega) (by omega) (.inr (by omega))
  simp only [Call.bytes, List.flatMap_cons, List.flatMap_nil, seg_append, length_bytes32] at hcall
  obtain ⟨-, hnr, h0, h1, h2, h3, h4, -⟩ := hcall
  have hstart : Popped (pushal m).sys m.idtr (pushal m) m.ctx.reg m.ctx.seg (m.sp - 32) :=
    ⟨rfl, hpushed.idtr, hpushed.reg, hpushed.seg, hsp⟩
  have hnumber := loadStack_popped hstart .eax (by decide)
    ((habove 36 (by decide) (by decide)).trans hnr.word32)
  have hfirst := loadStack_popped (loadStack_popped hnumber .ecx (by decide)
    ((habove 40 (by decide) (by decide)).trans h0.word32)) .edx (by decide)
    ((habove 44 (by decide) (by decide)).trans h1.word32)
  have hlast := loadStack_popped (loadStack_popped (loadStack_popped hfirst .ebx (by decide)
    ((habove 48 (by decide) (by decide)).trans h2.word32)) .esi (by decide)
    ((habove 52 (by decide) (by decide)).trans h3.word32)) .edi (by decide)
    ((habove 56 (by decide) (by decide)).trans h4.word32)
  have hloaded : Popped (pushal m).sys m.idtr (doSyscallEntry m) _ m.ctx.seg (m.sp - 32) := hlast
  have hreg : (doSyscallEntry m).ctx.reg = c.regs m.ctx.reg := by
    funext r
    by_cases hr : r = .esp
    · subst hr
      apply UInt32.toNat_inj.mp
      exact hloaded.sp_eq.trans (toNat_sub_ofNat (n := 32) hroom).symm
    · rw [hloaded.reg_eq r hr]
      cases r <;> first | exact absurd rfl hr | rfl
  have hrest : doSyscallEntry m =
      { m with ctx.reg := (doSyscallEntry m).ctx.reg, sys := (pushal m).sys } := rfl
  rw [hrest, hreg, hsys]
  rfl

/-- Behind the interrupt the registers are those that were saved, but for the result. -/
theorem doSyscallExit_eq {m' : IntrMachine σ} {tmp : Nat}
    (hesp : m'.ctx.reg .esp = m.ctx.reg .esp - 32)
    (hsaved : Seg m'.sys.mem (m.sp - 32) (savedRegs m.ctx ++ bytes32 c.ret)) (hroom : 32 ≤ m.sp)
    (hfits : m.sp + 4 < 2 ^ 32) (htmp : tmp + 4 ≤ m.sp - 32 ∨ m.sp + 4 ≤ tmp)
    (htmp' : tmp + 4 ≤ 2 ^ 32) :
    doSyscallExit tmp m' = {
      ctx := { m'.ctx with
        reg := Function.update (Function.update m.ctx.reg .eax (m'.ctx.reg .eax)) .esp
          (m.ctx.reg .esp + 4)
        eip := c.ret }
      idtr := m'.idtr
      sys := { m'.sys with
        mem := m'.sys.mem.storeBytes tmp (bytes32 (m'.ctx.reg .eax)) } } := by
  have hlen := length_savedRegs m.ctx
  have hsp' : m'.sp = m.sp - 32 :=
    (congrArg UInt32.toNat hesp).trans (toNat_sub_ofNat (n := 32) hroom)
  -- the result is kept
  have hkept : word32 (m'.sys.mem.storeBytes tmp (bytes32 (m'.ctx.reg .eax))) tmp =
      m'.ctx.reg .eax := word32_storeBytes_same htmp'
  have hsaved' : Seg (m'.sys.mem.storeBytes tmp (bytes32 (m'.ctx.reg .eax))) (m.sp - 32)
      (savedRegs m.ctx ++ bytes32 c.ret) := by
    refine hsaved.congr ?_ fun x hx hx' => ?_
    · rw [List.length_append, length_bytes32]
      omega
    · rw [List.length_append, length_bytes32] at hx'
      exact Mem.storeBytes_apply_of_disjoint _ _ _ _ (by simpa using htmp') (by
        rw [length_bytes32]
        omega)
  generalize hstored : { m' with
    sys.mem := m'.sys.mem.storeBytes tmp (bytes32 (m'.ctx.reg .eax)) } = stored
  have hstart : Popped stored.sys m'.idtr stored m'.ctx.reg m'.ctx.seg (m.sp - 32) := by
    rw [← hstored]
    exact ⟨rfl, rfl, fun _ _ => rfl, rfl, hsp'⟩
  have hsys : stored.sys =
      { m'.sys with mem := m'.sys.mem.storeBytes tmp (bytes32 (m'.ctx.reg .eax)) } := by
    rw [← hstored]
  have hmem : stored.sys.mem = m'.sys.mem.storeBytes tmp (bytes32 (m'.ctx.reg .eax)) := by
    rw [hsys]
  rw [seg_append, ← hmem] at hsaved'
  have hback := popal_popped hstart hsaved'.1 (by omega)
  have hespBack : (popal stored).ctx.reg .esp = m.ctx.reg .esp := by
    apply UInt32.toNat_inj.mp
    refine hback.sp_eq.trans ?_
    change m.sp - 32 + 32 = m.sp
    omega
  have hret : word32 (popal stored).sys.mem (popal stored).sp = c.ret := by
    rw [hback.sp_eq, hback.sys_eq, ← hlen]
    exact hsaved'.2.word32
  have hresult : word32 (popal stored).sys.mem tmp = m'.ctx.reg .eax := by
    rw [hback.sys_eq, hsys]
    exact hkept
  have hreg : Function.update (Function.update (popal stored).ctx.reg .eax (m'.ctx.reg .eax)) .esp
      (m.ctx.reg .esp + 4) =
        Function.update (Function.update m.ctx.reg .eax (m'.ctx.reg .eax)) .esp
          (m.ctx.reg .esp + 4) := by
    funext r
    by_cases hr : r = .esp
    · subst hr
      rw [Function.update_self, Function.update_self]
    · rw [Function.update_of_ne hr, Function.update_of_ne hr]
      by_cases heax : r = .eax
      · subst heax
        rw [Function.update_self, Function.update_self]
      · rw [Function.update_of_ne heax, Function.update_of_ne heax, hback.reg_eq r hr,
          Function.update_of_ne hr]
  have hctx : (popal stored).ctx = { m'.ctx with reg := (popal stored).ctx.reg } := by
    have hpopal := popal_ctx stored
    rwa [show stored.ctx = m'.ctx by rw [← hstored]] at hpopal
  have hexit : doSyscallExit tmp m' =
      ret ((popal stored).setReg .eax (word32 (popal stored).sys.mem tmp)) := by
    rw [← hstored, doSyscallExit]
  have hidtr := hback.idtr_eq
  have hsysBack := hback.sys_eq.trans hsys
  rw [hresult] at hexit
  generalize popal stored = popped at hexit hctx hespBack hret hreg hidtr hsysBack
  rw [hexit, ← hreg, ← hespBack, ← hret, ← hidtr, ← hsysBack, ret_setReg (by decide), hctx]

end DoSyscall

/-! ## The registered function -/

section Registered

variable {stubs : Stubs} {h : Handlers σ} {scratch : Scratch} {m : IntrMachine σ} {c : Call}
  {syscalls : List (SyscallCall (IntrSystem σ))} {name : Key} {func : SyscallFn (IntrSystem σ)}
  {result : UInt32} {sys : IntrSystem σ} {tmp : Nat}

/-- The program at the interrupt has used 32 bytes of its stack. -/
theorem Call.entered_sp (c : Call) (hroom : 32 ≤ m.sp) : (c.entered m).sp = m.sp - 32 :=
  toNat_sub_ofNat (n := 32) hroom

/-- What the interrupt writes. -/
theorem saved_apply {x : Nat} (hroom : 66 ≤ m.sp) (hx : x < m.sp - 66 ∨ m.sp ≤ x) :
    (m.saved 128 0).mem x = m.sys.mem x := by
  have hlt : m.sp < 2 ^ 32 := (m.ctx.reg .esp).toNat_lt
  unfold IntrMachine.saved
  refine Mem.storeBytes_apply_of_disjoint _ _ _ _ ?_ ?_
  · rw [m.length_saved]
    omega
  · rw [m.length_saved]
    omega

variable (scratch) in
/-- `do_syscall` returns the result of the function that is registered under the number.  The
function has got the arguments; no register but `%eax` has changed. -/
theorem doSyscall_eq (harrives : Arrives stubs 128 none (c.entered m))
    (hentry : h.bound[128]? = some none)
    (hllEntry : h.llBound[128]? = some (some (syscallHandler (syscallRun syscalls).1)))
    (hcall : Seg m.sys.mem m.sp c.bytes) (hroom : 98 ≤ m.sp) (hfits : m.sp + 28 ≤ 2 ^ 32)
    (htmp : tmp + 4 ≤ m.sp - 32 ∨ m.sp + 4 ≤ tmp) (htmp' : tmp + 4 ≤ 2 ^ 32)
    (hreg : Registered (syscallRun syscalls).2 c.nr.toNat name func)
    (hfunc : func [c.arg0, c.arg1, c.arg2, c.arg3, c.arg4] ((c.entered m).saved 128 0) =
      (result, sys))
    (hkeeps : ∀ x, m.sp - 98 ≤ x → x < m.sp + 4 →
      sys.mem x = ((c.entered m).saved 128 0).mem x) :
    doSyscall stubs h scratch tmp m = some {
      ctx := { m.ctx with
        reg := Function.update (Function.update m.ctx.reg .eax result) .esp (m.ctx.reg .esp + 4)
        eip := c.ret }
      idtr := m.idtr
      sys := { sys with
        mem := (sys.mem.storeBytes (m.sp - 60) (bytes32 result)).storeBytes tmp
          (bytes32 result) } } := by
  have hsp : (c.entered m).sp = m.sp - 32 := c.entered_sp (by omega)
  have hframe : (c.entered m).framePtr + 34 = m.sp - 60 := by
    unfold IntrMachine.framePtr
    omega
  have hserved := interrupt_syscall scratch harrives hentry hllEntry hreg hfunc fun x hx hx' => by
    rw [hsp] at hx hx'
    exact hkeeps x (by omega) (by omega)
  rw [hframe] at hserved
  -- what was saved is still on the stack
  have hsaved : Seg (sys.mem.storeBytes (m.sp - 60) (bytes32 result)) (m.sp - 32)
      (savedRegs m.ctx ++ bytes32 c.ret) := by
    have hlen := length_savedRegs m.ctx
    have hbefore : Seg (c.entered m).sys.mem (m.sp - 32) (savedRegs m.ctx ++ bytes32 c.ret) := by
      rw [seg_append]
      refine ⟨seg_storeBytes (by omega), ?_⟩
      rw [Call.bytes, List.flatMap_cons, seg_append] at hcall
      rw [show m.sp - 32 + (savedRegs m.ctx).length = m.sp by omega]
      refine hcall.1.congr (by rw [length_bytes32]; omega) fun x hx _ => ?_
      exact Mem.storeBytes_apply_of_disjoint _ _ _ _ (by omega) (.inr (by omega))
    refine hbefore.congr (by rw [List.length_append, length_bytes32]; omega) fun x hx hx' => ?_
    rw [List.length_append, length_bytes32, hlen] at hx'
    rw [Mem.storeBytes_apply_of_disjoint _ _ _ _ (by rw [length_bytes32]; omega)
      (by rw [length_bytes32]; omega), hkeeps x (by omega) (by omega),
      saved_apply (by omega) (by omega)]
  unfold doSyscall
  rw [doSyscallEntry_eq hcall (by omega) hfits, hserved, Option.bind_eq_bind, Option.bind_some]
  refine congrArg some ((doSyscallExit_eq ?_ hsaved (by omega) (by omega) htmp htmp').trans ?_)
  · rfl
  · rfl

end Registered

/-! ## Calls from C -/

/-- A function of C calls `do_syscall`.  It pushes the arguments, and takes them off behind the
call. -/
def syscall (stubs : Stubs) (h : Handlers σ) (scratch : Scratch) (tmp : Nat) (c : Call)
    (m : IntrMachine σ) : Option (UInt32 × IntrMachine σ) := do
  let words := [c.arg4, c.arg3, c.arg2, c.arg1, c.arg0, c.nr, c.ret]
  let m ← doSyscall stubs h scratch tmp (words.foldl (fun m w => m.push (bytes32 w)) m)
  return (m.ctx.reg .eax, runInstrs m [.addEsp 24])

/-- A call has returned: the stack is as it was, and nothing has changed but `%eax`, the flags,
`tmp`, and what is below the stack pointer. -/
structure Returned (tmp : Nat) (m m' : IntrMachine σ) : Prop where
  reg : ∀ r, r ≠ .eax → m'.ctx.reg r = m.ctx.reg r
  seg : m'.ctx.seg = m.ctx.seg
  idtr : m'.idtr = m.idtr
  outs : m'.sys.outs = m.sys.outs
  world : m'.sys.world = m.sys.world
  mem : ∀ x, x < m.sp - 126 ∨ m.sp ≤ x → x < tmp ∨ tmp + 4 ≤ x → m'.sys.mem x = m.sys.mem x

section Syscall

variable {stubs : Stubs} {idt : UInt32} {print : IntrFrame → σ → σ} {h₀ h : Handlers σ}
  {m₀ m : IntrMachine σ} {scratch : Scratch} {c : Call}
  {syscalls : List (SyscallCall (IntrSystem σ))} {name : Key} {func : SyscallFn (IntrSystem σ)}
  {result : UInt32} {tmp : Nat}

theorem pushWords_pushed (ws : List UInt32) {u : List UInt8} {m' : IntrMachine σ}
    (h : Pushed m m' u) (hroom : 4 * ws.length + u.length ≤ m.sp) :
    Pushed m (ws.foldl (fun m w => m.push (bytes32 w)) m') (ws.reverse.flatMap bytes32 ++ u) := by
  induction ws generalizing m' u with
  | nil => exact h
  | cons w ws ih =>
    rw [List.length_cons] at hroom
    have hfirst := h.push (b := bytes32 w) (by rw [length_bytes32]; omega)
    have hrest := ih hfirst (by rw [List.length_append, length_bytes32]; omega)
    rw [List.reverse_cons, List.flatMap_append, List.flatMap_singleton, List.append_assoc]
    exact hrest

variable (scratch tmp c) in
/-- A call of a function that only reads returns what it reads. -/
theorem syscall_eq (hready : IntrReady stubs idt print h₀ m₀ m)
    (hentry : h.bound[128]? = some none)
    (hllEntry : h.llBound[128]? = some (some (syscallHandler (syscallRun syscalls).1)))
    (hroom : 126 ≤ m.sp) (hidt : m.sp ≤ idt.toNat ∨ idt.toNat + 2048 ≤ m.sp - 126)
    (htmp : tmp + 4 ≤ m.sp - 126 ∨ m.sp ≤ tmp) (htmp' : tmp + 4 ≤ 2 ^ 32)
    (hreg : Registered (syscallRun syscalls).2 c.nr.toNat name func)
    (hfunc : ∀ w : IntrSystem σ, w.outs = m.sys.outs → w.world = m.sys.world →
      (∀ x, x < m.sp - 126 ∨ m.sp ≤ x → w.mem x = m.sys.mem x) →
      func [c.arg0, c.arg1, c.arg2, c.arg3, c.arg4] w = (result, w)) :
    ∃ m', syscall stubs h scratch tmp c m = some (result, m') ∧ Returned tmp m m' := by
  have hlt : m.sp < 2 ^ 32 := (m.ctx.reg .esp).toNat_lt
  have hpushed := pushWords_pushed [c.arg4, c.arg3, c.arg2, c.arg1, c.arg0, c.nr, c.ret]
    (Pushed.start m) (by simp; omega)
  have hbytes : [c.arg4, c.arg3, c.arg2, c.arg1, c.arg0, c.nr, c.ret].reverse.flatMap bytes32 ++ [] =
      c.bytes := List.append_nil _
  rw [hbytes] at hpushed
  unfold syscall
  dsimp only
  generalize ([c.arg4, c.arg3, c.arg2, c.arg1, c.arg0, c.nr, c.ret] : List UInt32).foldl
    (fun m w => m.push (bytes32 w)) m = m₁ at hpushed ⊢
  have hlen := c.length_bytes
  have hsp : m₁.sp = m.sp - 28 := by rw [hpushed.sp_eq, hlen]
  have hsys := hpushed.sys
  rw [hlen] at hsys
  have hcall : Seg m₁.sys.mem m₁.sp c.bytes := by
    rw [hsys, hsp]
    exact seg_storeBytes (by omega)
  have hmem₁ : ∀ x, x < m.sp - 28 ∨ m.sp ≤ x → m₁.sys.mem x = m.sys.mem x := by
    intro x hx
    rw [hsys]
    exact Mem.storeBytes_apply_of_disjoint _ _ _ _ (by omega) (by omega)
  have hentered : ∀ x, x < m.sp - 60 ∨ m.sp ≤ x → (c.entered m₁).sys.mem x = m.sys.mem x := by
    intro x hx
    have hregs := length_savedRegs m₁.ctx
    rw [← hmem₁ x (by omega)]
    exact Mem.storeBytes_apply_of_disjoint _ _ _ _ (by omega) (by omega)
  have hespEntered : (c.entered m₁).sp = m.sp - 60 := by
    rw [c.entered_sp (by omega), hsp]
    omega
  have hready₁ : IntrReady stubs idt print h₀ m₀ (c.entered m₁) :=
    hready.congr hpushed.idtr fun x hx hx' => hentered x (by omega)
  have harrives : Arrives stubs 128 none (c.entered m₁) :=
    hready₁.arrives (by decide) (by decide) (by omega)
  have hsaved : ∀ x, x < m.sp - 126 ∨ m.sp ≤ x →
      ((c.entered m₁).saved 128 0).mem x = m.sys.mem x := by
    intro x hx
    rw [saved_apply (by omega) (by omega), hentered x (by omega)]
  have houts : ((c.entered m₁).saved 128 0).outs = m.sys.outs := by
    unfold IntrMachine.saved Call.entered
    rw [hsys]
  have hworld : ((c.entered m₁).saved 128 0).world = m.sys.world := by
    unfold IntrMachine.saved Call.entered
    rw [hsys]
  have hran := hfunc ((c.entered m₁).saved 128 0) houts hworld hsaved
  have hdone := doSyscall_eq scratch harrives hentry hllEntry hcall (by omega) (by omega) (by omega)
    htmp' hreg hran fun _ _ _ => rfl
  generalize hm₂ : (IntrMachine.mk _ _ _ : IntrMachine σ) = m₂ at hdone
  have hesp : m₁.ctx.reg .esp + 4 + 24 = m.ctx.reg .esp := by
    have hdown := hpushed.esp
    rw [hlen] at hdown
    have hup : (4 + 24 : UInt32) = UInt32.ofNat 28 := by decide
    rw [hdown, UInt32.add_assoc, hup, UInt32.sub_add_cancel]
  have hregs : m₂.ctx.reg = Function.update (Function.update m₁.ctx.reg .eax result) .esp
      (m₁.ctx.reg .esp + 4) := by rw [← hm₂]
  have hmem₂ : m₂.sys.mem = (((c.entered m₁).saved 128 0).mem.storeBytes (m₁.sp - 60)
      (bytes32 result)).storeBytes tmp (bytes32 result) := by rw [← hm₂]
  rw [hdone, Option.bind_eq_bind, Option.bind_some]
  refine ⟨runInstrs m₂ [.addEsp 24], ?_, fun r hr => ?_, ?_, ?_, ?_, ?_, fun x hx hx' => ?_⟩
  · rw [hregs, Function.update_of_ne (by decide), Function.update_self]
    rfl
  · have hadd : (runInstrs m₂ [.addEsp 24]).ctx.reg =
        Function.update m₂.ctx.reg .esp (m₂.ctx.reg .esp + 24) := rfl
    rw [hadd, hregs]
    by_cases heq : r = .esp
    · subst heq
      rw [Function.update_self, Function.update_self, hesp]
    · rw [Function.update_of_ne heq, Function.update_of_ne heq, Function.update_of_ne hr,
        hpushed.reg r heq]
  · rw [show (runInstrs m₂ [.addEsp 24]).ctx.seg = m₂.ctx.seg from rfl, ← hm₂]
    exact hpushed.seg
  · rw [show (runInstrs m₂ [.addEsp 24]).idtr = m₂.idtr from rfl, ← hm₂]
    exact hpushed.idtr
  · rw [show (runInstrs m₂ [.addEsp 24]).sys = m₂.sys from rfl, ← hm₂]
    exact houts
  · rw [show (runInstrs m₂ [.addEsp 24]).sys = m₂.sys from rfl, ← hm₂]
    exact hworld
  · have hout : x < tmp ∨ tmp + (bytes32 result).length ≤ x := by rwa [length_bytes32]
    rw [show (runInstrs m₂ [.addEsp 24]).sys.mem = m₂.sys.mem from rfl, hmem₂,
      Mem.storeBytes_apply_of_disjoint _ _ _ _ (by simpa using htmp') hout,
      Mem.storeBytes_apply_of_disjoint _ _ _ _ (by rw [length_bytes32]; omega)
        (by rw [length_bytes32]; omega)]
    exact hsaved x hx

end Syscall

end Microboot.User
