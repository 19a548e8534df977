/-
  User/Common.lean --- programs that use symbols of the kernel, user/common.h and lib/export.h.

  `MODULE(name)` and `USE(n)` give a program the variables `getexport` and `kexp_n`.  It calls
  `module_init()` first, and then `INIT(n)` for each symbol: the first asks under what number
  symbols are looked up, the second looks one up.
-/
import Microboot.Kern.Syscalls
import Microboot.User.Crt0

set_option autoImplicit false

namespace Microboot.User

open Microboot.Foundation Microboot.Kern Microboot.Kern.Exe Microboot.Kern.Sys

variable {σ : Type}

/-- Where a program has its variables and strings. -/
structure Layout where
  tmp : Nat
  getexport : Nat
  /-- `kexp_n` -/
  kexp : Nat
  /-- `"getmodsym"` -/
  getmodsym : UInt32
  /-- `#n` -/
  symbol : UInt32

/-- `SYSCALL1(nr, arg)`, in front of the instruction at `ret`. -/
def syscall1 (stubs : Stubs) (h : Handlers σ) (scratch : Scratch) (tmp : Nat)
    (ret nr arg : UInt32) (m : IntrMachine σ) : Option (UInt32 × IntrMachine σ) :=
  syscall stubs h scratch tmp ⟨ret, nr, arg, 0, 0, 0, 0⟩ m

/-- A variable is set. -/
def setVar (m : IntrMachine σ) (p : Nat) (v : UInt32) : IntrMachine σ :=
  { m with sys.mem := m.sys.mem.storeBytes p (bytes32 v) }

theorem setVar_apply {m : IntrMachine σ} {p x : Nat} {v : UInt32} (hp : p + 4 ≤ 2 ^ 32)
    (hx : x < p ∨ p + 4 ≤ x) : (setVar m p v).sys.mem x = m.sys.mem x :=
  Mem.storeBytes_apply_of_disjoint _ _ _ _ (by simpa using hp) (by simpa using hx)

/-- `module_init()` -/
def moduleInit (stubs : Stubs) (h : Handlers σ) (scratch : Scratch) (l : Layout) (ret : UInt32)
    (m : IntrMachine σ) : Option (IntrMachine σ) := do
  let (nr, m) ← syscall1 stubs h scratch l.tmp ret 0 l.getmodsym m
  return setVar m l.getexport nr

/-- `INIT(n)` -/
def initSymbol (stubs : Stubs) (h : Handlers σ) (scratch : Scratch) (l : Layout) (ret : UInt32)
    (m : IntrMachine σ) : Option (IntrMachine σ) := do
  let nr := word32 m.sys.mem l.getexport
  let (fn, m) ← syscall1 stubs h scratch l.tmp ret nr l.symbol m
  return setVar m l.kexp fn

/-! ## What is written -/

/-- The addresses that `module_init` and the calls write to: two variables and the stack. -/
def Layout.Touched (l : Layout) (sp : Nat) (x : Nat) : Prop :=
  (sp - 126 ≤ x ∧ x < sp) ∨ (l.tmp ≤ x ∧ x < l.tmp + 4) ∨ (l.getexport ≤ x ∧ x < l.getexport + 4)

/-- A word that starts at `p` is away from the stack and the table of the gates. -/
def Clear (idt : UInt32) (sp p : Nat) : Prop :=
  p + 4 ≤ 2 ^ 32 ∧ (p + 4 ≤ sp - 126 ∨ sp ≤ p) ∧
    (p + 4 ≤ idt.toNat ∨ idt.toNat + 2048 ≤ p)

/-- The variables, the strings, the stack and the table of the gates are apart. -/
structure Layout.Apart (l : Layout) (idt : UInt32) (sp : Nat) (symbol : Key) : Prop where
  room : 126 ≤ sp
  table : sp ≤ idt.toNat ∨ idt.toNat + 2048 ≤ sp - 126
  tmp : Clear idt sp l.tmp
  getexport : Clear idt sp l.getexport
  kexp : Clear idt sp l.kexp
  tmp_getexport : l.tmp + 4 ≤ l.getexport ∨ l.getexport + 4 ≤ l.tmp
  getmodsym : ∀ x, l.getmodsym.toNat ≤ x → x ≤ l.getmodsym.toNat + getmodsymName.val.length →
    ¬ l.Touched sp x
  symbol : ∀ x, l.symbol.toNat ≤ x → x ≤ l.symbol.toNat + symbol.val.length → ¬ l.Touched sp x

section Bind

variable {stubs : Stubs} {idt : UInt32} {print : IntrFrame → σ → σ} {h₀ h : Handlers σ}
  {m₀ m : IntrMachine σ} {scratch scratch' : Scratch} {calls : List (Registration σ)}
  {syscalls : List (SyscallCall (IntrSystem σ))} {l : Layout} {ret ret' : UInt32} {symbol : Key}
  {exports fn : Nat}

end Bind

/-! ### A program that uses one symbol -/

/-- `"getmodsym"` at `0x9100`, `"a"` at `0x9110`, and at `0x9200` a list of exports with one symbol
of that name, whose address is `0x1234`. -/
def oneSymbolMem : Mem :=
  let m : Mem := Mem.storeBytes (fun _ => 0) 0x9100 getmodsymName.val
  let m := (m.store8 0x9110 97).store8 0x9250 97
  let m := (m.store32 0x9200 0x9220).store32 0x9220 0x920c
  ((m.store32 0x9228 0x9240).store32 0x9240 0x9250).store32 0x9244 0x1234

/-- Its variables. -/
def oneSymbolLayout : Layout where
  tmp := 0x9000
  getexport := 0x9004
  kexp := 0x9008
  getmodsym := 0x9100
  symbol := 0x9110

/-- The started kernel with this memory behind the table of the gates. -/
def oneSymbolKernel : IntrMachine Unit :=
  { bareKernel with
    sys.mem := fun x => if 0x9000 ≤ x then oneSymbolMem x else bareKernel.sys.mem x }

/-- `"a"` -/
def nameA : Key := ⟨[97], nul_not_mem_a⟩

/-- The symbol is found while the memory behind the variables is as it was. -/
theorem oneSymbol_found {mem : Mem} (h : ∀ x, 0x900c ≤ x → mem x = oneSymbolMem x) :
    Ksymtab.modSymGet (2 ^ 32) mem 0x9200 nameA.val = some 0x1234 := by
  have hload : ∀ p, 0x900c ≤ p → p + 4 ≤ 2 ^ 32 → mem.load32 p = oneSymbolMem.load32 p :=
    fun p hp hp' => Mem.load32_congr hp' fun x hx _ => h x (by omega)
  have hstr : StrAt mem 0x9250 nameA.val := by
    refine StrAt.congr (m := oneSymbolMem) ⟨⟨rfl, trivial⟩, rfl, nul_not_mem_a, by decide⟩ ?_
    exact fun x hx _ => h x (by omega)
  have hfirst : listNext mem (headNode 0x9200) = 0x9220 := hload 0x9200 (by decide) (by decide)
  have hsecond : listNext mem 0x9220 = 0x920c := hload 0x9220 (by decide) (by decide)
  have hvalue : listValue mem 0x9220 = 0x9240 := hload 0x9228 (by decide) (by decide)
  have hname : symName mem 0x9240 = 0x9250 := hload 0x9240 (by decide) (by decide)
  have hfn : symFn mem 0x9240 = 0x1234 := hload 0x9244 (by decide) (by decide)
  have hsame : sameString mem 0x9250 nameA.val = true :=
    (Ksymtab.sameString_iff nul_not_mem_a hstr).mpr rfl
  rw [Ksymtab.modSymGet, show 2 ^ 32 = (2 ^ 32 - 1) + 1 from rfl, Ksymtab.symGetFrom]
  simp [hfirst, hsecond, hvalue, hname, hfn, hsame]

/-- The calls of the kernel with this list of exports; `syscall_puts` does nothing. -/
def oneSymbolCalls : List (SyscallCall (IntrSystem Unit)) :=
  syscallsInit kernelNames 0x9200 fun _ w => (0, w)

/-- The handler of the calls. -/
def oneSymbolHandlers : List (Registration Unit) :=
  [.llHandler 128 (some (syscallHandler (syscallRun oneSymbolCalls).1))]

end Microboot.User
