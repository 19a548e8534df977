/-
  Kern/Syscalls.lean --- the system calls of the kernel, kern/syscalls.c.

  A program asks for the number of a call by its name, and for the address of a symbol by its
  name.  Both read the name from the memory of the program, and change nothing.

  `syscall_sysgetdynamic` looks into the table that it is in itself; it gets the names of that
  table.  A list of exports without an end counts as one without the symbol.
-/
import Microboot.Kern.Ksymtab
import Microboot.Kern.Sys.InterruptRun

set_option autoImplicit false

namespace Microboot.Kern

open Microboot.Foundation Microboot.Kern.Sys

variable {σ : Type}

/-! ## Names in memory -/

/-- The string at an address, if it ends. -/
def cstring (m : Mem) (p : Nat) : Option Key :=
  ((scan (· == 0) m (2 ^ 32) p).map (bytesAt m p)).bind fun s =>
    if h : (0 : UInt8) ∉ s then some ⟨s, h⟩ else none

theorem cstring_eq {m : Mem} {p : Nat} {name : Key} (h : StrAt m p name.val) :
    cstring m p = some name := by
  have hlen : scan (· == 0) m (2 ^ 32) p = some name.val.length := by
    have hfits := h.fits
    refine scan_seg _ name.val p h.seg (fun c hc => ?_) ?_ (by omega)
    · exact beq_eq_false_iff_ne.mpr fun h0 => name.property (h0 ▸ hc)
    · rw [h.nul]
      rfl
  have hbytes := h.seg.bytesAt
  unfold cstring
  rw [hlen, Option.map_some, hbytes, Option.bind_some, dif_pos name.property]

/-! ## The calls -/

/-- The names of a table, with functions that do nothing. -/
def names (s : Syscalls σ) : Syscalls Unit where
  table := s.table.map fun entry => ⟨entry.name, entry.fn.map fun _ _ w => (0, w)⟩
  max := s.max

/-- `syscall_sysgetdynamic(args)`, for a table with these names. -/
def syscallSysgetdynamic (names : Syscalls Unit) : SyscallFn (IntrSystem σ) := fun args w =>
  let name := cstring w.mem (args.headD 0).toNat
  ((Int32.ofInt (name.elim (-1) (getSyscallDynamic names))).toUInt32, w)

/-- `syscall_getmodsym(args)`, for a list of exports at an address. -/
def syscallGetmodsym (exports : Nat) : SyscallFn (IntrSystem σ) := fun args w =>
  let name := cstring w.mem (args.headD 0).toNat
  (UInt32.ofNat (name.elim 0 fun name =>
    (Ksymtab.modSymGet (2 ^ 32) w.mem exports name.val).getD 0), w)

section Calls

variable {args : List UInt32} {w : IntrSystem σ} {name : Key}

theorem syscallSysgetdynamic_eq (s : Syscalls Unit)
    (h : StrAt w.mem (args.headD 0).toNat name.val) :
    syscallSysgetdynamic s args w = ((Int32.ofInt (getSyscallDynamic s name)).toUInt32, w) := by
  unfold syscallSysgetdynamic
  rw [cstring_eq h]
  rfl

theorem syscallGetmodsym_eq {exports fn : Nat} (h : StrAt w.mem (args.headD 0).toNat name.val)
    (hfound : Ksymtab.modSymGet (2 ^ 32) w.mem exports name.val = some fn) :
    syscallGetmodsym exports args w = (UInt32.ofNat fn, w) := by
  unfold syscallGetmodsym
  rw [cstring_eq h]
  dsimp only [Option.elim_some]
  rw [hfound, Option.getD_some]

end Calls

/-- `"sysgetdynamic"` -/
def sysgetdynamicName : Key :=
  ⟨[115, 121, 115, 103, 101, 116, 100, 121, 110, 97, 109, 105, 99], by decide⟩

/-- `"puts"` -/
def putsName : Key := ⟨[112, 117, 116, 115], by decide⟩

/-- `"getmodsym"` -/
def getmodsymName : Key := ⟨[103, 101, 116, 109, 111, 100, 115, 121, 109], by decide⟩

/-- The registrations of `syscalls_init`, with `syscall_puts` as it is. -/
def syscallsInit (names : Syscalls Unit) (exports : Nat) (puts : SyscallFn (IntrSystem σ)) :
    List (SyscallCall (IntrSystem σ)) :=
  [⟨sysgetdynamicName, syscallSysgetdynamic names, some 0⟩, ⟨putsName, puts, none⟩,
    ⟨getmodsymName, syscallGetmodsym exports, none⟩]

/-- A name is found in the names of a table as it is in the table. -/
theorem getSyscallDynamic_names (s : Syscalls σ) (name : Key) :
    getSyscallDynamic (names s) name = getSyscallDynamic s name := by
  have hnamed : ∀ entry : SyscallEntry σ,
      SyscallEntry.named ⟨entry.name, entry.fn.map fun _ _ (w : Unit) => (0, w)⟩ name =
        entry.named name := by
    rintro ⟨entryName, fn⟩
    cases entryName <;> cases fn <;> rfl
  unfold getSyscallDynamic names
  dsimp only
  rw [← List.map_take, List.findIdx?_map]
  simp only [Function.comp_def, hnamed]

section Init

variable {names : Syscalls Unit} {exports : Nat} {puts : SyscallFn (IntrSystem σ)}

/-- The numbers that `syscalls_init` gets. -/
theorem syscallsInit_history : (syscallRun (syscallsInit names exports puts)).2 =
    [⟨⟨sysgetdynamicName, syscallSysgetdynamic names, some 0⟩, some 0⟩,
      ⟨⟨putsName, puts, none⟩, some 32⟩,
      ⟨⟨getmodsymName, syscallGetmodsym exports, none⟩, some 33⟩] := rfl

theorem syscallsInit_sysgetdynamic :
    Registered (syscallRun (syscallsInit names exports puts)).2 0 sysgetdynamicName
      (syscallSysgetdynamic names) := by
  rw [syscallsInit_history]
  exact ⟨⟨⟨sysgetdynamicName, syscallSysgetdynamic names, some 0⟩, some 0⟩,
    ⟨rfl, [], [_, _], rfl, by simp [SyscallEvent.At]⟩, rfl, rfl⟩

theorem syscallsInit_getmodsym :
    Registered (syscallRun (syscallsInit names exports puts)).2 33 getmodsymName
      (syscallGetmodsym exports) := by
  rw [syscallsInit_history]
  exact ⟨⟨⟨getmodsymName, syscallGetmodsym exports, none⟩, some 33⟩,
    ⟨rfl, [_, _], [], rfl, by simp⟩, rfl, rfl⟩

/-- Nothing else is called `getmodsym`. -/
theorem syscallsInit_getmodsym_eq {nr : Nat} {func : SyscallFn (IntrSystem σ)}
    (h : Registered (syscallRun (syscallsInit names exports puts)).2 nr getmodsymName func) :
    func = syscallGetmodsym exports := by
  have hsysgetdynamic : sysgetdynamicName ≠ getmodsymName := by decide
  have hputs : putsName ≠ getmodsymName := by decide
  obtain ⟨e, hlast, hname, rfl⟩ := h
  have hmem := hlast.mem
  rw [syscallsInit_history] at hmem
  simp only [List.mem_cons, List.not_mem_nil, or_false] at hmem
  rcases hmem with rfl | rfl | rfl
  · exact absurd hname hsysgetdynamic
  · exact absurd hname hputs
  · rfl

/-- The table of the kernel. -/
theorem syscallsInit_table : (syscallRun (syscallsInit names exports puts)).1 =
    ⟨(((List.replicate syscallNrMax ⟨none, none⟩).set 0
        ⟨some sysgetdynamicName, some (syscallSysgetdynamic names)⟩).set 32
        ⟨some putsName, some puts⟩).set 33 ⟨some getmodsymName, some (syscallGetmodsym exports)⟩,
      34⟩ := by
  have hempty : List.replicate syscallNrReserved (⟨none, none⟩ : SyscallEntry (IntrSystem σ)) ++
      (List.replicate syscallNrMax ⟨none, none⟩).drop syscallNrReserved =
        List.replicate syscallNrMax ⟨none, none⟩ := by
    rw [List.drop_replicate, List.replicate_append_replicate]
    rfl
  have hfirst : (0 : Int) < syscallNrReserved := by decide
  have hsecond : syscallNrReserved + 1 < syscallNrMax := by decide
  have hthird : syscallNrReserved + 1 + 1 < syscallNrMax := by decide
  simp only [syscallRun, syscallsInit, List.foldl_cons, List.foldl_nil, syscallStep,
    syscallRegister, registerSyscallStatic, registerSyscall, syscallStart, syscallInit, hempty,
    ge_iff_le, Int.le_refl, hfirst, hsecond, hthird, and_self, if_true, Int.toNat_zero]
  rfl

end Init

/-- The names of the calls of the kernel. -/
def kernelNames : Syscalls Unit where
  table := (((List.replicate syscallNrMax ⟨none, none⟩).set 0
    ⟨some sysgetdynamicName, some fun _ w => (0, w)⟩).set 32
    ⟨some putsName, some fun _ w => (0, w)⟩).set 33 ⟨some getmodsymName, some fun _ w => (0, w)⟩
  max := 34

/-- They do not depend on what the calls do. -/
theorem names_syscallsInit (names : Syscalls Unit) (exports : Nat)
    (puts : SyscallFn (IntrSystem σ)) :
    Kern.names (syscallRun (syscallsInit names exports puts)).1 = kernelNames := by
  rw [syscallsInit_table]
  simp [Kern.names, kernelNames, List.map_set]

end Microboot.Kern
