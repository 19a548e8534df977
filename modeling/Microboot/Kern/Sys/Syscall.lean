/-
  Kern/Sys/Syscall.lean --- system calls, kern/sys/syscall.c.

  One table of 128 entries serves two ways of registering a function: under a known
  number below 32, or under the next number from the mark `syscall_max` on, which
  starts at 32 and only grows.  The table is searched by name up to the mark, and a
  call from user code picks an entry by an arbitrary 32-bit number.

  A registered function is a function of its arguments and of the state `σ` of
  whatever it works on.  The history of a run lists the registrations with the
  number that each was given; the table is what the last registration under each
  number says.
-/
import Microboot.Foundation.History
import Microboot.Kern.Stdlib

set_option autoImplicit false

namespace Microboot.Kern.Sys

open Microboot.Foundation

variable {σ : Type}

/-! ## The model -/

/-- `SYSCALL_NR_MAX` -/
def syscallNrMax : Nat := 128

/-- `SYSCALL_NR_RESERVED` -/
def syscallNrReserved : Nat := 32

/-- `syscall_fn_t`, with the state that the function works on. -/
abbrev SyscallFn (σ : Type) : Type := List UInt32 → σ → UInt32 × σ

/-- `struct syscall_entry`; `NULL` is `none`. -/
structure SyscallEntry (σ : Type) where
  name : Option Key
  fn : Option (SyscallFn σ)

/-- `syscall_table` and `syscall_max` -/
structure Syscalls (σ : Type) where
  table : List (SyscallEntry σ)
  max : Nat

/-- `intr_frame_t` -/
structure IntrFrame where
  gs : UInt16
  fs : UInt16
  es : UInt16
  ds : UInt16
  ss : UInt16
  edi : UInt32
  esi : UInt32
  ebp : UInt32
  ebx : UInt32
  edx : UInt32
  ecx : UInt32
  eax : UInt32
  esp : UInt32
  intNo : UInt32
  errCode : UInt32
  eip : UInt32
  cs : UInt32
  eflags : UInt32
  deriving DecidableEq, Repr

/-- `syscall_handle(frame)`.  The debug message about a spurious call is left out. -/
def syscallHandle (s : Syscalls σ) (frame : IntrFrame) (w : σ) : IntrFrame × σ :=
  let syscallNr := frame.eax.toNat
  if syscallNr ≥ 0 ∧ syscallNr < syscallNrMax then
    match s.table[syscallNr]?.bind SyscallEntry.fn with
    | some fn =>
      let args := [frame.ecx, frame.edx, frame.ebx, frame.esi, frame.edi]
      let (result, w) := fn args w
      ({ frame with eax := result }, w)
    | none => (frame, w)
  else (frame, w)

/-- `register_syscall(name, func, nr)`: the number that is stored at `nr`, if the call
returns 1. -/
def registerSyscall (s : Syscalls σ) (name : Key) (func : SyscallFn σ) :
    Syscalls σ × Option Nat :=
  if s.max + 1 < syscallNrMax then
    ({ table := s.table.set s.max { name := some name, fn := some func }
       max := s.max + 1 }, some s.max)
  else (s, none)

/-- `register_syscall_static(name, func, nr)`: the number, if the call returns 1. -/
def registerSyscallStatic (s : Syscalls σ) (name : Key) (func : SyscallFn σ) (nr : Int) :
    Syscalls σ × Option Nat :=
  if nr ≥ 0 ∧ nr < syscallNrReserved then
    ({ s with table := s.table.set nr.toNat { name := some name, fn := some func } },
      some nr.toNat)
  else (s, none)

/-- The test that `get_syscall_dynamic` makes of an entry. -/
def SyscallEntry.named (entry : SyscallEntry σ) (name : Key) : Bool :=
  match entry.fn, entry.name with
  | some _, some entryName => strcmp entryName.val name.val = 0
  | _, _ => false

/-- `get_syscall_dynamic(name)` -/
def getSyscallDynamic (s : Syscalls σ) (name : Key) : Int :=
  match (s.table.take s.max).findIdx? fun entry => entry.named name with
  | some i => i
  | none => -1

/-- `syscall_init()`, but for the handler of the interrupt. -/
def syscallInit (s : Syscalls σ) : Syscalls σ :=
  { s with table :=
      List.replicate syscallNrReserved ⟨none, none⟩ ++ s.table.drop syscallNrReserved }

/-- The table in zeroed memory, behind `syscall_init`. -/
def syscallStart (σ : Type) : Syscalls σ :=
  syscallInit
    { table := List.replicate syscallNrMax ⟨none, none⟩
      max := syscallNrReserved }

/-! ## Runs -/

/-- A registration: with a number, or without. -/
structure SyscallCall (σ : Type) where
  name : Key
  func : SyscallFn σ
  nr : Option Int

/-- A registration that was made, with the number that the function has got. -/
structure SyscallEvent (σ : Type) where
  call : SyscallCall σ
  given : Option Nat

/-- One registration. -/
def syscallRegister (s : Syscalls σ) (call : SyscallCall σ) : Syscalls σ × Option Nat :=
  match call.nr with
  | some nr => registerSyscallStatic s call.name call.func nr
  | none => registerSyscall s call.name call.func

/-- One registration, with those made so far. -/
def syscallStep (s : Syscalls σ × List (SyscallEvent σ)) (call : SyscallCall σ) :
    Syscalls σ × List (SyscallEvent σ) :=
  let (syscalls, given) := syscallRegister s.1 call
  (syscalls, s.2 ++ [⟨call, given⟩])

/-- The registrations, one after the other. -/
def syscallRun (calls : List (SyscallCall σ)) : Syscalls σ × List (SyscallEvent σ) :=
  calls.foldl syscallStep (syscallStart σ, [])

/-- The registration was given the number. -/
def SyscallEvent.At (nr : Nat) (e : SyscallEvent σ) : Prop := e.given = some nr

/-- The last registration under the number has this name and this function. -/
def Registered (history : List (SyscallEvent σ)) (nr : Nat) (name : Key) (func : SyscallFn σ) :
    Prop :=
  ∃ e, Last (SyscallEvent.At nr) history e ∧ e.call.name = name ∧ e.call.func = func

/-! ## The invariant -/

/-- The table is what the history says, and every number that was given is below the
mark. -/
structure SyscallsHold (history : List (SyscallEvent σ)) (s : Syscalls σ) : Prop where
  length : s.table.length = syscallNrMax
  reserved_le : syscallNrReserved ≤ s.max
  max_lt : s.max < syscallNrMax
  given_lt : ∀ e ∈ history, ∀ nr, e.given = some nr → nr < s.max
  entry : ∀ nr e, Last (SyscallEvent.At nr) history e →
    s.table[nr]? = some ⟨some e.call.name, some e.call.func⟩
  empty : ∀ nr < syscallNrMax, (∀ e ∈ history, e.given ≠ some nr) →
    s.table[nr]? = some ⟨none, none⟩

theorem syscallsHold_start : SyscallsHold [] (syscallStart σ) where
  length := by simp [syscallStart, syscallInit, syscallNrMax, syscallNrReserved]
  reserved_le := Nat.le_refl _
  max_lt := show syscallNrReserved < syscallNrMax by decide
  given_lt := by simp
  entry nr e h := absurd h not_last_nil
  empty nr hnr _ := by
    have htable : (syscallStart σ).table = List.replicate syscallNrMax ⟨none, none⟩ := rfl
    rw [htable, List.getElem?_replicate, if_pos hnr]

section Step

variable {history : List (SyscallEvent σ)} {s : Syscalls σ} {call : SyscallCall σ} {nr : Nat}

/-- What one registration does: it is given no number and changes nothing, or it is given
one and writes the entry of that number. -/
theorem syscallRegister_cases (h : SyscallsHold history s) (call : SyscallCall σ) :
    syscallRegister s call = (s, none) ∨
    ∃ nr max, syscallRegister s call =
        (⟨s.table.set nr ⟨some call.name, some call.func⟩, max⟩, some nr) ∧
      nr < max ∧ s.max ≤ max ∧ max < syscallNrMax ∧
      (call.nr = none → nr = s.max) ∧ ∀ n, call.nr = some n → nr < syscallNrReserved := by
  have hreserved := h.reserved_le
  have hmax := h.max_lt
  unfold syscallRegister
  cases hnr : call.nr with
  | none =>
    simp only
    unfold registerSyscall
    by_cases hroom : s.max + 1 < syscallNrMax
    · rw [if_pos hroom]
      exact Or.inr ⟨s.max, s.max + 1, rfl, by omega, by omega, hroom, fun _ => rfl, by simp⟩
    · rw [if_neg hroom]
      exact Or.inl rfl
  | some n =>
    simp only
    unfold registerSyscallStatic
    by_cases hrange : n ≥ 0 ∧ n < syscallNrReserved
    · rw [if_pos hrange]
      exact Or.inr ⟨n.toNat, s.max, rfl, by omega, by omega, hmax, by simp, fun m hm => by omega⟩
    · rw [if_neg hrange]
      exact Or.inl rfl

/-- One registration keeps the invariant. -/
theorem SyscallsHold.step (h : SyscallsHold history s) (call : SyscallCall σ) :
    SyscallsHold (history ++ [⟨call, (syscallRegister s call).2⟩]) (syscallRegister s call).1 := by
  rcases syscallRegister_cases h call with hnone | ⟨nr, max, hsome, hlt, hle, hmax, -, -⟩
  · rw [hnone]
    have hnot : ∀ n, ¬ SyscallEvent.At n ⟨call, none⟩ := by simp [SyscallEvent.At]
    refine ⟨h.length, h.reserved_le, h.max_lt, fun e he n hn => ?_, fun n e he => ?_,
      fun n hn hfree => ?_⟩
    · rcases List.mem_append.mp he with hold | hnew
      · exact h.given_lt e hold n hn
      · rw [List.mem_singleton.mp hnew] at hn
        cases hn
    · exact h.entry n e ((last_snoc_of_not (hnot n)).mp he)
    · exact h.empty n hn fun e he => hfree e (List.mem_append_left _ he)
  · rw [hsome]
    have hlength := h.length
    refine ⟨(List.length_set ..).trans hlength, Nat.le_trans h.reserved_le hle, hmax,
      fun e he n hn => ?_, fun n e he => ?_, fun n hn hfree => ?_⟩
    · rcases List.mem_append.mp he with hold | hnew
      · exact Nat.lt_of_lt_of_le (h.given_lt e hold n hn) hle
      · rw [List.mem_singleton.mp hnew] at hn
        cases hn
        exact hlt
    · rcases last_snoc.mp he with ⟨hat, rfl⟩ | ⟨hat, hold⟩
      · cases hat
        rw [List.getElem?_set_self (by omega)]
      · have hne : nr ≠ n := fun heq => hat (heq ▸ rfl)
        rw [List.getElem?_set_ne hne]
        exact h.entry n e hold
    · have hne : nr ≠ n := fun heq => hfree ⟨call, some nr⟩
        (List.mem_append_right _ (List.mem_singleton_self _)) (congrArg some heq)
      rw [List.getElem?_set_ne hne]
      exact h.empty n hn fun e he => hfree e (List.mem_append_left _ he)

/-- The entry of a number that was given, and of one that was not. -/
theorem SyscallsHold.entry_cases (h : SyscallsHold history s) (hnr : nr < syscallNrMax) :
    (∃ name func, Registered history nr name func ∧
      s.table[nr]? = some ⟨some name, some func⟩) ∨
    ((∀ name func, ¬ Registered history nr name func) ∧ s.table[nr]? = some ⟨none, none⟩) := by
  by_cases hgiven : ∃ e, Last (SyscallEvent.At nr) history e
  · obtain ⟨e, he⟩ := hgiven
    exact Or.inl ⟨_, _, ⟨e, he, rfl, rfl⟩, h.entry nr e he⟩
  · refine Or.inr ⟨fun name func ⟨e, he, _⟩ => hgiven ⟨e, he⟩, h.empty nr hnr fun e he hat => ?_⟩
    exact hgiven (exists_last he hat)

theorem Registered.unique {name name' : Key} {func func' : SyscallFn σ}
    (h : Registered history nr name func) (h' : Registered history nr name' func') :
    name = name' ∧ func = func' := by
  obtain ⟨e, he, rfl, rfl⟩ := h
  obtain ⟨e', he', rfl, rfl⟩ := h'
  cases he.unique he'
  exact ⟨rfl, rfl⟩

theorem SyscallsHold.nr_lt (h : SyscallsHold history s) {name : Key} {func : SyscallFn σ}
    (hreg : Registered history nr name func) : nr < s.max := by
  obtain ⟨e, he, -⟩ := hreg
  exact h.given_lt e he.mem nr he.1

/-- The entry of a registration. -/
theorem SyscallsHold.entry_eq (h : SyscallsHold history s) {name : Key} {func : SyscallFn σ}
    (hreg : Registered history nr name func) : s.table[nr]? = some ⟨some name, some func⟩ := by
  obtain ⟨e, he, rfl, rfl⟩ := hreg
  exact h.entry nr e he

/-! ## Lookup and dispatch -/

theorem named_iff {entry : SyscallEntry σ} {name : Key} :
    entry.named name = true ↔ ∃ fn, entry = ⟨some name, some fn⟩ := by
  obtain ⟨entryName, fn⟩ := entry
  cases fn with
  | none => simp [SyscallEntry.named]
  | some fn =>
    cases entryName with
    | none => simp [SyscallEntry.named]
    | some entryName => simp [SyscallEntry.named, strcmp_key_eq_zero_iff]

/-- `get_syscall_dynamic` returns the smallest number that is registered with the name,
or -1 if there is none. -/
theorem SyscallsHold.getSyscallDynamic_spec (h : SyscallsHold history s) (name : Key) :
    (∃ nr : Nat, getSyscallDynamic s name = nr ∧ (∃ func, Registered history nr name func) ∧
      ∀ n < nr, ∀ func, ¬ Registered history n name func) ∨
    (getSyscallDynamic s name = -1 ∧ ∀ n func, ¬ Registered history n name func) := by
  have hlength := h.length
  have hmax := h.max_lt
  -- an entry below the mark is named exactly when it is registered with the name
  have hnamed : ∀ n func, Registered history n name func →
      ∃ hn : n < (s.table.take s.max).length, (s.table.take s.max)[n].named name = true := by
    intro n func hreg
    have hlt := h.nr_lt hreg
    have hn : n < (s.table.take s.max).length := by
      rw [List.length_take]
      omega
    refine ⟨hn, named_iff.mpr ⟨func, ?_⟩⟩
    have hentry := h.entry_eq hreg
    rw [List.getElem?_eq_getElem (by omega), Option.some.injEq] at hentry
    rw [List.getElem_take, hentry]
  unfold getSyscallDynamic
  cases hfind : (s.table.take s.max).findIdx? fun entry => entry.named name with
  | some nr =>
    obtain ⟨hlt, hfound, hbefore⟩ := List.findIdx?_eq_some_iff_getElem.mp hfind
    refine Or.inl ⟨nr, rfl, ?_, fun n hn func hreg => ?_⟩
    · obtain ⟨func, hentry⟩ := named_iff.mp hfound
      rw [List.getElem_take] at hentry
      have hlen := List.length_take .. ▸ hlt
      have hget : s.table[nr]? = some ⟨some name, some func⟩ := by
        rw [List.getElem?_eq_getElem (by omega), hentry]
      have hnr : nr < syscallNrMax := by omega
      rcases h.entry_cases hnr with ⟨name', func', hreg, hentry'⟩ | ⟨-, hempty⟩
      · rw [hget] at hentry'
        cases hentry'
        exact ⟨_, hreg⟩
      · rw [hget] at hempty
        cases hempty
    · obtain ⟨_, hn'⟩ := hnamed n func hreg
      exact hbefore n hn hn'
  | none =>
    refine Or.inr ⟨rfl, fun n func hreg => ?_⟩
    obtain ⟨hn, hn'⟩ := hnamed n func hreg
    have hnot := List.findIdx?_eq_none_iff.mp hfind _ (List.getElem_mem hn)
    rw [hn'] at hnot
    cases hnot

/-- `syscall_handle` of a number that is registered calls the function. -/
theorem SyscallsHold.syscallHandle_of_registered (h : SyscallsHold history s)
    {frame : IntrFrame} {name : Key} {func : SyscallFn σ}
    (hreg : Registered history frame.eax.toNat name func) (w : σ) :
    syscallHandle s frame w =
      ({ frame with
        eax := (func [frame.ecx, frame.edx, frame.ebx, frame.esi, frame.edi] w).1 },
        (func [frame.ecx, frame.edx, frame.ebx, frame.esi, frame.edi] w).2) := by
  have hlt := Nat.lt_trans (h.nr_lt hreg) h.max_lt
  unfold syscallHandle
  rw [if_pos ⟨Nat.zero_le _, hlt⟩, h.entry_eq hreg]
  rfl

/-- `syscall_handle` of any other number does nothing. -/
theorem SyscallsHold.syscallHandle_of_not_registered (h : SyscallsHold history s)
    {frame : IntrFrame} (hnot : ∀ name func, ¬ Registered history frame.eax.toNat name func)
    (w : σ) : syscallHandle s frame w = (frame, w) := by
  unfold syscallHandle
  by_cases hrange : frame.eax.toNat ≥ 0 ∧ frame.eax.toNat < syscallNrMax
  · rcases h.entry_cases hrange.2 with ⟨name, func, hreg, -⟩ | ⟨-, hempty⟩
    · exact absurd hreg (hnot name func)
    · rw [if_pos hrange, hempty]
      rfl
  · rw [if_neg hrange]

/-! ## The numbers -/

/-- Dynamic registrations are given numbers of their own range, each of them once;
static registrations are given numbers below it. -/
structure Numbered (history : List (SyscallEvent σ)) : Prop where
  dynamic : ∀ e ∈ history, e.call.nr = none → ∀ nr, e.given = some nr →
    syscallNrReserved ≤ nr ∧ nr < syscallNrMax
  static : ∀ e ∈ history, ∀ n, e.call.nr = some n → ∀ nr, e.given = some nr →
    nr < syscallNrReserved
  fresh : history.Pairwise fun e' e => e.call.nr = none → ∀ nr, e.given = some nr →
    e'.given ≠ some nr

theorem Numbered.step (hnum : Numbered history) (h : SyscallsHold history s)
    (call : SyscallCall σ) :
    Numbered (history ++ [⟨call, (syscallRegister s call).2⟩]) := by
  have hreserved := h.reserved_le
  have hmax := h.max_lt
  -- what the new event is given
  have hgiven : ∀ nr, (syscallRegister s call).2 = some nr →
      (call.nr = none → nr = s.max) ∧ ∀ n, call.nr = some n → nr < syscallNrReserved := by
    intro nr hnr
    rcases syscallRegister_cases h call with hnone | ⟨nr', max, hsome, -, -, -, hdynamic, hstatic⟩
    · rw [hnone] at hnr
      cases hnr
    · rw [hsome] at hnr
      cases hnr
      exact ⟨hdynamic, hstatic⟩
  refine ⟨fun e he hdyn nr hnr => ?_, fun e he n hn nr hnr => ?_, ?_⟩
  · rcases List.mem_append.mp he with hold | hnew
    · exact hnum.dynamic e hold hdyn nr hnr
    · rw [List.mem_singleton.mp hnew] at hdyn hnr
      have := (hgiven nr hnr).1 hdyn
      omega
  · rcases List.mem_append.mp he with hold | hnew
    · exact hnum.static e hold n hn nr hnr
    · rw [List.mem_singleton.mp hnew] at hn hnr
      exact (hgiven nr hnr).2 n hn
  · refine List.pairwise_append.mpr ⟨hnum.fresh, List.pairwise_singleton _ _,
      fun e' he' e he hdyn nr hnr heq => ?_⟩
    rw [List.mem_singleton.mp he] at hdyn hnr
    have hold := h.given_lt e' he' nr heq
    have hnew := (hgiven nr hnr).1 hdyn
    omega

end Step

/-- Any registrations. -/
theorem syscallRun_holds (calls : List (SyscallCall σ)) :
    SyscallsHold (syscallRun calls).2 (syscallRun calls).1 ∧ Numbered (syscallRun calls).2 ∧
      (syscallRun calls).2.map SyscallEvent.call = calls := by
  induction calls using List.reverseRecOn with
  | nil =>
    exact ⟨syscallsHold_start, ⟨by simp [syscallRun], by simp [syscallRun], List.Pairwise.nil⟩, rfl⟩
  | append_singleton calls call ih =>
    obtain ⟨hholds, hnum, hcalls⟩ := ih
    have hrun : syscallRun (calls ++ [call]) = syscallStep (syscallRun calls) call := by
      rw [syscallRun, List.foldl_append]
      rfl
    rw [hrun]
    refine ⟨hholds.step call, hnum.step hholds call, ?_⟩
    simp [syscallStep, hcalls]

/-- After any registrations: a number that was given to a dynamic one is in their range and
was not given to any registration before; no number was given to a dynamic and to a
static registration; a name is found under the smallest number that was last
registered with it; and a call from user code calls the function that was last
registered under its number, or nothing. -/
theorem syscallRun_dispatches (calls : List (SyscallCall σ)) :
    ∃ s history, syscallRun calls = (s, history) ∧ history.map SyscallEvent.call = calls ∧
      (∀ e ∈ history, e.call.nr = none → ∀ nr, e.given = some nr → 32 ≤ nr ∧ nr < 128) ∧
      (history.Pairwise fun e' e => e.call.nr = none → ∀ nr, e.given = some nr →
        e'.given ≠ some nr) ∧
      (∀ e ∈ history, ∀ e' ∈ history, e.call.nr = none → e'.call.nr ≠ none →
        ∀ nr, e.given = some nr → e'.given ≠ some nr) ∧
      (∀ name, (∃ nr : Nat, getSyscallDynamic s name = nr ∧
          (∃ func, Registered history nr name func) ∧
          ∀ n < nr, ∀ func, ¬ Registered history n name func) ∨
        (getSyscallDynamic s name = -1 ∧ ∀ n func, ¬ Registered history n name func)) ∧
      ∀ (frame : IntrFrame) (w : σ),
        (∀ name func, Registered history frame.eax.toNat name func →
          syscallHandle s frame w =
            ({ frame with
              eax := (func [frame.ecx, frame.edx, frame.ebx, frame.esi, frame.edi] w).1 },
              (func [frame.ecx, frame.edx, frame.ebx, frame.esi, frame.edi] w).2)) ∧
        ((∀ name func, ¬ Registered history frame.eax.toNat name func) →
          syscallHandle s frame w = (frame, w)) := by
  obtain ⟨hholds, hnum, hcalls⟩ := syscallRun_holds calls
  refine ⟨_, _, rfl, hcalls, hnum.dynamic, hnum.fresh, fun e he e' he' hdyn hstat nr hnr heq => ?_,
    hholds.getSyscallDynamic_spec, fun frame w => ⟨fun name func hreg => ?_, fun hnot => ?_⟩⟩
  · obtain ⟨n, hn⟩ := Option.ne_none_iff_exists'.mp hstat
    have hlow := hnum.static e' he' n hn nr heq
    have hhigh := (hnum.dynamic e he hdyn nr hnr).1
    omega
  · exact hholds.syscallHandle_of_registered hreg w
  · exact hholds.syscallHandle_of_not_registered hnot w

end Microboot.Kern.Sys
