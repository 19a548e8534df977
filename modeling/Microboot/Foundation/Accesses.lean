/-
  Foundation/Accesses.lean --- a memory that keeps a log of its accesses.

  `Logged` is a flat memory together with the accesses that were made to it.
  `Leaves P x m a m'` says what a program does that is run on the memory `m`: it
  returns `a` and leaves `m'`, and every access it makes satisfies `P`.  The
  rules follow the program text, so that the accesses of a loop are bounded by the
  induction that says what it computes.

  A log only grows (`Appends`), which is how an access that was made on the way is
  found in the log of the whole run.
-/
import Microboot.Foundation.Device
import Microboot.Foundation.Memory

set_option autoImplicit false

namespace Microboot.Foundation

/-- An access to a byte. -/
inductive Access where
  | read (addr : Nat)
  | write (addr : Nat)
  deriving DecidableEq, Repr

/-- A memory, and the accesses to it in order. -/
structure Logged where
  mem : Mem
  log : List Access

/-- Reading a byte. -/
def readByte (a : Nat) : DevM Logged UInt8 := fun w =>
  some (w.mem.load8 a, { w with log := w.log ++ [.read a] })

theorem readByte_bind {α : Type} (a : Nat) (f : UInt8 → DevM Logged α) (w : Logged) :
    (readByte a >>= f) w = f (w.mem.load8 a) { w with log := w.log ++ [.read a] } := rfl

/-- A look at the memory that is not logged. -/
def look {α : Type} (f : Mem → α) : DevM Logged α := fun w => some (f w.mem, w)

theorem look_bind {α β : Type} (f : Mem → α) (g : α → DevM Logged β) (w : Logged) :
    (look f >>= g) w = g (f w.mem) w := rfl

/-- Writing a byte. -/
def writeByte (a : Nat) (c : UInt8) : DevM Logged Unit := fun w =>
  some ((), { mem := w.mem.store8 a c, log := w.log ++ [.write a] })

/-- On the memory `m` the program returns `a` and leaves `m'`, and its accesses
satisfy `P`. -/
def Leaves {α : Type} (P : Access → Prop) (x : DevM Logged α) (m : Mem) (a : α) (m' : Mem) :
    Prop :=
  ∀ log, ∃ new, x ⟨m, log⟩ = some (a, ⟨m', log ++ new⟩) ∧ ∀ e ∈ new, P e

namespace Leaves

variable {α β : Type} {P Q : Access → Prop} {x : DevM Logged α} {f : α → DevM Logged β}
  {m m' m'' : Mem} {a : α} {b : β}

theorem pure (a : α) : Leaves P (Pure.pure a) m a m :=
  fun log => ⟨[], by rw [List.append_nil]; rfl, by simp⟩

theorem bind (hx : Leaves P x m a m') (hf : Leaves P (f a) m' b m'') :
    Leaves P (x >>= f) m b m'' := by
  intro log
  obtain ⟨new, hrun, hnew⟩ := hx log
  obtain ⟨new', hrun', hnew'⟩ := hf (log ++ new)
  refine ⟨new ++ new', ?_, fun e he => ?_⟩
  · rw [bind_run hrun, hrun', List.append_assoc]
  · rcases List.mem_append.mp he with he | he
    · exact hnew e he
    · exact hnew' e he

theorem read {addr : Nat} (h : P (.read addr)) : Leaves P (readByte addr) m (m.load8 addr) m :=
  fun _ => ⟨[.read addr], rfl, by simpa using h⟩

theorem write {addr : Nat} (c : UInt8) (h : P (.write addr)) :
    Leaves P (writeByte addr c) m () (m.store8 addr c) :=
  fun _ => ⟨[.write addr], rfl, by simpa using h⟩

theorem mono (hx : Leaves P x m a m') (hQ : ∀ e, P e → Q e) : Leaves Q x m a m' := by
  intro log
  obtain ⟨new, hrun, hnew⟩ := hx log
  exact ⟨new, hrun, fun e he => hQ e (hnew e he)⟩

end Leaves

/-- The accesses are behind the log that there was. -/
def Appends {α : Type} (x : DevM Logged α) : Prop :=
  ∀ w a w', x w = some (a, w') → ∀ e ∈ w.log, e ∈ w'.log

namespace Appends

variable {α β : Type} {x : DevM Logged α} {f : α → DevM Logged β}

theorem pure (a : α) : Appends (Pure.pure a) := by
  intro w b w' hrun e he
  cases hrun
  exact he

theorem fail : Appends (fun _ => none : DevM Logged α) := fun w a w' hrun => by cases hrun

theorem bind (hx : Appends x) (hf : ∀ a, Appends (f a)) : Appends (x >>= f) := by
  intro w b w' hrun e he
  obtain ⟨a, w₁, hfirst, hrest⟩ := exists_of_bind_run hrun
  exact hf a w₁ b w' hrest e (hx w a w₁ hfirst e he)

theorem read (addr : Nat) : Appends (readByte addr) := by
  intro w a w' hrun e he
  cases hrun
  exact List.mem_append_left _ he

theorem write (addr : Nat) (c : UInt8) : Appends (writeByte addr c) := by
  intro w a w' hrun e he
  cases hrun
  exact List.mem_append_left _ he

end Appends

end Microboot.Foundation
