/-
  Kern/Sys/Pic.lean --- the controllers, and the interrupts they ask for.

  `interrupts_pic_init` starts both controllers.  `interrupts_eoi` ends the interrupt that
  goes before the others of a controller, without a word of which it is.  Of the commands of
  an 8259 these two are here.

  An interrupt that was asked for and is not any more when the processor takes it is not
  here either: it has a number, and nothing in service to be ended.
-/
import Microboot.Foundation.Priority
import Microboot.Kern.Sys.InterruptNest

set_option autoImplicit false

namespace Microboot.Kern.Sys

open Microboot.Foundation

/-! ## A controller -/

/-- An 8259, with the number of its first interrupt and its lines in service. -/
structure Controller extends Pic where
  base : UInt8
  /-- The next word of the initialization is the number. -/
  awaitsBase : Bool
  inService : Lines 8
  deriving DecidableEq

namespace Controller

/-- A word to the first port: one that starts an initialization, or an end of interrupt. -/
def command (c : Controller) (word : UInt8) : Controller :=
  if word &&& 0x10 ≠ 0 then
    { c with toPic := c.toPic.command word, awaitsBase := true, inService := .idle 8 }
  else if word &&& 0xf8 = 0x20 then { c with inService := c.inService.finish }
  else c

/-- A word to the second port. -/
def data (c : Controller) (word : UInt8) : Controller :=
  if c.expects ≠ 0 ∧ c.awaitsBase = true then
    { c with toPic := c.toPic.data word, base := word &&& 0xf8, awaitsBase := false }
  else { c with toPic := c.toPic.data word }

/-- The controller can ask for the interrupt of a line. -/
def Ready (c : Controller) (i : Fin 8) : Prop :=
  c.expects = 0 ∧ c.mask.toNat / 2 ^ i.val % 2 = 0 ∧ c.inService.Accepts i

instance (c : Controller) (i : Fin 8) : Decidable (c.Ready i) :=
  inferInstanceAs (Decidable (_ ∧ _ ∧ _))

/-- The interrupt of a line is taken. -/
def enter (c : Controller) (i : Fin 8) : Controller := { c with inService := c.inService.enter i }

/-- The mask and the initialization are as in the model of the calls of the BIOS. -/
theorem toPic_command (c : Controller) (word : UInt8) :
    (c.command word).toPic = c.toPic.command word := by
  unfold command Pic.command
  split
  · rfl
  · split <;> rfl

theorem toPic_data (c : Controller) (word : UInt8) : (c.data word).toPic = c.toPic.data word := by
  unfold data
  split <;> rfl

/-- The words of a start. -/
theorem data_started (c : Controller) (base wiring : UInt8) :
    ((((c.command 0x11).data base).data wiring).data 0x01).data 0 =
      ⟨⟨0, 0⟩, base &&& 0xf8, false, .idle 8⟩ := rfl

theorem Ready.finish_enter {c : Controller} {i : Fin 8} (h : c.Ready i) :
    (c.enter i).command 0x20 = c := by
  have hfinish : (c.inService.enter i).finish = c.inService := h.2.2.finish_enter
  have hcommand : (c.enter i).command 0x20 =
      { c with inService := (c.inService.enter i).finish } := rfl
  rw [hcommand, hfinish]

end Controller

/-! ## Both controllers -/

/-- The controllers.  The second is on line 2 of the first. -/
structure Controllers where
  pic0 : Controller
  pic1 : Controller
  deriving DecidableEq

namespace Controllers

/-- A word to a port. -/
def outb (c : Controllers) (out : UInt16 × UInt8) : Controllers :=
  if out.1 = 0x20 then { c with pic0 := c.pic0.command out.2 }
  else if out.1 = 0x21 then { c with pic0 := c.pic0.data out.2 }
  else if out.1 = 0xa0 then { c with pic1 := c.pic1.command out.2 }
  else if out.1 = 0xa1 then { c with pic1 := c.pic1.data out.2 }
  else c

/-- The interrupt of a number is taken, if the controllers ask for it. -/
def accept (c : Controllers) (n : Nat) : Option Controllers :=
  if c.pic0.base.toNat ≤ n ∧ n < c.pic0.base.toNat + 8 then
    let i := Fin.ofNat 8 (n - c.pic0.base.toNat)
    if i ≠ 2 ∧ c.pic0.Ready i then some { c with pic0 := c.pic0.enter i } else none
  else if c.pic1.base.toNat ≤ n ∧ n < c.pic1.base.toNat + 8 then
    let i := Fin.ofNat 8 (n - c.pic1.base.toNat)
    if c.pic0.Ready 2 ∧ c.pic1.Ready i then some ⟨c.pic0.enter 2, c.pic1.enter i⟩ else none
  else none

/-- The controllers behind interrupts, each of which they have asked for, and each of which has
been ended by `interrupts_handle_int`. -/
def serve : Arrivals → Controllers → Option Controllers
  | .none, c => some c
  | .cons n _ inner next, c => do
    let c ← serve inner (← c.accept n)
    serve next ((eoiOuts n).foldl outb c)

/-- The controllers have the numbers that `interrupts_pic_init` gives them. -/
structure Started (c : Controllers) : Prop where
  base0 : c.pic0.base = 0x20
  base1 : c.pic1.base = 0x28

/-- Whatever the controllers did before, `interrupts_pic_init` starts them.  No line is masked
then. -/
theorem foldl_picInitOuts (c : Controllers) :
    (picInitOuts.foldl outb c).Started ∧ (picInitOuts.foldl outb c).pic0.toPic = ⟨0, 0⟩ ∧
      (picInitOuts.foldl outb c).pic1.toPic = ⟨0, 0⟩ := by
  have hpic0 := (c.pic0.data 0xff).data_started 0x20 0x04
  have hpic1 := (c.pic1.data 0xff).data_started 0x28 0x02
  have houts : picInitOuts.foldl outb c =
      ⟨((((((c.pic0.data 0xff).command 0x11).data 0x20).data 0x04).data 0x01).data 0),
        ((((((c.pic1.data 0xff).command 0x11).data 0x28).data 0x02).data 0x01).data 0)⟩ := by
    simp [picInitOuts, outb]
  rw [houts, hpic0, hpic1]
  exact ⟨⟨rfl, rfl⟩, rfl, rfl⟩

/-- The end of an interrupt is the end of the one that was taken last. -/
theorem foldl_eoiOuts {c c' : Controllers} {n : Nat} (hstarted : c.Started)
    (h : c.accept n = some c') : (eoiOuts n).foldl outb c' = c := by
  have hbase0 : c.pic0.base.toNat = 0x20 := congrArg UInt8.toNat hstarted.base0
  have hbase1 : c.pic1.base.toNat = 0x28 := congrArg UInt8.toNat hstarted.base1
  unfold accept at h
  rw [hbase0, hbase1] at h
  unfold eoiOuts
  split at h
  next hn =>
    obtain ⟨⟨-, hready⟩, hc'⟩ := Option.ite_none_right_eq_some.mp h
    cases hc'
    rw [if_pos (by omega), if_pos (by omega)]
    have hfinish := hready.finish_enter
    exact congrArg (fun pic => { c with pic0 := pic }) hfinish
  next =>
    split at h
    next hn =>
      obtain ⟨⟨hready0, hready1⟩, hc'⟩ := Option.ite_none_right_eq_some.mp h
      cases hc'
      rw [if_pos (by omega), if_neg (by omega)]
      exact congrArg₂ Controllers.mk hready0.finish_enter hready1.finish_enter
    next => cases h

/-- A line that is taken goes before all that are in service. -/
theorem level_of_accept {c c' : Controllers} {n : Nat} (h : c.accept n = some c') :
    c'.pic0.inService.level < c.pic0.inService.level := by
  unfold accept at h
  split at h
  · obtain ⟨⟨-, hready⟩, hc'⟩ := Option.ite_none_right_eq_some.mp h
    cases hc'
    have haccepts := hready.2.2
    exact haccepts.level_enter.trans_lt haccepts.lt_level
  · split at h
    · obtain ⟨⟨hready, -⟩, hc'⟩ := Option.ite_none_right_eq_some.mp h
      cases hc'
      have haccepts := hready.2.2
      exact haccepts.level_enter.trans_lt haccepts.lt_level
    · cases h

theorem Started.of_accept {c c' : Controllers} {n : Nat} (hstarted : c.Started)
    (h : c.accept n = some c') : c'.Started := by
  unfold accept at h
  split at h
  · cases (Option.ite_none_right_eq_some.mp h).2
    exact ⟨hstarted.base0, hstarted.base1⟩
  · split at h
    · cases (Option.ite_none_right_eq_some.mp h).2
      exact ⟨hstarted.base0, hstarted.base1⟩
    · cases h

/-- Behind interrupts that the controllers have asked for they are as they were, and no interrupt
has come further than 150 bytes below the stack pointer. -/
theorem serve_eq {c c' : Controllers} {t : Arrivals} (hstarted : c.Started)
    (h : serve t c = some c') : c' = c ∧ t.stack ≤ 54 + 12 * c.pic0.inService.level := by
  induction t generalizing c c' with
  | none =>
    cases h
    exact ⟨rfl, Nat.zero_le _⟩
  | cons n scratch inner next ihInner ihNext =>
    obtain ⟨c₁, haccept, h⟩ := Option.bind_eq_some_iff.mp h
    obtain ⟨c₂, hinner, hnext⟩ := Option.bind_eq_some_iff.mp h
    have hlevel := level_of_accept haccept
    obtain ⟨rfl, hinnerStack⟩ := ihInner (hstarted.of_accept haccept) hinner
    rw [foldl_eoiOuts hstarted haccept] at hnext
    obtain ⟨rfl, hnextStack⟩ := ihNext hstarted hnext
    refine ⟨rfl, ?_⟩
    rw [Arrivals.stack]
    omega

end Controllers

/-! ## The handlers of the kernel -/

/-- `ticks` of kernel.c and `available` of keyboard.c, which is 0 or 1. -/
structure KernelVars where
  ticks : UInt32
  available : Bool
  deriving DecidableEq, Repr

/-- `irq0_handle(int_no, err_no)` -/
def irq0Handle : IntrHandler KernelVars := fun _ _ s =>
  some { s with world.ticks := s.world.ticks + 1 }

/-- `keyboard_handle_irq(int_no, err_no)` -/
def keyboardHandleIrq : IntrHandler KernelVars := fun _ _ s =>
  some { s with world.available := true }

/-- What they do. -/
def kernelEffect (n : Nat) (vars : KernelVars) : KernelVars :=
  if n = 32 then { vars with ticks := vars.ticks + 1 } else { vars with available := true }

/-- Every interrupt of the timer is counted once. -/
theorem foldl_kernelEffect (ns : List Nat) (hns : ∀ n ∈ ns, n = 32 ∨ n = 33) (vars : KernelVars) :
    ns.foldl (fun w n => kernelEffect n w) vars =
      ⟨vars.ticks + UInt32.ofNat (ns.count 32), vars.available || ns.contains 33⟩ := by
  induction ns generalizing vars with
  | nil => simp
  | cons n ns ih =>
    rw [List.foldl_cons, ih fun k hk => hns k (List.mem_cons_of_mem _ hk)]
    rcases hns n List.mem_cons_self with rfl | rfl
    · have hcount : UInt32.ofNat ((32 :: ns).count 32) = UInt32.ofNat (ns.count 32) + 1 := by
        rw [List.count_cons_self, UInt32.ofNat_add]
        rfl
      rw [hcount]
      simp [kernelEffect, UInt32.add_assoc, UInt32.add_comm 1]
    · have hcount : (33 :: ns).count 32 = ns.count 32 := List.count_cons_of_ne (by decide)
      rw [hcount]
      simp [kernelEffect]

section Kernel

variable {stubs : Stubs} {idt : UInt32} {print : IntrFrame → KernelVars → KernelVars}
  {h₀ : Handlers KernelVars} {m₀ m : IntrMachine KernelVars}
  {calls : List (Registration KernelVars)} {live : Context → Nat → Prop} {prog : Program}
  {ctx' : Context} {mem' : Mem} {c c' : Controllers} {events : List Event}

/-- The controllers along the events. -/
def serveAll (events : List Event) (c : Controllers) : Option Controllers :=
  events.foldlM (fun c e => match e with
    | .step => some c
    | .interrupts t => Controllers.serve t c) c

/-- Between the events the controllers are as they were. -/
theorem serveAll_eq (hstarted : c.Started) (h : serveAll events c = some c') :
    c' = c ∧ ∀ t, .interrupts t ∈ events → t.stack ≤ 150 := by
  induction events with
  | nil =>
    cases h
    exact ⟨rfl, fun t ht => absurd ht List.not_mem_nil⟩
  | cons e events ih =>
    unfold serveAll at h
    rw [List.foldlM_cons] at h
    obtain ⟨c₁, hfirst, hrest⟩ := Option.bind_eq_some_iff.mp h
    cases e with
    | step =>
      cases hfirst
      obtain ⟨hc, hstack⟩ := ih hrest
      exact ⟨hc, fun t ht => hstack t ((List.mem_cons.mp ht).resolve_left (by simp))⟩
    | interrupts t =>
      obtain ⟨rfl, hlevel⟩ := Controllers.serve_eq hstarted hfirst
      obtain ⟨hc, hstack⟩ := ih hrest
      refine ⟨hc, fun t' ht' => ?_⟩
      rcases List.mem_cons.mp ht' with heq | ht'
      · cases heq
        have hle := c₁.pic0.inService.level_le
        omega
      · exact hstack t' ht'

theorem mem_handledBy {t : Arrivals} {n : Nat} (ht : .interrupts t ∈ events) (hn : n ∈ t.handled) :
    n ∈ handledBy events := by
  induction events with
  | nil => exact absurd ht List.not_mem_nil
  | cons e events ih =>
    cases e with
    | step => exact ih ((List.mem_cons.mp ht).resolve_left (by simp))
    | interrupts t' =>
      rw [handledBy, List.mem_append]
      rcases List.mem_cons.mp ht with heq | ht
      · cases heq
        exact .inl hn
      · exact .inr (ih ht)

/-- It stores `%al` and adds one to `%eax`. -/
def countingProgram : Program := fun ctx mem =>
  some ({ ctx with reg := Function.update ctx.reg .eax (ctx.reg .eax + 1) },
    mem.store8 0x9000 (ctx.reg .eax).toUInt8)

/-- What is not on the stack of the bare machine matters to it. -/
def countingLive (_ : Context) (x : Nat) : Prop := x < 0x7000 - 150 ∨ 0x7000 ≤ x

theorem countingProgram_unaware : Unaware 0x8000 countingLive countingProgram where
  step {ctx _ mem _ aware} hstep hagree := by
    cases hstep
    refine ⟨_, rfl, fun x hx => ?_⟩
    unfold Mem.store8
    rw [hagree x hx]
  table hstep x hx hx' := by
    cases hstep
    have hlt : x < 0x8000 + 2048 := hx'
    exact Mem.store8_apply_of_ne _ _ (by decide) (by omega)

/-- The keyboard interrupts it behind its first instruction, and the timer the keyboard. -/
def countingEvents : List Event :=
  [.step, .interrupts (.cons 33 ⟨0, 0, 0, 0⟩ (.cons 32 ⟨0, 0, 0, 0⟩ .none .none) .none), .step]

/-- The registrations of the kernel. -/
def kernelCalls : List (Registration KernelVars) :=
  [.handler (irqToIntr 1) (some keyboardHandleIrq), .handler (irqToIntr 0) (some irq0Handle)]

/-- Controllers that nothing has happened to. -/
def newControllers : Controllers :=
  ⟨⟨⟨0, 0⟩, 0, false, .idle 8⟩, ⟨⟨0, 0⟩, 0, false, .idle 8⟩⟩

/-- The kernel with nothing but its two handlers. -/
def countingKernel : IntrMachine KernelVars := startedKernel ⟨0, false⟩

theorem countingProgram_room {k : Nat} {ctx ctx₁ : Context} {mem mem₁ : Mem}
    (hesp : ctx.reg .esp = 0x7000) (hrun : countingProgram.run k ctx mem = some (ctx₁, mem₁)) :
    HasRoom 0x8000 countingLive 150 ctx₁ := by
  induction k generalizing ctx mem with
  | zero =>
    cases hrun
    have hsp : (ctx₁.reg .esp).toNat = 0x7000 := congrArg UInt32.toNat hesp
    refine ⟨?_, fun x hx => ?_, .inl ?_⟩
    · rw [hsp]
      decide
    · rw [hsp]
      exact hx
    · rw [hsp]
      decide
  | succ k ih =>
    have hrest : countingProgram.run k _ (mem.store8 0x9000 (ctx.reg .eax).toUInt8) =
        some (ctx₁, mem₁) := hrun
    refine ih ?_ hrest
    exact hesp

end Kernel

end Microboot.Kern.Sys
