/-
  Kern/Sys/InterruptNest.lean --- programs that are interrupted again and again.

  The gates are trap gates, and leave the interrupt flag alone: until the `cli` of a stub is
  run another interrupt may come, and until the `cli` of its stub another one.  From there on
  to the `iret` there are none.

  A program sees nothing of all this but what the handlers change, if it does not look at
  what is below its stack pointer.
-/
import Microboot.Kern.Sys.InterruptRun

set_option autoImplicit false

namespace Microboot.Kern.Sys

open Microboot.Foundation

variable {σ : Type}

/-! ## Interrupts in front of a `cli` -/

/-- Interrupts one behind the other, each with those that come in front of the `cli` of its
stub. -/
inductive Arrivals
  | none
  | cons (n : Nat) (scratch : Scratch) (inner next : Arrivals)

/-- The interrupts of a program, up to the instruction of it that is run next. -/
def interrupts (stubs : Stubs) (h : Handlers σ) :
    Arrivals → IntrMachine σ → Option (IntrMachine σ)
  | .none, m => some m
  | .cons n scratch inner next, m => do
    let stub ← interrupts stubs h inner (m.deliver (← m.gate? n) none)
    interrupts stubs h next (← serve stubs h scratch stub)

namespace Arrivals

/-- The numbers of the interrupts, in the order in which their handlers return. -/
def handled : Arrivals → List Nat
  | none => []
  | cons n _ inner next => inner.handled ++ n :: next.handled

/-- How far below the stack pointer the interrupts write. -/
def stack : Arrivals → Nat
  | none => 0
  | cons _ _ inner next => max (max 66 (12 + inner.stack)) next.stack

/-- What the handlers work on behind the interrupts, for handlers that do not write to the
memory. -/
def after (effect : Nat → σ → σ) (t : Arrivals) (s : IntrSystem σ) (mem : Mem) : IntrSystem σ where
  mem := mem
  outs := s.outs ++ t.handled.flatMap eoiOuts
  world := t.handled.foldl (fun w n => effect n w) s.world

end Arrivals

/-- An interrupt without an error code whose handler is bound, returns, and does not write to
the memory. -/
def Quiet (h : Handlers σ) (effect : Nat → σ → σ) (n : Nat) : Prop :=
  n < intrCount ∧ n ∉ errVectors ∧ ∃ f, h.bound[n]? = some (some f) ∧
    ∀ s, f (UInt32.ofNat n) 0 s = some { s with world := effect n s.world }

section Nest

variable {stubs : Stubs} {idt : UInt32} {print : IntrFrame → σ → σ} {h₀ : Handlers σ}
  {m₀ m : IntrMachine σ} {h : Handlers σ} {effect : Nat → σ → σ}

/-- On the way to a stub the rest of the system may change if what was pushed does not. -/
theorem deliver_sys (gate : Gate) (s : IntrSystem σ) (hroom : 16 ≤ m.sp)
    (hsame : ∀ x, m.sp - 12 ≤ x → x < m.sp → s.mem x = (m.deliver gate none).sys.mem x) :
    { m.deliver gate none with sys := s } = { m with sys := s }.deliver gate none := by
  have hlt : m.sp < 2 ^ 32 := (m.ctx.reg .esp).toNat_lt
  have hpushed := deliver_pushed (m := m) gate none hroom
  have hpushed' := deliver_pushed (m := { m with sys := s }) gate none hroom
  generalize hu : (((none : Option UInt32).map bytes32).getD [] ++ (bytes32 m.ctx.eip ++
    (bytes32 m.ctx.cs.toUInt32 ++ (bytes32 m.ctx.eflags ++ [])))) = u at hpushed hpushed'
  have hlen : u.length = 12 := by
    rw [← hu]
    simp
  -- the bytes that would be pushed are there already
  have hseg : Seg s.mem (m.sp - 12) u := by
    have hthere : Seg (m.deliver gate none).sys.mem (m.sp - 12) u := by
      rw [hpushed.sys, hlen]
      exact seg_storeBytes (by omega)
    exact hthere.congr (by omega) fun x hx hx' => hsame x hx (by omega)
  have hsys : ({ m with sys := s }.deliver gate none).sys = s := by
    have hsp : IntrMachine.sp { m with sys := s } = m.sp := rfl
    rw [hpushed'.sys, hlen, hsp]
    dsimp only
    rw [storeBytes_eq_self hseg (by omega)]
  have hrest : { m with sys := s }.deliver gate none =
      { m.deliver gate none with sys := ({ m with sys := s }.deliver gate none).sys } := rfl
  rw [hrest, hsys]

/-- The interrupts of a program leave its registers as they were, and write to the memory only
below its stack pointer. -/
theorem interrupts_eq {t : Arrivals} (hready : IntrReady stubs idt print h₀ m₀ m)
    (hroom : t.stack ≤ m.sp)
    (hapart : m.sp ≤ idt.toNat ∨ idt.toNat + 2048 ≤ m.sp - t.stack)
    (hquiet : ∀ n ∈ t.handled, Quiet h effect n) :
    ∃ mem : Mem, (∀ x, x < m.sp - t.stack ∨ m.sp ≤ x → mem x = m.sys.mem x) ∧
      interrupts stubs h t m = some { m with sys := t.after effect m.sys mem } := by
  induction t generalizing m with
  | none =>
    refine ⟨m.sys.mem, fun _ _ => rfl, ?_⟩
    unfold Arrivals.after
    rw [Arrivals.handled, List.flatMap_nil, List.append_nil]
    rfl
  | cons n scratch inner next ihInner ihNext =>
    have hlt : m.sp < 2 ^ 32 := (m.ctx.reg .esp).toNat_lt
    rw [Arrivals.stack] at hroom hapart
    have hself : n ∈ (Arrivals.cons n scratch inner next).handled :=
      List.mem_append_right _ List.mem_cons_self
    obtain ⟨hn, herr, f, hentry, hf⟩ := hquiet n hself
    obtain ⟨gate, hgate⟩ : ∃ gate, m.gate? n = some gate := ⟨_, hready.gate_eq hn⟩
    -- the interrupts in front of the `cli`
    have hpushed := deliver_pushed (m := m) gate none (by omega)
    have hsp : (m.deliver gate none).sp = m.sp - 12 := by
      rw [hpushed.sp_eq]
      simp
    have hmem : ∀ x, x < m.sp - 12 ∨ m.sp ≤ x →
        (m.deliver gate none).sys.mem x = m.sys.mem x := by
      intro x hx
      rw [hpushed.sys]
      exact Mem.storeBytes_apply_of_disjoint _ _ _ _ (by simp; omega) (by simp; omega)
    have hstub : IntrReady stubs idt print h₀ m₀ (m.deliver gate none) :=
      hready.congr hpushed.idtr fun x hx hx' => hmem x (by omega)
    obtain ⟨mem₁, hsame₁, hinner⟩ := ihInner hstub (by rw [hsp]; omega) (by rw [hsp]; omega)
      fun k hk => hquiet k (List.mem_append_left _ hk)
    rw [hsp] at hsame₁
    generalize hs₁ : inner.after effect (m.deliver gate none).sys mem₁ = s₁ at hinner
    have hmem₁ : s₁.mem = mem₁ := by rw [← hs₁]; rfl
    -- the stub goes on as if it had been entered only then
    have hdelivered : { m.deliver gate none with sys := s₁ } =
        { m with sys := s₁ }.deliver gate none :=
      deliver_sys gate s₁ (by omega) fun x hx hx' => by rw [hmem₁]; exact hsame₁ x (by omega)
    have hready₁ : IntrReady stubs idt print h₀ m₀ { m with sys := s₁ } :=
      hready.congr rfl fun x hx hx' => by
        refine (congrFun hmem₁ x).trans ?_
        rw [hsame₁ x (by omega), hmem x (by omega)]
    have harrives : Arrives stubs n none { m with sys := s₁ } :=
      hready₁.arrives hn (iff_of_false Bool.false_ne_true herr) (by change 66 ≤ m.sp; omega)
    have hserved := interrupt_bound scratch harrives hentry (hf _) fun _ _ _ => rfl
    have hgate₁ : IntrMachine.gate? { m with sys := s₁ } n = some gate :=
      (hready₁.gate_eq hn).trans ((hready.gate_eq hn).symm.trans hgate)
    unfold interrupt at hserved
    rw [hgate₁, Option.bind_eq_bind, Option.bind_some, ← hdelivered] at hserved
    -- behind its `iret` the next ones come
    generalize hm₂ : ({ m with sys := _ } : IntrMachine σ) = m₂ at hserved
    have hsaved : ∀ x, x < m.sp - 66 ∨ m.sp ≤ x → m₂.sys.mem x = mem₁ x := by
      intro x hx
      rw [← hm₂, ← hmem₁]
      exact Mem.storeBytes_apply_of_disjoint _ _ _ _ (by
        rw [IntrMachine.length_saved]
        change m.sp - 66 + 66 ≤ _
        omega) (by
        rw [IntrMachine.length_saved]
        change x < m.sp - 66 ∨ m.sp - 66 + 66 ≤ x
        omega)
    have hsp₂ : m₂.sp = m.sp := by rw [← hm₂]; rfl
    have hready₂ : IntrReady stubs idt print h₀ m₀ m₂ :=
      hready.congr (by rw [← hm₂]) fun x hx hx' => by
        rw [hsaved x (by omega), hsame₁ x (by omega), hmem x (by omega)]
    obtain ⟨mem₂, hsame₂, hnext⟩ := ihNext hready₂ (by rw [hsp₂]; omega) (by rw [hsp₂]; omega)
      fun k hk => hquiet k (List.mem_append_right _ (List.mem_cons_of_mem _ hk))
    rw [hsp₂] at hsame₂
    refine ⟨mem₂, fun x hx => ?_, ?_⟩
    · rw [Arrivals.stack] at hx
      rw [hsame₂ x (by omega), hsaved x (by omega), hsame₁ x (by omega), hmem x (by omega)]
    · rw [interrupts, hgate]
      simp only [Option.bind_eq_bind, Option.bind_some, hinner, hserved, hnext]
      rw [← hm₂, ← hs₁, hpushed.sys]
      simp [Arrivals.after, Arrivals.handled, IntrMachine.saved]

end Nest

/-! ## Interrupted programs -/

/-- A program, as what its next instruction makes of the registers and the memory. -/
abbrev Program : Type := Context → Mem → Option (Context × Mem)

/-- A number of instructions. -/
def Program.run (prog : Program) : Nat → Context → Mem → Option (Context × Mem)
  | 0, ctx, mem => some (ctx, mem)
  | k + 1, ctx, mem => do
    let (ctx, mem) ← prog ctx mem
    prog.run k ctx mem

/-- What happens next: an instruction of the program, or interrupts. -/
inductive Event
  | step
  | interrupts (t : Arrivals)

/-- The instruction, or the interrupts. -/
def Event.run (stubs : Stubs) (h : Handlers σ) (prog : Program) (m : IntrMachine σ) :
    Event → Option (IntrMachine σ)
  | .step => (prog m.ctx m.sys.mem).map fun (ctx, mem) => { m with ctx := ctx, sys.mem := mem }
  | .interrupts t => Sys.interrupts stubs h t m

/-- The instructions among the events. -/
def steps : List Event → Nat
  | [] => 0
  | .step :: events => steps events + 1
  | .interrupts _ :: events => steps events

/-- The numbers of the interrupts among the events, in the order in which they are served. -/
def handledBy : List Event → List Nat
  | [] => []
  | .step :: events => handledBy events
  | .interrupts t :: events => t.handled ++ handledBy events

/-- With the registers `ctx` there is room for `need` bytes below the stack pointer.  The
addresses that matter to the program and the table of the gates are not there. -/
structure HasRoom (idt : UInt32) (live : Context → Nat → Prop) (need : Nat) (ctx : Context) :
    Prop where
  room : need ≤ (ctx.reg .esp).toNat
  apart : ∀ x, live ctx x → x < (ctx.reg .esp).toNat - need ∨ (ctx.reg .esp).toNat ≤ x
  idt : (ctx.reg .esp).toNat ≤ idt.toNat ∨ idt.toNat + 2048 ≤ (ctx.reg .esp).toNat - need

/-- A program reads only what is at the addresses that matter to it, and does not write to the
table of the gates. -/
structure Unaware (idt : UInt32) (live : Context → Nat → Prop) (prog : Program) : Prop where
  step : ∀ {ctx ctx' : Context} {mem mem' aware : Mem}, prog ctx mem = some (ctx', mem') →
    (∀ x, live ctx x → aware x = mem x) →
    ∃ aware', prog ctx aware = some (ctx', aware') ∧ ∀ x, live ctx' x → aware' x = mem' x
  table : ∀ {ctx ctx' : Context} {mem mem' : Mem}, prog ctx mem = some (ctx', mem') →
    ∀ x, idt.toNat ≤ x → x < idt.toNat + 2048 → mem' x = mem x

section Programs

variable {stubs : Stubs} {idt : UInt32} {print : IntrFrame → σ → σ} {h₀ : Handlers σ}
  {m₀ m : IntrMachine σ} {h : Handlers σ} {effect : Nat → σ → σ} {live : Context → Nat → Prop}
  {need : Nat} {prog : Program} {ctx' : Context} {mem mem' : Mem}

/-- A program that is interrupted goes the way it goes alone. -/
theorem run_undisturbed (hunaware : Unaware idt live prog) {events : List Event}
    (hready : IntrReady stubs idt print h₀ m₀ m) (hagree : ∀ x, live m.ctx x → m.sys.mem x = mem x)
    (halone : prog.run (steps events) m.ctx mem = some (ctx', mem'))
    (hroom : ∀ k ≤ steps events, ∀ ctx₁ mem₁, prog.run k m.ctx mem = some (ctx₁, mem₁) →
      HasRoom idt live need ctx₁)
    (hquiet : ∀ t, .interrupts t ∈ events → t.stack ≤ need ∧ ∀ n ∈ t.handled, Quiet h effect n) :
    ∃ sys : IntrSystem σ, events.foldlM (Event.run stubs h prog) m = some ⟨ctx', m.idtr, sys⟩ ∧
      (∀ x, live ctx' x → sys.mem x = mem' x) ∧
      sys.outs = m.sys.outs ++ (handledBy events).flatMap eoiOuts ∧
      sys.world = (handledBy events).foldl (fun w n => effect n w) m.sys.world := by
  induction events generalizing m mem with
  | nil =>
    cases halone
    exact ⟨m.sys, rfl, hagree, (List.append_nil _).symm, rfl⟩
  | cons e events ih =>
    have hrest : ∀ t, .interrupts t ∈ events →
        t.stack ≤ need ∧ ∀ n ∈ t.handled, Quiet h effect n :=
      fun t ht => hquiet t (List.mem_cons_of_mem _ ht)
    cases e with
    | step =>
      obtain ⟨⟨ctx₁, mem₁⟩, hfirst, halone⟩ := Option.bind_eq_some_iff.mp halone
      obtain ⟨aware₁, haware, hagree₁⟩ := hunaware.step hfirst hagree
      have hready₁ : IntrReady stubs idt print h₀ m₀ { m with ctx := ctx₁, sys.mem := aware₁ } :=
        hready.congr rfl (hunaware.table haware)
      have hstep : Event.run stubs h prog m .step =
          some { m with ctx := ctx₁, sys.mem := aware₁ } := by
        rw [Event.run, haware, Option.map_some]
      rw [List.foldlM_cons, hstep]
      refine ih hready₁ hagree₁ halone (fun k hk ctx₂ mem₂ hrun => ?_) hrest
      refine hroom (k + 1) (Nat.succ_le_succ hk) ctx₂ mem₂ ?_
      rw [Program.run, hfirst]
      exact hrun
    | interrupts t =>
      obtain ⟨hstack, hhandlers⟩ := hquiet t List.mem_cons_self
      have hhere : HasRoom idt live need m.ctx := hroom 0 (Nat.zero_le _) m.ctx mem rfl
      have hsp : (m.ctx.reg .esp).toNat = m.sp := rfl
      have hfits := hhere.room
      have hapart := hhere.idt
      rw [hsp] at hfits hapart
      obtain ⟨mem₁, hsame, hserved⟩ := interrupts_eq hready (by omega) (by omega) hhandlers
      have hready₁ : IntrReady stubs idt print h₀ m₀ { m with sys := t.after effect m.sys mem₁ } :=
        hready.congr rfl fun x hx hx' => hsame x (by omega)
      have hagree₁ : ∀ x, live m.ctx x → mem₁ x = mem x := by
        intro x hx
        have hout := hhere.apart x hx
        rw [hsp] at hout
        rw [hsame x (by omega), hagree x hx]
      have hstep : Event.run stubs h prog m (.interrupts t) =
          some { m with sys := t.after effect m.sys mem₁ } := hserved
      rw [List.foldlM_cons, hstep]
      obtain ⟨sys, hrun, hmem, houts, hworld⟩ := ih hready₁ hagree₁ halone hroom hrest
      refine ⟨sys, hrun, hmem, ?_, ?_⟩
      · rw [houts, handledBy, List.flatMap_append, ← List.append_assoc]
        rfl
      · rw [hworld, handledBy, List.foldl_append]
        rfl

end Programs

end Microboot.Kern.Sys
