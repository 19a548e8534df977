/-
  Kern/Io/Disabled.lean --- disabled drivers, over whole runs.

  `driver_register` does not probe a driver that is disabled, and `driver_enable`
  clears the flag before it probes.  `device_register` and `driver_probe_for` go
  through all registered drivers and never look at the flag.

  A call is dangerous when it still comes to a disabled driver that it would probe.
  In a run whose moves are `Considerate` no call that is open ever is, and no probe
  of a disabled driver is made.
-/
import Microboot.Foundation.Run
import Microboot.Kern.Io.Probe

set_option autoImplicit false

namespace Microboot.Kern.Io

open Microboot.Foundation

/-! ## The condition -/

namespace Manager

variable (s : Manager)

/-- The drivers that an open call still comes to. -/
def ahead : Frame → List Nat
  | .deviceRegister _ next => s.drivers.drop next
  | .driverProbeFor _ _ next => s.drivers.drop next
  | .driverFirstProbe driver _ => [driver]
  | _ => []

/-- The call probes the driver when it comes to it. -/
def Selects (driver : Nat) : Frame → Prop
  | .deviceRegister device _ =>
    (s.driver driver).dependsOn ≠ .none ∧ (s.driver driver).dependsOn = (s.device device).type
  | .driverProbeFor type _ _ => (s.driver driver).typeFor = type
  | .driverFirstProbe driver' _ => driver' = driver
  | _ => False

instance (driver : Nat) (frame : Frame) : Decidable (s.Selects driver frame) := by
  cases frame <;> unfold Selects <;> infer_instance

/-- The call comes to no disabled driver that it probes. -/
def Spares (frame : Frame) : Prop :=
  ∀ driver ∈ s.ahead frame, s.Selects driver frame → (s.driver driver).disabled = false

instance (frame : Frame) : Decidable (s.Spares frame) :=
  inferInstanceAs (Decidable (∀ _ ∈ _, _))

/-- A device is registered, and a type is probed for, while no registered driver that
this would probe is disabled; a disabled driver is registered while no open call
would probe it; and the device of an open call is not given the type of one. -/
def Considerate : Move → Prop
  | .call (.deviceRegister device) => s.Spares (.deviceRegister device 0)
  | .call (.driverProbeFor type invoker) => s.Spares (.driverProbeFor type invoker 0)
  | .call (.driverRegister driver) =>
    (s.driver driver).disabled = true → ∀ frame ∈ s.stack, ¬ s.Selects driver frame
  | .write device contents => ∀ frame ∈ s.stack, (s.writeDevice device contents).Spares frame
  | _ => True

instance : (move : Move) → Decidable (s.Considerate move)
  | .call (.deviceRegister _) => inferInstanceAs (Decidable (s.Spares _))
  | .call (.driverProbeFor _ _) => inferInstanceAs (Decidable (s.Spares _))
  | .call (.driverRegister _) => inferInstanceAs (Decidable (_ → ∀ _ ∈ _, _))
  | .call (.deviceDeregister _) => isTrue trivial
  | .call (.driverEnable _) => isTrue trivial
  | .write _ _ => inferInstanceAs (Decidable (∀ _ ∈ _, _))
  | .advance => isTrue trivial
  | .stray _ => isTrue trivial
  | .ret => isTrue trivial

end Manager

/-! ## The invariant -/

/-- No disabled driver was probed, and no open call comes to one. -/
structure Spared (s : Manager) : Prop where
  log : ∀ probe ∈ s.log, probe.disabled = false
  spares : ∀ frame ∈ s.stack, s.Spares frame

section Invariant

variable {s s' : Manager} {rest : List Frame}

theorem spared_init (driver : Nat → Driver) (device : Nat → Device) :
    Spared (Manager.init driver device) :=
  ⟨fun _ h => absurd h List.not_mem_nil, fun _ h => absurd h List.not_mem_nil⟩

theorem Manager.ahead_eq (hdrivers : s'.drivers = s.drivers) (frame : Frame) :
    s'.ahead frame = s.ahead frame := by
  cases frame <;> simp [ahead, hdrivers]

theorem Retains.selects (h : Retains s s') (driver : Nat) (frame : Frame) :
    s'.Selects driver frame ↔ s.Selects driver frame := by
  cases frame <;> simp [Manager.Selects, h.dependsOn, h.typeFor, h.type]

theorem Manager.Spares.keeps {frame : Frame} (h : s.Spares frame)
    (hdrivers : s'.drivers = s.drivers) (hretains : Retains s s') : s'.Spares frame := by
  intro driver hahead hselects
  rw [Manager.ahead_eq hdrivers] at hahead
  rw [hretains.selects] at hselects
  exact hretains.enabled driver (h driver hahead hselects)

/-- The open calls are those before, or come to no disabled driver. -/
theorem Spared.keeps (h : Spared s) (hlog : s'.log = s.log) (hdrivers : s'.drivers = s.drivers)
    (hretains : Retains s s') (hstack : ∀ frame ∈ s'.stack, frame ∈ s.stack ∨ s.Spares frame) :
    Spared s' := by
  refine ⟨fun probe hp => h.log probe (hlog ▸ hp), fun frame hf => ?_⟩
  rcases hstack frame hf with hold | hspares
  · exact (h.spares frame hold).keeps hdrivers hretains
  · exact hspares.keeps hdrivers hretains

theorem Spared.setFirstProbe (h : Spared s) (driver : Nat) (value : Bool) :
    Spared (s.setFirstProbe driver value) :=
  h.keeps rfl rfl (Retains.setFirstProbe s driver value) fun _ hf => Or.inl hf

theorem Spared.push (h : Spared s) {frame : Frame} (hframe : s.Spares frame) :
    Spared (s.push frame) := by
  refine h.keeps rfl rfl (Retains.of_eq rfl rfl) fun frame' hf => ?_
  rcases List.mem_cons.mp hf with rfl | hold
  · exact Or.inr hframe
  · exact Or.inl hold

/-- The innermost call is left for others. -/
theorem Spared.goOn (h : Spared s) {frame : Frame} (frames : List Frame)
    (hstack : s.stack = frame :: rest) (hframes : ∀ frame' ∈ frames, s.Spares frame') :
    Spared { s with stack := frames ++ rest } := by
  refine h.keeps rfl rfl (Retains.of_eq rfl rfl) fun frame' hf => ?_
  rcases List.mem_append.mp hf with hnew | hold
  · exact Or.inr (hframes frame' hnew)
  · exact Or.inl (hstack ▸ List.mem_cons_of_mem _ hold)

theorem Spared.callProbe (h : Spared s) {driver : Nat} (invoker : Option Nat)
    (henabled : (s.driver driver).disabled = false) : Spared (s.callProbe driver invoker) := by
  refine ⟨fun probe hp => ?_, fun frame hf => ?_⟩
  · rcases List.mem_append.mp hp with hold | hnew
    · exact h.log probe hold
    · rw [List.mem_singleton.mp hnew]
      exact henabled
  · rcases List.mem_cons.mp hf with rfl | hold
    · intro driver' hahead
      exact absurd hahead List.not_mem_nil
    · exact (h.spares frame hold).keeps rfl (Retains.of_eq rfl rfl)

theorem Spared.callProbeDirected (h : Spared s) {driver : Nat} {invoker : Option Nat}
    (henabled : (s.driver driver).disabled = false)
    (hcall : s.callProbeDirected driver invoker = .ok s') : Spared s' := by
  rw [callProbeDirected_eq hcall]
  exact h.callProbe invoker henabled

theorem Spared.driverFirstProbe (h : Spared s) {driver : Nat}
    (henabled : (s.driver driver).disabled = false)
    (hcall : s.driverFirstProbe driver = .ok s') : Spared s' := by
  have hset := h.setFirstProbe driver true
  have henabled' := (Retains.setFirstProbe s driver true).enabled driver henabled
  have hdone : Spared ((s.setFirstProbe driver true).push (.firstProbeDone driver)) :=
    hset.push fun _ hahead => absurd hahead List.not_mem_nil
  unfold Manager.driverFirstProbe at hcall
  dsimp only at hcall
  split at hcall
  · cases hcall
    exact hdone.callProbe none henabled'
  · split at hcall
    · cases hcall
      refine hset.push fun driver' hahead _ => ?_
      rw [List.mem_singleton.mp hahead]
      exact henabled'
    · exact hdone.callProbeDirected henabled' hcall

/-- A driver is appended to the list of drivers. -/
theorem Spared.append (h : Spared s) {driver : Nat}
    (hdriver : (s.driver driver).disabled = true → ∀ frame ∈ s.stack, ¬ s.Selects driver frame) :
    Spared { s with drivers := s.drivers ++ [driver] } := by
  refine ⟨h.log, fun frame hf driver' hahead hselects => ?_⟩
  have hcases : driver' ∈ s.ahead frame ∨ driver' = driver := by
    cases frame with
    | deviceRegister device next | driverProbeFor type invoker next =>
      rw [Manager.ahead, List.drop_append] at hahead
      rcases List.mem_append.mp hahead with hold | hnew
      · exact Or.inl hold
      · exact Or.inr (List.mem_singleton.mp (List.mem_of_mem_drop hnew))
    | _ => exact Or.inl hahead
  have hselects' : s.Selects driver' frame := by
    cases frame <;> exact hselects
  rcases hcases with hold | rfl
  · exact h.spares frame hf driver' hold hselects'
  · by_contra hdisabled
    exact hdriver (Bool.eq_true_of_not_eq_false hdisabled) frame hf hselects'

theorem Spared.deregister (h : Spared s) {device : Nat}
    (hcall : s.enter (.deviceDeregister device) = .ok s') : Spared s' := by
  rw [Manager.enter] at hcall
  split at hcall
  · cases hcall
    exact h.push fun _ hahead => absurd hahead List.not_mem_nil
  · cases hcall
    exact h

theorem Spared.enter (h : Spared s) {call : DriverCall} (hcons : s.Considerate (.call call))
    (hcall : s.enter call = .ok s') : Spared s' := by
  cases call with
  | deviceRegister device =>
    cases hcall
    have happend : Spared { s with devices := s.devices ++ [device] } :=
      h.keeps rfl rfl (Retains.of_eq rfl rfl) fun _ hf => Or.inl hf
    exact happend.push (hcons.keeps rfl (Retains.of_eq rfl rfl))
  | deviceDeregister device => exact h.deregister hcall
  | driverRegister driver =>
    have happend : Spared { s with drivers := s.drivers ++ [driver] } := h.append hcons
    simp only [Manager.enter] at hcall
    split at hcall
    · split at hcall
      · cases hcall
        exact happend
      · next henabled =>
        exact happend.driverFirstProbe (Bool.eq_false_of_not_eq_true henabled) hcall
    · cases hcall
  | driverEnable driver =>
    have henable : Spared (s.enable driver) :=
      h.keeps rfl rfl (Retains.enable s driver) fun _ hf => Or.inl hf
    exact henable.driverFirstProbe (by simp) hcall
  | driverProbeFor type invoker =>
    cases hcall
    exact h.push hcons

/-- A loop over the drivers comes to its next one. -/
theorem mem_drop_of_getElem? {drivers : List Nat} {next driver : Nat}
    (hnext : drivers[next]? = some driver) : driver ∈ drivers.drop next := by
  rw [List.mem_iff_getElem?]
  exact ⟨0, by rwa [List.getElem?_drop]⟩

theorem mem_drop_succ {drivers : List Nat} {next driver : Nat}
    (h : driver ∈ drivers.drop (next + 1)) : driver ∈ drivers.drop next := by
  rw [← List.drop_drop] at h
  exact List.mem_of_mem_drop h

/-- The innermost call goes on as `frame'`. -/
theorem Spared.next (h : Spared s) {frame frame' : Frame} (hstack : s.stack = frame :: rest)
    (hspares : s.Spares frame') : Spared { s with stack := frame' :: rest } :=
  h.goOn [frame'] hstack fun _ hf => by
    rw [List.mem_singleton.mp hf]
    exact hspares

/-- The innermost call goes on. -/
theorem Spared.advanced (h : Spared s) {frame : Frame} (hstack : s.stack = frame :: rest)
    (hadvanced : Advanced s rest frame s') : Spared s' := by
  have hleave : Spared { s with stack := rest } :=
    h.goOn [] hstack fun _ hf => absurd hf List.not_mem_nil
  have hspares : s.Spares frame := h.spares frame (hstack ▸ List.mem_cons_self)
  cases hadvanced with
  | registerEnd | probeForEnd => exact hleave
  | registerProbe hnext hselects | probeForProbe hnext hselects =>
    refine Spared.callProbe (h.next hstack fun driver' hahead => ?_) _ ?_
    · exact hspares driver' (mem_drop_succ hahead)
    · exact hspares _ (mem_drop_of_getElem? hnext) hselects
  | registerPass | probeForPass =>
    exact h.next hstack fun driver' hahead => hspares driver' (mem_drop_succ hahead)
  | deregisterNext hcall =>
    refine Spared.deregister ?_ hcall
    exact h.next hstack hspares
  | @deregisterEnd device node _ s₁ frames hcleared hframes =>
    have hboth : Spared s₁ ∧ s₁.stack = s.stack := by
      rcases hcleared with rfl | rfl
      · exact ⟨h, rfl⟩
      · exact ⟨h.keeps rfl rfl (Retains.clearSubdevices s device) fun _ hf => Or.inl hf, rfl⟩
    refine hboth.1.goOn frames (hboth.2.trans hstack) ?_
    rcases hframes with rfl | rfl
    all_goals simp [Manager.Spares, Manager.ahead]
  | listRemove => exact hleave.keeps rfl rfl (Retains.of_eq rfl rfl) fun _ hf => Or.inl hf
  | firstProbeEnd | firstProbeDone => exact hleave.setFirstProbe _ false
  | @firstProbeProbe driver =>
    refine Spared.callProbe (h.next hstack ?_) _ ?_
    · exact hspares
    · exact hspares driver (List.mem_singleton_self driver) rfl
  | firstProbePass => exact h.next hstack hspares

theorem Spared.step (h : Spared s) {move : Move} (hcons : s.Considerate move)
    (hstep : probeStep s move = .ok s') : Spared s' := by
  cases probeStep_stepped hstep with
  | advance hstack hadvanced => exact h.advanced hstack hadvanced
  | stray hstack =>
    have hspares := h.spares _ (hstack ▸ List.mem_cons_self)
    refine h.goOn [_] hstack fun _ hf => ?_
    rw [List.mem_singleton.mp hf]
    exact hspares
  | call hcall => exact h.enter hcons hcall
  | write => exact ⟨h.log, hcons⟩
  | ret hstack => exact h.goOn [] hstack fun _ hf => absurd hf List.not_mem_nil

end Invariant

/-! ## Runs -/

section Runs

variable {driver : Nat → Driver} {device : Nat → Device} {moves : List Move} {s : Manager}

/-- In a run whose moves are all considerate no disabled driver is probed. -/
theorem probeRun_enabled (hcons : AllSteps probeStep Manager.Considerate
      (Manager.init driver device) moves)
    (hrun : moves.foldlM probeStep (Manager.init driver device) = .ok s) :
    ∀ probe ∈ s.log, probe.disabled = false :=
  (hcons.invariant Spared (fun _ _ _ h hmove hstep => h.step hmove hstep)
    (spared_init driver device) hrun).log

/-- `vesa_driver` (kern/io/vesa.c) and `fbcon_driver` (kern/io/fbcon.c) -/
def vesaFbcon : Nat → Driver
  | 0 => { probe := true, probeDirected := false, typeFor := .framebuffer, dependsOn := .none,
           firstProbe := false, disabled := true }
  | _ => { probe := false, probeDirected := true, typeFor := .con, dependsOn := .framebuffer,
           firstProbe := false, disabled := false }

/-- Every device is a framebuffer. -/
def framebuffers (_ : Nat) : Device :=
  { name := [118], type := .framebuffer, destroy := false, subdevices := none }

/-- `vesa_driver` is enabled behind the registration of both, and its probe registers
a framebuffer. -/
def enableVesa : List Move :=
  [.call (.driverRegister 0), .call (.driverRegister 1), .advance, .call (.driverEnable 0),
    .call (.deviceRegister 0), .advance, .advance, .ret, .advance, .ret, .advance]

theorem probeRun_enabled_enableVesa :
    ∃ s, enableVesa.foldlM probeStep (Manager.init vesaFbcon framebuffers) = .ok s ∧
      s.stack = [] ∧ s.log = [⟨0, none, false⟩, ⟨1, some 0, false⟩] ∧
      ∀ probe ∈ s.log, probe.disabled = false :=
  ⟨_, rfl, rfl, rfl, probeRun_enabled (by decide : AllSteps probeStep Manager.Considerate
    (Manager.init vesaFbcon framebuffers) enableVesa) rfl⟩

/-- `driver_probe_for(DEVICE_TYPE_FRAMEBUFFER, NULL)` probes `vesa_driver`, which is
disabled. -/
theorem driverProbeFor_probes_disabled :
    ¬ ∀ (driver : Nat → Driver) (device : Nat → Device) (moves : List Move) (s : Manager),
      moves.foldlM probeStep (Manager.init driver device) = .ok s →
      ∀ probe ∈ s.log, probe.disabled = false := by
  intro h
  obtain ⟨s, hrun, hlog⟩ : ∃ s,
      [.call (.driverRegister 0), .call (.driverProbeFor .framebuffer none), .advance].foldlM
        probeStep (Manager.init vesaFbcon framebuffers) = .ok s ∧ s.log = [⟨0, none, true⟩] :=
    ⟨_, rfl, rfl⟩
  have hprobe := h _ _ _ s hrun ⟨0, none, true⟩ (by simp [hlog])
  cases hprobe

end Runs

end Microboot.Kern.Io
