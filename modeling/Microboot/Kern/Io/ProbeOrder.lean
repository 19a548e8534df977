/-
  Kern/Io/ProbeOrder.lean --- the order of registrations does not matter.

  A driver that depends on a type of device meets the devices of that type in two
  ways: it goes through those that are there when it is registered, and each device
  that is registered behind it goes through the drivers.  Both loops run over lists
  that the callbacks make longer under them.

  A probe that is still to come is pending in the open call that will make it.  In
  every state of an `Orderly` run the probes made and the probes pending of a driver
  and a device are together as many as their registrations say.
-/
import Microboot.Foundation.Run
import Microboot.Kern.Io.Probe

set_option autoImplicit false

namespace Microboot.Kern.Io

open Microboot.Foundation

/-! ## The condition -/

/-- Only `probe_directed` is defined, for the devices of a type, and the driver is
not disabled. -/
def Driver.Directed (d : Driver) : Prop :=
  d.probe = false ∧ d.probeDirected = true ∧ d.dependsOn ≠ .none ∧ d.disabled = false

instance (d : Driver) : Decidable d.Directed := inferInstanceAs (Decidable (_ ∧ _ ∧ _ ∧ _))

/-- The driver that makes its first probe in the call. -/
def Frame.firstProbe : Frame → Option Nat
  | .driverFirstProbe driver _ => some driver
  | _ => none

/-- Drivers are registered outside of all calls; a device is registered while no
driver that depends on its type makes its first probe; a device that is written
keeps its type; nothing else is called. -/
def Manager.Orderly (s : Manager) : Move → Prop
  | .call (.driverRegister driver) => s.stack = [] ∧ (s.driver driver).Directed
  | .call (.deviceRegister device) => ∀ driver ∈ s.stack.filterMap Frame.firstProbe,
      (s.driver driver).dependsOn ≠ (s.device device).type
  | .call _ => False
  | .write device contents => contents.type = (s.device device).type
  | _ => True

instance (s : Manager) : (move : Move) → Decidable (s.Orderly move)
  | .call (.driverRegister _) => inferInstanceAs (Decidable (_ ∧ _))
  | .call (.deviceRegister _) => inferInstanceAs (Decidable (∀ _ ∈ _, _))
  | .call (.deviceDeregister _) => isFalse id
  | .call (.driverEnable _) => isFalse id
  | .call (.driverProbeFor _ _) => isFalse id
  | .write _ _ => inferInstanceAs (Decidable (_ = _))
  | .advance => isTrue trivial
  | .stray _ => isTrue trivial
  | .ret => isTrue trivial

/-! ## The invariant -/

namespace Manager

variable (s : Manager)

/-- The probes of the driver for the device that an open call still makes, if the one
depends on the type of the other. -/
def pending (driver device : Nat) : Frame → Nat
  | .deviceRegister device' next => if device' = device then (s.drivers.drop next).count driver else 0
  | .driverFirstProbe driver' next =>
    if driver' = driver then (s.devices.drop next).count device else 0
  | _ => 0

/-- The probes of the driver for the device, made and pending. -/
def probes (driver device : Nat) : Nat :=
  s.log.count ⟨driver, some device, false⟩ + (s.stack.map (s.pending driver device)).sum

/-- The calls that can be open. -/
def MayOpen : Frame → Prop
  | .deviceRegister _ _ => True
  | .driverFirstProbe driver _ => driver ∈ s.drivers
  | .callback => True
  | _ => False

/-- The probes that can be made. -/
def MayProbe (probe : ProbeCall) : Prop :=
  probe.disabled = false ∧
    ∃ device, probe.invoker = some device ∧
      (s.driver probe.driver).dependsOn = (s.device device).type

end Manager

/-- The probes that the registrations ask for are made or pending, and no others. -/
structure Delivers (s₀ s : Manager) : Prop where
  keeps : Retains s₀ s
  removed : s.removed = []
  directed : ∀ driver ∈ s.drivers, (s.driver driver).Directed
  opened : ∀ frame ∈ s.stack, s.MayOpen frame
  log : ∀ probe ∈ s.log, s.MayProbe probe
  probes : ∀ driver device, (s.driver driver).dependsOn = (s.device device).type →
    s.probes driver device = s.drivers.count driver * s.devices.count device

section Invariant

variable {s₀ s s' : Manager} {rest : List Frame} {driver device : Nat}

theorem delivers_init (driver : Nat → Driver) (device : Nat → Device) :
    Delivers (Manager.init driver device) (Manager.init driver device) where
  keeps := Retains.refl _
  removed := rfl
  directed _ h := absurd h List.not_mem_nil
  opened _ h := absurd h List.not_mem_nil
  log _ h := absurd h List.not_mem_nil
  probes _ _ _ := by simp [Manager.probes, Manager.init]

theorem Driver.Directed.keeps (h : (s.driver driver).Directed) (hretains : Retains s s') :
    (s'.driver driver).Directed := by
  obtain ⟨hprobe, hdirected, hdepends, henabled⟩ := h
  refine ⟨?_, ?_, ?_, hretains.enabled driver henabled⟩
  · rw [hretains.probe, hprobe]
  · rw [hretains.probeDirected, hdirected]
  · rwa [hretains.dependsOn]

theorem Manager.MayProbe.keeps {probe : ProbeCall} (h : s.MayProbe probe) (hretains : Retains s s') :
    s'.MayProbe probe := by
  obtain ⟨henabled, device, hinvoker, htype⟩ := h
  refine ⟨henabled, device, hinvoker, ?_⟩
  rw [hretains.dependsOn, hretains.type, htype]

theorem Manager.pending_eq (hdrivers : s'.drivers = s.drivers) (hdevices : s'.devices = s.devices) :
    s'.pending driver device = s.pending driver device := by
  funext frame
  cases frame <;> simp [pending, hdrivers, hdevices]

@[simp] theorem Manager.pending_push (frame : Frame) :
    (s.push frame).pending driver device = s.pending driver device :=
  pending_eq rfl rfl

theorem Manager.MayOpen.drivers {frame : Frame} (h : s.MayOpen frame)
    (hdrivers : ∀ driver ∈ s.drivers, driver ∈ s'.drivers) : s'.MayOpen frame := by
  cases frame with
  | driverFirstProbe driver next => exact hdrivers driver h
  | _ => exact h

/-- Nothing is registered: what is pending is made, or stays pending. -/
theorem Delivers.goOn (h : Delivers s₀ s) (hretains : Retains s s') (hdrivers : s'.drivers = s.drivers)
    (hdevices : s'.devices = s.devices) (hremoved : s'.removed = s.removed)
    (hopened : ∀ frame ∈ s'.stack, s.MayOpen frame)
    (hlog : ∀ probe ∈ s'.log, probe ∈ s.log ∨ s.MayProbe probe)
    (hprobes : ∀ driver device, (s.driver driver).dependsOn = (s.device device).type →
      s'.probes driver device = s.probes driver device) : Delivers s₀ s' where
  keeps := h.keeps.trans hretains
  removed := hremoved.trans h.removed
  directed driver hd := (h.directed driver (hdrivers ▸ hd)).keeps hretains
  opened frame hf := (hopened frame hf).drivers fun _ hd => hdrivers ▸ hd
  log probe hp := ((hlog probe hp).elim (h.log probe) id).keeps hretains
  probes driver device htype := by
    rw [hretains.dependsOn, hretains.type] at htype
    rw [hprobes driver device htype, hdrivers, hdevices]
    exact h.probes driver device htype

/-- The innermost call makes probes and is left for others that make the rest. -/
theorem Delivers.replace (h : Delivers s₀ s) {frame : Frame} (hstack : s.stack = frame :: rest)
    (frames : List Frame) (calls : List ProbeCall) (hretains : Retains s s')
    (hdrivers : s'.drivers = s.drivers) (hdevices : s'.devices = s.devices)
    (hremoved : s'.removed = s.removed) (hstack' : s'.stack = frames ++ rest)
    (hlog : s'.log = s.log ++ calls) (hopened : ∀ frame ∈ frames, s.MayOpen frame)
    (hcalls : ∀ probe ∈ calls, s.MayProbe probe)
    (hprobes : ∀ driver device, (s.driver driver).dependsOn = (s.device device).type →
      calls.count ⟨driver, some device, false⟩ + (frames.map (s.pending driver device)).sum =
        s.pending driver device frame) : Delivers s₀ s' := by
  refine h.goOn hretains hdrivers hdevices hremoved (fun frame' hf => ?_) (fun probe hp => ?_)
    fun driver device htype => ?_
  · rcases List.mem_append.mp (hstack' ▸ hf) with hnew | hold
    · exact hopened frame' hnew
    · exact h.opened frame' (hstack ▸ List.mem_cons_of_mem _ hold)
  · rcases List.mem_append.mp (hlog ▸ hp) with hold | hnew
    · exact Or.inl hold
    · exact Or.inr (hcalls probe hnew)
  · have hsame := hprobes driver device htype
    rw [Manager.probes, Manager.probes, Manager.pending_eq hdrivers hdevices, hstack', hlog, hstack]
    simp only [List.count_append, List.map_append, List.sum_append, List.map_cons, List.sum_cons]
    omega

theorem count_drop {items : List Nat} {next item : Nat} (hnext : items[next]? = some item)
    (x : Nat) :
    (items.drop next).count x = (items.drop (next + 1)).count x + if item = x then 1 else 0 := by
  obtain ⟨hlt, rfl⟩ := List.getElem?_eq_some_iff.mp hnext
  rw [List.drop_eq_getElem_cons hlt, List.count_cons]
  simp [beq_iff_eq]

theorem count_drop_of_none {items : List Nat} {next : Nat} (hnext : items[next]? = none)
    (x : Nat) : (items.drop next).count x = 0 := by
  rw [List.drop_eq_nil_of_le (List.getElem?_eq_none_iff.mp hnext), List.count_nil]

/-- The innermost call is left when nothing of it is pending. -/
theorem Delivers.leave (h : Delivers s₀ s) {frame : Frame} (hstack : s.stack = frame :: rest)
    (hretains : Retains s s') (hdrivers : s'.drivers = s.drivers)
    (hdevices : s'.devices = s.devices) (hremoved : s'.removed = s.removed)
    (hstack' : s'.stack = rest) (hlog : s'.log = s.log)
    (hdone : ∀ driver device, s.pending driver device frame = 0) : Delivers s₀ s' := by
  refine h.replace hstack [] [] hretains hdrivers hdevices hremoved hstack'
    (by rw [hlog, List.append_nil]) (fun _ hf => absurd hf List.not_mem_nil)
    (fun _ hp => absurd hp List.not_mem_nil) ?_
  intro driver device _
  rw [hdone]
  rfl

/-- The innermost call passes a candidate for which no probe is asked for. -/
theorem Delivers.pass (h : Delivers s₀ s) {frame frame' : Frame} (hstack : s.stack = frame :: rest)
    (hopen : s.MayOpen frame')
    (hprobes : ∀ driver device, (s.driver driver).dependsOn = (s.device device).type →
      s.pending driver device frame' = s.pending driver device frame) :
    Delivers s₀ { s with stack := frame' :: rest } := by
  refine h.replace hstack [frame'] [] (Retains.of_eq rfl rfl) rfl rfl rfl rfl
    (List.append_nil _).symm (fun _ hf => ?_) (fun _ hp => absurd hp List.not_mem_nil) ?_
  · rw [List.mem_singleton.mp hf]
    exact hopen
  · intro driver device htype
    simpa using hprobes driver device htype

/-- The innermost call makes one of its probes, whose callback is then open. -/
theorem Delivers.probe (h : Delivers s₀ s) {frame frame' : Frame} (hstack : s.stack = frame :: rest)
    (hopen : s.MayOpen frame') (henabled : (s.driver driver).disabled = false)
    (htype : (s.driver driver).dependsOn = (s.device device).type)
    (hprobes : ∀ driver' device', s.pending driver' device' frame =
      s.pending driver' device' frame' + if driver = driver' ∧ device = device' then 1 else 0) :
    Delivers s₀ ({ s with stack := frame' :: rest }.callProbe driver (some device)) := by
  refine h.replace hstack [.callback, frame'] [⟨driver, some device, false⟩]
    (Retains.of_eq rfl rfl) rfl rfl rfl rfl ?_ ?_ ?_ ?_
  · rw [← henabled]
    rfl
  · intro frame hf
    simp only [List.mem_cons, List.not_mem_nil, or_false] at hf
    rcases hf with rfl | rfl
    · exact trivial
    · exact hopen
  · intro probe hp
    rw [List.mem_singleton.mp hp]
    exact ⟨rfl, device, rfl, htype⟩
  · intro driver' device' _
    rw [hprobes]
    by_cases hdevice : device = device' <;> by_cases hdriver : driver = driver' <;>
      simp [Manager.pending, hdevice, hdriver, Nat.add_comm]

/-- `device_register` or `driver_first_probe` goes on. -/
theorem Delivers.advanced (h : Delivers s₀ s) {frame : Frame} (hstack : s.stack = frame :: rest)
    (hadvanced : Advanced s rest frame s') : Delivers s₀ s' := by
  have hopen : s.MayOpen frame := h.opened frame (hstack ▸ List.mem_cons_self)
  cases hadvanced with
  | registerEnd hnext =>
    refine h.leave hstack (Retains.of_eq rfl rfl) rfl rfl rfl rfl rfl fun driver device' => ?_
    simp [Manager.pending, count_drop_of_none hnext]
  | @registerProbe device next driver hnext hselects =>
    obtain ⟨-, -, -, henabled⟩ := h.directed driver (List.mem_of_getElem? hnext)
    refine h.probe hstack trivial henabled hselects.2 fun driver' device' => ?_
    simp only [Manager.pending, count_drop hnext]
    by_cases hdevice : device = device' <;> simp [hdevice]
  | @registerPass device next driver hnext hpasses =>
    obtain ⟨-, -, hdepends, -⟩ := h.directed driver (List.mem_of_getElem? hnext)
    refine h.pass hstack trivial fun driver' device' htype => ?_
    -- the loop passes no driver that depends on the type of the device
    have hother : device = device' → driver ≠ driver' := by
      rintro rfl rfl
      exact hpasses ⟨hdepends, htype⟩
    simp only [Manager.pending, count_drop hnext]
    by_cases hdevice : device = device'
    · simp [hdevice, hother hdevice]
    · simp [hdevice]
  | @firstProbeEnd driver next hnext =>
    have hpop : Retains s { s with stack := rest } := Retains.of_eq rfl rfl
    refine h.leave hstack (hpop.trans (Retains.setFirstProbe _ driver false)) rfl rfl rfl rfl rfl
      fun driver' device' => ?_
    simp [Manager.pending, count_drop_of_none hnext]
  | @firstProbeProbe driver next device hnext hselects =>
    obtain ⟨-, -, -, henabled⟩ := h.directed driver hopen
    refine h.probe hstack hopen henabled hselects.2.symm fun driver' device' => ?_
    simp only [Manager.pending, count_drop hnext]
    by_cases hdriver : driver = driver' <;> simp [hdriver]
  | @firstProbePass driver next device hnext hpasses =>
    refine h.pass hstack hopen fun driver' device' htype => ?_
    -- no node was removed, so the loop passes no device of the driver's type
    have hother : driver = driver' → device ≠ device' := by
      rintro rfl rfl
      exact hpasses ⟨by simp [h.removed], htype.symm⟩
    simp only [Manager.pending, count_drop hnext]
    by_cases hdriver : driver = driver'
    · simp [hdriver, hother hdriver]
    · simp [hdriver]
  | _ => exact hopen.elim

/-- `driver_register` outside of all calls, up to its loop. -/
theorem Delivers.driverRegister (h : Delivers s₀ s) (hstack : s.stack = [])
    (hdriver : (s.driver driver).Directed) (hcall : s.enter (.driverRegister driver) = .ok s') :
    Delivers s₀ s' := by
  obtain ⟨hprobe, hdirected, hdepends, henabled⟩ := hdriver
  have hentered : s' = ({ s with drivers := s.drivers ++ [driver] }.setFirstProbe driver true).push
      (.driverFirstProbe driver 0) := by
    simpa [Manager.enter, Manager.driverFirstProbe, Manager.setFirstProbe, hprobe, hdirected,
      hdepends, henabled] using hcall.symm
  have happend : Retains s { s with drivers := s.drivers ++ [driver] } := Retains.of_eq rfl rfl
  have hretains : Retains s s' := by
    rw [hentered]
    exact (happend.trans (Retains.setFirstProbe _ driver true)).trans (Retains.of_eq rfl rfl)
  refine ⟨h.keeps.trans hretains, ?_, fun driver' hd => ?_, fun frame hf => ?_, fun probe hp => ?_,
    fun driver' device htype => ?_⟩
  · rw [hentered]
    exact h.removed
  · refine Driver.Directed.keeps ?_ hretains
    have hmem : driver' ∈ s.drivers ++ [driver] := by simpa [hentered] using hd
    rcases List.mem_append.mp hmem with hold | hnew
    · exact h.directed driver' hold
    · rw [List.mem_singleton.mp hnew]
      exact ⟨hprobe, hdirected, hdepends, henabled⟩
  · have hframe : frame = .driverFirstProbe driver 0 := by simpa [hentered, hstack] using hf
    simp [hframe, Manager.MayOpen, hentered]
  · exact (h.log probe (by simpa [hentered] using hp)).keeps hretains
  · rw [hretains.dependsOn, hretains.type] at htype
    have hprobes := h.probes driver' device htype
    rw [Manager.probes, hstack, List.map_nil, List.sum_nil, Nat.add_zero] at hprobes
    by_cases hsame : driver = driver'
    · simp [hentered, Manager.probes, Manager.pending, hstack, hprobes, hsame, Nat.add_mul]
    · simp [hentered, Manager.probes, Manager.pending, hstack, hprobes, hsame]

/-- A registered device is pending for no driver that makes its first probe. -/
theorem pending_append_device {frame : Frame} (hframe : ∀ driver' ∈ frame.firstProbe,
      (s.driver driver').dependsOn ≠ (s.device device).type) {device' : Nat}
    (htype : (s.driver driver).dependsOn = (s.device device').type) :
    Manager.pending { s with devices := s.devices ++ [device] } driver device' frame =
      s.pending driver device' frame := by
  cases frame with
  | driverFirstProbe driver' next =>
    by_cases hdriver : driver' = driver
    · have hne : device ≠ device' := by
        rintro rfl
        exact hframe driver' rfl (hdriver ▸ htype)
      have hdrop : (([device] : List Nat).drop (next - s.devices.length)).count device' = 0 :=
        List.count_eq_zero.mpr fun hmem =>
          hne (List.mem_singleton.mp (List.mem_of_mem_drop hmem)).symm
      simp [Manager.pending, hdriver, List.drop_append, List.count_append, hdrop]
    · simp [Manager.pending, hdriver]
  | _ => rfl

/-- `device_register` up to its loop. -/
theorem Delivers.deviceRegister (h : Delivers s₀ s) (horderly :
      s.Orderly (.call (.deviceRegister device)))
    (hcall : s.enter (.deviceRegister device) = .ok s') : Delivers s₀ s' := by
  cases hcall
  refine ⟨h.keeps.trans (Retains.of_eq rfl rfl), h.removed, h.directed, fun frame hf => ?_,
    h.log, fun driver device' htype => ?_⟩
  · rcases List.mem_cons.mp hf with rfl | hold
    · exact trivial
    · exact (h.opened frame hold).drivers fun _ hd => hd
  · have hprobes := h.probes driver device' htype
    have hpending : ∀ frame ∈ s.stack,
        Manager.pending { s with devices := s.devices ++ [device] } driver device' frame =
          s.pending driver device' frame := by
      intro frame hf
      refine pending_append_device (fun driver' hd => ?_) htype
      exact horderly driver' (List.mem_filterMap.mpr ⟨frame, hf, hd⟩)
    rw [Manager.probes] at hprobes ⊢
    simp only [Manager.push_stack, Manager.push_log, Manager.push_drivers, Manager.push_devices,
      Manager.pending_push, List.map_cons, List.sum_cons, List.map_congr_left hpending]
    by_cases hsame : device = device'
    · simp [Manager.pending, hsame, Nat.mul_add]
      omega
    · simp [Manager.pending, hsame, hprobes]

theorem Delivers.step (h : Delivers s₀ s) {move : Move} (horderly : s.Orderly move)
    (hstep : probeStep s move = .ok s') : Delivers s₀ s' := by
  cases probeStep_stepped hstep with
  | advance hstack hadvanced => exact h.advanced hstack hadvanced
  | stray _ hnode =>
    rw [h.removed] at hnode
    exact absurd hnode List.not_mem_nil
  | @call call _ hcall =>
    cases call with
    | driverRegister driver => exact h.driverRegister horderly.1 horderly.2 hcall
    | deviceRegister device => exact h.deviceRegister horderly hcall
    | _ => exact horderly.elim
  | write =>
    exact h.goOn (Retains.writeDevice s horderly) rfl rfl rfl h.opened (fun _ hp => Or.inl hp)
      fun _ _ _ => rfl
  | ret hstack =>
    exact h.replace hstack [] [] (Retains.of_eq rfl rfl) rfl rfl rfl rfl (List.append_nil _).symm
      (fun _ hf => absurd hf List.not_mem_nil) (fun _ hp => absurd hp List.not_mem_nil)
      fun _ _ _ => rfl

end Invariant

/-! ## Runs -/

section Runs

variable {driver : Nat → Driver} {device : Nat → Device} {moves : List Move} {s : Manager}

theorem delivers_run (horderly : AllSteps probeStep Manager.Orderly (Manager.init driver device) moves)
    (hrun : moves.foldlM probeStep (Manager.init driver device) = .ok s) :
    Delivers (Manager.init driver device) s :=
  horderly.invariant (Delivers (Manager.init driver device))
    (fun _ _ _ h hmove hstep => h.step hmove hstep) (delivers_init driver device) hrun

/-- Behind an orderly run each driver was probed for each device of its type exactly
as often as the two were registered, and for nothing else. -/
theorem Delivers.settled (h : Delivers (Manager.init driver device) s) (hdone : s.stack = []) :
    (∀ x y, (driver x).dependsOn = (device y).type →
      s.log.count ⟨x, some y, false⟩ = s.drivers.count x * s.devices.count y) ∧
    ∀ probe ∈ s.log, ∃ x y, probe = ⟨x, some y, false⟩ ∧
      (driver x).dependsOn = (device y).type := by
  refine ⟨fun x y htype => ?_, fun probe hp => ?_⟩
  · have hprobes := h.probes x y (by rw [h.keeps.dependsOn, h.keeps.type]; exact htype)
    rw [Manager.probes, hdone, List.map_nil, List.sum_nil, Nat.add_zero] at hprobes
    exact hprobes
  · obtain ⟨henabled, y, hinvoker, htype⟩ := h.log probe hp
    rw [h.keeps.dependsOn, h.keeps.type] at htype
    refine ⟨probe.driver, y, ?_, htype⟩
    rw [← hinvoker, ← henabled]

/-- A driver is probed once for each of its registrations and each registration of a
device of its type, and for nothing else; and any other order of the same
registrations makes the same probes. -/
theorem probeRun_eachPairOnce
    (horderly : AllSteps probeStep Manager.Orderly (Manager.init driver device) moves)
    (hrun : moves.foldlM probeStep (Manager.init driver device) = .ok s) (hdone : s.stack = []) :
    (∀ x y, (driver x).dependsOn = (device y).type →
      s.log.count ⟨x, some y, false⟩ = (driversOf moves).count x * (devicesOf moves).count y) ∧
    (∀ probe ∈ s.log, ∃ x y, probe = ⟨x, some y, false⟩ ∧
      (driver x).dependsOn = (device y).type) ∧
    ∀ moves' s', AllSteps probeStep Manager.Orderly (Manager.init driver device) moves' →
      moves'.foldlM probeStep (Manager.init driver device) = .ok s' → s'.stack = [] →
      (driversOf moves').Perm (driversOf moves) → (devicesOf moves').Perm (devicesOf moves) →
      s'.log.Perm s.log := by
  obtain ⟨hcount, hlog⟩ := (delivers_run horderly hrun).settled hdone
  rw [(probeRun_lists hrun).1, (probeRun_lists hrun).2] at hcount
  refine ⟨hcount, hlog, fun moves' s' horderly' hrun' hdone' hdrivers hdevices => ?_⟩
  obtain ⟨hcount', hlog'⟩ := (delivers_run horderly' hrun').settled hdone'
  rw [(probeRun_lists hrun').1, (probeRun_lists hrun').2] at hcount'
  rw [List.perm_iff_count]
  intro probe
  by_cases hmay : ∃ x y, probe = ⟨x, some y, false⟩ ∧ (driver x).dependsOn = (device y).type
  · obtain ⟨x, y, rfl, htype⟩ := hmay
    rw [hcount x y htype, hcount' x y htype, hdrivers.count_eq, hdevices.count_eq]
  · rw [List.count_eq_zero.mpr fun hp => hmay (hlog probe hp),
      List.count_eq_zero.mpr fun hp => hmay (hlog' probe hp)]

/-- `fat_driver` (kern/fs/fat.c) -/
def fatDriver (_ : Nat) : Driver :=
  { probe := false, probeDirected := true, typeFor := .fs, dependsOn := .block,
    firstProbe := false, disabled := false }

/-- A drive at 0, and filesystems. -/
def driveAndFs (address : Nat) : Device :=
  { name := [104], type := if address = 0 then .block else .fs, destroy := false,
    subdevices := none }

/-- The drive comes before the driver, whose probe registers a filesystem. -/
def driveFirst : List Move :=
  [.call (.deviceRegister 0), .advance, .call (.driverRegister 0), .advance,
    .call (.deviceRegister 1), .advance, .advance, .ret, .advance, .advance]

/-- The driver comes before the drive. -/
def driverFirst : List Move :=
  [.call (.driverRegister 0), .advance, .call (.deviceRegister 0), .advance,
    .call (.deviceRegister 1), .advance, .advance, .ret, .advance]

theorem probeRun_eachPairOnce_fat :
    ∃ s s', driveFirst.foldlM probeStep (Manager.init fatDriver driveAndFs) = .ok s ∧
      driverFirst.foldlM probeStep (Manager.init fatDriver driveAndFs) = .ok s' ∧
      s.log.count ⟨0, some 0, false⟩ = 1 ∧ s'.log.Perm s.log := by
  obtain ⟨s, hrun, hdone⟩ : ∃ s, driveFirst.foldlM probeStep
      (Manager.init fatDriver driveAndFs) = .ok s ∧ s.stack = [] := ⟨_, rfl, rfl⟩
  obtain ⟨s', hrun', hdone'⟩ : ∃ s', driverFirst.foldlM probeStep
      (Manager.init fatDriver driveAndFs) = .ok s' ∧ s'.stack = [] := ⟨_, rfl, rfl⟩
  obtain ⟨hcount, -, hsame⟩ := probeRun_eachPairOnce (by decide) hrun hdone
  exact ⟨s, s', hrun, hrun', hcount 0 0 rfl,
    hsame driverFirst s' (by decide) hrun' hdone' (List.Perm.refl _) (List.Perm.refl _)⟩

end Runs

end Microboot.Kern.Io
