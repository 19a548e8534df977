/-
  Kern/Io/Probe.lean --- probing, kern/io/driver.c, call by call.

  The callbacks of drivers and devices call back into the driver manager while its
  loops are running, to any depth.  The calls that are open are a stack of frames,
  the innermost first; a callback is a frame that may make any call before it
  returns.  A run is a sequence of moves: the manager goes on with its innermost
  call, or the callback (or whoever is outside of all calls) makes a move.

  Nodes of the two lists are numbered in the order of `list_append`.  A node keeps
  its number for ever; `removed` has those that were taken out and freed.  A loop
  whose node is freed under it can go on with any node.
-/
import Mathlib.Tactic.Simps.Basic
import Microboot.Foundation.Run
import Microboot.Kern.Io.Driver

set_option autoImplicit false

namespace Microboot.Kern.Io

open Microboot.Foundation

/-! ## The state -/

/-- `struct driver`; `probe` and `probeDirected` say which callbacks are defined. -/
structure Driver where
  probe : Bool
  probeDirected : Bool
  typeFor : DeviceType
  dependsOn : DeviceType
  firstProbe : Bool
  disabled : Bool
  deriving DecidableEq, Repr

/-- A call of the driver manager. -/
inductive DriverCall where
  | deviceRegister (device : Nat)
  | deviceDeregister (device : Nat)
  | driverRegister (driver : Nat)
  | driverEnable (driver : Nat)
  | driverProbeFor (type : DeviceType) (invoker : Option Nat)
  deriving DecidableEq, Repr

/-- A call that has not returned yet, with the node or the index that its loop comes
to next. -/
inductive Frame where
  | deviceRegister (device next : Nat)
  | deviceDeregister (device node i : Nat)
  /-- `device_deregister` behind `destroy` -/
  | listRemove (node : Nat)
  | driverFirstProbe (driver next : Nat)
  /-- `driver_first_probe` behind its only callback -/
  | firstProbeDone (driver : Nat)
  | driverProbeFor (type : DeviceType) (invoker : Option Nat) (next : Nat)
  | callback
  deriving DecidableEq, Repr

/-- A call of `probe` or `probe_directed`, and whether the driver was disabled. -/
structure ProbeCall where
  driver : Nat
  invoker : Option Nat
  disabled : Bool
  deriving DecidableEq, Repr

/-- The driver manager: the nodes of both lists, the memory, the open calls and the
probes so far. -/
structure Manager where
  drivers : List Nat
  devices : List Nat
  removed : List Nat
  driver : Nat → Driver
  device : Nat → Device
  stack : List Frame
  log : List ProbeCall

/-- `driver_init()`; the memory holds anything. -/
def Manager.init (driver : Nat → Driver) (device : Nat → Device) : Manager where
  drivers := []
  devices := []
  removed := []
  driver := driver
  device := device
  stack := []
  log := []

/-- Why a run cannot go on: an assertion fails, a callback is called that is not
defined, a node is freed twice, or the move is not possible. -/
inductive Stop where
  | assert (message : String)
  | nullCallback
  | doubleFree
  | impossible
  deriving DecidableEq, Repr

/-! ## The calls -/

namespace Manager

variable (s : Manager)

/-- `driver->probe(driver)` or `driver->probe_directed(driver, invoker)` -/
@[simps]
def callProbe (driver : Nat) (invoker : Option Nat) : Manager :=
  { s with
    stack := .callback :: s.stack
    log := s.log ++ [⟨driver, invoker, (s.driver driver).disabled⟩] }

/-- `driver->probe_directed(driver, invoker)`, which must be defined. -/
def callProbeDirected (driver : Nat) (invoker : Option Nat) : Except Stop Manager :=
  if (s.driver driver).probeDirected then .ok (s.callProbe driver invoker)
  else .error .nullCallback

/-- `driver->first_probe = value;` -/
@[simps]
def setFirstProbe (driver : Nat) (value : Bool) : Manager :=
  { s with driver := Function.update s.driver driver { s.driver driver with firstProbe := value } }

/-- `driver->disabled = false;` -/
@[simps]
def enable (driver : Nat) : Manager :=
  { s with driver := Function.update s.driver driver { s.driver driver with disabled := false } }

/-- The `struct device` is written. -/
@[simps]
def writeDevice (device : Nat) (contents : Device) : Manager :=
  { s with device := Function.update s.device device contents }

/-- `device->num_subdevices = 0;` -/
def clearSubdevices (device : Nat) : Manager :=
  s.writeDevice device { s.device device with subdevices := some [] }

@[simps]
def push (frame : Frame) : Manager := { s with stack := frame :: s.stack }

/-- `driver_first_probe(driver)` up to its callback or its loop. -/
def driverFirstProbe (driver : Nat) : Except Stop Manager :=
  let s := s.setFirstProbe driver true
  if (s.driver driver).probe then .ok ((s.push (.firstProbeDone driver)).callProbe driver none)
  else if (s.driver driver).dependsOn ≠ .none then .ok (s.push (.driverFirstProbe driver 0))
  else (s.push (.firstProbeDone driver)).callProbeDirected driver none

/-- The first node with the device. -/
def findDevice (device : Nat) : Option Nat :=
  (List.range s.devices.length).find? fun node =>
    node ∉ s.removed ∧ s.devices[node]? = some device

/-- A call up to its first loop or callback. -/
def enter : DriverCall → Except Stop Manager
  | .deviceRegister device =>
    .ok ({ s with devices := s.devices ++ [device] }.push (.deviceRegister device 0))
  | .deviceDeregister device =>
    match s.findDevice device with
    | some node => .ok (s.push (.deviceDeregister device node 0))
    | none => .ok s
  | .driverRegister driver =>
    let s := { s with drivers := s.drivers ++ [driver] }
    if (s.driver driver).probe ∨ (s.driver driver).probeDirected then
      if (s.driver driver).disabled then .ok s else s.driverFirstProbe driver
    else .error (.assert "Driver must define probe")
  | .driverEnable driver => (s.enable driver).driverFirstProbe driver
  | .driverProbeFor type invoker => .ok (s.push (.driverProbeFor type invoker 0))

/-- The innermost call goes on by one step of its loop; `rest` are the other calls. -/
def advance (rest : List Frame) : Frame → Except Stop Manager
  | .deviceRegister device next =>
    match s.drivers[next]? with
    | none => .ok { s with stack := rest }
    | some driver =>
      let s := { s with stack := .deviceRegister device (next + 1) :: rest }
      if (s.driver driver).dependsOn ≠ .none ∧
          (s.driver driver).dependsOn = (s.device device).type then
        if (s.driver driver).probeDirected then .ok (s.callProbe driver (some device))
        else .error (.assert "Device defining depends_on must define probe_directed")
      else .ok s
  | .deviceDeregister device node i =>
    match ((s.device device).subdevices.getD [])[i]? with
    | some subdevice =>
      { s with stack := .deviceDeregister device node (i + 1) :: rest }.enter
        (.deviceDeregister subdevice)
    | none =>
      let s := if (s.device device).subdevices.isSome then s.clearSubdevices device else s
      if (s.device device).destroy then
        .ok { s with stack := .callback :: .listRemove node :: rest }
      else .ok { s with stack := .listRemove node :: rest }
  | .listRemove node =>
    if node ∈ s.removed then .error .doubleFree
    else .ok { s with removed := node :: s.removed, stack := rest }
  | .driverFirstProbe driver next =>
    match s.devices[next]? with
    | none => .ok ({ s with stack := rest }.setFirstProbe driver false)
    | some device =>
      let s := { s with stack := .driverFirstProbe driver (next + 1) :: rest }
      if next ∉ s.removed ∧ (s.device device).type = (s.driver driver).dependsOn then
        s.callProbeDirected driver (some device)
      else .ok s
  | .firstProbeDone driver => .ok ({ s with stack := rest }.setFirstProbe driver false)
  | .driverProbeFor type invoker next =>
    match s.drivers[next]? with
    | none => .ok { s with stack := rest }
    | some driver =>
      let s := { s with stack := .driverProbeFor type invoker (next + 1) :: rest }
      if (s.driver driver).typeFor = type then
        if (s.driver driver).probe then .ok (s.callProbe driver none)
        else s.callProbeDirected driver invoker
      else .ok s
  | .callback => .error .impossible

end Manager

/-- The manager goes on, its loop goes on with node `next` because its own was freed,
or a callback, or whoever is outside of all calls, makes a call, writes a device, or
(a callback) returns. -/
inductive Move where
  | advance
  | stray (next : Nat)
  | call (call : DriverCall)
  | write (device : Nat) (contents : Device)
  | ret
  deriving DecidableEq, Repr

/-- A callback is running, or no call is open. -/
def Manager.outside (s : Manager) : Bool := s.stack.head?.getD .callback = .callback

/-- One move. -/
def probeStep (s : Manager) : Move → Except Stop Manager
  | .advance =>
    match s.stack with
    | frame :: rest => s.advance rest frame
    | [] => .error .impossible
  | .stray next =>
    match s.stack with
    | .driverFirstProbe driver (node + 1) :: rest =>
      if node ∈ s.removed then .ok { s with stack := .driverFirstProbe driver next :: rest }
      else .error .impossible
    | _ => .error .impossible
  | .call call => if s.outside then s.enter call else .error .impossible
  | .write device contents =>
    if s.outside then .ok (s.writeDevice device contents) else .error .impossible
  | .ret =>
    match s.stack with
    | .callback :: rest => .ok { s with stack := rest }
    | _ => .error .impossible

/-! ## What a move can do -/

/-- How the innermost call goes on: the branches of its loop that are not stopped. -/
inductive Advanced (s : Manager) (rest : List Frame) : Frame → Manager → Prop
  | registerEnd {device next : Nat} (hnext : s.drivers[next]? = none) :
    Advanced s rest (.deviceRegister device next) { s with stack := rest }
  | registerProbe {device next driver : Nat} (hnext : s.drivers[next]? = some driver)
    (hselects : (s.driver driver).dependsOn ≠ .none ∧
      (s.driver driver).dependsOn = (s.device device).type) :
    Advanced s rest (.deviceRegister device next)
      ({ s with stack := .deviceRegister device (next + 1) :: rest }.callProbe driver
        (some device))
  | registerPass {device next driver : Nat} (hnext : s.drivers[next]? = some driver)
    (hpasses : ¬ ((s.driver driver).dependsOn ≠ .none ∧
      (s.driver driver).dependsOn = (s.device device).type)) :
    Advanced s rest (.deviceRegister device next)
      { s with stack := .deviceRegister device (next + 1) :: rest }
  | deregisterNext {device node i subdevice : Nat} {s' : Manager}
    (hcall : { s with stack := .deviceDeregister device node (i + 1) :: rest }.enter
      (.deviceDeregister subdevice) = .ok s') :
    Advanced s rest (.deviceDeregister device node i) s'
  | deregisterEnd {device node i : Nat} {s₁ : Manager} {frames : List Frame}
    (hcleared : s₁ = s ∨ s₁ = s.clearSubdevices device)
    (hframes : frames = [.listRemove node] ∨ frames = [.callback, .listRemove node]) :
    Advanced s rest (.deviceDeregister device node i) { s₁ with stack := frames ++ rest }
  | listRemove {node : Nat} :
    Advanced s rest (.listRemove node) { s with removed := node :: s.removed, stack := rest }
  | firstProbeEnd {driver next : Nat} (hnext : s.devices[next]? = none) :
    Advanced s rest (.driverFirstProbe driver next)
      ({ s with stack := rest }.setFirstProbe driver false)
  | firstProbeProbe {driver next device : Nat} (hnext : s.devices[next]? = some device)
    (hselects : next ∉ s.removed ∧ (s.device device).type = (s.driver driver).dependsOn) :
    Advanced s rest (.driverFirstProbe driver next)
      ({ s with stack := .driverFirstProbe driver (next + 1) :: rest }.callProbe driver
        (some device))
  | firstProbePass {driver next device : Nat} (hnext : s.devices[next]? = some device)
    (hpasses : ¬ (next ∉ s.removed ∧ (s.device device).type = (s.driver driver).dependsOn)) :
    Advanced s rest (.driverFirstProbe driver next)
      { s with stack := .driverFirstProbe driver (next + 1) :: rest }
  | firstProbeDone {driver : Nat} :
    Advanced s rest (.firstProbeDone driver) ({ s with stack := rest }.setFirstProbe driver false)
  | probeForEnd {type : DeviceType} {invoker : Option Nat} {next : Nat}
    (hnext : s.drivers[next]? = none) :
    Advanced s rest (.driverProbeFor type invoker next) { s with stack := rest }
  | probeForProbe {type : DeviceType} {invoker : Option Nat} {next driver : Nat}
    (hnext : s.drivers[next]? = some driver) (hselects : (s.driver driver).typeFor = type)
    (given : Option Nat) :
    Advanced s rest (.driverProbeFor type invoker next)
      ({ s with stack := .driverProbeFor type invoker (next + 1) :: rest }.callProbe driver given)
  | probeForPass {type : DeviceType} {invoker : Option Nat} {next driver : Nat}
    (hnext : s.drivers[next]? = some driver) (hpasses : (s.driver driver).typeFor ≠ type) :
    Advanced s rest (.driverProbeFor type invoker next)
      { s with stack := .driverProbeFor type invoker (next + 1) :: rest }

/-- What a move does. -/
inductive Stepped (s : Manager) : Move → Manager → Prop
  | advance {frame : Frame} {rest : List Frame} {s' : Manager} (hstack : s.stack = frame :: rest)
    (hadvanced : Advanced s rest frame s') : Stepped s .advance s'
  | stray {driver node next : Nat} {rest : List Frame}
    (hstack : s.stack = .driverFirstProbe driver (node + 1) :: rest) (hnode : node ∈ s.removed) :
    Stepped s (.stray next) { s with stack := .driverFirstProbe driver next :: rest }
  | call {call : DriverCall} {s' : Manager} (hcall : s.enter call = .ok s') :
    Stepped s (.call call) s'
  | write {device : Nat} {contents : Device} :
    Stepped s (.write device contents) (s.writeDevice device contents)
  | ret {rest : List Frame} (hstack : s.stack = .callback :: rest) :
    Stepped s .ret { s with stack := rest }

section Moves

variable {s s' : Manager} {driver : Nat} {invoker : Option Nat} {rest : List Frame}
  {frame : Frame} {move : Move}

theorem callProbeDirected_eq (hcall : s.callProbeDirected driver invoker = .ok s') :
    s' = s.callProbe driver invoker := by
  unfold Manager.callProbeDirected at hcall
  split at hcall
  · cases hcall
    rfl
  · cases hcall

theorem advance_advanced (hcall : s.advance rest frame = .ok s') : Advanced s rest frame s' := by
  cases frame with
  | deviceRegister device next =>
    rw [Manager.advance] at hcall
    split at hcall
    · next hnext =>
      cases hcall
      exact .registerEnd hnext
    · next driver hnext =>
      dsimp only at hcall
      split at hcall
      · next hselects =>
        split at hcall <;> cases hcall
        exact .registerProbe hnext hselects
      · next hpasses =>
        cases hcall
        exact .registerPass hnext hpasses
  | deviceDeregister device node i =>
    rw [Manager.advance] at hcall
    split at hcall
    · exact .deregisterNext hcall
    · simp only at hcall
      split at hcall
      all_goals
        split at hcall <;> cases hcall
      · exact .deregisterEnd (Or.inr rfl) (Or.inr rfl)
      · exact .deregisterEnd (Or.inr rfl) (Or.inl rfl)
      · exact .deregisterEnd (Or.inl rfl) (Or.inr rfl)
      · exact .deregisterEnd (Or.inl rfl) (Or.inl rfl)
  | listRemove node =>
    rw [Manager.advance] at hcall
    split at hcall <;> cases hcall
    exact .listRemove
  | driverFirstProbe driver next =>
    rw [Manager.advance] at hcall
    split at hcall
    · next hnext =>
      cases hcall
      exact .firstProbeEnd hnext
    · next device hnext =>
      dsimp only at hcall
      split at hcall
      · next hselects =>
        obtain rfl := callProbeDirected_eq hcall
        exact .firstProbeProbe hnext hselects
      · next hpasses =>
        cases hcall
        exact .firstProbePass hnext hpasses
  | firstProbeDone driver =>
    cases hcall
    exact .firstProbeDone
  | driverProbeFor type invoker next =>
    rw [Manager.advance] at hcall
    split at hcall
    · next hnext =>
      cases hcall
      exact .probeForEnd hnext
    · next driver hnext =>
      dsimp only at hcall
      split at hcall
      · next hselects =>
        split at hcall
        · cases hcall
          exact .probeForProbe hnext hselects none
        · obtain rfl := callProbeDirected_eq hcall
          exact .probeForProbe hnext hselects invoker
      · next hpasses =>
        cases hcall
        exact .probeForPass hnext hpasses
  | callback => cases hcall

theorem probeStep_stepped (hstep : probeStep s move = .ok s') : Stepped s move s' := by
  cases move with
  | advance =>
    rw [probeStep] at hstep
    split at hstep
    · next hstack => exact .advance hstack (advance_advanced hstep)
    · cases hstep
  | stray next =>
    rw [probeStep] at hstep
    split at hstep
    · next hstack =>
      split at hstep <;> cases hstep
      next hnode => exact .stray hstack hnode
    · cases hstep
  | call call =>
    rw [probeStep] at hstep
    split at hstep
    · exact .call hstep
    · cases hstep
  | write device contents =>
    rw [probeStep] at hstep
    split at hstep <;> cases hstep
    exact .write
  | ret =>
    rw [probeStep] at hstep
    split at hstep <;> cases hstep
    next hstack => exact .ret hstack

end Moves

/-! ## The memory -/

/-- What the manager itself leaves of the memory: it writes `first_probe`, clears
`disabled` and `num_subdevices`, and nothing else. -/
structure Retains (s s' : Manager) : Prop where
  probe : ∀ x, (s'.driver x).probe = (s.driver x).probe
  probeDirected : ∀ x, (s'.driver x).probeDirected = (s.driver x).probeDirected
  typeFor : ∀ x, (s'.driver x).typeFor = (s.driver x).typeFor
  dependsOn : ∀ x, (s'.driver x).dependsOn = (s.driver x).dependsOn
  enabled : ∀ x, (s.driver x).disabled = false → (s'.driver x).disabled = false
  type : ∀ x, (s'.device x).type = (s.device x).type

namespace Retains

variable {s s' s'' : Manager}

theorem of_eq (hdriver : s'.driver = s.driver) (hdevice : s'.device = s.device) : Retains s s' := by
  constructor <;> simp [hdriver, hdevice]

theorem refl (s : Manager) : Retains s s := of_eq rfl rfl

theorem trans (h : Retains s s') (h' : Retains s' s'') : Retains s s'' where
  probe x := (h'.probe x).trans (h.probe x)
  probeDirected x := (h'.probeDirected x).trans (h.probeDirected x)
  typeFor x := (h'.typeFor x).trans (h.typeFor x)
  dependsOn x := (h'.dependsOn x).trans (h.dependsOn x)
  enabled x hx := h'.enabled x (h.enabled x hx)
  type x := (h'.type x).trans (h.type x)

/-- A write of one driver. -/
theorem of_driver {driver : Nat} {contents : Driver}
    (hdriver : s'.driver = Function.update s.driver driver contents)
    (hdevice : s'.device = s.device)
    (hprobe : contents.probe = (s.driver driver).probe)
    (hdirected : contents.probeDirected = (s.driver driver).probeDirected)
    (htypeFor : contents.typeFor = (s.driver driver).typeFor)
    (hdependsOn : contents.dependsOn = (s.driver driver).dependsOn)
    (henabled : (s.driver driver).disabled = false → contents.disabled = false) : Retains s s' := by
  have hcases : ∀ x, x = driver ∧ s'.driver x = contents ∨ s'.driver x = s.driver x := by
    intro x
    by_cases hx : x = driver
    · exact Or.inl ⟨hx, by simp [hdriver, hx]⟩
    · exact Or.inr (by simp [hdriver, hx])
  refine ⟨fun x => ?_, fun x => ?_, fun x => ?_, fun x => ?_, fun x => ?_, fun x => by rw [hdevice]⟩
  all_goals
    obtain ⟨rfl, hx⟩ | hx := hcases x
    · rw [hx]
      assumption
    · simp [hx]

theorem setFirstProbe (s : Manager) (driver : Nat) (value : Bool) :
    Retains s (s.setFirstProbe driver value) :=
  of_driver rfl rfl rfl rfl rfl rfl id

theorem enable (s : Manager) (driver : Nat) : Retains s (s.enable driver) :=
  of_driver rfl rfl rfl rfl rfl rfl fun _ => rfl

theorem writeDevice (s : Manager) {device : Nat} {contents : Device}
    (htype : contents.type = (s.device device).type) : Retains s (s.writeDevice device contents) := by
  refine ⟨fun _ => rfl, fun _ => rfl, fun _ => rfl, fun _ => rfl, fun _ h => h, fun x => ?_⟩
  by_cases hx : x = device
  · simp [hx, htype]
  · simp [hx]

theorem clearSubdevices (s : Manager) (device : Nat) : Retains s (s.clearSubdevices device) :=
  writeDevice s rfl

end Retains

/-! ## The lists -/

/-- The drivers that the moves register. -/
def driversOf (moves : List Move) : List Nat :=
  moves.filterMap fun
    | .call (.driverRegister driver) => some driver
    | _ => none

/-- The devices that the moves register. -/
def devicesOf (moves : List Move) : List Nat :=
  moves.filterMap fun
    | .call (.deviceRegister device) => some device
    | _ => none

section Lists

variable {s s' : Manager} {driver : Nat} {moves : List Move}

theorem driverFirstProbe_lists (hcall : s.driverFirstProbe driver = .ok s') :
    s'.drivers = s.drivers ∧ s'.devices = s.devices := by
  unfold Manager.driverFirstProbe at hcall
  dsimp only at hcall
  split at hcall
  · cases hcall
    exact ⟨rfl, rfl⟩
  · split at hcall
    · cases hcall
      exact ⟨rfl, rfl⟩
    · obtain rfl := callProbeDirected_eq hcall
      exact ⟨rfl, rfl⟩

/-- A call appends what it registers. -/
theorem enter_lists {call : DriverCall} (hcall : s.enter call = .ok s') :
    s'.drivers = s.drivers ++ driversOf [.call call] ∧
      s'.devices = s.devices ++ devicesOf [.call call] := by
  cases call with
  | deviceRegister device =>
    cases hcall
    simp [driversOf, devicesOf]
  | deviceDeregister device =>
    rw [Manager.enter] at hcall
    split at hcall <;> cases hcall <;> simp [driversOf, devicesOf]
  | driverRegister driver =>
    simp only [Manager.enter] at hcall
    split at hcall
    · split at hcall
      · cases hcall
        simp [driversOf, devicesOf]
      · simpa [driversOf, devicesOf] using driverFirstProbe_lists hcall
    · cases hcall
  | driverEnable driver => simpa [driversOf, devicesOf] using driverFirstProbe_lists hcall
  | driverProbeFor type invoker =>
    cases hcall
    simp [driversOf, devicesOf]

theorem Advanced.lists {rest : List Frame} {frame : Frame} (h : Advanced s rest frame s') :
    s'.drivers = s.drivers ∧ s'.devices = s.devices := by
  cases h with
  | deregisterNext hcall => simpa [driversOf, devicesOf] using enter_lists hcall
  | deregisterEnd hcleared =>
    rcases hcleared with rfl | rfl
    · exact ⟨rfl, rfl⟩
    · exact ⟨rfl, rfl⟩
  | _ => exact ⟨rfl, rfl⟩

theorem probeStep_lists {move : Move} (hstep : probeStep s move = .ok s') :
    s'.drivers = s.drivers ++ driversOf [move] ∧
      s'.devices = s.devices ++ devicesOf [move] := by
  cases probeStep_stepped hstep with
  | advance hstack hadvanced => simpa [driversOf, devicesOf] using hadvanced.lists
  | call hcall => exact enter_lists hcall
  | _ => simp [driversOf, devicesOf]

/-- A run appends what it registers, in order. -/
theorem probeRun_lists_append (hrun : moves.foldlM probeStep s = .ok s') :
    s'.drivers = s.drivers ++ driversOf moves ∧ s'.devices = s.devices ++ devicesOf moves := by
  induction moves generalizing s with
  | nil =>
    cases hrun
    simp [driversOf, devicesOf]
  | cons move rest ih =>
    obtain ⟨s₁, hstep, hrun⟩ := exists_of_foldlM_cons hrun
    obtain ⟨hdrivers, hdevices⟩ := ih hrun
    obtain ⟨hdrivers₁, hdevices₁⟩ := probeStep_lists hstep
    have hdriversOf : driversOf (move :: rest) = driversOf [move] ++ driversOf rest :=
      List.filterMap_append (l := [move])
    have hdevicesOf : devicesOf (move :: rest) = devicesOf [move] ++ devicesOf rest :=
      List.filterMap_append (l := [move])
    rw [hdrivers, hdrivers₁, hdriversOf, hdevices, hdevices₁, hdevicesOf]
    exact ⟨List.append_assoc .., List.append_assoc ..⟩

theorem probeRun_lists {driver : Nat → Driver} {device : Nat → Device}
    (hrun : moves.foldlM probeStep (Manager.init driver device) = .ok s) :
    s.drivers = driversOf moves ∧ s.devices = devicesOf moves :=
  probeRun_lists_append hrun

end Lists

end Microboot.Kern.Io
