/-
  Kern/Io/Constructors.lean --- how the kernel's drivers build and register devices.

  The kernel builds a `struct device` in six places: kern/io/vesa.c, vga.c, fbcon.c,
  serial.c, bios_drive.c and kern/fs/fat.c.  Three of them (vesa, vga, serial) take it
  from `kalloc`, which leaves the bytes of the memory as they are, and never set
  `subdevices`, `num_subdevices` and `inform`.

  The drivers are registered, enabled and probed again, devices are registered and
  deregistered, and modes are set, in any order.  The allocator is a sequence of
  addresses; what the memory holds there is a sequence of its own.
-/
import Microboot.Foundation.Run
import Microboot.Kern.Io.Names
import Microboot.Kern.Io.Probe
import Microboot.Kern.Io.Subdevices

set_option autoImplicit false

namespace Microboot.Kern.Io

open Microboot.Foundation

/-! ## The state -/

/-- The drivers of the kernel. -/
inductive KernDriver where
  | vesa | vga | fbcon | serial | bdrive | fat
  deriving DecidableEq, Repr

/-- `vesa_driver`, `vga_driver`, `fbcon_driver`, `serial_driver`, `bdrive_driver` and
`fat_driver`, as they are initialised. -/
def kernDriver : KernDriver → Driver
  | .vesa => ⟨true, false, .framebuffer, .none, false, true⟩
  | .vga => ⟨true, false, .con, .none, false, false⟩
  | .fbcon => ⟨false, true, .con, .framebuffer, false, false⟩
  | .serial => ⟨true, false, .none, .none, false, false⟩
  | .bdrive => ⟨true, false, .block, .none, false, false⟩
  | .fat => ⟨false, true, .fs, .block, false, false⟩

/-- An `inform` callback: `fbcon_inform`, or whatever is at an address. -/
inductive Inform where
  | fbcon
  | other (address : Nat)
  deriving DecidableEq, Repr

/-- `device->inform`: still what the memory held when it was handed out, or stored since.
No function looks at the difference. -/
inductive Slot where
  | held (value : Option Inform)
  | stored (value : Option Inform)
  deriving DecidableEq, Repr

def Slot.value : Slot → Option Inform
  | .held value | .stored value => value

/-- What the modelled functions read behind `device->internal_dev`: the size of a
framebuffer, the number of a drive. -/
structure Internal where
  width : Nat
  height : Nat
  driveNr : Nat
  deriving DecidableEq, Repr

/-- What memory holds, read as a `struct device`. -/
structure Held where
  device : Device
  inform : Option Inform
  internal : Internal

/-- What is done to the subdevices of a framebuffer. -/
inductive SubdeviceEvent where
  | bind (dev newCon : Nat)
  | inform (callback : Inform) (subdevice sender : Nat)
  deriving DecidableEq, Repr

/-- The driver manager and the kernel's drivers.  The `handed`-th device that is
allocated is at `address handed`; the `kalloced`-th that is not cleared is in memory
that holds `held kalloced`. -/
structure DriverSystem where
  registry : Registry
  inform : Nat → Slot
  internal : Nat → Internal
  drivers : List KernDriver
  driver : KernDriver → Driver
  spIndex : Nat
  address : Nat → Nat
  handed : Nat
  held : Nat → Held
  kalloced : Nat
  events : List SubdeviceEvent

/-- `driver_init()`, over memory that holds anything. -/
def DriverSystem.boot (address : Nat → Nat) (memory held : Nat → Held) : DriverSystem where
  registry := driverInit fun p => (memory p).device
  inform := fun p => .held (memory p).inform
  internal := fun p => (memory p).internal
  drivers := []
  driver := kernDriver
  spIndex := 0
  address := address
  handed := 0
  held := held
  kalloced := 0
  events := []

/-- What the hardware answers: whether there is a VESA mode and the size that
`vesa_set_res` sets, the drives, and for a drive the partitions of type 0x0e with the
sector size in their first sector.  `none` is an error. -/
structure Hardware where
  vesaMode : Bool
  vesaRes : Option (Nat × Nat)
  drives : List Nat
  partitions : Nat → Option (List (Option Nat))

/-- Why a run cannot go on: an assertion or the search for a suffix fails, a callback is
called that is not defined, calls are nested or a loop goes on beyond the given depth,
a device is read that was given back, memory is handed out that is in use, or the
operation is not possible. -/
inductive ProbeFault where
  | assert (message : String)
  | suffix (fault : SuffixFault)
  | nullCallback
  | depth
  | freed
  | inUse
  | impossible
  deriving DecidableEq, Repr

/-! ## The constructors -/

namespace DriverSystem

/-- The registered devices. -/
def contents (s : DriverSystem) : List Device := s.registry.devices.map s.registry.device

/-- `device_get_first_available_suffix(prefix)` -/
def suffix (s : DriverSystem) (pre : List UInt8) : Except ProbeFault Nat :=
  (deviceGetFirstAvailableSuffix (s.contents.map (·.name)) pre).mapError .suffix

/-- The fields of a `struct device` are stored, but for `inform`. -/
def build (s : DriverSystem) (dev : Nat) (contents : Device) (internal : Internal) :
    DriverSystem :=
  { s with
    registry := s.registry.store dev contents
    internal := Function.update s.internal dev internal }

/-- `dev->inform = inform;` -/
def setInform (s : DriverSystem) (dev : Nat) (inform : Slot) : DriverSystem :=
  { s with inform := Function.update s.inform dev inform }

/-- `kalloc(sizeof(struct device))` -/
def kalloc (s : DriverSystem) : Except ProbeFault (DriverSystem × Nat) :=
  let dev := s.address s.handed
  let held := s.held s.kalloced
  if dev ∈ s.registry.devices then .error .inUse
  else .ok
    ({ (s.build dev held.device held.internal).setInform dev (.held held.inform) with
      handed := s.handed + 1, kalloced := s.kalloced + 1 }, dev)

/-- `kallocz(sizeof(struct device))` -/
def kallocz (s : DriverSystem) : Except ProbeFault (DriverSystem × Nat) :=
  let dev := s.address s.handed
  if dev ∈ s.registry.devices then .error .inUse
  else .ok
    ({ (s.build dev ⟨[], .none, false, none⟩ ⟨0, 0, 0⟩).setInform dev (.stored none) with
      handed := s.handed + 1 }, dev)

/-- `serial_new_dev(iobase, baudrate)` -/
def serialNewDev (s : DriverSystem) : Except ProbeFault (DriverSystem × Nat) := do
  let (s, dev) ← s.kalloc
  let name := [115, 112] ++ formatInt s.spIndex
  let s := s.build dev
    { s.registry.device dev with name := name, type := .char, destroy := true } ⟨0, 0, 0⟩
  return ({ s with spIndex := s.spIndex + 1 }, dev)

/-- `bdrive_create(drive_nr)` -/
def bdriveCreate (s : DriverSystem) (driveNr : Nat) : Except ProbeFault (DriverSystem × Nat) := do
  let (s, dev) ← s.kallocz
  let contents ← (Io.bdriveCreate s.contents).mapError .suffix
  return (s.build dev contents ⟨0, 0, driveNr⟩, dev)

/-- `fat_create(invoker, ..)`, for a partition with this first sector. -/
def fatCreate (s : DriverSystem) (invoker : Nat) (bytesPerSector : Option Nat) :
    Except ProbeFault (DriverSystem × Nat) :=
  if invoker ∈ s.registry.devices then do
    let (s, dev) ← s.kallocz
    let contents ← (Io.fatCreate s.contents (s.registry.device invoker)).mapError .suffix
    match bytesPerSector with
    | none => throw (.assert "Error reading from disk")
    | some bytesPerSector =>
      if bytesPerSector = 512 then return (s.build dev contents ⟨0, 0, 0⟩, dev)
      else throw (.assert "Bad FAT sector size")
  else throw .freed

/-- `fbcon_create(fb)` -/
def fbconCreate (s : DriverSystem) : Except ProbeFault (DriverSystem × Nat) := do
  let (s, dev) ← s.kallocz
  let suffix ← s.suffix [102, 98, 99, 111, 110]
  let contents : Device :=
    { name := [102, 98, 99, 111, 110] ++ formatInt suffix, type := .con, destroy := true
      subdevices := none }
  return ((s.build dev contents ⟨0, 0, 0⟩).setInform dev (.stored (some .fbcon)), dev)

/-! ## Subdevices -/

/-- `device_deregister(device)` -/
def deregister (depth : Nat) (s : DriverSystem) (device : Nat) : Except ProbeFault DriverSystem :=
  match deviceDeregister depth s.registry device with
  | some (registry, _) => .ok { s with registry := registry }
  | none => .error .depth

/-- `device_inform_subdevices(device, ..)`; the callbacks leave all devices as they are. -/
def informSubdevices (s : DriverSystem) (device : Nat) : DriverSystem :=
  { s with
    events := s.events ++ (s.registry.subdevices device).filterMap fun subdevice =>
      (s.inform subdevice).value.map fun callback => .inform callback subdevice device }

/-- `fbcon_dev_foreach_callback(dev)` -/
def fbconDevForeachCallback (register : DriverSystem → Nat → Except ProbeFault DriverSystem)
    (depth : Nat) (s : DriverSystem) (dev : Nat) : Except ProbeFault DriverSystem :=
  if (s.registry.device dev).type = .framebuffer then
    if (s.registry.device dev).subdevices.isSome then .ok s
    else if (s.internal dev).width > 0 ∧ (s.internal dev).height > 0 then do
      let (s, newCon) ← s.fbconCreate
      let s := s.build dev { s.registry.device dev with subdevices := some [newCon] }
        (s.internal dev)
      let s ← register { s with events := s.events ++ [.bind dev newCon] } newCon
      match deviceGetByName s.registry vgaName with
      | some vga => s.deregister depth vga
      | none => return s
    else .ok s
  else .ok s

/-- The node behind the one of `current`. -/
def nextDevice (devices : List Nat) (current : Nat) : Option Nat :=
  (devices.dropWhile (· ≠ current)).tail.head?

/-- `LIST_FOREACH(current, &devices)` from `current` on, where the body may register and
deregister devices. -/
def foreachFrom (fn : DriverSystem → Nat → Except ProbeFault DriverSystem) :
    Nat → DriverSystem → Nat → Except ProbeFault DriverSystem
  | 0, _, _ => .error .depth
  | fuel + 1, s, current => do
    let s ← fn s current
    if current ∈ s.registry.devices then
      match nextDevice s.registry.devices current with
      | some next => foreachFrom fn fuel s next
      | none => return s
    else throw .freed

/-- `device_foreach(fn)` -/
def deviceForeach (fn : DriverSystem → Nat → Except ProbeFault DriverSystem) (fuel : Nat)
    (s : DriverSystem) : Except ProbeFault DriverSystem :=
  match s.registry.devices.head? with
  | some device => foreachFrom fn fuel s device
  | none => .ok s

/-! ## Probing -/

/-- `fbcon_probe(driver, invoker)` -/
def fbconProbe (register : DriverSystem → Nat → Except ProbeFault DriverSystem) (depth : Nat)
    (s : DriverSystem) : Except ProbeFault DriverSystem :=
  deviceForeach (fbconDevForeachCallback register depth) depth s

/-- `fat_probe_directed(driver, invoker)` -/
def fatProbeDirected (register : DriverSystem → Nat → Except ProbeFault DriverSystem)
    (hw : Hardware) (s : DriverSystem) : Option Nat → Except ProbeFault DriverSystem
  | none => .ok s
  | some invoker =>
    if invoker ∈ s.registry.devices then
      if (s.registry.device invoker).type = .block then
        match hw.partitions (s.internal invoker).driveNr with
        | none => .error (.assert "Error reading from disk")
        | some partitions =>
          partitions.foldlM (fun s bytesPerSector => do
            let (s, dev) ← s.fatCreate invoker bytesPerSector
            register s dev) s
      else .ok s
    else .error .freed

/-- `vesa_probe(driver)` -/
def vesaProbe (register : DriverSystem → Nat → Except ProbeFault DriverSystem) (hw : Hardware)
    (s : DriverSystem) : Except ProbeFault DriverSystem :=
  if (s.driver .vesa).firstProbe ∧ hw.vesaMode then do
    let (s, dev) ← s.kalloc
    let suffix ← s.suffix [118, 101, 115, 97, 102, 98]
    let contents : Device :=
      { s.registry.device dev with
        name := [118, 101, 115, 97, 102, 98] ++ formatInt suffix
        type := .framebuffer
        destroy := true }
    match hw.vesaRes with
    | some (width, height) => register (s.build dev contents ⟨width, height, 0⟩) dev
    | none => return s.build dev contents ⟨0, 0, 0⟩
  else .ok s

/-- `vga_probe(driver)` -/
def vgaProbe (register : DriverSystem → Nat → Except ProbeFault DriverSystem)
    (s : DriverSystem) : Except ProbeFault DriverSystem :=
  if (s.driver .vga).firstProbe then do
    let (s, dev) ← s.kalloc
    let contents : Device :=
      { s.registry.device dev with name := vgaName, type := .con, destroy := false }
    register (s.build dev contents ⟨0, 0, 0⟩) dev
  else .ok s

/-- `serial_probe(driver)` -/
def serialProbe (register : DriverSystem → Nat → Except ProbeFault DriverSystem)
    (s : DriverSystem) : Except ProbeFault DriverSystem :=
  if (s.driver .serial).firstProbe then
    (List.range 4).foldlM (fun s _ => do
      let (s, dev) ← s.serialNewDev
      register s dev) s
  else .ok s

/-- `bdrive_probe(driver)` -/
def bdriveProbe (register : DriverSystem → Nat → Except ProbeFault DriverSystem) (hw : Hardware)
    (s : DriverSystem) : Except ProbeFault DriverSystem :=
  if (s.driver .bdrive).firstProbe then
    hw.drives.foldlM (fun s driveNr => do
      let (s, dev) ← s.bdriveCreate driveNr
      register s dev) s
  else .ok s

/-- `driver->probe(driver)` -/
def probe (register : DriverSystem → Nat → Except ProbeFault DriverSystem) (hw : Hardware)
    (s : DriverSystem) : KernDriver → Except ProbeFault DriverSystem
  | .vesa => s.vesaProbe register hw
  | .vga => s.vgaProbe register
  | .serial => s.serialProbe register
  | .bdrive => s.bdriveProbe register hw
  | .fbcon | .fat => .error .nullCallback

/-- `driver->probe_directed(driver, invoker)` -/
def probeDirected (register : DriverSystem → Nat → Except ProbeFault DriverSystem) (depth : Nat)
    (hw : Hardware) (s : DriverSystem) (invoker : Option Nat) :
    KernDriver → Except ProbeFault DriverSystem
  | .fbcon => s.fbconProbe register depth
  | .fat => s.fatProbeDirected register hw invoker
  | .vesa | .vga | .serial | .bdrive => .error .nullCallback

/-- `device_register(device)` -/
def deviceRegister (hw : Hardware) : Nat → DriverSystem → Nat → Except ProbeFault DriverSystem
  | 0, _, _ => .error .depth
  | depth + 1, s, device =>
    s.drivers.foldlM (fun s drv =>
      if device ∈ s.registry.devices then
        if (s.driver drv).dependsOn ≠ .none ∧
            (s.driver drv).dependsOn = (s.registry.device device).type then
          if (s.driver drv).probeDirected then
            s.probeDirected (deviceRegister hw depth) depth hw (some device) drv
          else .error (.assert "Device defining depends_on must define probe_directed")
        else .ok s
      else .error .freed) { s with registry := Io.deviceRegister s.registry device }

/-- `driver->first_probe = value;` -/
def setFirstProbe (s : DriverSystem) (drv : KernDriver) (value : Bool) : DriverSystem :=
  { s with driver := Function.update s.driver drv { s.driver drv with firstProbe := value } }

/-- The callbacks of `driver_first_probe(driver)`. -/
def firstProbes (depth : Nat) (hw : Hardware) (s : DriverSystem) (drv : KernDriver) :
    Except ProbeFault DriverSystem :=
  if (s.driver drv).probe then s.probe (deviceRegister hw depth) hw drv
  else if (s.driver drv).dependsOn ≠ .none then
    deviceForeach (fun s device =>
      if (s.registry.device device).type = (s.driver drv).dependsOn then
        s.probeDirected (deviceRegister hw depth) depth hw (some device) drv
      else .ok s) depth s
  else s.probeDirected (deviceRegister hw depth) depth hw none drv

/-- `driver_first_probe(driver)` -/
def driverFirstProbe (depth : Nat) (hw : Hardware) (s : DriverSystem) (drv : KernDriver) :
    Except ProbeFault DriverSystem := do
  let s ← (s.setFirstProbe drv true).firstProbes depth hw drv
  return s.setFirstProbe drv false

/-- `driver_register(driver)` -/
def driverRegister (depth : Nat) (hw : Hardware) (s : DriverSystem) (drv : KernDriver) :
    Except ProbeFault DriverSystem :=
  let s := { s with drivers := s.drivers ++ [drv] }
  if (s.driver drv).probe ∨ (s.driver drv).probeDirected then
    if (s.driver drv).disabled then .ok s else s.driverFirstProbe depth hw drv
  else .error (.assert "Driver must define probe")

/-- `driver_enable(driver)` -/
def driverEnable (depth : Nat) (hw : Hardware) (s : DriverSystem) (drv : KernDriver) :
    Except ProbeFault DriverSystem :=
  { s with
    driver := Function.update s.driver drv { s.driver drv with disabled := false }
  }.driverFirstProbe depth hw drv

/-- `driver_probe_for(type, invoker)` -/
def driverProbeFor (depth : Nat) (hw : Hardware) (s : DriverSystem) (type : DeviceType)
    (invoker : Option Nat) : Except ProbeFault DriverSystem :=
  s.drivers.foldlM (fun s drv =>
    if (s.driver drv).typeFor = type then
      if (s.driver drv).probe then s.probe (deviceRegister hw depth) hw drv
      else s.probeDirected (deviceRegister hw depth) depth hw invoker drv
    else .ok s) s

end DriverSystem

/-! ## Runs -/

/-- A driver is registered, enabled or probed again; a device that somebody else has
filled in, all its fields, is registered; a device is deregistered; a mode is set
(`vesa_setparam`); memory of the size of a device is handed out for something else. -/
inductive DriverOp where
  | driverRegister (drv : KernDriver) (hw : Hardware)
  | driverEnable (drv : KernDriver) (hw : Hardware)
  | driverProbeFor (type : DeviceType) (invoker : Option Nat) (hw : Hardware)
  | deviceRegister (contents : Device) (internal : Internal) (inform : Option Inform)
      (hw : Hardware)
  | deviceDeregister (device : Nat)
  | setRes (device width height : Nat)
  | reuse

/-- One operation; calls are nested, and loops go on, below the depth. -/
def driverStep (depth : Nat) (s : DriverSystem) : DriverOp → Except ProbeFault DriverSystem
  | .driverRegister drv hw => s.driverRegister depth hw drv
  | .driverEnable drv hw => s.driverEnable depth hw drv
  | .driverProbeFor type invoker hw => s.driverProbeFor depth hw type invoker
  | .deviceRegister contents internal inform hw => do
    let (s, dev) ← s.kallocz
    ((s.build dev contents internal).setInform dev (.stored inform)).deviceRegister hw depth dev
  | .deviceDeregister device => s.deregister depth device
  | .setRes device width height =>
    if device ∈ s.registry.devices ∧ (s.registry.device device).type = .framebuffer then
      .ok ((s.build device (s.registry.device device)
        { s.internal device with width := width, height := height }).informSubdevices device)
    else .error .impossible
  | .reuse => Prod.fst <$> s.kalloc

/-- What is seen of a run: the registered devices, what `device_deregister` did, and
which devices were bound and informed. -/
def observed (result : Except ProbeFault DriverSystem) :
    Except ProbeFault (List Nat × List DeviceEvent × List SubdeviceEvent) :=
  result.map fun s => (s.registry.devices, s.registry.log, s.events)

/-- The devices from `kalloc` that the first probe of a driver registers. -/
def KernDriver.kallocs (hw : Hardware) : KernDriver → Nat
  | .vesa => if hw.vesaMode ∧ hw.vesaRes.isSome then 1 else 0
  | .vga => 1
  | .serial => 4
  | .fbcon | .bdrive | .fat => 0

/-- The memory that the first probe gets from `kalloc` for its devices holds NULL in
`subdevices`. -/
def DriverSystem.GetsNull (s : DriverSystem) (drv : KernDriver) (hw : Hardware) : Prop :=
  ∀ i < drv.kallocs hw, (s.held (s.kalloced + i)).device.subdevices = none

instance (s : DriverSystem) (drv : KernDriver) (hw : Hardware) : Decidable (s.GetsNull drv hw) :=
  inferInstanceAs (Decidable (∀ _ < _, _))

/-- `inform` was stored, or the memory held NULL there. -/
def Slot.Clean : Slot → Prop
  | .held value => value = none
  | .stored _ => True

instance (slot : Slot) : Decidable slot.Clean := by
  cases slot <;> unfold Slot.Clean <;> infer_instance

/-- A first probe gets memory that holds NULL in `subdevices`, and only devices whose
`inform` is clean are informed. -/
def DriverSystem.Clean (s : DriverSystem) : DriverOp → Prop
  | .driverRegister drv hw => (s.driver drv).disabled = false → s.GetsNull drv hw
  | .driverEnable drv hw => s.GetsNull drv hw
  | .setRes device _ _ => ∀ subdevice ∈ s.registry.subdevices device, (s.inform subdevice).Clean
  | _ => True

instance (s : DriverSystem) (op : DriverOp) : Decidable (s.Clean op) := by
  unfold DriverSystem.Clean
  split <;> infer_instance

end Microboot.Kern.Io
