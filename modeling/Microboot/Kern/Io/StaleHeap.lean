/-
  Kern/Io/StaleHeap.lean --- devices in memory that was used before.

  Two runs of the same operations get memory at the same addresses; what it holds
  there differs.  `Alike` relates the states of two such runs: they list the same
  devices, and the memory of these holds the same.

  It is kept by every constructor whose memory is cleared, and by the others if
  `subdevices` is NULL in the memory that they get.  A framebuffer with anything else
  there counts as bound.
-/
import Microboot.Foundation.TwoRuns
import Microboot.Kern.Io.Constructors

set_option autoImplicit false

namespace Microboot.Kern.Io

open Microboot.Foundation

/-! ## Two registries -/

section Registries

variable {K K' : Nat → Prop} {r₁ r₂ : Registry}

/-- The registries list the same devices and did the same, and the memory of the known
devices, which the registered ones are, holds the same. -/
structure SameOn (K : Nat → Prop) (r₁ r₂ : Registry) : Prop where
  devices : r₁.devices = r₂.devices
  log : r₁.log = r₂.log
  known : ∀ d ∈ r₁.devices, K d
  device : ∀ d, K d → r₁.device d = r₂.device d

theorem SameOn.subdevices (h : SameOn K r₁ r₂) {d : Nat} (hd : K d) :
    r₁.subdevices d = r₂.subdevices d := by
  rw [Registry.subdevices, h.device d hd, Registry.subdevices]

theorem SameOn.event (h : SameOn K r₁ r₂) (e : DeviceEvent) : SameOn K (r₁.event e) (r₂.event e) :=
  { h with log := congrArg (· ++ [e]) h.log }

theorem SameOn.store (h : SameOn K r₁ r₂) (d : Nat) (contents : Device) :
    SameOn (fun x => K x ∨ x = d) (r₁.store d contents) (r₂.store d contents) where
  devices := h.devices
  log := h.log
  known x hx := Or.inl (h.known x hx)
  device x hx := by
    by_cases hxd : x = d
    · simp [Registry.store, hxd]
    · simpa [Registry.store, hxd] using h.device x (hx.resolve_right hxd)

theorem SameOn.mono (h : SameOn K r₁ r₂) (hK : ∀ d, K' d → K d)
    (hknown : ∀ d ∈ r₁.devices, K' d) : SameOn K' r₁ r₂ :=
  ⟨h.devices, h.log, hknown, fun d hd => h.device d (hK d hd)⟩

theorem SameOn.clearSubdevices (h : SameOn K r₁ r₂) {d : Nat} (hd : K d) :
    SameOn K (r₁.clearSubdevices d) (r₂.clearSubdevices d) := by
  have hstore := h.store d { r₁.device d with subdevices := some [] }
  rw [Registry.clearSubdevices, Registry.clearSubdevices, ← h.device d hd]
  exact hstore.mono (fun _ hx => Or.inl hx) h.known

theorem SameOn.erase (h : SameOn K r₁ r₂) (d : Nat) :
    SameOn K { r₁ with devices := r₁.devices.erase d } { r₂ with devices := r₂.devices.erase d } where
  devices := congrArg (·.erase d) h.devices
  log := h.log
  known x hx := h.known x (List.mem_of_mem_erase hx)
  device := h.device

/-- `device_deregister` visits and removes the same devices. -/
theorem SameOn.deviceDeregister (h : SameOn K r₁ r₂) (depth d : Nat) :
    Option.Rel (fun a b => a.2 = b.2 ∧ SameOn K a.1 b.1)
      (deviceDeregister depth r₁ d) (deviceDeregister depth r₂ d) := by
  induction depth generalizing r₁ r₂ d with
  | zero => exact .none
  | succ depth ih =>
    have hvisit := h.event (.deregister d)
    rw [Io.deviceDeregister, Io.deviceDeregister]
    simp only [← hvisit.devices]
    split
    · next hd =>
      have hK := hvisit.known d hd
      -- the loop over the subdevices
      have hsubs : Option.Rel (fun a b => a.2 = b.2 ∧ SameOn K a.1 b.1)
          (deviceDeregisterSubdevices (Io.deviceDeregister depth) (r₁.event (.deregister d)) d)
          (deviceDeregisterSubdevices (Io.deviceDeregister depth) (r₂.event (.deregister d)) d) := by
        rw [deviceDeregisterSubdevices, deviceDeregisterSubdevices, ← hvisit.device d hK]
        cases ((r₁.event (.deregister d)).device d).subdevices with
        | none => exact .some ⟨rfl, hvisit⟩
        | some subdevices =>
          refine rel_bind (rel_foldlM (fun a b i hab => ?_) hvisit) fun a b hab =>
            .some ⟨rfl, hab.clearSubdevices hK⟩
          rw [deregisterSubdevice, deregisterSubdevice, ← hab.subdevices hK]
          cases (a.subdevices d)[i]? with
          | none => exact .some hab
          | some subdevice => exact rel_map (ih hab subdevice) fun _ _ hcall => hcall.2
      refine rel_bind hsubs fun a b hab => .some ⟨rfl, ?_⟩
      dsimp only
      rw [← hab.2.device d hK]
      split
      · exact ((hab.2.event _).event _).erase d
      · exact (hab.2.event _).erase d
    · exact .some ⟨rfl, hvisit⟩

theorem SameOn.deviceGetByName (h : SameOn K r₁ r₂) (name : List UInt8) :
    deviceGetByName r₁ name = deviceGetByName r₂ name := by
  rw [Io.deviceGetByName, Io.deviceGetByName, ← h.devices, ← List.head?_filter,
    ← List.head?_filter]
  refine congrArg List.head? (List.filter_congr fun d hd => ?_)
  rw [h.device d (h.known d hd)]

end Registries

/-! ## Two systems -/

/-- What was stored in the slot since the memory was handed out. -/
def Slot.known : Slot → Option (Option Inform)
  | .held _ => none
  | .stored value => some value

theorem Slot.Clean.value_eq {slot : Slot} (h : slot.Clean) : slot.value = slot.known.join := by
  cases slot with
  | held value => exact h
  | stored value => rfl

/-- What the memory from `kalloc` holds in each of two runs, how many devices were taken
from it, and the drivers. -/
structure Pairing where
  left : Nat → Held
  right : Nat → Held
  kalloced : Nat
  driver : KernDriver → Driver

/-- One device more was taken from `kalloc`. -/
def Pairing.next (c : Pairing) : Pairing := { c with kalloced := c.kalloced + 1 }

/-- The system is one of the pair, with this memory. -/
structure Within (c : Pairing) (held : Nat → Held) (s : DriverSystem) : Prop where
  held : s.held = held
  kalloced : s.kalloced = c.kalloced
  driver : s.driver = c.driver

/-- The systems differ in what the memory holds that is not a registered device, and in
the fields `inform` that nothing was stored in. -/
structure Alike (c : Pairing) (s₁ s₂ : DriverSystem) : Prop where
  left : Within c c.left s₁
  right : Within c c.right s₂
  registry : SameOn (· ∈ s₁.registry.devices) s₁.registry s₂.registry
  internal : ∀ d ∈ s₁.registry.devices, s₁.internal d = s₂.internal d
  inform : ∀ d, (s₁.inform d).known = (s₂.inform d).known
  drivers : s₁.drivers = s₂.drivers
  spIndex : s₁.spIndex = s₂.spIndex
  address : s₁.address = s₂.address
  handed : s₁.handed = s₂.handed
  events : s₁.events = s₂.events

/-- A device that is not registered yet holds the same in both. -/
structure Ready (s₁ s₂ : DriverSystem) (dev : Nat) : Prop where
  device : s₁.registry.device dev = s₂.registry.device dev
  internal : s₁.internal dev = s₂.internal dev

section Systems

theorem Ready.build {s₁ s₂ : DriverSystem} {d : Nat} (h : Ready s₁ s₂ d) (dev : Nat)
    (contents : Device) (internal : Internal) :
    Ready (s₁.build dev contents internal) (s₂.build dev contents internal) d := by
  by_cases hd : d = dev
  · constructor <;> simp [DriverSystem.build, Registry.store, hd]
  · constructor
    · simpa [DriverSystem.build, Registry.store, hd] using h.device
    · simpa [DriverSystem.build, hd] using h.internal

variable {c : Pairing} {s₁ s₂ : DriverSystem}

namespace Alike

theorem ready (h : Alike c s₁ s₂) {d : Nat} (hd : d ∈ s₁.registry.devices) :
    Ready s₁ s₂ d :=
  ⟨h.registry.device d hd, h.internal d hd⟩

theorem contents (h : Alike c s₁ s₂) : s₁.contents = s₂.contents := by
  rw [DriverSystem.contents, DriverSystem.contents, ← h.registry.devices]
  exact List.map_congr_left fun d hd => h.registry.device d hd

theorem suffix (h : Alike c s₁ s₂) (pre : List UInt8) :
    s₁.suffix pre = s₂.suffix pre := by
  rw [DriverSystem.suffix, h.contents, DriverSystem.suffix]

/-- The same is stored in a device. -/
theorem build (h : Alike c s₁ s₂) (dev : Nat) (contents : Device)
    (internal : Internal) :
    Alike c (s₁.build dev contents internal) (s₂.build dev contents internal) ∧
      Ready (s₁.build dev contents internal) (s₂.build dev contents internal) dev := by
  have hstore := h.registry.store dev contents
  refine ⟨{ h with
      left := { h.left with }
      right := { h.right with }
      registry := hstore.mono (fun _ hd => Or.inl hd) fun _ hd => hd
      internal := fun d hd => ?_ }, hstore.device dev (Or.inr rfl), ?_⟩
  · by_cases hdev : d = dev
    · simp [DriverSystem.build, hdev]
    · simpa [DriverSystem.build, hdev] using h.internal d hd
  · simp [DriverSystem.build]

theorem setInform (h : Alike c s₁ s₂) (dev : Nat) (slot₁ slot₂ : Slot)
    (hslot : slot₁.known = slot₂.known) :
    Alike c (s₁.setInform dev slot₁) (s₂.setInform dev slot₂) := by
  refine { h with left := { h.left with }, right := { h.right with }, inform := fun d => ?_ }
  by_cases hdev : d = dev
  · simpa [DriverSystem.setInform, hdev] using hslot
  · simpa [DriverSystem.setInform, hdev] using h.inform d

theorem event (h : Alike c s₁ s₂) (e : SubdeviceEvent) :
    Alike c { s₁ with events := s₁.events ++ [e] } { s₂ with events := s₂.events ++ [e] } :=
  { h with
    left := { h.left with }
    right := { h.right with }
    events := congrArg (· ++ [e]) h.events }

/-- Anything is stored in devices that are not registered. -/
theorem scratch (h : Alike c s₁ s₂) {dev : Nat}
    (hdev : dev ∉ s₁.registry.devices) (c₁ c₂ : Device) (i₁ i₂ : Internal) :
    Alike c (s₁.build dev c₁ i₁) (s₂.build dev c₂ i₂) := by
  have hne : ∀ d ∈ s₁.registry.devices, d ≠ dev := fun d hd heq => hdev (heq ▸ hd)
  refine { h with
    left := { h.left with }
    right := { h.right with }
    registry := ⟨h.registry.devices, h.registry.log, fun _ hd => hd, fun d hd => ?_⟩
    internal := fun d hd => ?_ }
  · simpa [DriverSystem.build, Registry.store, hne d hd] using h.registry.device d hd
  · simpa [DriverSystem.build, hne d hd] using h.internal d hd

end Alike

/-- The pointer is the same, and its memory is that of no registered device. -/
structure Allocated (c : Pairing) (devices : List Nat) (a b : DriverSystem × Nat) : Prop where
  dev : a.2 = b.2
  devices : a.1.registry.devices = devices
  fresh : a.2 ∉ a.1.registry.devices
  alike : Alike c a.1 b.1

namespace Alike

/-- The memory from `kalloc` holds what it held in each of the runs. -/
theorem kalloc (h : Alike c s₁ s₂) :
    Both (fun a b => Allocated c.next s₁.registry.devices a b ∧
        (a.1.registry.device a.2).subdevices = (c.left c.kalloced).device.subdevices ∧
        (b.1.registry.device b.2).subdevices = (c.right c.kalloced).device.subdevices)
      s₁.kalloc s₂.kalloc := by
  unfold DriverSystem.kalloc
  rw [← h.address, ← h.handed, ← h.registry.devices, h.left.held, h.right.held, h.left.kalloced,
    h.right.kalloced]
  refine .ite Iff.rfl (fun _ => .error _) fun hdev => .ok ⟨⟨rfl, rfl, hdev, ?_⟩, ?_⟩
  · have hscratch := (h.scratch hdev (c.left c.kalloced).device (c.right c.kalloced).device
      (c.left c.kalloced).internal (c.right c.kalloced).internal).setInform
        (s₁.address s₁.handed) (.held (c.left c.kalloced).inform)
        (.held (c.right c.kalloced).inform) rfl
    exact { hscratch with
      left := { hscratch.left with kalloced := rfl }
      right := { hscratch.right with kalloced := rfl }
      handed := rfl }
  · simp [DriverSystem.build, DriverSystem.setInform, Registry.store]

theorem kallocz (h : Alike c s₁ s₂) :
    Both (Allocated c s₁.registry.devices) s₁.kallocz s₂.kallocz := by
  unfold DriverSystem.kallocz
  rw [← h.address, ← h.handed, ← h.registry.devices]
  refine .ite Iff.rfl (fun _ => .error _) fun hdev => .ok ⟨rfl, rfl, hdev, ?_⟩
  have hbuild := (h.build (s₁.address s₁.handed) ⟨[], .none, false, none⟩ ⟨0, 0, 0⟩).1.setInform
    (s₁.address s₁.handed) (.stored none) (.stored none) rfl
  exact { hbuild with left := { hbuild.left with }, right := { hbuild.right with }, handed := rfl }

end Alike

/-- A device was created, and it holds the same in both. -/
structure Created (c : Pairing) (devices : List Nat) (a b : DriverSystem × Nat) : Prop where
  dev : a.2 = b.2
  devices : a.1.registry.devices = devices
  alike : Alike c a.1 b.1
  ready : Ready a.1 b.1 a.2

/-- What a probe stores in a device leaves `subdevices` as it is. -/
theorem filled_eq {d₁ d₂ : Device} (hsubs : d₁.subdevices = d₂.subdevices)
    {name₁ name₂ : List UInt8} (hname : name₁ = name₂) (type : DeviceType) (destroy : Bool) :
    ({ d₁ with name := name₁, type := type, destroy := destroy } : Device) =
      { d₂ with name := name₂, type := type, destroy := destroy } := by
  simp [hsubs, hname]

theorem Allocated.build {a b : DriverSystem × Nat} {devices : List Nat} (h : Allocated c devices a b)
    {c₁ c₂ : Device} (hc : c₁ = c₂) (internal : Internal) :
    Created c devices (a.1.build a.2 c₁ internal, a.2)
      (b.1.build b.2 c₂ internal, b.2) := by
  obtain ⟨halike, hready⟩ := h.alike.build a.2 c₁ internal
  rw [← h.dev, ← hc]
  exact ⟨rfl, h.devices, halike, hready⟩

theorem Created.setInform {devices : List Nat} {a b : DriverSystem × Nat}
    (h : Created c devices a b) (slot : Slot) :
    Created c devices (a.1.setInform a.2 slot, a.2) (b.1.setInform b.2 slot, b.2) := by
  rw [← h.dev]
  exact ⟨rfl, h.devices, h.alike.setInform a.2 _ _ rfl, { h.ready with }⟩

namespace Alike

/-- A device from `kalloc` is the same in both runs if its memory held NULL in
`subdevices`. -/
theorem serialNewDev (h : Alike c s₁ s₂)
    (h₁ : (c.left c.kalloced).device.subdevices = none)
    (h₂ : (c.right c.kalloced).device.subdevices = none) :
    Both (Created c.next s₁.registry.devices) s₁.serialNewDev s₂.serialNewDev := by
  refine h.kalloc.bind fun a b hab => .ok ?_
  obtain ⟨halloc, ha, hb⟩ := hab
  have hsubs := (ha.trans h₁).trans (hb.trans h₂).symm
  have hname := congrArg (fun i : Nat => ([115, 112] : List UInt8) ++ formatInt i)
    halloc.alike.spIndex
  have hcreated := halloc.build (filled_eq hsubs hname .char true) ⟨0, 0, 0⟩
  exact ⟨hcreated.dev, hcreated.devices, { hcreated.alike with
    left := { hcreated.alike.left with }
    right := { hcreated.alike.right with }
    spIndex := congrArg (· + 1) hcreated.alike.spIndex }, { hcreated.ready with }⟩

theorem bdriveCreate (h : Alike c s₁ s₂) (driveNr : Nat) :
    Both (Created c s₁.registry.devices) (s₁.bdriveCreate driveNr) (s₂.bdriveCreate driveNr) := by
  refine h.kallocz.bind ?_
  rintro ⟨t₁, dev⟩ ⟨t₂, dev'⟩ hab
  dsimp only
  rw [← hab.alike.contents]
  exact (Both.of_eq rfl).bind fun c₁ c₂ hc => .ok (hab.build hc _)

theorem fatCreate (h : Alike c s₁ s₂) (invoker : Nat) (bytesPerSector : Option Nat) :
    Both (Created c s₁.registry.devices) (s₁.fatCreate invoker bytesPerSector)
      (s₂.fatCreate invoker bytesPerSector) := by
  unfold DriverSystem.fatCreate
  refine .ite (by rw [h.registry.devices]) (fun hinvoker => ?_) fun _ => .error _
  refine h.kallocz.bind ?_
  rintro ⟨t₁, dev⟩ ⟨t₂, dev'⟩ hab
  dsimp only
  rw [← hab.alike.contents, (hab.alike.ready (hab.devices ▸ hinvoker)).device]
  refine (Both.of_eq rfl).bind fun c₁ c₂ hc => ?_
  cases bytesPerSector with
  | none => exact .error _
  | some bytesPerSector =>
    exact .ite Iff.rfl (fun _ => .ok (hab.build hc _)) fun _ => .error _

theorem fbconCreate (h : Alike c s₁ s₂) :
    Both (Created c s₁.registry.devices) s₁.fbconCreate s₂.fbconCreate := by
  refine h.kallocz.bind ?_
  rintro ⟨t₁, dev⟩ ⟨t₂, dev'⟩ hab
  dsimp only
  rw [← hab.alike.suffix]
  refine (Both.of_eq rfl).bind fun suffix _ hsuffix => .ok ?_
  rw [← hsuffix]
  exact (hab.build rfl _).setInform _

theorem deregister (h : Alike c s₁ s₂) (depth d : Nat) :
    Both (Alike c) (s₁.deregister depth d) (s₂.deregister depth d) := by
  have hcall := h.registry.deviceDeregister depth d
  unfold DriverSystem.deregister
  generalize deviceDeregister depth s₁.registry d = x at hcall ⊢
  generalize deviceDeregister depth s₂.registry d = y at hcall ⊢
  cases hcall with
  | none => exact .error _
  | some hab =>
    obtain ⟨-, hsame⟩ := hab
    exact .ok { h with
      left := { h.left with }
      right := { h.right with }
      registry := hsame.mono hsame.known fun _ hd => hd
      internal := fun d hd => h.internal d (hsame.known d hd) }

end Alike

/-- Two runs of the callee stay alike. -/
def Registers (register : DriverSystem → Nat → Except ProbeFault DriverSystem) : Prop :=
  ∀ c s₁ s₂ dev, Alike c s₁ s₂ → Ready s₁ s₂ dev → Both (Alike c) (register s₁ dev) (register s₂ dev)

theorem nextDevice_mem {devices : List Nat} {current next : Nat}
    (h : DriverSystem.nextDevice devices current = some next) : next ∈ devices :=
  (List.dropWhile_sublist _).subset (List.mem_of_mem_tail (List.mem_of_mem_head? h))

namespace Alike

variable {register : DriverSystem → Nat → Except ProbeFault DriverSystem}

theorem foreachFrom {fn₁ fn₂ : DriverSystem → Nat → Except ProbeFault DriverSystem}
    (h : Alike c s₁ s₂)
    (hfn : ∀ s₁ s₂ d, Alike c s₁ s₂ → d ∈ s₁.registry.devices →
      Both (Alike c) (fn₁ s₁ d) (fn₂ s₂ d))
    (fuel : Nat) {current : Nat} (hcurrent : current ∈ s₁.registry.devices) :
    Both (Alike c) (DriverSystem.foreachFrom fn₁ fuel s₁ current)
      (DriverSystem.foreachFrom fn₂ fuel s₂ current) := by
  induction fuel generalizing s₁ s₂ current with
  | zero => exact .error _
  | succ fuel ih =>
    refine (hfn s₁ s₂ current h hcurrent).bind fun a b hab => ?_
    rw [← hab.registry.devices]
    refine .ite Iff.rfl (fun _ => ?_) fun _ => .error _
    cases hnext : DriverSystem.nextDevice a.registry.devices current with
    | none => exact .ok hab
    | some next => exact ih hab (nextDevice_mem hnext)

theorem deviceForeach {fn₁ fn₂ : DriverSystem → Nat → Except ProbeFault DriverSystem}
    (h : Alike c s₁ s₂)
    (hfn : ∀ s₁ s₂ d, Alike c s₁ s₂ → d ∈ s₁.registry.devices →
      Both (Alike c) (fn₁ s₁ d) (fn₂ s₂ d))
    (fuel : Nat) :
    Both (Alike c) (DriverSystem.deviceForeach fn₁ fuel s₁)
      (DriverSystem.deviceForeach fn₂ fuel s₂) := by
  unfold DriverSystem.deviceForeach
  rw [← h.registry.devices]
  cases hhead : s₁.registry.devices.head? with
  | none => exact .ok h
  | some device => exact h.foreachFrom hfn fuel (List.mem_of_mem_head? hhead)

/-- The same framebuffers are bound. -/
theorem fbconDevForeachCallback (h : Alike c s₁ s₂) (hreg : Registers register) (depth : Nat)
    {dev : Nat} (hdev : dev ∈ s₁.registry.devices) :
    Both (Alike c) (s₁.fbconDevForeachCallback register depth dev)
      (s₂.fbconDevForeachCallback register depth dev) := by
  unfold DriverSystem.fbconDevForeachCallback
  rw [← (h.ready hdev).device, ← (h.ready hdev).internal]
  refine .ite Iff.rfl (fun _ => ?_) fun _ => .ok h
  refine .ite Iff.rfl (fun _ => .ok h) fun _ => ?_
  refine .ite Iff.rfl (fun _ => ?_) fun _ => .ok h
  refine h.fbconCreate.bind ?_
  rintro ⟨t₁, newCon⟩ ⟨t₂, newCon'⟩ hcreated
  obtain rfl : newCon = newCon' := hcreated.dev
  have hdev' := hcreated.alike.ready (hcreated.devices ▸ hdev)
  dsimp only
  rw [← hdev'.device, ← hdev'.internal]
  obtain ⟨hbuild, -⟩ := hcreated.alike.build dev
    { t₁.registry.device dev with subdevices := some [newCon] } (t₁.internal dev)
  have hready := hcreated.ready.build dev
    { t₁.registry.device dev with subdevices := some [newCon] } (t₁.internal dev)
  refine (hreg c _ _ newCon (hbuild.event (.bind dev newCon)) { hready with }).bind
    fun a b hab => ?_
  rw [← hab.registry.deviceGetByName]
  cases deviceGetByName a.registry vgaName with
  | none => exact .ok hab
  | some vga => exact hab.deregister depth vga

theorem fatProbeDirected (h : Alike c s₁ s₂) (hreg : Registers register) (hw : Hardware)
    (invoker : Option Nat) :
    Both (Alike c) (s₁.fatProbeDirected register hw invoker)
      (s₂.fatProbeDirected register hw invoker) := by
  cases invoker with
  | none => exact .ok h
  | some invoker =>
    unfold DriverSystem.fatProbeDirected
    refine .ite (by rw [h.registry.devices]) (fun hinvoker => ?_) fun _ => .error _
    rw [← (h.ready hinvoker).device, ← (h.ready hinvoker).internal]
    refine .ite Iff.rfl (fun _ => ?_) fun _ => .ok h
    cases hw.partitions (s₁.internal invoker).driveNr with
    | none => exact .error _
    | some partitions =>
      refine .foldlM rfl (fun _ => Alike c) (fun _ _ bytesPerSector a b hab => ?_) h
      refine (hab.fatCreate invoker bytesPerSector).bind ?_
      rintro ⟨t₁, dev⟩ ⟨t₂, dev'⟩ hcreated
      obtain rfl : dev = dev' := hcreated.dev
      exact hreg c t₁ t₂ dev hcreated.alike hcreated.ready

theorem probeDirected (h : Alike c s₁ s₂) (hreg : Registers register) (depth : Nat)
    (hw : Hardware) (invoker : Option Nat) (drv : KernDriver) :
    Both (Alike c) (s₁.probeDirected register depth hw invoker drv)
      (s₂.probeDirected register depth hw invoker drv) := by
  cases drv with
  | fbcon => exact h.deviceForeach (fun _ _ _ hab => hab.fbconDevForeachCallback hreg depth) depth
  | fat => exact h.fatProbeDirected hreg hw invoker
  | vesa | vga | serial | bdrive => exact .error _

/-- A device that holds the same in both runs is registered. -/
theorem registers (hw : Hardware) (depth : Nat) :
    Registers (DriverSystem.deviceRegister hw depth) := by
  induction depth with
  | zero => exact fun _ _ _ _ _ _ => .error _
  | succ depth ih =>
    intro c s₁ s₂ dev h hready
    have hmem : ∀ d ∈ (Io.deviceRegister s₁.registry dev).devices,
        d ∈ s₁.registry.devices ∨ d = dev := fun d hd => mem_deviceRegister.mp hd
    have hregister : Alike c { s₁ with registry := Io.deviceRegister s₁.registry dev }
        { s₂ with registry := Io.deviceRegister s₂.registry dev } := by
      refine { h with
        left := { h.left with }
        right := { h.right with }
        registry := ⟨congrArg (· ++ [dev]) h.registry.devices, h.registry.log,
          fun _ hd => hd, fun d hd => ?_⟩
        internal := fun d hd => ?_ }
      · rcases hmem d hd with hold | rfl
        · exact h.registry.device d hold
        · exact hready.device
      · rcases hmem d hd with hold | rfl
        · exact h.internal d hold
        · exact hready.internal
    rw [DriverSystem.deviceRegister, DriverSystem.deviceRegister]
    refine .foldlM h.drivers (fun _ => Alike c) (fun _ _ drv a b hab => ?_) hregister
    refine .ite (by rw [hab.registry.devices]) (fun hdev => ?_) fun _ => .error _
    rw [← (hab.ready hdev).device, hab.left.driver, hab.right.driver]
    refine .ite Iff.rfl (fun _ => ?_) fun _ => .ok hab
    exact .ite Iff.rfl (fun _ => hab.probeDirected ih depth hw _ drv) fun _ => .error _

end Alike

/-- The memory of the first probe's devices holds NULL in `subdevices` in both runs. -/
def Pairing.GetsNull (c : Pairing) (drv : KernDriver) (hw : Hardware) : Prop :=
  ∀ i < drv.kallocs hw, (c.left (c.kalloced + i)).device.subdevices = none ∧
    (c.right (c.kalloced + i)).device.subdevices = none

/-- The systems are alike, after some more devices from `kalloc`. -/
def AlikeFrom (c : Pairing) (s₁ s₂ : DriverSystem) : Prop :=
  ∃ n, Alike { c with kalloced := n } s₁ s₂

theorem Alike.from (h : Alike c s₁ s₂) : AlikeFrom c s₁ s₂ := ⟨c.kalloced, h⟩

namespace Alike

variable {register : DriverSystem → Nat → Except ProbeFault DriverSystem}

/-- A device from `kalloc` is filled in and registered. -/
theorem registerFilled (hreg : Registers register) {a b : DriverSystem × Nat}
    {devices : List Nat} (h : Allocated c devices a b) {contents₁ contents₂ : Device}
    (hcontents : contents₁ = contents₂) (internal : Internal) :
    Both (AlikeFrom c) (register (a.1.build a.2 contents₁ internal) a.2)
      (register (b.1.build b.2 contents₂ internal) b.2) := by
  have hcreated := h.build hcontents internal
  rw [← h.dev] at hcreated ⊢
  exact (hreg c _ _ _ hcreated.alike hcreated.ready).mono fun _ _ => Alike.from

theorem vesaProbe (h : Alike c s₁ s₂) (hreg : Registers register) (hw : Hardware)
    (hnull : (c.driver .vesa).firstProbe = true → c.GetsNull .vesa hw) :
    Both (AlikeFrom c) (s₁.vesaProbe register hw) (s₂.vesaProbe register hw) := by
  unfold DriverSystem.vesaProbe
  rw [h.left.driver, h.right.driver]
  refine .ite Iff.rfl (fun hfirst => ?_) fun _ => .ok h.from
  refine h.kalloc.bind ?_
  rintro ⟨t₁, dev⟩ ⟨t₂, dev'⟩ ⟨halloc, h₁, h₂⟩
  dsimp only at h₁ h₂ ⊢
  rw [← halloc.alike.suffix]
  refine (Both.of_eq rfl).bind fun suffix _ hsuffix => ?_
  rw [← hsuffix]
  cases hres : hw.vesaRes with
  | none =>
    obtain rfl : dev = dev' := halloc.dev
    exact .ok ⟨_, halloc.alike.scratch halloc.fresh _ _ _ _⟩
  | some size =>
    obtain ⟨hleft, hright⟩ := hnull hfirst.1 0 (by simp [KernDriver.kallocs, hfirst.2, hres])
    have hsubs := (h₁.trans hleft).trans (h₂.trans hright).symm
    exact registerFilled hreg halloc (filled_eq hsubs rfl .framebuffer true) _

theorem vgaProbe (h : Alike c s₁ s₂) (hreg : Registers register) (hw : Hardware)
    (hnull : (c.driver .vga).firstProbe = true → c.GetsNull .vga hw) :
    Both (AlikeFrom c) (s₁.vgaProbe register) (s₂.vgaProbe register) := by
  unfold DriverSystem.vgaProbe
  rw [h.left.driver, h.right.driver]
  refine .ite Iff.rfl (fun hfirst => ?_) fun _ => .ok h.from
  refine h.kalloc.bind ?_
  rintro ⟨t₁, dev⟩ ⟨t₂, dev'⟩ ⟨halloc, h₁, h₂⟩
  obtain ⟨hleft, hright⟩ := hnull hfirst 0 Nat.one_pos
  have hsubs := (h₁.trans hleft).trans (h₂.trans hright).symm
  exact registerFilled hreg halloc (filled_eq hsubs rfl .con false) _

theorem serialProbe (h : Alike c s₁ s₂) (hreg : Registers register) (hw : Hardware)
    (hnull : (c.driver .serial).firstProbe = true → c.GetsNull .serial hw) :
    Both (AlikeFrom c) (s₁.serialProbe register) (s₂.serialProbe register) := by
  unfold DriverSystem.serialProbe
  rw [h.left.driver, h.right.driver]
  refine .ite Iff.rfl (fun hfirst => ?_) fun _ => .ok h.from
  -- before the `k`-th port `k` devices were taken
  refine (Both.foldlM (l := List.range 4) rfl
    (fun k => Alike { c with kalloced := c.kalloced + k }) (fun k hk _ a b hab => ?_) h).mono
    fun _ _ hab => ⟨_, hab⟩
  have hk : k < 4 := by simpa using hk
  obtain ⟨hleft, hright⟩ := hnull hfirst k hk
  refine (hab.serialNewDev hleft hright).bind ?_
  rintro ⟨t₁, dev⟩ ⟨t₂, dev'⟩ hcreated
  obtain rfl : dev = dev' := hcreated.dev
  exact hreg _ t₁ t₂ dev hcreated.alike hcreated.ready

theorem bdriveProbe (h : Alike c s₁ s₂) (hreg : Registers register) (hw : Hardware) :
    Both (AlikeFrom c) (s₁.bdriveProbe register hw) (s₂.bdriveProbe register hw) := by
  unfold DriverSystem.bdriveProbe
  rw [h.left.driver, h.right.driver]
  refine .ite Iff.rfl (fun _ => ?_) fun _ => .ok h.from
  refine (Both.foldlM rfl (fun _ => Alike c) (fun _ _ driveNr a b hab => ?_) h).mono
    fun _ _ => Alike.from
  refine (hab.bdriveCreate driveNr).bind ?_
  rintro ⟨t₁, dev⟩ ⟨t₂, dev'⟩ hcreated
  obtain rfl : dev = dev' := hcreated.dev
  exact hreg c t₁ t₂ dev hcreated.alike hcreated.ready

theorem probe (h : Alike c s₁ s₂) (hreg : Registers register) (hw : Hardware) (drv : KernDriver)
    (hnull : (c.driver drv).firstProbe = true → c.GetsNull drv hw) :
    Both (AlikeFrom c) (s₁.probe register hw drv) (s₂.probe register hw drv) := by
  cases drv with
  | vesa => exact h.vesaProbe hreg hw hnull
  | vga => exact h.vgaProbe hreg hw hnull
  | serial => exact h.serialProbe hreg hw hnull
  | bdrive => exact h.bdriveProbe hreg hw
  | fbcon | fat => exact .error _

theorem firstProbes (h : Alike c s₁ s₂) (depth : Nat) (hw : Hardware) (drv : KernDriver)
    (hnull : c.GetsNull drv hw) :
    Both (AlikeFrom c) (s₁.firstProbes depth hw drv) (s₂.firstProbes depth hw drv) := by
  have hreg := registers hw depth
  unfold DriverSystem.firstProbes
  rw [h.left.driver, h.right.driver]
  refine .ite Iff.rfl (fun _ => h.probe hreg hw drv fun _ => hnull) fun _ => ?_
  refine .ite Iff.rfl (fun _ => ?_) fun _ =>
    (h.probeDirected hreg depth hw none drv).mono fun _ _ => Alike.from
  refine (h.deviceForeach (fun a b d hab hd => ?_) depth).mono fun _ _ => Alike.from
  rw [← (hab.ready hd).device, hab.left.driver, hab.right.driver]
  exact .ite Iff.rfl (fun _ => hab.probeDirected hreg depth hw _ drv) fun _ => .ok hab

/-- A driver's fields are stored. -/
theorem setDriver (h : Alike c s₁ s₂) (driver : KernDriver → Driver) :
    Alike { c with driver := driver } { s₁ with driver := driver } { s₂ with driver := driver } :=
  { h with left := { h.left with driver := rfl }, right := { h.right with driver := rfl } }

theorem setFirstProbe (h : Alike c s₁ s₂) (drv : KernDriver) (value : Bool) :
    Alike { c with
        driver := Function.update c.driver drv { c.driver drv with firstProbe := value } }
      (s₁.setFirstProbe drv value) (s₂.setFirstProbe drv value) := by
  unfold DriverSystem.setFirstProbe
  rw [h.left.driver, h.right.driver]
  exact h.setDriver _

/-- The same callbacks are called. -/
theorem informSubdevices (h : Alike c s₁ s₂) {device : Nat} (hd : device ∈ s₁.registry.devices)
    (hleft : ∀ y ∈ s₁.registry.subdevices device, (s₁.inform y).Clean)
    (hright : ∀ y ∈ s₂.registry.subdevices device, (s₂.inform y).Clean) :
    Alike c (s₁.informSubdevices device) (s₂.informSubdevices device) := by
  have hsubs := h.registry.subdevices hd
  have hevents : ((s₁.registry.subdevices device).filterMap fun y =>
        (s₁.inform y).value.map fun callback => SubdeviceEvent.inform callback y device) =
      (s₂.registry.subdevices device).filterMap fun y =>
        (s₂.inform y).value.map fun callback => SubdeviceEvent.inform callback y device := by
    rw [← hsubs]
    refine List.filterMap_congr fun y hy => ?_
    rw [(hleft y hy).value_eq, (hright y (hsubs ▸ hy)).value_eq, h.inform]
  refine { h with left := { h.left with }, right := { h.right with }, events := ?_ }
  rw [DriverSystem.informSubdevices, DriverSystem.informSubdevices, hevents, h.events]

end Alike

/-- Between two operations: the systems are alike, and no driver is in its first probe. -/
def AlikeRun (left right : Nat → Held) (s₁ s₂ : DriverSystem) : Prop :=
  ∃ n driver, Alike ⟨left, right, n, driver⟩ s₁ s₂ ∧ ∀ drv, (driver drv).firstProbe = false

/-- What a probe leaves. -/
theorem AlikeFrom.run (h : AlikeFrom c s₁ s₂) (hidle : ∀ drv, (c.driver drv).firstProbe = false) :
    AlikeRun c.left c.right s₁ s₂ := by
  obtain ⟨n, halike⟩ := h
  exact ⟨n, c.driver, halike, hidle⟩

theorem Alike.driverFirstProbe (h : Alike c s₁ s₂)
    (hidle : ∀ drv, (c.driver drv).firstProbe = false) (depth : Nat) (hw : Hardware)
    (drv : KernDriver) (hnull : c.GetsNull drv hw) :
    Both (AlikeRun c.left c.right) (s₁.driverFirstProbe depth hw drv)
      (s₂.driverFirstProbe depth hw drv) := by
  refine ((h.setFirstProbe drv true).firstProbes depth hw drv hnull).bind fun a b hab => .ok ?_
  obtain ⟨n, halike⟩ := hab
  refine (halike.setFirstProbe drv false).from.run fun drv' => ?_
  by_cases hdrv : drv' = drv
  · simp [hdrv]
  · simp [hdrv, hidle]

theorem Alike.driverProbeFor (h : Alike c s₁ s₂)
    (hidle : ∀ drv, (c.driver drv).firstProbe = false) (depth : Nat) (hw : Hardware)
    (type : DeviceType) (invoker : Option Nat) :
    Both (AlikeRun c.left c.right) (s₁.driverProbeFor depth hw type invoker)
      (s₂.driverProbeFor depth hw type invoker) := by
  have hreg := registers hw depth
  refine (Both.foldlM h.drivers (fun _ => AlikeFrom c) (fun _ _ drv a b hab => ?_) h.from).mono
    fun _ _ hab => hab.run hidle
  obtain ⟨n, hab⟩ := hab
  rw [hab.left.driver, hab.right.driver]
  refine .ite Iff.rfl (fun _ => ?_) fun _ => .ok ⟨n, hab⟩
  refine .ite Iff.rfl (fun _ => ?_) fun _ =>
    (hab.probeDirected hreg depth hw invoker drv).mono fun _ _ hab' => ⟨n, hab'⟩
  exact hab.probe hreg hw drv fun hfirst => absurd ((hidle drv).symm.trans hfirst) nofun

end Systems

/-! ## Runs that differ in stale memory -/

theorem subdevices_build_self (s : DriverSystem) (device : Nat) (internal : Internal) :
    (s.build device (s.registry.device device) internal).registry.subdevices device =
      s.registry.subdevices device := by
  simp [DriverSystem.build, Registry.store, Registry.subdevices]

/-- One operation keeps two runs alike. -/
theorem AlikeRun.step {left right : Nat → Held} {s₁ s₂ : DriverSystem} (depth : Nat)
    (op : DriverOp) (h : AlikeRun left right s₁ s₂) (h₁ : s₁.Clean op) (h₂ : s₂.Clean op) :
    Both (AlikeRun left right) (driverStep depth s₁ op) (driverStep depth s₂ op) := by
  obtain ⟨n, driver, halike, hidle⟩ := h
  -- what the condition says of both runs
  have hnull : ∀ drv hw, s₁.GetsNull drv hw → s₂.GetsNull drv hw →
      Pairing.GetsNull ⟨left, right, n, driver⟩ drv hw := by
    intro drv hw hleft hright i hi
    have hleft := hleft i hi
    have hright := hright i hi
    rw [halike.left.held, halike.left.kalloced] at hleft
    rw [halike.right.held, halike.right.kalloced] at hright
    exact ⟨hleft, hright⟩
  cases op with
  | driverRegister drv hw =>
    have happended : Alike ⟨left, right, n, driver⟩ { s₁ with drivers := s₁.drivers ++ [drv] }
        { s₂ with drivers := s₂.drivers ++ [drv] } :=
      { halike with
        left := { halike.left with }
        right := { halike.right with }
        drivers := congrArg (· ++ [drv]) halike.drivers }
    have hdriver := congrFun halike.left.driver drv
    have hdriver' := congrFun halike.right.driver drv
    rw [DriverSystem.Clean, hdriver] at h₁
    rw [DriverSystem.Clean, hdriver'] at h₂
    rw [driverStep, driverStep, DriverSystem.driverRegister, DriverSystem.driverRegister]
    dsimp only
    rw [hdriver, hdriver']
    refine .ite Iff.rfl (fun _ => ?_) fun _ => .error _
    refine .ite Iff.rfl (fun _ => .ok ⟨n, driver, happended, hidle⟩) fun henabled => ?_
    have henabled := Bool.eq_false_of_not_eq_true henabled
    exact happended.driverFirstProbe hidle depth hw drv (hnull drv hw (h₁ henabled) (h₂ henabled))
  | driverEnable drv hw =>
    rw [driverStep, driverStep, DriverSystem.driverEnable, DriverSystem.driverEnable,
      halike.left.driver, halike.right.driver]
    have henabled := halike.setDriver
      (Function.update driver drv { driver drv with disabled := false })
    refine henabled.driverFirstProbe (fun drv' => ?_) depth hw drv (hnull drv hw h₁ h₂)
    by_cases hdrv : drv' = drv
    · simp [hdrv, hidle]
    · simp [hdrv, hidle]
  | driverProbeFor type invoker hw => exact halike.driverProbeFor hidle depth hw type invoker
  | deviceRegister contents internal inform hw =>
    rw [driverStep, driverStep]
    refine halike.kallocz.bind ?_
    rintro ⟨t₁, dev⟩ ⟨t₂, dev'⟩ halloc
    obtain ⟨hdev, -, hfilled, hready⟩ := (halloc.build rfl internal).setInform (.stored inform)
    obtain rfl : dev = dev' := hdev
    exact (Alike.registers hw depth _ _ _ dev hfilled hready).mono fun _ _ hab => ⟨n, driver, hab, hidle⟩
  | deviceDeregister device =>
    exact (halike.deregister depth device).mono fun _ _ hab => ⟨n, driver, hab, hidle⟩
  | setRes device width height =>
    rw [driverStep, driverStep, ← halike.registry.devices]
    by_cases hmem : device ∈ s₁.registry.devices
    · have hready := halike.ready hmem
      rw [← hready.device, ← hready.internal]
      refine .ite Iff.rfl (fun _ => .ok ?_) fun _ => .error _
      obtain ⟨hbuild, -⟩ := halike.build device (s₁.registry.device device)
        { s₁.internal device with width := width, height := height }
      refine ⟨n, driver, hbuild.informSubdevices hmem ?_ ?_, hidle⟩
      · rw [subdevices_build_self]
        exact h₁
      · rw [hready.device, subdevices_build_self]
        exact h₂
    · rw [if_neg fun h => hmem h.1, if_neg fun h => hmem h.1]
      exact .error _
  | reuse =>
    exact halike.kalloc.map fun a b hab => ⟨n + 1, driver, hab.1.alike, hidle⟩

theorem alikeRun_boot (address : Nat → Nat) (memory₁ memory₂ held₁ held₂ : Nat → Held) :
    AlikeRun held₁ held₂ (.boot address memory₁ held₁) (.boot address memory₂ held₂) := by
  refine ⟨0, kernDriver, ?_, fun drv => by cases drv <;> rfl⟩
  exact {
    left := ⟨rfl, rfl, rfl⟩
    right := ⟨rfl, rfl, rfl⟩
    registry := ⟨rfl, rfl, fun _ hd => hd, fun _ hd => absurd hd List.not_mem_nil⟩
    internal := fun _ hd => absurd hd List.not_mem_nil
    inform := fun _ => rfl
    drivers := rfl
    spIndex := rfl
    address := rfl
    handed := rfl
    events := rfl }

/-- Two runs of the same operations, over memory that holds different things, do the same
to the devices if all steps of both are clean. -/
theorem driverRun_ignoresHeap (depth : Nat) (address : Nat → Nat)
    {memory₁ memory₂ held₁ held₂ : Nat → Held} {ops : List DriverOp}
    (h₁ : AllSteps (driverStep depth) DriverSystem.Clean (.boot address memory₁ held₁) ops)
    (h₂ : AllSteps (driverStep depth) DriverSystem.Clean (.boot address memory₂ held₂) ops) :
    observed (ops.foldlM (driverStep depth) (.boot address memory₁ held₁)) =
      observed (ops.foldlM (driverStep depth) (.boot address memory₂ held₂)) := by
  have hruns := Both.run (fun s t op h hs ht => h.step depth op hs ht) h₁ h₂
    (alikeRun_boot address memory₁ memory₂ held₁ held₂)
  refine hruns.map_eq fun s t hst => ?_
  obtain ⟨n, driver, halike, -⟩ := hst
  rw [halike.registry.devices, halike.registry.log, halike.events]

/-- The framebuffer console is registered, then the VESA driver, and enabled. -/
def enableVesaConsole : List DriverOp :=
  [.driverRegister .fbcon ⟨true, some (800, 600), [], fun _ => none⟩,
    .driverRegister .vesa ⟨true, some (800, 600), [], fun _ => none⟩,
    .driverEnable .vesa ⟨true, some (800, 600), [], fun _ => none⟩]

/-- Then the resolution is changed. -/
def resizeVesaConsole : List DriverOp := enableVesaConsole ++ [.setRes 0x100000 640 480]

/-- The allocator gives one block of 128 bytes behind the other. -/
def ordinaryAddress (n : Nat) : Nat := 0x100000 + 128 * n

/-- Memory that was never used. -/
def clearedMemory (_ : Nat) : Held := ⟨⟨[], .none, false, none⟩, none, ⟨0, 0, 0⟩⟩

/-- Memory in which something else was, but for `subdevices`. -/
def usedMemory (_ : Nat) : Held := ⟨⟨[7], .fs, true, none⟩, some (.other 7), ⟨7, 7, 7⟩⟩

/-- Memory in which something else was. -/
def staleMemory (_ : Nat) : Held := ⟨⟨[7], .fs, true, some []⟩, some (.other 7), ⟨7, 7, 7⟩⟩

example : observed (enableVesaConsole.foldlM (driverStep 4)
    (.boot ordinaryAddress clearedMemory clearedMemory)) =
      .ok ([0x100000, 0x100080], [], [.bind 0x100000 0x100080]) := by
  decide +kernel

/-- The VESA console is enabled, and the resolution is changed. -/
theorem driverRun_ignoresHeap_resizeVesa :
    observed (resizeVesaConsole.foldlM (driverStep 4)
        (.boot ordinaryAddress clearedMemory clearedMemory)) =
      observed (resizeVesaConsole.foldlM (driverStep 4)
        (.boot ordinaryAddress usedMemory usedMemory)) :=
  driverRun_ignoresHeap 4 ordinaryAddress (by decide +kernel) (by decide +kernel)

/-- A framebuffer in used memory is not bound to a console. -/
theorem driverRun_staleSubdevices :
    ¬ ∀ depth address memory₁ memory₂ held₁ held₂ (ops : List DriverOp),
      observed (ops.foldlM (driverStep depth) (.boot address memory₁ held₁)) =
        observed (ops.foldlM (driverStep depth) (.boot address memory₂ held₂)) := by
  intro h
  have hruns := h 4 ordinaryAddress clearedMemory staleMemory clearedMemory staleMemory
    enableVesaConsole
  revert hruns
  decide +kernel

end Microboot.Kern.Io
