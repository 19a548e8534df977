/-
  Kern/Io/Subdevices.lean --- pointers to subdevices, over whole runs.

  A device keeps the pointers to its subdevices until it is deregistered itself.
  Nothing takes a pointer out when a subdevice goes on its own, and the memory
  of that device is free for another one.

  Devices are registered and deregistered in any order, and framebuffers are bound
  to consoles (`fbcon_dev_foreach_callback`, kern/io/fbcon.c).  In a run whose
  steps are `Proper` every subdevice of a registered device is registered.
-/
import Microboot.Foundation.Run
import Microboot.Kern.Io.Driver

set_option autoImplicit false

namespace Microboot.Kern.Io

open Microboot.Foundation

/-! ## The model -/

/-- The `struct device` at the address is written. -/
def Registry.store (r : Registry) (device : Nat) (contents : Device) : Registry :=
  { r with device := Function.update r.device device contents }

/-- `device_register(device)`: what it does to the list. -/
def deviceRegister (r : Registry) (device : Nat) : Registry :=
  { r with devices := r.devices ++ [device] }

/-- `device_get_by_name(name)` -/
def deviceGetByName (r : Registry) (name : List UInt8) : Option Nat :=
  r.devices.find? fun device => strcmp name (r.device device).name = 0

/-- `"vga0"` -/
def vgaName : List UInt8 := [118, 103, 97, 48]

/-- The console of `fbcon_create`, with the name that it was given, becomes the
subdevice of a framebuffer, and is registered. -/
def bindConsole (r : Registry) (dev newCon : Nat) (name : List UInt8) : Registry :=
  let r := r.store newCon { name := name, type := .con, destroy := true, subdevices := none }
  let r := r.store dev { r.device dev with subdevices := some [newCon] }
  deviceRegister r newCon

/-- `fbcon_dev_foreach_callback(dev)`, with the size of the framebuffer and the
address and the name of the new console. -/
def fbconDevForeachCallback (depth : Nat) (r : Registry) (dev width height newCon : Nat)
    (name : List UInt8) : Option Registry :=
  if (r.device dev).type = .framebuffer then
    if (r.device dev).subdevices.isSome then some r
    else if width > 0 ∧ height > 0 then
      let r := bindConsole r dev newCon name
      match deviceGetByName r vgaName with
      | some vga => Prod.fst <$> deviceDeregister depth r vga
      | none => some r
    else some r
  else some r

/-- A device is filled in and registered, a device is deregistered, or the callback
is called with a registered device. -/
inductive RegistryOp where
  | register (device : Nat) (contents : Device)
  | deregister (device : Nat)
  | bind (dev width height newCon : Nat) (name : List UInt8)

/-- One operation.  A new console is in memory that no registered device is in. -/
inductive RegistryStep (r : Registry) : RegistryOp → Registry → Prop
  | register (device : Nat) (contents : Device) :
      RegistryStep r (.register device contents) (deviceRegister (r.store device contents) device)
  | deregister {depth device : Nat} {r' : Registry} {found : Bool} :
      deviceDeregister depth r device = some (r', found) →
      RegistryStep r (.deregister device) r'
  | bind {depth dev width height newCon : Nat} {name : List UInt8} {r' : Registry} :
      dev ∈ r.devices → newCon ∉ r.devices →
      fbconDevForeachCallback depth r dev width height newCon name = some r' →
      RegistryStep r (.bind dev width height newCon name) r'

/-- `driver_init()`; the memory of the devices holds anything. -/
def driverInit (device : Nat → Device) : Registry where
  devices := []
  device := device
  log := []

/-- No registered device lists `d`, and what goes with `d` is listed once. -/
structure GoesAlone (r : Registry) (d : Nat) : Prop where
  root : ∀ z ∈ r.devices, ¬ r.Sub z d
  nodup : ∀ z ∈ r.devices, r.Reaches d z → (r.subdevices z).Nodup
  parent : ∀ y z w, r.Reaches d y → z ∈ r.devices → w ∈ r.devices → r.Sub z y → r.Sub w y → z = w

/-- A device is registered once at a time, behind its subdevices, and each device
that is deregistered goes alone. -/
def Proper (r : Registry) : RegistryOp → Prop
  | .register device contents =>
    device ∉ r.devices ∧ ∀ y ∈ contents.subdevices.getD [], y ∈ r.devices
  | .deregister device => GoesAlone r device
  | .bind dev _ _ newCon name =>
    ∀ vga, deviceGetByName (bindConsole r dev newCon name) vgaName = some vga →
      GoesAlone (bindConsole r dev newCon name) vga

/-! ## The invariant -/

section Invariant

variable {r r' : Registry} {d : Nat}

/-- Every subdevice of a registered device is registered. -/
def SubsRegistered (r : Registry) : Prop := ∀ z ∈ r.devices, ∀ y ∈ r.subdevices z, y ∈ r.devices

/-- Each device is registered once, behind its subdevices. -/
structure InOrder (r : Registry) : Prop where
  nodup : r.devices.Nodup
  acyclic : r.Acyclic
  subs : SubsRegistered r

theorem inOrder_driverInit (device : Nat → Device) : InOrder (driverInit device) where
  nodup := List.nodup_nil
  acyclic := acyclicIn_of_lt id fun _ _ h => absurd h.1 List.not_mem_nil
  subs _ hz := absurd hz List.not_mem_nil

theorem mem_deviceRegister {x : Nat} :
    x ∈ (deviceRegister r d).devices ↔ x ∈ r.devices ∨ x = d := by
  simp [deviceRegister]

theorem InOrder.register (h : InOrder r) {contents : Device} (hd : d ∉ r.devices)
    (hsubs : ∀ y ∈ contents.subdevices.getD [], y ∈ r.devices) :
    InOrder (deviceRegister (r.store d contents) d) := by
  have hmem : ∀ x, x ∈ (deviceRegister (r.store d contents) d).devices ↔ x ∈ r.devices ∨ x = d :=
    fun x => mem_deviceRegister
  have hself : (deviceRegister (r.store d contents) d).subdevices d =
      contents.subdevices.getD [] := by
    simp [Registry.subdevices, deviceRegister, Registry.store]
  have hother : ∀ x, x ≠ d →
      (deviceRegister (r.store d contents) d).subdevices x = r.subdevices x := by
    intro x hx
    simp [Registry.subdevices, deviceRegister, Registry.store, hx]
  have htarget : ∀ x y, x ∈ (deviceRegister (r.store d contents) d).devices →
      y ∈ (deviceRegister (r.store d contents) d).subdevices x → y ∈ r.devices := by
    intro x y hx hy
    by_cases hxd : x = d
    · rw [hxd, hself] at hy
      exact hsubs y hy
    · rw [hother x hxd] at hy
      exact h.subs x (((hmem x).mp hx).resolve_right hxd) y hy
  refine ⟨?_, ?_, fun x hx y hy => (hmem y).mpr (Or.inl (htarget x y hx hy))⟩
  · rw [deviceRegister, List.nodup_append_comm]
    exact List.nodup_cons.mpr ⟨hd, h.nodup⟩
  · -- no edge enters the new device
    refine AcyclicIn.of_end h.acyclic d (Or.inl fun x hedge => hd (htarget x d hedge.1 hedge.2)) ?_
    intro x y hx _ hedge
    refine ⟨((hmem x).mp hedge.1).resolve_right hx, ?_⟩
    rw [Registry.Sub, ← hother x hx]
    exact hedge.2

theorem InOrder.bindConsole (h : InOrder r) {newCon : Nat} (name : List UInt8)
    (hdev : d ∈ r.devices) (hcon : newCon ∉ r.devices) :
    InOrder (bindConsole r d newCon name) := by
  have hne : newCon ≠ d := fun heq => hcon (heq ▸ hdev)
  have hmem : ∀ x, x ∈ (Io.bindConsole r d newCon name).devices ↔ x ∈ r.devices ∨ x = newCon :=
    fun x => mem_deviceRegister
  have hbound : (Io.bindConsole r d newCon name).subdevices d = [newCon] := by
    simp [Registry.subdevices, Io.bindConsole, deviceRegister, Registry.store]
  have hnew : (Io.bindConsole r d newCon name).subdevices newCon = [] := by
    simp [Registry.subdevices, Io.bindConsole, deviceRegister, Registry.store, hne]
  have hother : ∀ x, x ≠ d → x ≠ newCon →
      (Io.bindConsole r d newCon name).subdevices x = r.subdevices x := by
    intro x hx hx'
    simp [Registry.subdevices, Io.bindConsole, deviceRegister, Registry.store, hx, hx']
  refine ⟨?_, ?_, fun x hx y hy => ?_⟩
  · rw [Io.bindConsole, deviceRegister, List.nodup_append_comm]
    exact List.nodup_cons.mpr ⟨hcon, h.nodup⟩
  · -- no edge leaves the new console
    refine AcyclicIn.of_end h.acyclic newCon (Or.inr fun y hedge => ?_) fun x y hx hy hedge => ?_
    · have hsub := hedge.2
      rw [Registry.Sub, hnew] at hsub
      exact absurd hsub List.not_mem_nil
    · by_cases hxd : x = d
      · have hsub := hedge.2
        rw [hxd, Registry.Sub, hbound, List.mem_singleton] at hsub
        exact absurd hsub hy
      · refine ⟨((hmem x).mp hedge.1).resolve_right hx, ?_⟩
        rw [Registry.Sub, ← hother x hxd hx]
        exact hedge.2
  · rw [hmem]
    by_cases hxd : x = d
    · rw [hxd, hbound, List.mem_singleton] at hy
      exact Or.inr hy
    · by_cases hxn : x = newCon
      · rw [hxn, hnew] at hy
        exact absurd hy List.not_mem_nil
      · rw [hother x hxd hxn] at hy
        exact Or.inl (h.subs x (((hmem x).mp hx).resolve_right hxn) y hy)

/-- What goes alone leaves no pointer behind. -/
theorem InOrder.removes (h : InOrder r) {events : List DeviceEvent} (halone : GoesAlone r d)
    (hr : Removes r (r.Reaches d) r' events) : InOrder r' := by
  have hlater : Later r r' := Later.trans ⟨h.nodup, fun _ hx => hx, fun _ _ => rfl⟩ hr
  have hsame : ∀ z ∈ r'.devices, r'.subdevices z = r.subdevices z := by
    intro z hz
    unfold Registry.subdevices
    rw [hr.kept z hz]
  refine ⟨hlater.nodup, h.acyclic.mono fun x y hedge => ⟨hlater.mem x hedge.1, ?_⟩,
    fun z hz y hy => ?_⟩
  · rw [Registry.Sub, ← hsame x hedge.1]
    exact hedge.2
  · obtain ⟨hz', hkept⟩ := (hr.mem_devices z).mp hz
    rw [hsame z hz] at hy
    refine (hr.mem_devices y).mpr ⟨h.subs z hz' y hy, fun hreach => ?_⟩
    rcases Relation.ReflTransGen.cases_tail hreach with rfl | ⟨w, hdw, hw, hsub⟩
    · exact halone.root z hz' hy
    · obtain rfl := halone.parent y z w hreach hz' hw hy hsub
      exact hkept hdw

/-- A deregistration that goes alone keeps the order, and follows pointers to
registered devices only. -/
theorem InOrder.deviceDeregister (h : InOrder r) (halone : GoesAlone r d) {depth : Nat}
    {found : Bool} (hcall : deviceDeregister depth r d = some (r', found)) :
    InOrder r' ∧ ∀ events, r'.log = r.log ++ events → d ∈ r.devices → Follows r events := by
  obtain ⟨depth₀, hdepth⟩ := Filter.eventually_atTop.mp (deviceDeregister_eventually h.acyclic d)
  obtain ⟨r₁, events, hcall₁, hremoves, hfollows⟩ := hdepth (max depth depth₀) (le_max_right ..) r
    ⟨h.nodup, fun _ hx => hx, fun _ _ => rfl⟩
  -- the deeper call does the same
  obtain rfl : r₁ = r' := by
    have hsame := deviceDeregister_mono (le_max_left depth depth₀) hcall
    rw [hcall₁, Option.some.injEq, Prod.mk.injEq] at hsame
    exact hsame.1
  refine ⟨h.removes halone hremoves, fun events' hlog hd => ?_⟩
  have hsame : events = events' := List.append_cancel_left (hremoves.log.symm.trans hlog)
  rw [← hsame]
  exact hfollows ⟨fun z hz _ => h.subs z hz, halone.nodup, halone.parent⟩ hd

theorem InOrder.step (h : InOrder r) {op : RegistryOp} (hproper : Proper r op)
    (hstep : RegistryStep r op r') : InOrder r' := by
  cases hstep with
  | register device contents => exact h.register hproper.1 hproper.2
  | deregister hcall => exact (h.deviceDeregister hproper hcall).1
  | @bind depth dev width height newCon name r' hdev hcon hcall =>
    unfold fbconDevForeachCallback at hcall
    split at hcall
    · split at hcall
      · cases hcall
        exact h
      · have hbound := h.bindConsole name hdev hcon
        split at hcall
        · dsimp only at hcall
          split at hcall
          · next vga hvga =>
            obtain ⟨⟨r₁, found⟩, hcall₁, rfl⟩ := Option.map_eq_some_iff.mp hcall
            exact (hbound.deviceDeregister (hproper vga hvga) hcall₁).1
          · cases hcall
            exact hbound
        · cases hcall
          exact h
    · cases hcall
      exact h

end Invariant

/-! ## Runs -/

section Runs

/-- In every state of a run of proper steps the subdevices of registered devices are
registered, and a device that goes alone is deregistered without following a
pointer to one that is gone. -/
theorem registryRun_subsRegistered {device : Nat → Device} {ops : List RegistryOp} {r : Registry}
    (hrun : Run (fun r op r' => Proper r op ∧ RegistryStep r op r') (driverInit device) ops r) :
    SubsRegistered r ∧
      ∀ d ∈ r.devices, GoesAlone r d → ∀ depth r' found events,
        deviceDeregister depth r d = some (r', found) → r'.log = r.log ++ events →
        Follows r events := by
  have horder : InOrder r := hrun.invariant (inOrder_driverInit device)
    fun _ _ _ h hstep => h.step hstep.1 hstep.2
  exact ⟨horder.subs, fun d hd halone depth r' found events hcall hlog =>
    (horder.deviceDeregister halone hcall).2 events hlog hd⟩

/-- A framebuffer without subdevices. -/
def bareFramebuffer : Device :=
  { name := [118], type := .framebuffer, destroy := false, subdevices := none }

/-- The framebuffer is registered at 1. -/
def framebufferRegistry : Registry :=
  deviceRegister ((driverInit fun _ => bareFramebuffer).store 1 bareFramebuffer) 1

/-- It is bound to a console at 2. -/
def boundRegistry : Registry := bindConsole framebufferRegistry 1 2 [102]

theorem framebufferRegistry_step :
    RegistryStep (driverInit fun _ => bareFramebuffer) (.register 1 bareFramebuffer)
      framebufferRegistry :=
  .register 1 bareFramebuffer

theorem boundRegistry_step :
    RegistryStep framebufferRegistry (.bind 1 640 480 2 [102]) boundRegistry := by
  have hcall : fbconDevForeachCallback 0 framebufferRegistry 1 640 480 2 [102] =
      some boundRegistry := rfl
  exact .bind (by decide) (by decide) hcall

/-- A framebuffer is registered and bound. -/
theorem registryRun_subsRegistered_bound :
    SubsRegistered boundRegistry ∧
      ∀ d ∈ boundRegistry.devices, GoesAlone boundRegistry d → ∀ depth r' found events,
        deviceDeregister depth boundRegistry d = some (r', found) →
        r'.log = boundRegistry.log ++ events → Follows boundRegistry events := by
  have hregister : Proper (driverInit fun _ => bareFramebuffer) (.register 1 bareFramebuffer) :=
    ⟨List.not_mem_nil, fun _ hy => absurd hy List.not_mem_nil⟩
  have hbind : Proper framebufferRegistry (.bind 1 640 480 2 [102]) := by
    intro vga hvga
    have hnone : deviceGetByName boundRegistry vgaName = none := by decide
    exact absurd (hnone.symm.trans hvga) nofun
  exact registryRun_subsRegistered
    (.snoc (.snoc .nil ⟨hregister, framebufferRegistry_step⟩) ⟨hbind, boundRegistry_step⟩)

/-- The console goes, and the framebuffer keeps the pointer to it. -/
theorem deviceDeregister_leaves_pointer :
    ¬ ∀ ops r, Run RegistryStep (driverInit fun _ => bareFramebuffer) ops r →
      SubsRegistered r := by
  intro h
  obtain ⟨r, hcall, hdevices, hsubs⟩ : ∃ r, deviceDeregister 1 boundRegistry 2 = some (r, true) ∧
      r.devices = [1] ∧ r.subdevices 1 = [2] := ⟨_, rfl, rfl, rfl⟩
  have hsub := h _ r (.snoc (.snoc (.snoc .nil framebufferRegistry_step) boundRegistry_step)
    (.deregister hcall)) 1 (by simp [hdevices]) 2 (by simp [hsubs])
  simp [hdevices] at hsub

end Runs

end Microboot.Kern.Io
