/-
  Kern/Io/Endrv.lean --- enabling a driver that is enabled, kern/main.c.

  `endrv` says that a driver is already enabled, and enables it all the same:
  `driver_enable` makes a first probe, and the flag that the probes look at is set by
  `driver_first_probe` itself.  What keeps a driver from making its devices again is
  therefore only what its probe finds.

  `Acts` is the alternative that all of them come to: nothing was done, and the probe
  had nothing to do, or a device was made.  As devices are never unmade in the count of
  those that were allocated, one that was made is seen at the end.
-/
import Microboot.Kern.Io.Constructors

set_option autoImplicit false

namespace Microboot.Kern.Io

open Microboot.Foundation

/-! ## The command -/

/-- `driver->modname`, the empty string where it is not initialised. -/
def KernDriver.modname : KernDriver → List UInt8
  | .vesa => [118, 101, 115, 97, 102, 98]
  | .vga | .fbcon | .serial | .bdrive | .fat => []

namespace DriverSystem

/-- `driver_get_by_modname(modname)` -/
def driverGetByModname (s : DriverSystem) (modname : List UInt8) : Option KernDriver :=
  s.drivers.find? fun drv => strcmp modname drv.modname = 0

/-- `endrv(argc, argv)`, with the message that it prints. -/
def endrv (depth : Nat) (hw : Hardware) (s : DriverSystem) (argv : List (List UInt8)) :
    Option String × Except ProbeFault DriverSystem :=
  match argv with
  | [_, modname] =>
    match s.driverGetByModname modname with
    | none => (some "No such driver '%s'\n", .ok s)
    | some driver =>
      let message := if (s.driver driver).disabled then none
        else some "Driver '%s' already enabled\n"
      (message, s.driverEnable depth hw driver)
  | _ => (some "Usage: %s driver_modname\n", .ok s)

/-- The framebuffer has a console already, or no size. -/
def Settled (s : DriverSystem) (dev : Nat) : Prop :=
  (s.registry.device dev).type = .framebuffer →
    (s.registry.device dev).subdevices.isSome = true ∨
      ¬ ((s.internal dev).width > 0 ∧ (s.internal dev).height > 0)

instance (s : DriverSystem) (dev : Nat) : Decidable (s.Settled dev) :=
  inferInstanceAs (Decidable (_ → _))

/-- The first probe of the driver finds nothing to make a device for. -/
def Quiet (s : DriverSystem) (hw : Hardware) : KernDriver → Prop
  | .vesa => hw.vesaMode = false
  | .vga | .serial => False
  | .bdrive => hw.drives = []
  | .fbcon => ∀ dev ∈ s.registry.devices, s.Settled dev
  | .fat => ∀ dev ∈ s.registry.devices, (s.registry.device dev).type = .block →
      hw.partitions (s.internal dev).driveNr = some []

/-- The registered devices are those of before, and none was made or bound. -/
structure Same (s s' : DriverSystem) : Prop where
  devices : s'.registry.devices = s.registry.devices
  handed : s'.handed = s.handed
  events : s'.events = s.events

end DriverSystem

/-! ## What every function leaves -/

/-- The callbacks and the dependency of a driver are those of another. -/
structure SameCallbacks (d d' : Driver) : Prop where
  probe : d'.probe = d.probe
  probeDirected : d'.probeDirected = d.probeDirected
  dependsOn : d'.dependsOn = d.dependsOn

/-- Devices are made, registered and deregistered, and no driver gets other callbacks. -/
structure Goes (s s' : DriverSystem) : Prop where
  handed : s.handed ≤ s'.handed
  nodup : s.registry.devices.Nodup → s'.registry.devices.Nodup
  callbacks : ∀ drv, SameCallbacks (s.driver drv) (s'.driver drv)

/-- A device was made, which is not registered yet. -/
structure Made (s s' : DriverSystem) (dev : Nat) : Prop where
  goes : Goes s s'
  handed : s.handed < s'.handed
  fresh : dev ∉ s'.registry.devices

/-- A device was made, whatever has become of it. -/
def Makes (s s' : DriverSystem) : Prop := Goes s s' ∧ s.handed < s'.handed

/-- Nothing was done, where that is right; or a device was made. -/
def Acts (idle : Prop) (s s' : DriverSystem) : Prop := (s' = s ∧ idle) ∨ Makes s s'

/-- `register` registers a device. -/
def RegisterGoes (register : DriverSystem → Nat → Except ProbeFault DriverSystem) : Prop :=
  ∀ s dev, dev ∉ s.registry.devices → Ensures (register s dev) (Goes s)

section Relations

variable {s s' s'' : DriverSystem} {dev : Nat} {idle idle' : Prop}

theorem Goes.of_eq (hhanded : s'.handed = s.handed)
    (hdevices : s'.registry.devices = s.registry.devices)
    (hcallbacks : ∀ drv, SameCallbacks (s.driver drv) (s'.driver drv)) : Goes s s' :=
  ⟨Nat.le_of_eq hhanded.symm, fun h => hdevices ▸ h, hcallbacks⟩

theorem SameCallbacks.of_eq {d d' : Driver} (h : d' = d) : SameCallbacks d d' := by
  subst h
  exact ⟨rfl, rfl, rfl⟩

theorem Goes.refl (s : DriverSystem) : Goes s s := .of_eq rfl rfl fun _ => .of_eq rfl

theorem Goes.trans (h : Goes s s') (h' : Goes s' s'') : Goes s s'' where
  handed := Nat.le_trans h.handed h'.handed
  nodup hs := h'.nodup (h.nodup hs)
  callbacks drv :=
    ⟨(h'.callbacks drv).probe.trans (h.callbacks drv).probe,
      (h'.callbacks drv).probeDirected.trans (h.callbacks drv).probeDirected,
      (h'.callbacks drv).dependsOn.trans (h.callbacks drv).dependsOn⟩

/-- Something else is written. -/
theorem Made.keeps (h : Made s s' dev) (hhanded : s''.handed = s'.handed)
    (hdevices : s''.registry.devices = s'.registry.devices)
    (hdriver : s''.driver = s'.driver) : Made s s'' dev where
  goes := h.goes.trans (.of_eq hhanded hdevices fun drv => .of_eq (congrFun hdriver drv))
  handed := hhanded ▸ h.handed
  fresh := hdevices ▸ h.fresh

theorem Acts.goes (h : Acts idle s s') : Goes s s' := by
  rcases h with ⟨rfl, -⟩ | ⟨hgoes, -⟩
  · exact .refl s'
  · exact hgoes

/-- A device is made, and more is done. -/
theorem Makes.trans (h : Makes s s') (h' : Goes s' s'') : Makes s s'' :=
  ⟨h.1.trans h', Nat.lt_of_lt_of_le h.2 h'.handed⟩

theorem Made.makes (h : Made s s' dev) : Makes s s' := ⟨h.goes, h.handed⟩

theorem Acts.imp (h : Acts idle s s') (himp : idle → idle') : Acts idle' s s' :=
  Or.imp_left (And.imp_right himp) h

/-- Where nothing was made nothing was done. -/
theorem Acts.of_handed (h : Acts idle s s') (hhanded : s'.handed = s.handed) : idle := by
  rcases h with ⟨-, hidle⟩ | ⟨-, hlt⟩
  · exact hidle
  · omega

end Relations

/-! ## The constructors -/

section Constructors

variable {s : DriverSystem} {register : DriverSystem → Nat → Except ProbeFault DriverSystem}
  {hw : Hardware}

theorem kalloc_made : Ensures s.kalloc fun r => Made s r.1 r.2 := by
  intro r h
  unfold DriverSystem.kalloc at h
  dsimp only at h
  split at h
  · cases h
  · next hfresh =>
    cases h
    exact ⟨⟨Nat.le_succ _, fun hs => hs, fun _ => .of_eq rfl⟩, Nat.lt_succ_self _, hfresh⟩

theorem kallocz_made : Ensures s.kallocz fun r => Made s r.1 r.2 := by
  intro r h
  unfold DriverSystem.kallocz at h
  dsimp only at h
  split at h
  · cases h
  · next hfresh =>
    cases h
    exact ⟨⟨Nat.le_succ _, fun hs => hs, fun _ => .of_eq rfl⟩, Nat.lt_succ_self _, hfresh⟩

theorem serialNewDev_made : Ensures s.serialNewDev fun r => Made s r.1 r.2 :=
  .bind kalloc_made fun _ hr => .pure (hr.keeps rfl rfl rfl)

theorem bdriveCreate_made (driveNr : Nat) :
    Ensures (s.bdriveCreate driveNr) fun r => Made s r.1 r.2 :=
  .bind kallocz_made fun _ hr => .bind (.any _) fun _ _ => .pure (hr.keeps rfl rfl rfl)

theorem fbconCreate_made : Ensures s.fbconCreate fun r => Made s r.1 r.2 :=
  .bind kallocz_made fun _ hr => .bind (.any _) fun _ _ => .pure (hr.keeps rfl rfl rfl)

theorem fatCreate_made (invoker : Nat) (bytesPerSector : Option Nat) :
    Ensures (s.fatCreate invoker bytesPerSector) fun r => Made s r.1 r.2 := by
  unfold DriverSystem.fatCreate
  split
  · refine .bind kallocz_made fun r hr => .bind (.any _) fun contents _ => ?_
    cases bytesPerSector with
    | none => exact .error _
    | some bytesPerSector =>
      dsimp only
      split
      · exact .pure (hr.keeps rfl rfl rfl)
      · exact .error _
  · exact .error _

end Constructors

/-! ## Loops over the devices -/

section Loops

variable {s : DriverSystem} {fn : DriverSystem → Nat → Except ProbeFault DriverSystem}
  {P : Nat → Prop} {fuel current : Nat} {before behind : List Nat}

theorem foreachFrom_goes (hfn : ∀ s d, Ensures (fn s d) (Goes s)) :
    Ensures (DriverSystem.foreachFrom fn fuel s current) (Goes s) := by
  induction fuel generalizing s current with
  | zero => exact .error _
  | succ fuel ih =>
    rw [DriverSystem.foreachFrom]
    refine .bind (hfn s current) fun s₁ hs₁ => ?_
    split
    · split
      · exact ih.mono fun _ hs₂ => hs₁.trans hs₂
      · exact .pure hs₁
    · exact .error _

theorem deviceForeach_goes (hfn : ∀ s d, Ensures (fn s d) (Goes s)) :
    Ensures (s.deviceForeach fn fuel) (Goes s) := by
  unfold DriverSystem.deviceForeach
  split
  · exact foreachFrom_goes hfn
  · exact .pure (.refl s)

/-- The node behind one of the list. -/
theorem nextDevice_eq {devices : List Nat} (hnodup : devices.Nodup)
    (hdevices : devices = before ++ current :: behind) :
    DriverSystem.nextDevice devices current = behind.head? := by
  subst hdevices
  have hnot : ∀ d ∈ before, decide (d ≠ current) = true := by
    intro d hd
    have hdisjoint := (List.nodup_append.mp hnodup).2.2 d hd current List.mem_cons_self
    exact decide_eq_true hdisjoint
  rw [DriverSystem.nextDevice, List.dropWhile_append_of_pos hnot]
  simp

/-- A loop whose rounds do nothing, where that is right, or make a device. -/
theorem foreachFrom_acts (hgoes : ∀ s d, Ensures (fn s d) (Goes s))
    (hfn : ∀ d ∈ s.registry.devices, Ensures (fn s d) (Acts (P d) s))
    (hnodup : s.registry.devices.Nodup)
    (hdevices : s.registry.devices = before ++ current :: behind) :
    Ensures (DriverSystem.foreachFrom fn fuel s current)
      (Acts (∀ d ∈ current :: behind, P d) s) := by
  induction fuel generalizing before current behind with
  | zero => exact .error _
  | succ fuel ih =>
    have hcurrent : current ∈ s.registry.devices := by rw [hdevices]; simp
    rw [DriverSystem.foreachFrom]
    refine .bind (hfn current hcurrent) fun s₁ hs₁ => ?_
    rcases hs₁ with ⟨rfl, hidle⟩ | hs₁
    · rw [if_pos hcurrent, nextDevice_eq hnodup hdevices]
      cases behind with
      | nil => exact .pure (.inl ⟨rfl, by simpa using hidle⟩)
      | cons next behind =>
        rw [List.head?_cons]
        have hrest : s₁.registry.devices = (before ++ [current]) ++ next :: behind := by
          rw [hdevices, List.append_assoc, List.singleton_append]
        exact (ih hrest).mono fun _ hs₂ => hs₂.imp (List.forall_mem_cons.mpr ⟨hidle, ·⟩)
    · split
      · split
        · exact (foreachFrom_goes hgoes).mono fun _ hs₂ => .inr (hs₁.trans hs₂)
        · exact .pure (.inr hs₁)
      · exact .error _

theorem deviceForeach_acts (hgoes : ∀ s d, Ensures (fn s d) (Goes s))
    (hfn : ∀ d ∈ s.registry.devices, Ensures (fn s d) (Acts (P d) s))
    (hnodup : s.registry.devices.Nodup) :
    Ensures (s.deviceForeach fn fuel) (Acts (∀ d ∈ s.registry.devices, P d) s) := by
  unfold DriverSystem.deviceForeach
  cases hdevices : s.registry.devices with
  | nil => exact .pure (.inl ⟨rfl, by simp⟩)
  | cons d behind =>
    exact foreachFrom_acts hgoes hfn hnodup (hdevices.trans (List.nil_append _).symm)

/-- Where no round has anything to do the loop comes to its end. -/
theorem foreachFrom_idle (hfn : ∀ d ∈ s.registry.devices, fn s d = .ok s)
    (hnodup : s.registry.devices.Nodup)
    (hdevices : s.registry.devices = before ++ current :: behind)
    (hfuel : behind.length < fuel) : DriverSystem.foreachFrom fn fuel s current = .ok s := by
  induction fuel generalizing before current behind with
  | zero => exact absurd hfuel (Nat.not_lt_zero _)
  | succ fuel ih =>
    have hcurrent : current ∈ s.registry.devices := by rw [hdevices]; simp
    rw [DriverSystem.foreachFrom, hfn current hcurrent, ok_bind, if_pos hcurrent,
      nextDevice_eq hnodup hdevices]
    cases behind with
    | nil => rfl
    | cons next behind =>
      have hrest : s.registry.devices = (before ++ [current]) ++ next :: behind := by
        rw [hdevices, List.append_assoc, List.singleton_append]
      exact ih hrest (Nat.lt_of_succ_lt_succ hfuel)

theorem deviceForeach_idle (hfn : ∀ d ∈ s.registry.devices, fn s d = .ok s)
    (hnodup : s.registry.devices.Nodup) (hfuel : s.registry.devices.length ≤ fuel) :
    s.deviceForeach fn fuel = .ok s := by
  unfold DriverSystem.deviceForeach
  cases hdevices : s.registry.devices with
  | nil => rfl
  | cons d behind =>
    rw [hdevices, List.length_cons] at hfuel
    exact foreachFrom_idle hfn hnodup (hdevices.trans (List.nil_append _).symm) hfuel

/-- A loop whose rounds all make a device. -/
theorem foldlM_acts {α : Type} {step : DriverSystem → α → Except ProbeFault DriverSystem}
    (hstep : ∀ s a, Ensures (step s a) (Makes s)) (l : List α) :
    Ensures (l.foldlM step s) (Acts (l = []) s) := by
  cases l with
  | nil => exact .pure (.inl ⟨rfl, rfl⟩)
  | cons a l =>
    rw [List.foldlM_cons]
    refine .bind (hstep s a) fun s₁ hs₁ => ?_
    refine (Ensures.foldlM Goes.refl (fun _ _ _ => Goes.trans)
      (fun s a _ => (hstep s a).mono fun _ h => h.1) s₁).mono fun s₂ hs₂ => ?_
    exact .inr (hs₁.trans hs₂)

end Loops

/-! ## The probes -/

section Probes

variable {s : DriverSystem} {register : DriverSystem → Nat → Except ProbeFault DriverSystem}
  {hw : Hardware} {depth : Nat}

theorem deregister_goes (d : Nat) : Ensures (s.deregister depth d) (Goes s) := by
  intro s' h
  unfold DriverSystem.deregister at h
  split at h
  · next hcall =>
    cases h
    exact ⟨Nat.le_refl _, fun hs => (deviceDeregister_sublist hcall).nodup hs, fun _ => .of_eq rfl⟩
  · cases h

/-- A device that was made is filled in and registered. -/
theorem Made.registered {s₁ s₂ : DriverSystem} {dev : Nat} (h : Made s s₁ dev)
    (hregister : RegisterGoes register) (hhanded : s₂.handed = s₁.handed)
    (hdevices : s₂.registry.devices = s₁.registry.devices) (hdriver : s₂.driver = s₁.driver) :
    Ensures (register s₂ dev) (Makes s) := by
  have hmade := h.keeps hhanded hdevices hdriver
  exact (hregister s₂ dev hmade.fresh).mono fun _ hs₃ => hmade.makes.trans hs₃

theorem acts_of_makes {x : Except ProbeFault DriverSystem} {idle : Prop}
    (h : Ensures x (Makes s)) : Ensures x (Acts idle s) := h.mono fun _ hs => .inr hs

theorem vesaProbe_acts (hregister : RegisterGoes register) :
    Ensures (s.vesaProbe register hw)
      (Acts ((s.driver .vesa).firstProbe = true → hw.vesaMode = false) s) := by
  unfold DriverSystem.vesaProbe
  split
  · refine .bind kalloc_made fun r hr => .bind (.any _) fun suffix _ => ?_
    dsimp only
    split
    · exact acts_of_makes (hr.registered hregister rfl rfl rfl)
    · exact .pure (.inr (hr.makes.trans (.of_eq rfl rfl fun _ => .of_eq rfl)))
  · next hnot =>
    refine .pure (.inl ⟨rfl, fun hfirst => ?_⟩)
    exact Bool.eq_false_of_not_eq_true fun hmode => hnot ⟨hfirst, hmode⟩

theorem vgaProbe_acts (hregister : RegisterGoes register) :
    Ensures (s.vgaProbe register) (Acts ((s.driver .vga).firstProbe = false) s) := by
  unfold DriverSystem.vgaProbe
  split
  · refine acts_of_makes (.bind kalloc_made fun r hr => ?_)
    exact hr.registered hregister rfl rfl rfl
  · next hnot => exact .pure (.inl ⟨rfl, Bool.eq_false_of_not_eq_true hnot⟩)

theorem serialProbe_acts (hregister : RegisterGoes register) :
    Ensures (s.serialProbe register) (Acts ((s.driver .serial).firstProbe = false) s) := by
  unfold DriverSystem.serialProbe
  split
  · refine (foldlM_acts (fun s _ => ?_) (List.range 4)).mono fun _ h => h.imp fun h => ?_
    · exact .bind serialNewDev_made fun r hr => hr.registered hregister rfl rfl rfl
    · cases h
  · next hnot => exact .pure (.inl ⟨rfl, Bool.eq_false_of_not_eq_true hnot⟩)

theorem bdriveProbe_acts (hregister : RegisterGoes register) :
    Ensures (s.bdriveProbe register hw)
      (Acts ((s.driver .bdrive).firstProbe = true → hw.drives = []) s) := by
  unfold DriverSystem.bdriveProbe
  split
  · refine (foldlM_acts (fun s driveNr => ?_) hw.drives).mono fun _ h => h.imp fun h _ => h
    exact .bind (bdriveCreate_made driveNr) fun r hr => hr.registered hregister rfl rfl rfl
  · next hnot => exact .pure (.inl ⟨rfl, fun hfirst => absurd hfirst hnot⟩)

/-- A framebuffer that is not settled gets a console. -/
theorem fbconDevForeachCallback_acts (hregister : RegisterGoes register) (dev : Nat) :
    Ensures (s.fbconDevForeachCallback register depth dev) (Acts (s.Settled dev) s) := by
  unfold DriverSystem.fbconDevForeachCallback
  split
  · split
    · next hbound => exact .pure (.inl ⟨rfl, fun _ => .inl hbound⟩)
    · split
      · refine .bind fbconCreate_made fun r hr => ?_
        refine .bind (hr.registered hregister rfl rfl rfl) fun s₂ hs₂ => ?_
        split
        · exact (deregister_goes _).mono fun _ hs₃ => .inr (hs₂.trans hs₃)
        · exact .pure (.inr hs₂)
      · next hsize => exact .pure (.inl ⟨rfl, fun _ => .inr hsize⟩)
  · next htype => exact .pure (.inl ⟨rfl, fun h => absurd h htype⟩)

theorem fbconProbe_goes (hregister : RegisterGoes register) :
    Ensures (s.fbconProbe register depth) (Goes s) :=
  deviceForeach_goes fun _ d => (fbconDevForeachCallback_acts hregister d).mono fun _ h => h.goes

theorem fbconProbe_acts (hregister : RegisterGoes register) (hnodup : s.registry.devices.Nodup) :
    Ensures (s.fbconProbe register depth) (Acts (∀ d ∈ s.registry.devices, s.Settled d) s) :=
  deviceForeach_acts
    (fun _ d => (fbconDevForeachCallback_acts hregister d).mono fun _ h => h.goes)
    (fun d _ => fbconDevForeachCallback_acts hregister d) hnodup

/-- A drive with a partition for it gets a filesystem. -/
theorem fatProbeDirected_acts (hregister : RegisterGoes register) (invoker : Nat) :
    Ensures (s.fatProbeDirected register hw (some invoker))
      (Acts ((s.registry.device invoker).type = .block →
        hw.partitions (s.internal invoker).driveNr = some []) s) := by
  unfold DriverSystem.fatProbeDirected
  dsimp only
  split
  · split
    · split
      · exact .error _
      · next partitions hpartitions =>
        refine (foldlM_acts (fun s bytesPerSector => ?_) partitions).mono fun _ h => h.imp ?_
        · exact .bind (fatCreate_made invoker bytesPerSector) fun r hr =>
            hr.registered hregister rfl rfl rfl
        · rintro rfl _
          exact hpartitions
    · next htype => exact .pure (.inl ⟨rfl, fun h => absurd h htype⟩)
  · exact .error _

theorem probeDirected_goes (hregister : RegisterGoes register) (invoker : Option Nat)
    (drv : KernDriver) : Ensures (s.probeDirected register depth hw invoker drv) (Goes s) := by
  cases drv with
  | fbcon => exact fbconProbe_goes hregister
  | fat =>
    cases invoker with
    | none => exact .pure (.refl s)
    | some invoker => exact (fatProbeDirected_acts hregister invoker).mono fun _ h => h.goes
  | vesa | vga | serial | bdrive => exact .error _

theorem probe_goes (hregister : RegisterGoes register) (drv : KernDriver) :
    Ensures (s.probe register hw drv) (Goes s) := by
  cases drv with
  | vesa => exact (vesaProbe_acts hregister).mono fun _ h => h.goes
  | vga => exact (vgaProbe_acts hregister).mono fun _ h => h.goes
  | serial => exact (serialProbe_acts hregister).mono fun _ h => h.goes
  | bdrive => exact (bdriveProbe_acts hregister).mono fun _ h => h.goes
  | fbcon | fat => exact .error _

/-- By induction on the depth of the calls: the probes register devices again. -/
theorem deviceRegister_goes (hw : Hardware) (depth : Nat) :
    RegisterGoes (DriverSystem.deviceRegister hw depth) := by
  induction depth with
  | zero => exact fun _ _ _ => .error _
  | succ depth ih =>
    intro s dev hfresh
    have happend : Goes s { s with registry := Io.deviceRegister s.registry dev } := by
      refine ⟨Nat.le_refl _, fun hs => ?_, fun _ => .of_eq rfl⟩
      rw [Io.deviceRegister, List.nodup_append_comm]
      exact List.nodup_cons.mpr ⟨hfresh, hs⟩
    rw [DriverSystem.deviceRegister]
    refine (Ensures.foldlM Goes.refl (fun _ _ _ => Goes.trans) (fun s drv _ => ?_) _).mono
      fun _ h => happend.trans h
    split
    · split
      · split
        · exact probeDirected_goes ih (some dev) drv
        · exact .error _
      · exact .pure (.refl s)
    · exact .error _

end Probes

/-! ## The first probe -/

section FirstProbe

variable {s : DriverSystem} {hw : Hardware} {depth : Nat} {drv : KernDriver}

/-- The registered devices are listed once, and the drivers have their callbacks. -/
structure Regular (s : DriverSystem) : Prop where
  nodup : s.registry.devices.Nodup
  callbacks : ∀ drv, SameCallbacks (kernDriver drv) (s.driver drv)

theorem Regular.goes {s' : DriverSystem} (h : Regular s) (hgoes : Goes s s') : Regular s' where
  nodup := hgoes.nodup h.nodup
  callbacks drv :=
    ⟨(hgoes.callbacks drv).probe.trans (h.callbacks drv).probe,
      (hgoes.callbacks drv).probeDirected.trans (h.callbacks drv).probeDirected,
      (hgoes.callbacks drv).dependsOn.trans (h.callbacks drv).dependsOn⟩

theorem firstProbes_goes : Ensures (s.firstProbes depth hw drv) (Goes s) := by
  have hregister := deviceRegister_goes hw depth
  unfold DriverSystem.firstProbes
  split
  · exact probe_goes hregister drv
  · split
    · refine deviceForeach_goes fun s d => ?_
      split
      · exact probeDirected_goes hregister (some d) drv
      · exact .pure (.refl s)
    · exact probeDirected_goes hregister none drv

/-- A driver with `probe`. -/
theorem Regular.firstProbes_probe (h : Regular s) (hprobe : (kernDriver drv).probe = true) :
    s.firstProbes depth hw drv = s.probe (DriverSystem.deviceRegister hw depth) hw drv :=
  if_pos ((h.callbacks drv).probe.trans hprobe)

/-- A driver that is told about the devices of a type. -/
theorem Regular.firstProbes_directed (h : Regular s) (hprobe : (kernDriver drv).probe = false)
    (hdepends : (kernDriver drv).dependsOn ≠ .none) : s.firstProbes depth hw drv =
      s.deviceForeach (fun s device =>
        if (s.registry.device device).type = (s.driver drv).dependsOn then
          s.probeDirected (DriverSystem.deviceRegister hw depth) depth hw (some device) drv
        else .ok s) depth := by
  unfold DriverSystem.firstProbes
  rw [(h.callbacks drv).probe, hprobe, if_neg Bool.false_ne_true,
    if_pos (by rw [(h.callbacks drv).dependsOn]; exact hdepends)]

/-- The callbacks of a first probe do nothing where the driver is quiet, and make a device
elsewhere. -/
theorem firstProbes_acts (h : Regular s) (hfirst : (s.driver drv).firstProbe = true) :
    Ensures (s.firstProbes depth hw drv) (Acts (s.Quiet hw drv) s) := by
  have hregister := deviceRegister_goes hw depth
  have hdepends := (h.callbacks drv).dependsOn
  cases drv with
  | vesa =>
    rw [h.firstProbes_probe rfl]
    exact (vesaProbe_acts hregister).mono fun _ hs => hs.imp fun hmode => hmode hfirst
  | vga =>
    rw [h.firstProbes_probe rfl]
    refine (vgaProbe_acts hregister).mono fun _ hs => hs.imp fun hnot => ?_
    rw [hnot] at hfirst
    cases hfirst
  | serial =>
    rw [h.firstProbes_probe rfl]
    refine (serialProbe_acts hregister).mono fun _ hs => hs.imp fun hnot => ?_
    rw [hnot] at hfirst
    cases hfirst
  | bdrive =>
    rw [h.firstProbes_probe rfl]
    exact (bdriveProbe_acts hregister).mono fun _ hs => hs.imp fun hdrives => hdrives hfirst
  | fbcon =>
    rw [h.firstProbes_directed rfl (by decide)]
    refine (deviceForeach_acts (P := fun d => (s.registry.device d).type = .framebuffer →
      ∀ d' ∈ s.registry.devices, s.Settled d') (fun s d => ?_) (fun d _ => ?_) h.nodup).mono
      fun _ hs => hs.imp fun hidle d hd htype => hidle d hd htype d hd htype
    · split
      · exact fbconProbe_goes hregister
      · exact .pure (.refl s)
    · split
      · exact (fbconProbe_acts hregister h.nodup).mono fun _ hs => hs.imp fun hall _ => hall
      · next htype =>
        rw [hdepends] at htype
        exact .pure (.inl ⟨rfl, fun h => absurd h htype⟩)
  | fat =>
    rw [h.firstProbes_directed rfl (by decide)]
    refine deviceForeach_acts (fun s d => ?_) (fun d _ => ?_) h.nodup
    · split
      · exact probeDirected_goes hregister (some d) .fat
      · exact .pure (.refl s)
    · split
      · exact fatProbeDirected_acts hregister d
      · next htype =>
        rw [hdepends] at htype
        exact .pure (.inl ⟨rfl, fun h => absurd h htype⟩)

/-- The callbacks of a first probe of a quiet driver return. -/
theorem firstProbes_quiet (h : Regular s) (hdepth : s.registry.devices.length ≤ depth)
    (hquiet : s.Quiet hw drv) : s.firstProbes depth hw drv = .ok s := by
  have hdepends := (h.callbacks drv).dependsOn
  cases drv with
  | vesa =>
    have hmode : hw.vesaMode = false := hquiet
    rw [h.firstProbes_probe rfl, DriverSystem.probe, DriverSystem.vesaProbe,
      if_neg (by simp [hmode])]
  | vga | serial => exact absurd hquiet id
  | bdrive =>
    have hdrives : hw.drives = [] := hquiet
    rw [h.firstProbes_probe rfl, DriverSystem.probe, DriverSystem.bdriveProbe, hdrives]
    split
    all_goals rfl
  | fbcon =>
    rw [h.firstProbes_directed rfl (by decide)]
    refine deviceForeach_idle (fun d _ => ?_) h.nodup hdepth
    split
    · refine deviceForeach_idle (fun d' hd' => ?_) h.nodup hdepth
      have hsettled : s.Settled d' := hquiet d' hd'
      unfold DriverSystem.fbconDevForeachCallback
      split
      · next htype =>
        rcases hsettled htype with hbound | hsize
        · rw [if_pos hbound]
        · rw [if_neg hsize]
          split
          all_goals rfl
      · rfl
    · rfl
  | fat =>
    rw [h.firstProbes_directed rfl (by decide)]
    refine deviceForeach_idle (fun d hd => ?_) h.nodup hdepth
    split
    · next htype =>
      have hblock : (s.registry.device d).type = .block := htype.trans hdepends
      rw [DriverSystem.probeDirected, DriverSystem.fatProbeDirected, if_pos hd, if_pos hblock,
        hquiet d hd hblock]
      rfl
    · rfl

end FirstProbe

/-! ## Runs -/

section Runs

variable {s : DriverSystem} {hw : Hardware} {depth : Nat} {drv : KernDriver}

theorem setFirstProbe_goes (s : DriverSystem) (drv : KernDriver) (value : Bool) :
    Goes s (s.setFirstProbe drv value) := by
  refine .of_eq rfl rfl fun drv' => ?_
  by_cases hdrv : drv' = drv
  · subst hdrv
    simp only [DriverSystem.setFirstProbe, Function.update_self]
    exact ⟨rfl, rfl, rfl⟩
  · exact .of_eq (Function.update_of_ne hdrv _ _)

theorem driverFirstProbe_goes : Ensures (s.driverFirstProbe depth hw drv) (Goes s) :=
  .bind firstProbes_goes fun s₁ hs₁ =>
    .pure (((setFirstProbe_goes s drv true).trans hs₁).trans (setFirstProbe_goes s₁ drv false))

/-- The flag that `driver_enable` clears. -/
theorem enable_goes (s : DriverSystem) (drv : KernDriver) : Goes s { s with
      driver := Function.update s.driver drv { s.driver drv with disabled := false } } := by
  refine .of_eq rfl rfl fun drv' => ?_
  by_cases hdrv : drv' = drv
  · subst hdrv
    simp only [Function.update_self]
    exact ⟨rfl, rfl, rfl⟩
  · exact .of_eq (Function.update_of_ne hdrv _ _)

theorem driverStep_goes (op : DriverOp) : Ensures (driverStep depth s op) (Goes s) := by
  cases op with
  | driverRegister drv hw =>
    have hlist : Goes s { s with drivers := s.drivers ++ [drv] } :=
      .of_eq rfl rfl fun _ => .of_eq rfl
    unfold driverStep DriverSystem.driverRegister
    dsimp only
    split
    · split
      · exact .pure hlist
      · exact driverFirstProbe_goes.mono fun _ h => hlist.trans h
    · exact .error _
  | driverEnable drv hw =>
    exact driverFirstProbe_goes.mono fun _ h => (enable_goes s drv).trans h
  | driverProbeFor type invoker hw =>
    refine Ensures.foldlM Goes.refl (fun _ _ _ => Goes.trans) (fun s drv _ => ?_) s
    split
    · split
      · exact probe_goes (deviceRegister_goes hw depth) drv
      · exact probeDirected_goes (deviceRegister_goes hw depth) invoker drv
    · exact .pure (.refl s)
  | deviceRegister contents internal inform hw =>
    refine .bind kallocz_made fun r hr => ?_
    refine Ensures.mono (Q := Makes s) ?_ fun _ h => h.1
    exact hr.registered (deviceRegister_goes hw depth) rfl rfl rfl
  | deviceDeregister device => exact deregister_goes device
  | setRes device width height =>
    rw [driverStep]
    split
    · exact .pure (.of_eq rfl rfl fun _ => .of_eq rfl)
    · exact .error _
  | reuse =>
    intro s' h
    rw [driverStep] at h
    obtain ⟨r, hr, rfl⟩ := map_eq_ok h
    exact (kalloc_made r hr).goes

/-- In every run from the start of the kernel the devices are listed once. -/
theorem driverRun_regular {address : Nat → Nat} {memory held : Nat → Held} {ops : List DriverOp}
    (hrun : ops.foldlM (driverStep depth) (DriverSystem.boot address memory held) = .ok s) :
    Regular s := by
  have hboot : Regular (DriverSystem.boot address memory held) :=
    ⟨List.nodup_nil, fun _ => .of_eq rfl⟩
  exact hboot.goes (Ensures.foldlM Goes.refl (fun _ _ _ => Goes.trans)
    (fun _ op _ => driverStep_goes op) _ s hrun)

end Runs

/-! ## The command on an enabled driver -/

section Enabled

variable {s : DriverSystem} {hw : Hardware} {depth depth' : Nat} {drv : KernDriver}
  {address : Nat → Nat} {memory held : Nat → Held} {ops : List DriverOp}
  {command modname : List UInt8}

/-- An enabled driver can be enabled again without an effect on the devices exactly if its
first probe finds nothing to make one for. -/
theorem endrv_same_iff
    (hrun : ops.foldlM (driverStep depth') (DriverSystem.boot address memory held) = .ok s)
    (hdepth : s.registry.devices.length ≤ depth) (hfind : s.driverGetByModname modname = some drv)
    (henabled : (s.driver drv).disabled = false) :
    (∃ s', s.endrv depth hw [command, modname] =
        (some "Driver '%s' already enabled\n", .ok s') ∧ s.Same s') ↔ s.Quiet hw drv := by
  have hcommand : s.endrv depth hw [command, modname] =
      (some "Driver '%s' already enabled\n", s.driverEnable depth hw drv) := by
    simp [DriverSystem.endrv, hfind, henabled]
  have hregular := (driverRun_regular hrun).goes (enable_goes s drv)
  rw [hcommand]
  unfold DriverSystem.driverEnable DriverSystem.driverFirstProbe
  generalize hs₁ : ({ s with
    driver := Function.update s.driver drv { s.driver drv with disabled := false } } :
      DriverSystem).setFirstProbe drv true = s₁
  have hregular₁ : Regular s₁ := by
    rw [← hs₁]
    exact hregular.goes (setFirstProbe_goes _ drv true)
  have hfirst : (s₁.driver drv).firstProbe = true := by
    rw [← hs₁]
    simp [DriverSystem.setFirstProbe]
  have hquiet : s₁.Quiet hw drv ↔ s.Quiet hw drv := by
    rw [← hs₁]
    cases drv <;> exact Iff.rfl
  have hsame : s₁.registry = s.registry ∧ s₁.handed = s.handed ∧ s₁.events = s.events := by
    rw [← hs₁]
    exact ⟨rfl, rfl, rfl⟩
  constructor
  · rintro ⟨s', hok, hs'⟩
    obtain ⟨s₂, hprobes, hlast⟩ := bind_eq_ok (Prod.mk.inj hok).2
    cases hlast
    have hacts := firstProbes_acts hregular₁ hfirst s₂ hprobes
    exact hquiet.mp (hacts.of_handed (hs'.handed.trans hsame.2.1.symm))
  · intro h
    have hprobes : s₁.firstProbes depth hw drv = .ok s₁ :=
      firstProbes_quiet hregular₁ (by rw [hsame.1]; exact hdepth) (hquiet.mpr h)
    refine ⟨s₁.setFirstProbe drv false, by rw [hprobes]; rfl, ?_⟩
    exact ⟨congrArg Registry.devices hsame.1, hsame.2.1, hsame.2.2⟩

/-- `"endrv"` -/
def endrvName : List UInt8 := [101, 110, 100, 114, 118]

/-- A machine without drives, and with or without a VESA mode of 800 by 600 pixels. -/
def vesaHardware (vesaMode : Bool) : Hardware where
  vesaMode := vesaMode
  vesaRes := some (800, 600)
  drives := []
  partitions := fun _ => none

/-- Memory that holds zeroes. -/
def zeroed (_ : Nat) : Held := ⟨⟨[], .none, false, none⟩, none, ⟨0, 0, 0⟩⟩

/-- The VESA driver is registered, and enabled. -/
def enabledVesa (vesaMode : Bool) : Except ProbeFault DriverSystem :=
  [.driverRegister .vesa (vesaHardware vesaMode), .driverEnable .vesa (vesaHardware vesaMode)].foldlM
    (driverStep 4) (DriverSystem.boot (4096 * · + 4096) zeroed zeroed)

/-- `endrv vesafb` again on a machine without a VESA mode. -/
theorem endrv_same_iff_noMode : ∃ s, enabledVesa false = .ok s ∧
    ((∃ s', s.endrv 4 (vesaHardware false) [endrvName, KernDriver.vesa.modname] =
        (some "Driver '%s' already enabled\n", .ok s') ∧ s.Same s') ↔
      s.Quiet (vesaHardware false) .vesa) := by
  obtain ⟨s, hrun, hlength, hfind, henabled⟩ : ∃ s, enabledVesa false = .ok s ∧
      s.registry.devices.length ≤ 4 ∧ s.driverGetByModname KernDriver.vesa.modname = some .vesa ∧
      (s.driver .vesa).disabled = false := ⟨_, rfl, by decide, rfl, rfl⟩
  exact ⟨s, hrun, endrv_same_iff hrun hlength hfind henabled⟩

/-- `endrv vesafb` again on a machine with a VESA mode: there are two framebuffers. -/
theorem endrv_makes_second : ∃ s s', enabledVesa true = .ok s ∧
    s.endrv 4 (vesaHardware true) [endrvName, KernDriver.vesa.modname] =
      (some "Driver '%s' already enabled\n", .ok s') ∧
    s.registry.devices = [4096] ∧ s'.registry.devices = [4096, 8192] ∧ ¬ s.Same s' := by
  have hruns : (fun s =>
      let (message, result) := s.endrv 4 (vesaHardware true) [endrvName, KernDriver.vesa.modname]
      (s.registry.devices, message, (·.registry.devices) <$> result)) <$> enabledVesa true =
        .ok ([4096], some "Driver '%s' already enabled\n", .ok [4096, 8192]) := by
    decide +kernel
  obtain ⟨s, hrun, hs⟩ := map_eq_ok hruns
  obtain ⟨hdevices, hs⟩ := Prod.mk.inj hs
  obtain ⟨hmessage, hs⟩ := Prod.mk.inj hs
  obtain ⟨s', hagain, hdevices'⟩ := map_eq_ok hs
  refine ⟨s, s', hrun, Prod.ext hmessage hagain, hdevices, hdevices', fun h => ?_⟩
  have hsame := h.devices
  rw [hdevices, hdevices'] at hsame
  exact absurd hsame (by decide)

end Enabled

end Microboot.Kern.Io
