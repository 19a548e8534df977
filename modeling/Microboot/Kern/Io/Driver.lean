/-
  Kern/Io/Driver.lean --- devices and their deregistration, kern/io/driver.c.

  A device is a `struct device` in memory, named by its address; the list of
  registered devices holds addresses, in the order of registration.  The fields
  are those that the modelled functions read.

  `device_deregister` and `device_deregister_subdevices` call each other, and take
  devices out of the list that the outer calls are looking through.  What a call
  does is logged.  Over registered devices without a cycle a call takes out what
  its device reaches and nothing else (`Removes`).
-/
import Mathlib.Data.List.Count
import Mathlib.Logic.Function.Basic
import Mathlib.Order.Filter.AtTopBot.Basic
import Mathlib.Order.Filter.Finite
import Microboot.Foundation.Reach
import Microboot.Kern.Stdlib

set_option autoImplicit false

namespace Microboot.Kern.Io

open Microboot.Foundation

/-! ## The model -/

/-- `enum device_type` -/
inductive DeviceType where
  | unknown | none | con | framebuffer | char | block | fs
  deriving DecidableEq, Repr

/-- `struct device`.  `destroy` says whether the callback is defined, `subdevices`
holds the first `num_subdevices` pointers of the array, if there is one. -/
structure Device where
  name : List UInt8
  type : DeviceType
  destroy : Bool
  subdevices : Option (List Nat)
  deriving DecidableEq, Repr

/-- What is done to a device: `device_deregister` is called with it, its callback
`destroy` is called, it is taken out of the list. -/
inductive DeviceEvent where
  | deregister (device : Nat)
  | destroy (device : Nat)
  | remove (device : Nat)
  deriving DecidableEq, Repr

/-- The list `devices`, the memory of the devices, and what was done so far. -/
structure Registry where
  devices : List Nat
  device : Nat → Device
  log : List DeviceEvent

namespace Registry

def event (r : Registry) (e : DeviceEvent) : Registry := { r with log := r.log ++ [e] }

/-- `device->subdevices[0 .. device->num_subdevices)` -/
def subdevices (r : Registry) (device : Nat) : List Nat := (r.device device).subdevices.getD []

/-- `device->num_subdevices = 0;` -/
def clearSubdevices (r : Registry) (device : Nat) : Registry :=
  { r with device :=
      Function.update r.device device { r.device device with subdevices := some [] } }

end Registry

/-- The body of the loop over the subdevices; the array is read again each time. -/
def deregisterSubdevice (deregister : Registry → Nat → Option (Registry × Bool)) (device : Nat)
    (r : Registry) (i : Nat) : Option Registry :=
  match (r.subdevices device)[i]? with
  | some subdevice => Prod.fst <$> deregister r subdevice
  | none => some r

/-- `device_deregister_subdevices(device)` -/
def deviceDeregisterSubdevices (deregister : Registry → Nat → Option (Registry × Bool))
    (r : Registry) (device : Nat) : Option (Registry × Bool) :=
  match (r.device device).subdevices with
  | none => some (r, false)
  | some subdevices => do
    let r ← (List.range subdevices.length).foldlM (deregisterSubdevice deregister device) r
    return (r.clearSubdevices device, true)

/-- `device_deregister(device)`, where calls are nested to a depth below the first
argument; the callbacks do not touch the registry. -/
def deviceDeregister : Nat → Registry → Nat → Option (Registry × Bool)
  | 0, _, _ => none
  | depth + 1, r, device =>
    let r := r.event (.deregister device)
    if device ∈ r.devices then do
      let (r, _) ← deviceDeregisterSubdevices (deviceDeregister depth) r device
      let r := if (r.device device).destroy then r.event (.destroy device) else r
      let r := r.event (.remove device)
      return ({ r with devices := r.devices.erase device }, true)
    else return (r, false)

/-! ## What a call takes out -/

namespace Registry

/-- `y` is a subdevice of `x`. -/
def Sub (r : Registry) (x y : Nat) : Prop := y ∈ r.subdevices x

/-- `y` is reached from `x` through subdevices of registered devices. -/
def Reaches (r : Registry) : Nat → Nat → Prop := ReachIn r.Sub (· ∈ r.devices)

/-- No registered device is a subdevice of a subdevice .. of its own. -/
def Acyclic (r : Registry) : Prop := AcyclicIn r.Sub (· ∈ r.devices)

end Registry

/-- An element of a concatenation stands in the second list, or in the first. -/
theorem append_eq_append_cons {α : Type} {l₁ l₂ front back : List α} {e : α}
    (heq : l₁ ++ l₂ = front ++ e :: back) :
    (∃ middle, front = l₁ ++ middle ∧ l₂ = middle ++ e :: back) ∨
      ∃ middle, l₁ = front ++ e :: middle := by
  rcases List.append_eq_append_iff.mp heq with ⟨middle, hfront, hl₂⟩ | ⟨middle, hl₁, hback⟩
  · exact Or.inl ⟨middle, hfront, hl₂⟩
  · cases middle with
    | nil => exact Or.inl ⟨[], by simpa using hl₁.symm, by simpa using hback.symm⟩
    | cons e' middle =>
      rw [List.cons_append, List.cons.injEq] at hback
      obtain ⟨rfl, -⟩ := hback
      exact Or.inr ⟨middle, hl₁⟩

open Classical in
/-- The registered devices in `C` are taken out, each once and behind its registered
subdevices, and all others stay as they are. -/
structure Removes (r : Registry) (C : Nat → Prop) (r' : Registry) (events : List DeviceEvent) :
    Prop where
  log : r'.log = r.log ++ events
  devices : r'.devices = r.devices.filter fun x => ¬ C x
  kept : ∀ x ∈ r'.devices, r'.device x = r.device x
  destroy_eq : ∀ x, (r'.device x).destroy = (r.device x).destroy
  remove : ∀ x, events.count (.remove x) = if x ∈ r.devices ∧ C x then 1 else 0
  destroy : ∀ x, events.count (.destroy x) =
    if (x ∈ r.devices ∧ C x) ∧ (r.device x).destroy = true then 1 else 0
  childFirst : ∀ front x back, events = front ++ .destroy x :: back → ∀ y ∈ r.devices, r.Sub x y →
    .remove y ∈ front ∧ ((r.device y).destroy = true → .destroy y ∈ front)

namespace Removes

variable {r r₁ r₂ : Registry} {C C₁ C₂ : Nat → Prop} {events events₁ events₂ : List DeviceEvent}

theorem mem_devices (h : Removes r C r₁ events) (x : Nat) :
    x ∈ r₁.devices ↔ x ∈ r.devices ∧ ¬ C x := by
  rw [h.devices, List.mem_filter]
  simp

theorem remove_mem (h : Removes r C r₁ events) {x : Nat} (hx : x ∈ r.devices) (hC : C x) :
    .remove x ∈ events := by
  rw [← List.count_pos_iff, h.remove, if_pos ⟨hx, hC⟩]
  exact Nat.one_pos

theorem destroy_mem_iff (h : Removes r C r₁ events) (x : Nat) :
    .destroy x ∈ events ↔ (x ∈ r.devices ∧ C x) ∧ (r.device x).destroy = true := by
  rw [← List.count_pos_iff, h.destroy]
  split <;> simp_all

/-- Nothing is taken out. -/
theorem none (hC : ∀ x ∈ r.devices, ¬ C x) (hdevices : r₁.devices = r.devices)
    (hdevice : r₁.device = r.device) (hlog : r₁.log = r.log ++ events) (hremove : ∀ x, .remove x ∉ events)
    (hdestroy : ∀ x, .destroy x ∉ events) : Removes r C r₁ events where
  log := hlog
  devices := by
    rw [hdevices]
    exact (List.filter_eq_self.mpr fun x hx => by simpa using hC x hx).symm
  kept x _ := by rw [hdevice]
  destroy_eq x := by rw [hdevice]
  remove x := by
    rw [if_neg fun h => hC x h.1 h.2]
    exact List.count_eq_zero.mpr (hremove x)
  destroy x := by
    rw [if_neg fun h => hC x h.1.1 h.1.2]
    exact List.count_eq_zero.mpr (hdestroy x)
  childFirst front x back heq := absurd (by rw [heq]; simp) (hdestroy x)

/-- One call behind another. -/
theorem trans (h₁ : Removes r C₁ r₁ events₁) (h₂ : Removes r₁ C₂ r₂ events₂) :
    Removes r (fun x => C₁ x ∨ C₂ x) r₂ (events₁ ++ events₂) where
  log := by rw [h₂.log, h₁.log, List.append_assoc]
  devices := by
    rw [h₂.devices, h₁.devices, List.filter_filter]
    refine List.filter_congr fun x _ => ?_
    by_cases hC₁ : C₁ x <;> by_cases hC₂ : C₂ x <;> simp [hC₁, hC₂]
  kept x hx := by
    have hx₁ := ((h₂.mem_devices x).mp hx).1
    rw [h₂.kept x hx, h₁.kept x hx₁]
  destroy_eq x := by rw [h₂.destroy_eq, h₁.destroy_eq]
  remove x := by
    have hmem := h₁.mem_devices x
    rw [List.count_append, h₁.remove, h₂.remove]
    by_cases hx : x ∈ r.devices <;> by_cases hC₁ : C₁ x <;> by_cases hC₂ : C₂ x <;>
      simp_all
  destroy x := by
    have hmem := h₁.mem_devices x
    rw [List.count_append, h₁.destroy, h₂.destroy, h₁.destroy_eq]
    by_cases hx : x ∈ r.devices <;> by_cases hC₁ : C₁ x <;> by_cases hC₂ : C₂ x <;>
      simp_all
  childFirst front x back heq y hy hsub := by
    -- if `x` is destroyed in the second part, `y` is taken out there, or was before
    have hsecond : ∀ middle, front = events₁ ++ middle → events₂ = middle ++ .destroy x :: back →
        .remove y ∈ front ∧ ((r.device y).destroy = true → .destroy y ∈ front) := by
      intro middle hfront hevents
      subst hfront
      have hmem : .destroy x ∈ events₂ := by
        rw [hevents]
        simp
      have hx := ((h₂.destroy_mem_iff x).mp hmem).1.1
      have hsub₁ : r₁.Sub x y := by
        unfold Registry.Sub Registry.subdevices
        rw [h₁.kept x hx]
        exact hsub
      by_cases hC₁ : C₁ y
      · refine ⟨List.mem_append_left _ (h₁.remove_mem hy hC₁), fun hd => ?_⟩
        exact List.mem_append_left _ ((h₁.destroy_mem_iff y).mpr ⟨⟨hy, hC₁⟩, hd⟩)
      · have hy₁ := (h₁.mem_devices y).mpr ⟨hy, hC₁⟩
        obtain ⟨hremove, hdestroy⟩ := h₂.childFirst middle x back hevents y hy₁ hsub₁
        refine ⟨List.mem_append_right _ hremove, fun hd => List.mem_append_right _ (hdestroy ?_)⟩
        rw [h₁.destroy_eq]
        exact hd
    rcases append_eq_append_cons heq with ⟨middle, hfront, hevents⟩ | ⟨middle, hfirst⟩
    · exact hsecond middle hfront hevents
    · exact h₁.childFirst front x middle hfirst y hy hsub

/-- The same set, described otherwise. -/
theorem congr (h : Removes r C₁ r₁ events) (hC : ∀ x, C₁ x ↔ C₂ x) : Removes r C₂ r₁ events := by
  obtain rfl : C₁ = C₂ := funext fun x => propext (hC x)
  exact h

end Removes

/-! ## Calls over acyclic subdevices -/

section Deregister

variable {r₀ r r₁ : Registry} {d : Nat}

/-- `r` is what is left of `r₀` after some devices were taken out. -/
structure Later (r₀ r : Registry) : Prop where
  nodup : r.devices.Nodup
  mem : ∀ x ∈ r.devices, x ∈ r₀.devices
  device : ∀ x ∈ r.devices, r.device x = r₀.device x

theorem Later.trans {C : Nat → Prop} {events : List DeviceEvent} (h : Later r₀ r)
    (hr : Removes r C r₁ events) : Later r₀ r₁ where
  nodup := by
    rw [hr.devices]
    exact h.nodup.filter _
  mem x hx := h.mem x ((hr.mem_devices x).mp hx).1
  device x hx := by rw [hr.kept x hx, h.device x ((hr.mem_devices x).mp hx).1]

theorem Later.reaches (h : Later r₀ r) {x y : Nat} (hreach : r.Reaches x y) :
    r₀.Reaches x y := by
  refine Relation.ReflTransGen.mono (fun a b hedge => ⟨h.mem a hedge.1, ?_⟩) x y hreach
  have hsub := hedge.2
  unfold Registry.Sub Registry.subdevices at hsub ⊢
  rw [← h.device a hedge.1]
  exact hsub

/-- Taking out a closed set changes nothing for the others. -/
theorem Removes.reaches_iff {C : Nat → Prop} {events : List DeviceEvent}
    (h : Removes r C r₁ events)
    (hC : ∀ x y, C x → LiveEdge r.Sub (· ∈ r.devices) x y → C y) {x y : Nat} (hy : ¬ C y) :
    r₁.Reaches x y ↔ r.Reaches x y := by
  unfold Registry.Reaches
  rw [← reachIn_diff hC h.mem_devices hy]
  refine reachIn_congr fun a b ha => ?_
  unfold Registry.Sub Registry.subdevices
  rw [h.kept a ha]

theorem Registry.reaches_closed (r : Registry) {x y : Nat}
    (h : r.Reaches d x) (hedge : LiveEdge r.Sub (· ∈ r.devices) x y) : r.Reaches d y :=
  Relation.ReflTransGen.tail h hedge

/-- `device_deregister` is called with registered devices only. -/
def Follows (r : Registry) (events : List DeviceEvent) : Prop :=
  ∀ front x back, events = front ++ .deregister x :: back → x ∈ r.devices ∧ .remove x ∉ front

/-- The subdevices of the registered devices that `d` reaches are registered, and
each of them is listed once. -/
structure ListedOnce (r : Registry) (d : Nat) : Prop where
  registered : ∀ z ∈ r.devices, r.Reaches d z → ∀ y, r.Sub z y → y ∈ r.devices
  nodup : ∀ z ∈ r.devices, r.Reaches d z → (r.subdevices z).Nodup
  parent : ∀ y z w, r.Reaches d y → z ∈ r.devices → w ∈ r.devices → r.Sub z y → r.Sub w y → z = w

/-- What a call does: it takes out what the device reaches, and follows pointers to
registered devices only if each of these is listed once. -/
def Deregisters (call : Registry → Nat → Option (Registry × Bool)) (r : Registry) (d : Nat) : Prop :=
  ∃ r' events, call r d = some (r', decide (d ∈ r.devices)) ∧
    Removes r (r.Reaches d) r' events ∧ (ListedOnce r d → d ∈ r.devices → Follows r events)

theorem Follows.trans {C : Nat → Prop} {events₁ events₂ : List DeviceEvent}
    (h₁ : Follows r events₁) (hr : Removes r C r₁ events₁) (h₂ : Follows r₁ events₂) :
    Follows r (events₁ ++ events₂) := by
  intro front x back heq
  have hsecond : ∀ middle, front = events₁ ++ middle → events₂ = middle ++ .deregister x :: back →
      x ∈ r.devices ∧ .remove x ∉ front := by
    intro middle hfront hevents
    obtain ⟨hx, hmiddle⟩ := h₂ middle x back hevents
    obtain ⟨hx, hC⟩ := (hr.mem_devices x).mp hx
    refine ⟨hx, fun hmem => ?_⟩
    rw [hfront, List.mem_append] at hmem
    refine hmem.elim (fun hmem => ?_) hmiddle
    have hcount := hr.remove x
    rw [if_neg fun h => hC h.2, List.count_eq_zero] at hcount
    exact hcount hmem
  rcases append_eq_append_cons heq with ⟨middle, hfront, hevents⟩ | ⟨middle, hfirst⟩
  · exact hsecond middle hfront hevents
  · exact h₁ front x middle hfirst

/-- When the loop comes to a subdevice that is listed once, it is still there. -/
theorem ListedOnce.next {C : Nat → Prop} {events : List DeviceEvent} {k s : Nat}
    (h : ListedOnce r d) (hnodup : r.devices.Nodup) (hd : d ∈ r.devices)
    (hcycle : ∀ s ∈ r.subdevices d, ¬ r.Reaches s d) (hk : (r.subdevices d)[k]? = some s)
    (hC : ∀ x, C x ↔ ∃ s ∈ (r.subdevices d).take k, r.Reaches s x) (hr : Removes r C r₁ events) :
    s ∈ r₁.devices ∧ ListedOnce r₁ s := by
  have hlater : Later r r₁ := Later.trans ⟨hnodup, fun _ hx => hx, fun _ _ => rfl⟩ hr
  have hs : r.Sub d s := List.mem_of_getElem? hk
  have hreach : ∀ x, r.Reaches s x → r.Reaches d x := fun x hx =>
    Relation.ReflTransGen.head ⟨hd, hs⟩ hx
  -- a device that is gone is listed by one that is still there only if that is `d`
  have hgone : ∀ y z, r.Reaches d y → z ∈ r.devices → ¬ C z → r.Sub z y → C y →
      y ∈ (r.subdevices d).take k ∧ z = d := by
    intro y z hy hz hCz hsub hCy
    obtain ⟨t, ht, hty⟩ := (hC y).mp hCy
    rcases Relation.ReflTransGen.cases_tail hty with rfl | ⟨w, htw, hw, hsubw⟩
    · exact ⟨ht, h.parent _ z d hy hz hd hsub (List.mem_of_mem_take ht)⟩
    · obtain rfl := h.parent y z w hy hz hw hsub hsubw
      exact absurd ((hC z).mpr ⟨t, ht, htw⟩) hCz
  have hCd : ¬ C d := fun hin => by
    obtain ⟨t, ht, htd⟩ := (hC d).mp hin
    exact hcycle t (List.mem_of_mem_take ht) htd
  have hsame : ∀ z ∈ r₁.devices, r₁.subdevices z = r.subdevices z := by
    intro z hz
    unfold Registry.subdevices
    rw [hr.kept z hz]
  refine ⟨?_, fun z hz hsz y hsub => ?_, fun z hz hsz => ?_, fun y z w hsy hz hw hsubz hsubw => ?_⟩
  · rw [hr.mem_devices]
    refine ⟨h.registered d hd Relation.ReflTransGen.refl s hs, fun hin => ?_⟩
    have hmem := (hgone s d (hreach s Relation.ReflTransGen.refl) hd hCd hs hin).1
    obtain ⟨i, hi, heq⟩ := List.getElem_of_mem hmem
    obtain ⟨hlen, heq'⟩ := List.getElem?_eq_some_iff.mp hk
    rw [List.length_take] at hi
    rw [List.getElem_take, ← heq',
      (h.nodup d hd Relation.ReflTransGen.refl).getElem_inj_iff] at heq
    omega
  · obtain ⟨hz', hCz⟩ := (hr.mem_devices z).mp hz
    have hsub' : r.Sub z y := by
      unfold Registry.Sub at hsub ⊢
      rwa [hsame z hz] at hsub
    have hreachz := hlater.reaches hsz
    have hyr := h.registered z hz' (hreach z hreachz) y hsub'
    refine (hr.mem_devices y).mpr ⟨hyr, fun hin => ?_⟩
    have hreachy := r.reaches_closed (hreach z hreachz) ⟨hz', hsub'⟩
    obtain ⟨-, rfl⟩ := hgone y z hreachy hz' hCz hsub' hin
    exact hcycle s hs hreachz
  · rw [hsame z hz]
    exact h.nodup z ((hr.mem_devices z).mp hz).1 (hreach z (hlater.reaches hsz))
  · unfold Registry.Sub at hsubz hsubw
    rw [hsame z hz] at hsubz
    rw [hsame w hw] at hsubw
    exact h.parent y z w (hreach y (hlater.reaches hsy)) ((hr.mem_devices z).mp hz).1
      ((hr.mem_devices w).mp hw).1 hsubz hsubw

/-- The loop over the first `k` subdevices takes out what these reach. -/
theorem deregisterLoop_spec {call : Registry → Nat → Option (Registry × Bool)}
    (hlater : Later r₀ r) (hd : d ∈ r.devices)
    (hcycle : ∀ s ∈ r.subdevices d, ¬ r.Reaches s d)
    (hcall : ∀ s ∈ r.subdevices d, ∀ r, Later r₀ r → Deregisters call r s) (k : Nat) :
    ∃ r' events, (List.range k).foldlM (deregisterSubdevice call d) r = some r' ∧
      Removes r (fun x => ∃ s ∈ (r.subdevices d).take k, r.Reaches s x) r' events ∧
      (ListedOnce r d → Follows r events) := by
  induction k with
  | zero =>
    exact ⟨r, [], rfl, Removes.none (by simp) rfl rfl (by simp) (by simp) (by simp),
      fun _ front x back heq => by simp at heq⟩
  | succ k ih =>
    obtain ⟨r', events, hloop, hremoves, hfollows⟩ := ih
    have hd' : d ∈ r'.devices := by
      rw [hremoves.mem_devices]
      exact ⟨hd, fun ⟨s, hs, hreach⟩ => hcycle s (List.mem_of_mem_take hs) hreach⟩
    have hsubs : r'.subdevices d = r.subdevices d := by
      unfold Registry.subdevices
      rw [hremoves.kept d hd']
    rw [List.range_succ, List.foldlM_append, hloop]
    change ∃ r'' events'', (deregisterSubdevice call d r' k >>= some) = some r'' ∧ _
    unfold deregisterSubdevice
    rw [hsubs]
    cases hk : (r.subdevices d)[k]? with
    | none =>
      refine ⟨r', events, rfl, hremoves.congr fun x => ?_, hfollows⟩
      have hlen := List.getElem?_eq_none_iff.mp hk
      rw [List.take_of_length_le hlen, List.take_of_length_le (Nat.le_succ_of_le hlen)]
    | some s =>
      obtain ⟨r'', events'', hcalls, hremoves'', hfollows''⟩ :=
        hcall s (List.mem_of_getElem? hk) r' (hlater.trans hremoves)
      refine ⟨r'', events ++ events'', by simp [hcalls], (hremoves.trans hremoves'').congr ?_,
        fun hlisted => ?_⟩
      rotate_left
      · obtain ⟨hs, hlisted'⟩ :=
          hlisted.next hlater.nodup hd hcycle hk (fun _ => Iff.rfl) hremoves
        exact (hfollows hlisted).trans hremoves (hfollows'' hlisted' hs)
      intro x
      have htake : (r.subdevices d).take (k + 1) = (r.subdevices d).take k ++ [s] := by
        rw [List.take_add_one, hk]
        rfl
      simp only [htake, List.mem_append, List.mem_singleton, or_and_right, exists_or,
        exists_eq_left]
      refine or_congr_right' fun hx => hremoves.reaches_iff (fun a b ⟨t, ht, hreach⟩ hedge => ?_) hx
      exact ⟨t, ht, r.reaches_closed hreach hedge⟩

open Classical in
/-- The end of a call: the device itself is taken out. -/
theorem Removes.self (hnodup : r.devices.Nodup) (hd : d ∈ r.devices)
    (hsub : ∀ y ∈ r.devices, ¬ r.Sub d y) (hdevices : r₁.devices = r.devices.erase d)
    (hkept : ∀ x, x ≠ d → r₁.device x = r.device x)
    (hdestroy : (r₁.device d).destroy = (r.device d).destroy)
    (hlog : r₁.log = r.log ++
      ((if (r.device d).destroy then [.destroy d] else []) ++ [.remove d])) :
    Removes r (· = d) r₁
      ((if (r.device d).destroy then [.destroy d] else []) ++ [.remove d]) where
  log := hlog
  devices := by
    rw [hdevices, hnodup.erase_eq_filter]
    refine List.filter_congr fun x _ => ?_
    by_cases hx : x = d <;> simp [hx]
  kept x hx := by
    rw [hdevices, hnodup.mem_erase_iff] at hx
    exact hkept x hx.1
  destroy_eq x := by
    by_cases hx : x = d
    · rw [hx, hdestroy]
    · rw [hkept x hx]
  remove x := by
    by_cases hx : x = d
    · subst hx
      cases (r.device x).destroy <;> simp [hd]
    · cases (r.device d).destroy <;> simp [hx, Ne.symm hx]
  destroy x := by
    by_cases hx : x = d
    · subst hx
      cases hdes : (r.device x).destroy <;> simp [hd]
    · cases (r.device d).destroy <;> simp [hx, Ne.symm hx]
  childFirst front x back heq y hy hsubx := by
    have hx : x = d := by
      have hmem : .destroy x ∈ (if (r.device d).destroy then [.destroy d] else []) ++
          [DeviceEvent.remove d] := by
        rw [heq]
        simp
      cases hdes : (r.device d).destroy <;> simp [hdes] at hmem
      exact hmem
    exact absurd (hx ▸ hsubx) (hsub y hy)

/-- `device_deregister_subdevices` is the loop over all subdevices, but for the
count that it clears at the end. -/
theorem deviceDeregisterSubdevices_spec {call : Registry → Nat → Option (Registry × Bool)}
    (hlater : Later r₀ r) (hd : d ∈ r.devices)
    (hcycle : ∀ s ∈ r.subdevices d, ¬ r.Reaches s d)
    (hcall : ∀ s ∈ r.subdevices d, ∀ r, Later r₀ r → Deregisters call r s) :
    ∃ r' events, Removes r (fun x => ∃ s ∈ r.subdevices d, r.Reaches s x) r' events ∧
      (ListedOnce r d → Follows r events) ∧
      (deviceDeregisterSubdevices call r d = some (r', false) ∨
        deviceDeregisterSubdevices call r d = some (r'.clearSubdevices d, true)) := by
  obtain ⟨r', events, hloop, hremoves, hfollows⟩ :=
    deregisterLoop_spec hlater hd hcycle hcall (r.subdevices d).length
  rw [List.take_length] at hremoves
  refine ⟨r', events, hremoves, hfollows, ?_⟩
  unfold deviceDeregisterSubdevices
  cases hsub : (r.device d).subdevices with
  | none =>
    have hlen : (r.subdevices d).length = 0 := by
      unfold Registry.subdevices
      rw [hsub]
      rfl
    rw [hlen] at hloop
    cases hloop
    exact Or.inl rfl
  | some subdevices =>
    have hlen : (r.subdevices d).length = subdevices.length := by
      unfold Registry.subdevices
      rw [hsub]
      rfl
    rw [hlen] at hloop
    right
    simp only [hloop]
    rfl

/-- A call on a device whose subdevices' calls take out what these reach. -/
theorem deviceDeregister_step {depth : Nat} (hlater : Later r₀ r) (hd : d ∈ r.devices)
    (hcycle : ∀ s ∈ r.subdevices d, ¬ r.Reaches s d)
    (hcall : ∀ s ∈ r.subdevices d, ∀ r, Later r₀ r → Deregisters (deviceDeregister depth) r s) :
    Deregisters (deviceDeregister (depth + 1)) r d := by
  have hentry : Removes r (fun _ => False) (r.event (.deregister d)) [.deregister d] :=
    Removes.none (by simp) rfl rfl rfl (by simp) (by simp)
  have hfirst : Follows r [.deregister d] := by
    intro front x back heq
    cases front with
    | nil =>
      cases heq
      exact ⟨hd, List.not_mem_nil⟩
    | cons e front => simp at heq
  obtain ⟨r₁, events, hloop, hfollows, hsubs⟩ := deviceDeregisterSubdevices_spec
    (hlater.trans hentry) hd hcycle hcall
  have hd₁ : d ∈ r₁.devices := by
    rw [hloop.mem_devices]
    exact ⟨hd, fun ⟨s, hs, hreach⟩ => hcycle s hs hreach⟩
  -- no subdevice is left
  have hnone : ∀ y ∈ r₁.devices, ¬ r₁.Sub d y := by
    intro y hy hsub
    unfold Registry.Sub Registry.subdevices at hsub
    rw [hloop.kept d hd₁] at hsub
    exact ((hloop.mem_devices y).mp hy).2 ⟨y, hsub, Relation.ReflTransGen.refl⟩
  have hnodup := ((hlater.trans hentry).trans hloop).nodup
  have hreaches : ∀ x, (False ∨ ∃ s ∈ r.subdevices d, r.Reaches s x) ∨ x = d ↔ r.Reaches d x := by
    intro x
    rw [false_or, or_comm]
    unfold Registry.Reaches
    rw [reachIn_head]
    exact or_congr_right (exists_congr fun s => and_congr_left fun _ =>
      ⟨fun hs => ⟨hd, hs⟩, fun hs => hs.2⟩)
  -- `r₂` is `r₁`, but for the count that was cleared
  have hfinish : ∀ r₂ b, deviceDeregisterSubdevices (deviceDeregister depth)
      (r.event (.deregister d)) d = some (r₂, b) → r₂.devices = r₁.devices → r₂.log = r₁.log →
      (∀ x, x ≠ d → r₂.device x = r₁.device x) →
      (r₂.device d).destroy = (r₁.device d).destroy →
      Deregisters (deviceDeregister (depth + 1)) r d := by
    intro r₂ b hcall₂ hdevices hlog hkept hdestroy
    have hself : Removes r₁ (· = d)
        { (if (r₂.device d).destroy then r₂.event (.destroy d) else r₂).event (.remove d) with
          devices := r₁.devices.erase d } _ :=
      Removes.self hnodup hd₁ hnone rfl
        (fun x hx => by
          rw [← hkept x hx]
          cases (r₂.device d).destroy <;> rfl)
        (by
          rw [← hdestroy]
          cases hcase : (r₂.device d).destroy <;> simp [Registry.event, hcase])
        (by
          rw [← hdestroy, ← hlog]
          cases (r₂.device d).destroy <;> simp [Registry.event])
    have hlast : Follows r₁
        ((if (r₁.device d).destroy then [.destroy d] else []) ++ [.remove d]) := by
      intro front x back heq
      have hin : DeviceEvent.deregister x ∈
          (if (r₁.device d).destroy then [.destroy d] else []) ++ [.remove d] := by
        rw [heq]
        simp
      cases hcase : (r₁.device d).destroy <;> simp [hcase] at hin
    refine ⟨_, _, ?_, ((hentry.trans hloop).trans hself).congr hreaches, fun hlisted _ =>
      (hfirst.trans hentry (hfollows ⟨hlisted.registered, hlisted.nodup, hlisted.parent⟩)).trans
        (hentry.trans hloop) hlast⟩
    have hmem : d ∈ (r.event (.deregister d)).devices := hd
    rw [deviceDeregister, if_pos hmem, hcall₂, ← hdevices, decide_eq_true hd]
    cases hcase : (r₂.device d).destroy <;> simp [Registry.event, hcase]
  rcases hsubs with hcall₁ | hcall₁
  · exact hfinish r₁ false hcall₁ rfl rfl (fun _ _ => rfl) rfl
  · exact hfinish _ true hcall₁ rfl rfl (fun x hx => Function.update_of_ne hx _ _)
      (by simp [Registry.clearSubdevices])

/-- A device that is not registered is left alone. -/
theorem deviceDeregister_unregistered (depth : Nat) (hd : d ∉ r.devices) :
    Deregisters (deviceDeregister (depth + 1)) r d := by
  have hmem : d ∉ (r.event (.deregister d)).devices := hd
  refine ⟨r.event (.deregister d), [.deregister d], ?_,
    Removes.none (fun x hx hreach => ?_) rfl rfl rfl (by simp) (by simp), fun _ h => absurd h hd⟩
  · rw [deviceDeregister, if_neg hmem, decide_eq_false hd]
    rfl
  · unfold Registry.Reaches at hreach
    rw [reachIn_of_not_live hd] at hreach
    exact hd (hreach ▸ hx)

open Filter in
/-- With room for enough nested calls, a call takes out what its device reaches. -/
theorem deviceDeregister_eventually (hacyclic : r₀.Acyclic) (d : Nat) :
    ∀ᶠ depth in atTop, ∀ r, Later r₀ r → Deregisters (deviceDeregister depth) r d := by
  induction acyclic_acc r₀.devices.finite_toSet hacyclic d with
  | intro d _ ih =>
    have hsubs : ∀ᶠ depth in atTop, ∀ s ∈ (r₀.subdevices d).toFinset, d ∈ r₀.devices →
        ∀ r, Later r₀ r → Deregisters (deviceDeregister depth) r s := by
      rw [eventually_all_finset]
      intro s hs
      by_cases hd : d ∈ r₀.devices
      · exact (ih s ⟨hd, List.mem_toFinset.mp hs⟩).mono fun depth h _ => h
      · exact Eventually.of_forall fun _ h => absurd h hd
    obtain ⟨N, hN⟩ := eventually_atTop.mp hsubs
    refine eventually_atTop.mpr ⟨N + 1, fun depth hdepth r hlater => ?_⟩
    obtain ⟨depth, rfl⟩ := Nat.exists_eq_add_of_le' (Nat.le_of_add_left_le hdepth)
    by_cases hd : d ∈ r.devices
    · have hd₀ := hlater.mem d hd
      have hsame : r.subdevices d = r₀.subdevices d := by
        unfold Registry.subdevices
        rw [hlater.device d hd]
      refine deviceDeregister_step hlater hd (fun s hs hreach => ?_) fun s hs => ?_
      · rw [hsame] at hs
        exact hacyclic d (Relation.TransGen.head' ⟨hd₀, hs⟩ (hlater.reaches hreach))
      · rw [hsame] at hs
        exact hN depth (by omega) s (List.mem_toFinset.mpr hs) hd₀
    · exact deviceDeregister_unregistered depth hd

/-- A loop does the same with a body that does more. -/
theorem foldlM_some_mono {α β : Type} {f g : β → α → Option β}
    (hfg : ∀ b a b', f b a = some b' → g b a = some b') {l : List α} {b b' : β}
    (h : l.foldlM f b = some b') : l.foldlM g b = some b' := by
  induction l generalizing b with
  | nil => exact h
  | cons a l ih =>
    rw [List.foldlM_cons] at h ⊢
    obtain ⟨b₁, hb₁, hrest⟩ := Option.bind_eq_some_iff.mp h
    rw [hfg b a b₁ hb₁]
    exact ih hrest

theorem deviceDeregisterSubdevices_mono {f g : Registry → Nat → Option (Registry × Bool)}
    (hfg : ∀ r d x, f r d = some x → g r d = some x) {x : Registry × Bool}
    (h : deviceDeregisterSubdevices f r d = some x) : deviceDeregisterSubdevices g r d = some x := by
  unfold deviceDeregisterSubdevices at h ⊢
  cases hsub : (r.device d).subdevices with
  | none =>
    rw [hsub] at h
    exact h
  | some subdevices =>
    rw [hsub] at h
    obtain ⟨r', hloop, hlast⟩ := Option.bind_eq_some_iff.mp h
    have hbody : ∀ r i r', deregisterSubdevice f d r i = some r' →
        deregisterSubdevice g d r i = some r' := by
      intro r i r' hr'
      unfold deregisterSubdevice at hr' ⊢
      split at hr'
      · obtain ⟨y, hy, rfl⟩ := Option.map_eq_some_iff.mp hr'
        rw [hfg _ _ _ hy]
        rfl
      · exact hr'
    exact Option.bind_eq_some_iff.mpr ⟨r', foldlM_some_mono hbody hloop, hlast⟩

/-- With room for more nested calls, a call that returns does the same. -/
theorem deviceDeregister_mono {depth depth' : Nat} (hle : depth ≤ depth') {found : Bool}
    (h : deviceDeregister depth r d = some (r₁, found)) :
    deviceDeregister depth' r d = some (r₁, found) := by
  induction depth generalizing depth' r r₁ d found with
  | zero => cases h
  | succ depth ih =>
    obtain ⟨depth', rfl⟩ := Nat.exists_eq_add_of_le' (Nat.le_of_add_left_le hle)
    rw [deviceDeregister] at h ⊢
    dsimp only at h ⊢
    split at h
    · next hd =>
      rw [if_pos hd]
      obtain ⟨⟨r', b⟩, hsubs, hlast⟩ := Option.bind_eq_some_iff.mp h
      refine Option.bind_eq_some_iff.mpr ⟨(r', b), ?_, hlast⟩
      exact deviceDeregisterSubdevices_mono (fun _ _ _ hx => ih (by omega) hx) hsubs
    · next hd =>
      rw [if_neg hd]
      exact h

/-- What each round of a loop keeps, the loop keeps. -/
theorem foldlM_some_keeps {α β : Type} {f : β → α → Option β} {P : β → Prop}
    (hround : ∀ b a b', P b → f b a = some b' → P b') {l : List α} {b b' : β} (hb : P b)
    (h : l.foldlM f b = some b') : P b' := by
  induction l generalizing b with
  | nil =>
    cases h
    exact hb
  | cons a l ih =>
    rw [List.foldlM_cons] at h
    obtain ⟨b₁, hb₁, hrest⟩ := Option.bind_eq_some_iff.mp h
    exact ih (hround b a b₁ hb hb₁) hrest

/-- What a call leaves of the list is in the same order. -/
theorem deviceDeregister_sublist {depth : Nat} {found : Bool}
    (h : deviceDeregister depth r d = some (r₁, found)) : r₁.devices.Sublist r.devices := by
  induction depth generalizing r r₁ d found with
  | zero => cases h
  | succ depth ih =>
    rw [deviceDeregister] at h
    dsimp only at h
    split at h
    · obtain ⟨⟨r₂, b⟩, hsubs, hlast⟩ := Option.bind_eq_some_iff.mp h
      have hloop : r₂.devices.Sublist r.devices := by
        unfold deviceDeregisterSubdevices at hsubs
        split at hsubs
        · cases hsubs
          exact List.Sublist.refl _
        · obtain ⟨r₃, hrounds, hclear⟩ := Option.bind_eq_some_iff.mp hsubs
          cases hclear
          refine foldlM_some_keeps (P := fun r' => r'.devices.Sublist r.devices)
            (fun r' i r'' hr' hround => ?_) (List.Sublist.refl _) hrounds
          unfold deregisterSubdevice at hround
          split at hround
          · obtain ⟨⟨r₄, b₄⟩, hcall, rfl⟩ := Option.map_eq_some_iff.mp hround
            exact (ih hcall).trans hr'
          · cases hround
            exact hr'
      cases hlast
      refine List.Sublist.trans List.erase_sublist ?_
      split
      all_goals exact hloop
    · cases h
      exact List.Sublist.refl _

/-- On a registry that has each device once and no cycle of subdevices, a call of
`device_deregister` comes to an end, and takes out exactly the registered devices
that its device reaches, each behind its own subdevices. -/
theorem deviceDeregister_removes (r : Registry) (hnodup : r.devices.Nodup) (hacyclic : r.Acyclic)
    (d : Nat) :
    ∃ depth₀, ∀ depth ≥ depth₀, ∃ r' events,
      deviceDeregister depth r d = some (r', decide (d ∈ r.devices)) ∧
        Removes r (r.Reaches d) r' events := by
  obtain ⟨depth₀, hdepth⟩ := Filter.eventually_atTop.mp (deviceDeregister_eventually hacyclic d)
  refine ⟨depth₀, fun depth hge => ?_⟩
  obtain ⟨r', events, hcall, hremoves, -⟩ :=
    hdepth depth hge r ⟨hnodup, fun _ hx => hx, fun _ _ => rfl⟩
  exact ⟨r', events, hcall, hremoves⟩

/-- Device 1 has the subdevices 2 and 3, and these share 4; 5 is on its own. -/
def diamond : Registry where
  devices := [4, 1, 5, 2, 3]
  device d := { name := [], type := .unknown, destroy := d ≠ 2
                subdevices := if d = 1 then some [2, 3] else if d = 4 ∨ d = 5 then none else some [4] }
  log := []

theorem deviceDeregister_removes_diamond :
    ∃ depth₀, ∀ depth ≥ depth₀, ∃ r' events,
      deviceDeregister depth diamond 1 = some (r', decide (1 ∈ diamond.devices)) ∧
        Removes diamond (diamond.Reaches 1) r' events := by
  have hup : ∀ x ∈ diamond.devices, ∀ y ∈ diamond.subdevices x, x < y := by decide
  exact deviceDeregister_removes diamond (by decide)
    (acyclicIn_of_lt id fun x y h => hup x h.1 y h.2) 1

end Deregister

end Microboot.Kern.Io
