/-
  Foundation/Slots.lean --- tables of slots that are searched from the first on.

  A table is a list of slots; `f` reads the entry of a slot, if there is one, and
  `entries f slots` lists the entries in the order of their slots.  Writing a slot
  changes that list in one place, whatever was in the slot before and is in it
  now (`entries_set`).

  When the keys of the entries are pairwise distinct the table is a map, and
  `KeysNodup.set` says what it maps after an entry is replaced, removed or put into a
  free slot.
-/
import Mathlib.Data.List.Basic
import Mathlib.Data.List.Nodup

set_option autoImplicit false

namespace Microboot.Foundation

section Slots

variable {σ κ ν : Type} {f : σ → Option (κ × ν)} {slots : List σ} {i : Nat} {x y : σ}

/-- The entries of the slots that have one. -/
def entries (f : σ → Option (κ × ν)) (slots : List σ) : List (κ × ν) := slots.filterMap f

theorem mem_entries {e : κ × ν} : e ∈ entries f slots ↔ ∃ x ∈ slots, f x = some e :=
  List.mem_filterMap

theorem entries_append (slots slots' : List σ) :
    entries f (slots ++ slots') = entries f slots ++ entries f slots' :=
  List.filterMap_append

/-- Writing one slot changes the entries in one place. -/
theorem entries_set (hi : slots[i]? = some x) : ∃ front back,
    entries f slots = front ++ (f x).toList ++ back ∧
    ∀ y, entries f (slots.set i y) = front ++ (f y).toList ++ back := by
  obtain ⟨hlt, rfl⟩ := List.getElem?_eq_some_iff.mp hi
  have hone : ∀ z, entries f [z] = (f z).toList := by
    intro z
    unfold entries
    cases hz : f z with
    | none => simp [hz]
    | some e => simp [hz]
  refine ⟨entries f (slots.take i), entries f (slots.drop (i + 1)), ?_, fun y => ?_⟩
  · rw [← hone, ← entries_append, ← entries_append, List.append_assoc, List.singleton_append,
      ← List.drop_eq_getElem_cons hlt, List.take_append_drop]
  · rw [List.set_eq_take_append_cons_drop, if_pos hlt, ← hone, ← entries_append,
      ← entries_append, List.append_assoc, List.singleton_append]

/-- The keys of the entries are pairwise distinct. -/
def KeysNodup (l : List (κ × ν)) : Prop := (l.map Prod.fst).Nodup

variable {k : κ} {v w : ν} {front back l : List (κ × ν)}

theorem KeysNodup.unique (h : KeysNodup l) (hv : (k, v) ∈ l) (hw : (k, w) ∈ l) : v = w :=
  congrArg Prod.snd (List.inj_on_of_nodup_map h hv hw rfl)

theorem keysNodup_iff : KeysNodup (front ++ (k, v) :: back) ↔
    KeysNodup (front ++ back) ∧ ∀ w, (k, w) ∉ front ++ back := by
  unfold KeysNodup
  rw [List.map_append, List.map_cons, List.nodup_middle, List.nodup_cons, ← List.map_append]
  constructor
  · intro ⟨hnot, hnodup⟩
    exact ⟨hnodup, fun w hw => hnot (List.mem_map.mpr ⟨(k, w), hw, rfl⟩)⟩
  · intro ⟨hnodup, hnot⟩
    refine ⟨fun hk => ?_, hnodup⟩
    obtain ⟨⟨_, w⟩, hw, rfl⟩ := List.mem_map.mp hk
    exact hnot w hw

/-- A list maps what another maps, but `k` to `v` now, or to nothing for `none`. -/
def MapsBut (l l' : List (κ × ν)) (k : κ) (v : Option ν) : Prop :=
  ∀ k' w, (k', w) ∈ l' ↔ (k' = k ∧ v = some w) ∨ (k' ≠ k ∧ (k', w) ∈ l)

/-- The entry of `k` is put in, replaced or removed. -/
theorem KeysNodup.write {old new : Option (κ × ν)} (h : KeysNodup (front ++ old.toList ++ back))
    (hold : ∀ e ∈ old, e.1 = k) (hnew : ∀ e ∈ new, e.1 = k)
    (hnot : old = none → ∀ w, (k, w) ∉ front ++ back) :
    KeysNodup (front ++ new.toList ++ back) ∧
      MapsBut (front ++ old.toList ++ back) (front ++ new.toList ++ back) k
        (new.map Prod.snd) := by
  -- without the entry, nothing is mapped from `k`
  obtain ⟨hrest, hfree⟩ : KeysNodup (front ++ back) ∧ ∀ w, (k, w) ∉ front ++ back := by
    cases old with
    | none => exact ⟨by simpa using h, hnot rfl⟩
    | some e =>
      obtain rfl : e.1 = k := hold e rfl
      rw [Option.toList_some, List.append_assoc, List.singleton_append] at h
      exact keysNodup_iff.mp h
  constructor
  · cases new with
    | none => simpa using hrest
    | some e =>
      obtain rfl : e.1 = k := hnew e rfl
      rw [Option.toList_some, List.append_assoc, List.singleton_append]
      exact keysNodup_iff.mpr ⟨hrest, hfree⟩
  · intro k' w
    have hfree' : (k, w) ∉ front ∧ (k, w) ∉ back := by simpa using hfree w
    have hkey : ∀ {entry : Option (κ × ν)}, (∀ e ∈ entry, e.1 = k) →
        (entry = some (k', w) ↔ k' = k ∧ entry.map Prod.snd = some w) := by
      intro entry hentry
      cases entry with
      | none => simp
      | some e =>
        obtain rfl : e.1 = k := hentry e rfl
        simp [Prod.ext_iff, eq_comm]
    simp only [List.mem_append, Option.mem_toList, hkey hold, hkey hnew]
    by_cases hk : k' = k
    · subst hk
      simp [hfree']
    · simp [hk]

/-- One slot is written, and the entries of all other keys stay. -/
theorem KeysNodup.set (h : KeysNodup (entries f slots)) (hi : slots[i]? = some x) {y : σ}
    (hold : ∀ e ∈ f x, e.1 = k) (hnew : ∀ e ∈ f y, e.1 = k)
    (hnot : f x = none → ∀ w, (k, w) ∉ entries f slots) :
    KeysNodup (entries f (slots.set i y)) ∧
      MapsBut (entries f slots) (entries f (slots.set i y)) k ((f y).map Prod.snd) := by
  obtain ⟨front, back, hentries, hset⟩ := entries_set hi
  rw [hset y]
  rw [hentries] at h hnot ⊢
  refine h.write hold hnew fun hnone => ?_
  simpa [hnone] using hnot hnone

end Slots

end Microboot.Foundation
