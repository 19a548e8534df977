/-
  Foundation/Probing.lean --- open addressing with linear probing.

  A table is a list of slots, each empty or holding an entry.  The search for a
  key starts at the key's home slot and goes on to the next slot, around the end
  of the table, until it meets the key or an empty slot (`Ends`).

  `Probed` is the invariant that makes this search right: no key occurs twice,
  and no slot between an entry's home and the entry is empty.  It is kept when an
  entry is replaced by one with the same key, and when an entry is put where the
  search for its key ended.
-/
import Mathlib.Data.List.Basic
import Mathlib.Data.Nat.Find

set_option autoImplicit false

namespace Microboot.Foundation

section Probing

variable {κ ε : Type} (key : ε → κ) (home : κ → Nat)

/-- The slot that the search for `k` looks at after `d` steps. -/
def slotAt (slots : List (Option ε)) (k : κ) (d : Nat) : Nat := (home k + d) % slots.length

/-- The invariant of a table that is filled by probing. -/
structure Probed (slots : List (Option ε)) : Prop where
  distinct : ∀ (i j : Nat) (e f : ε), slots[i]? = some (some e) → slots[j]? = some (some f) →
    key e = key f → i = j
  path : ∀ (i : Nat) (e : ε), slots[i]? = some (some e) →
    ∃ d, i = slotAt home slots (key e) d ∧
      ∀ d' < d, slots[slotAt home slots (key e) d']? ≠ some none

/-- The search for `k` ends after `d` steps: every slot before holds another key,
and this one is empty or holds `k`. -/
structure Ends (slots : List (Option ε)) (k : κ) (d : Nat) : Prop where
  before : ∀ d' < d, ∃ e, slots[slotAt home slots k d']? = some (some e) ∧ key e ≠ k
  here : slots[slotAt home slots k d]? = some none ∨
    ∃ e, slots[slotAt home slots k d]? = some (some e) ∧ key e = k

variable {key home} {slots : List (Option ε)} {k : κ} {d : Nat} {e : ε}

theorem slotAt_lt (hpos : 0 < slots.length) : slotAt home slots k d < slots.length :=
  Nat.mod_lt _ hpos

/-- The next slot, around the end of the table. -/
theorem slotAt_succ (home : κ → Nat) (k : κ) (d : Nat) (hpos : 0 < slots.length) :
    (if slotAt home slots k d + 1 ≥ slots.length then 0 else slotAt home slots k d + 1) =
      slotAt home slots k (d + 1) := by
  have hlt : slotAt home slots k d < slots.length := slotAt_lt hpos
  have hnext : slotAt home slots k (d + 1) = (slotAt home slots k d + 1) % slots.length := by
    unfold slotAt
    rw [Nat.mod_add_mod, Nat.add_assoc]
  rw [hnext]
  split
  · have hend : slotAt home slots k d + 1 = slots.length := by omega
    rw [hend, Nat.mod_self]
  · rw [Nat.mod_eq_of_lt (by omega)]

/-- Every slot is looked at within one round. -/
theorem exists_slotAt (home : κ → Nat) (k : κ) {i : Nat} (hi : i < slots.length) :
    ∃ d < slots.length, slotAt home slots k d = i := by
  have hpos : 0 < slots.length := Nat.lt_of_le_of_lt (Nat.zero_le _) hi
  have hhome := Nat.mod_lt (home k) hpos
  refine ⟨(i + (slots.length - home k % slots.length)) % slots.length, Nat.mod_lt _ hpos, ?_⟩
  unfold slotAt
  rw [Nat.add_mod_mod, ← Nat.mod_add_mod]
  have hsum : home k % slots.length + (i + (slots.length - home k % slots.length)) =
      i + slots.length := by omega
  rw [hsum, Nat.add_mod_right, Nat.mod_eq_of_lt hi]

/-- In a table with an empty slot the search ends within one round. -/
theorem exists_ends (key : ε → κ) (home : κ → Nat) (k : κ) (hempty : none ∈ slots) :
    ∃ d < slots.length, Ends key home slots k d := by
  obtain ⟨i, hi, hnone⟩ := List.getElem_of_mem hempty
  obtain ⟨d₀, hd₀, hslot⟩ := exists_slotAt home k hi
  have hpos : 0 < slots.length := Nat.lt_of_le_of_lt (Nat.zero_le _) hi
  -- the search goes on at a slot that holds another key
  have hstop : ∃ d, ¬ ∃ e, slots[slotAt home slots k d]? = some (some e) ∧ key e ≠ k := by
    refine ⟨d₀, ?_⟩
    rw [hslot, List.getElem?_eq_getElem hi, hnone]
    simp
  classical
  refine ⟨Nat.find hstop, ?_, fun d' hd' => ?_, ?_⟩
  · apply Nat.lt_of_le_of_lt _ hd₀
    apply Nat.find_min'
    rw [hslot, List.getElem?_eq_getElem hi, hnone]
    simp
  · exact not_not.mp (Nat.find_min hstop hd')
  · have hlast := Nat.find_spec hstop
    have hlt : slotAt home slots k (Nat.find hstop) < slots.length := slotAt_lt hpos
    rw [List.getElem?_eq_getElem hlt] at hlast ⊢
    cases hcase : slots[slotAt home slots k (Nat.find hstop)] with
    | none => exact Or.inl rfl
    | some e =>
      rw [hcase] at hlast
      refine Or.inr ⟨e, rfl, ?_⟩
      by_contra hne
      exact hlast ⟨e, rfl, hne⟩

/-- If the search ends at an empty slot, the key is not in the table. -/
theorem Ends.not_mem (hprobed : Probed key home slots) (hends : Ends key home slots k d)
    (hnone : slots[slotAt home slots k d]? = some none) (he : some e ∈ slots) : key e ≠ k := by
  intro hkey
  obtain ⟨i, hi, hslot⟩ := List.getElem_of_mem he
  have hat : slots[i]? = some (some e) := by rw [List.getElem?_eq_getElem hi, hslot]
  obtain ⟨d₁, rfl, hpath⟩ := hprobed.path i e hat
  rw [hkey] at hat hpath
  rcases Nat.lt_trichotomy d₁ d with hlt | rfl | hlt
  · obtain ⟨f, hf, hne⟩ := hends.before d₁ hlt
    rw [hat, Option.some.injEq, Option.some.injEq] at hf
    exact hne (hf ▸ hkey)
  · rw [hat] at hnone
    cases hnone
  · exact hpath d hlt hnone

/-- Two entries with one key are one entry. -/
theorem Probed.eq_of_key (hprobed : Probed key home slots) {f : ε} (he : some e ∈ slots)
    (hf : some f ∈ slots) (hkey : key e = key f) : e = f := by
  obtain ⟨i, hi, hei⟩ := List.getElem_of_mem he
  obtain ⟨j, hj, hfj⟩ := List.getElem_of_mem hf
  have hei' : slots[i]? = some (some e) := by rw [List.getElem?_eq_getElem hi, hei]
  have hfj' : slots[j]? = some (some f) := by rw [List.getElem?_eq_getElem hj, hfj]
  have hij := hprobed.distinct i j e f hei' hfj' hkey
  subst hij
  rw [hei'] at hfj'
  cases hfj'
  rfl

/-- A slot that is full stays full when another is filled. -/
theorem full_set {i : Nat} (hi : i < slots.length) (e : ε) (j : Nat)
    (hj : slots[j]? ≠ some none) : (slots.set i (some e))[j]? ≠ some none := by
  by_cases hij : i = j
  · subst hij
    rw [List.getElem?_set_self hi]
    simp
  · rw [List.getElem?_set_ne hij]
    exact hj

/-- Replacing an entry by one with the same key keeps the invariant. -/
theorem Probed.replace (hprobed : Probed key home slots) {i : Nat} {f : ε}
    (hi : slots[i]? = some (some e)) (hkey : key f = key e) :
    Probed key home (slots.set i (some f)) := by
  have hlt : i < slots.length := (List.getElem?_eq_some_iff.mp hi).1
  have hold : ∀ (j : Nat) (g : ε), (slots.set i (some f))[j]? = some (some g) →
      ∃ g', slots[j]? = some (some g') ∧ key g = key g' := by
    intro j g hg
    by_cases hij : i = j
    · subst hij
      rw [List.getElem?_set_self hlt, Option.some.injEq, Option.some.injEq] at hg
      exact ⟨e, hi, by rw [← hg, hkey]⟩
    · rw [List.getElem?_set_ne hij] at hg
      exact ⟨g, hg, rfl⟩
  have hfull := full_set hlt f
  constructor
  · intro j j' g g' hg hg' heq
    obtain ⟨p, hp, hgp⟩ := hold j g hg
    obtain ⟨p', hp', hgp'⟩ := hold j' g' hg'
    exact hprobed.distinct j j' p p' hp hp' (by rw [← hgp, heq, hgp'])
  · intro j g hg
    obtain ⟨p, hp, hgp⟩ := hold j g hg
    obtain ⟨d', hd', hpath⟩ := hprobed.path j p hp
    unfold slotAt at hd' hpath ⊢
    rw [List.length_set, hgp]
    exact ⟨d', hd', fun d'' hd'' => hfull _ (hpath d'' hd'')⟩

/-- Putting an entry into the empty slot where the search for its key ended keeps
the invariant. -/
theorem Probed.insert (hprobed : Probed key home slots) (hpos : 0 < slots.length)
    (hends : Ends key home slots (key e) d)
    (hnone : slots[slotAt home slots (key e) d]? = some none) :
    Probed key home (slots.set (slotAt home slots (key e) d) (some e)) := by
  have hlt : slotAt home slots (key e) d < slots.length := slotAt_lt hpos
  generalize hi : slotAt home slots (key e) d = i at hnone hlt ⊢
  have hnew : ∀ (j : Nat) (g : ε), (slots.set i (some e))[j]? = some (some g) →
      (j = i ∧ g = e) ∨ (slots[j]? = some (some g) ∧ key g ≠ key e) := by
    intro j g hg
    by_cases hij : i = j
    · subst hij
      rw [List.getElem?_set_self hlt, Option.some.injEq, Option.some.injEq] at hg
      exact Or.inl ⟨rfl, hg.symm⟩
    · rw [List.getElem?_set_ne hij] at hg
      refine Or.inr ⟨hg, ?_⟩
      apply hends.not_mem hprobed (by rw [hi]; exact hnone)
      exact List.mem_of_getElem? hg
  have hfull := full_set hlt e
  constructor
  · intro j j' g g' hg hg' heq
    rcases hnew j g hg with ⟨rfl, rfl⟩ | ⟨hold, hne⟩
    · rcases hnew j' g' hg' with ⟨rfl, -⟩ | ⟨-, hne'⟩
      · rfl
      · exact absurd heq.symm hne'
    · rcases hnew j' g' hg' with ⟨rfl, rfl⟩ | ⟨hold', -⟩
      · exact absurd heq hne
      · exact hprobed.distinct j j' g g' hold hold' heq
  · intro j g hg
    unfold slotAt at hi ⊢
    rw [List.length_set]
    rcases hnew j g hg with ⟨rfl, rfl⟩ | ⟨hold, -⟩
    · refine ⟨d, hi.symm, fun d' hd' => hfull _ ?_⟩
      obtain ⟨f, hf, -⟩ := hends.before d' hd'
      unfold slotAt at hf
      rw [hf]
      simp
    · obtain ⟨d', hd', hpath⟩ := hprobed.path j g hold
      exact ⟨d', hd', fun d'' hd'' => hfull _ (hpath d'' hd'')⟩

/-- The entries of a table with one slot filled. -/
theorem mem_set_iff {i : Nat} (hi : i < slots.length) {f : ε} :
    some e ∈ slots.set i (some f) ↔ e = f ∨ ∃ j, j ≠ i ∧ slots[j]? = some (some e) := by
  rw [List.mem_iff_getElem?]
  constructor
  · intro ⟨j, hj⟩
    by_cases hij : i = j
    · subst hij
      rw [List.getElem?_set_self hi, Option.some.injEq, Option.some.injEq] at hj
      exact Or.inl hj.symm
    · rw [List.getElem?_set_ne hij] at hj
      exact Or.inr ⟨j, Ne.symm hij, hj⟩
  · intro h
    rcases h with rfl | ⟨j, hij, hj⟩
    · exact ⟨i, List.getElem?_set_self hi⟩
    · exact ⟨j, by rw [List.getElem?_set_ne (Ne.symm hij), hj]⟩

/-- A table of empty slots. -/
theorem probed_replicate (n : Nat) : Probed key home (List.replicate n (none : Option ε)) := by
  have hnone : ∀ (i : Nat) (e : ε), (List.replicate n (none : Option ε))[i]? ≠ some (some e) := by
    intro i e h
    rw [List.getElem?_replicate] at h
    split at h <;> simp at h
  exact ⟨fun i _ e _ h => absurd h (hnone i e), fun i e h => absurd h (hnone i e)⟩

end Probing

end Microboot.Foundation
