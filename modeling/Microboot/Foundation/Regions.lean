/-
  Foundation/Regions.lean --- a memory and the regions of it that are in use.

  A region is a range of addresses.  A heap is a memory with the regions that are
  live; they do not overlap.  `Alloc` and `Free` say what every allocator promises:
  a new region is apart from all others, and the contents of the regions that stay
  do not change.  `Held` is what a client knows of code that it does not know: its
  own regions stay live and keep their contents.
-/
import Mathlib.Data.List.Pairwise
import Microboot.Foundation.Memory

set_option autoImplicit false

namespace Microboot.Foundation

/-! ## Regions -/

structure Region where
  start : Nat
  size : Nat
  deriving DecidableEq, Repr

namespace Region

/-- `x` is an address of the region. -/
def Has (r : Region) (x : Nat) : Prop := r.start ≤ x ∧ x < r.start + r.size

instance (r : Region) (x : Nat) : Decidable (r.Has x) := inferInstanceAs (Decidable (_ ∧ _))

/-- The one ends where the other begins, or before. -/
def Apart (r r' : Region) : Prop :=
  r.start + r.size ≤ r'.start ∨ r'.start + r'.size ≤ r.start

instance (r r' : Region) : Decidable (r.Apart r') := inferInstanceAs (Decidable (_ ∨ _))

variable {r r' : Region} {x : Nat}

instance : Std.Symm Apart := ⟨fun _ _ h => Or.symm h⟩

theorem has_start (p n : Nat) : Has ⟨p, n + 1⟩ p :=
  ⟨Nat.le_refl p, Nat.lt_add_of_pos_right n.succ_pos⟩

/-- An address behind the first one. -/
theorem Has.of_next {p n : Nat} (h : Has ⟨p + 1, n⟩ x) : Has ⟨p, n + 1⟩ x := by
  obtain ⟨hle, hlt⟩ := h
  exact ⟨Nat.le_of_succ_le hle, Nat.lt_of_lt_of_eq hlt (Nat.add_right_comm p 1 n)⟩

theorem Apart.not_has (h : r.Apart r') (hx : r.Has x) : ¬ r'.Has x := by
  unfold Apart at h
  unfold Has at hx ⊢
  omega

end Region

/-! ## Heaps -/

structure Heap where
  mem : Mem
  live : List Region

namespace Heap

/-- The address is in a region that is in use. -/
def Live (h : Heap) (x : Nat) : Prop := ∃ r ∈ h.live, r.Has x

instance (h : Heap) (x : Nat) : Decidable (h.Live x) :=
  inferInstanceAs (Decidable (∃ r ∈ h.live, r.Has x))

/-- The regions in use are apart, in use once, and inside the address space. -/
structure Ok (h : Heap) : Prop where
  apart : h.live.Pairwise Region.Apart
  nodup : h.live.Nodup
  fits : ∀ r ∈ h.live, r.start + r.size ≤ 2 ^ 32

/-- The regions are in use in `h'`, with the contents that they have in `h`. -/
def Held (regions : List Region) (h h' : Heap) : Prop :=
  ∀ r ∈ regions, r ∈ h'.live ∧ ∀ x, r.Has x → h'.mem x = h.mem x

/-- `r` is taken into use, with room for `size` bytes. -/
structure Alloc (h : Heap) (size : Nat) (h' : Heap) (r : Region) : Prop where
  live : h'.live = r :: h.live
  room : size ≤ r.size
  fresh : r ∉ h.live
  fits : r.start + r.size ≤ 2 ^ 32
  apart : ∀ r' ∈ h.live, r.Apart r'
  keeps : ∀ r' ∈ h.live, ∀ x, r'.Has x → h'.mem x = h.mem x

/-- `r` is given back. -/
structure Free (h : Heap) (r : Region) (h' : Heap) : Prop where
  mem_live : r ∈ h.live
  live : h'.live = h.live.erase r
  keeps : ∀ r' ∈ h'.live, ∀ x, r'.Has x → h'.mem x = h.mem x

variable {h h' h'' : Heap} {r r' : Region} {regions : List Region} {size x : Nat}

/-- Two regions in use are the same one, or apart. -/
theorem Ok.eq_or_apart (hok : h.Ok) (hr : r ∈ h.live) (hr' : r' ∈ h.live) :
    r = r' ∨ r.Apart r' := by
  by_cases heq : r = r'
  · exact Or.inl heq
  · exact Or.inr (hok.apart.forall hr hr' heq)

/-- Writing changes nothing about what is in use. -/
theorem Ok.congr (hok : h.Ok) (hlive : h'.live = h.live) : h'.Ok :=
  ⟨hlive ▸ hok.apart, hlive ▸ hok.nodup, hlive ▸ hok.fits⟩

theorem Held.trans (hheld : Held regions h h') (hheld' : Held regions h' h'') :
    Held regions h h'' := fun r hr =>
  ⟨(hheld' r hr).1, fun x hx => ((hheld' r hr).2 x hx).trans ((hheld r hr).2 x hx)⟩

theorem Held.mono {regions' : List Region} (hheld : Held regions h h')
    (hsub : ∀ r ∈ regions', r ∈ regions) : Held regions' h h' := fun r hr => hheld r (hsub r hr)

theorem Alloc.ok (halloc : h.Alloc size h' r) (hok : h.Ok) : h'.Ok := by
  obtain ⟨hlive, -, hfresh, hfits, happart, -⟩ := halloc
  refine ⟨?_, ?_, ?_⟩
  · rw [hlive]
    exact List.pairwise_cons.mpr ⟨happart, hok.apart⟩
  · rw [hlive]
    exact List.nodup_cons.mpr ⟨hfresh, hok.nodup⟩
  · rw [hlive]
    exact List.forall_mem_cons.mpr ⟨hfits, hok.fits⟩

theorem Alloc.held (halloc : h.Alloc size h' r) (hregions : ∀ r ∈ regions, r ∈ h.live) :
    Held regions h h' := fun r' hr' => by
  refine ⟨?_, halloc.keeps r' (hregions r' hr')⟩
  rw [halloc.live]
  exact List.mem_cons_of_mem _ (hregions r' hr')

theorem Free.ok (hfree : h.Free r h') (hok : h.Ok) : h'.Ok := by
  have hsub : ∀ r' ∈ h'.live, r' ∈ h.live := by
    rw [hfree.live]
    exact fun _ hr' => List.mem_of_mem_erase hr'
  refine ⟨?_, ?_, fun r' hr' => hok.fits r' (hsub r' hr')⟩
  · rw [hfree.live]
    exact hok.apart.sublist List.erase_sublist
  · rw [hfree.live]
    exact hok.nodup.erase r

theorem Free.held (hfree : h.Free r h') (hregions : ∀ r' ∈ regions, r' ∈ h.live)
    (hr : r ∉ regions) : Held regions h h' := fun r' hr' => by
  have hmem : r' ∈ h'.live := by
    rw [hfree.live, List.mem_erase_of_ne (ne_of_mem_of_not_mem hr' hr)]
    exact hregions r' hr'
  exact ⟨hmem, hfree.keeps r' hmem⟩

/-- The heap in which `r` is in use, too. -/
def give (h : Heap) (r : Region) : Heap := { h with live := r :: h.live }

/-- The heap in which `r` is no longer in use. -/
def take (h : Heap) (r : Region) : Heap := { h with live := h.live.erase r }

theorem give_alloc (hroom : size ≤ r.size) (hfresh : r ∉ h.live)
    (hfits : r.start + r.size ≤ 2 ^ 32) (happart : ∀ r' ∈ h.live, r.Apart r') :
    h.Alloc size (h.give r) r :=
  ⟨rfl, hroom, hfresh, hfits, happart, fun _ _ _ _ => rfl⟩

/-- A block beside the only one in use. -/
theorem give_alloc_second {first : Region} (hlive : h.live = [first]) (hroom : size ≤ r.size)
    (hne : r ≠ first) (hfits : r.start + r.size ≤ 2 ^ 32) (happart : r.Apart first) :
    h.Alloc size (h.give r) r := by
  refine give_alloc hroom ?_ hfits fun r' hr' => ?_
  · rw [hlive, List.mem_singleton]
    exact hne
  · rw [hlive] at hr'
    rwa [List.mem_singleton.mp hr']

theorem ok_of_single (hlive : h.live = [r]) (hfits : r.start + r.size ≤ 2 ^ 32) : h.Ok := by
  refine ⟨?_, ?_, fun r' hr' => ?_⟩
  · rw [hlive]
    exact List.pairwise_singleton _ _
  · rw [hlive]
    exact List.pairwise_singleton _ _
  · rw [hlive] at hr'
    rwa [List.mem_singleton.mp hr']

theorem take_free (hr : r ∈ h.live) : h.Free r (h.take r) := ⟨hr, rfl, fun _ _ _ _ => rfl⟩

/-- What was given back is not in use. -/
theorem Free.not_live (hfree : h.Free r h') (hok : h.Ok) (hx : r.Has x) : ¬ h'.Live x := by
  rintro ⟨r', hr', hx'⟩
  rw [hfree.live] at hr'
  obtain ⟨hne, hmem⟩ := hok.nodup.mem_erase_iff.mp hr'
  rcases hok.eq_or_apart hfree.mem_live hmem with heq | happart
  · exact hne heq.symm
  · exact happart.not_has hx hx'

end Heap

end Microboot.Foundation
