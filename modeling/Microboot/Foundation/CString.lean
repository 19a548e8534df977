/-
  Foundation/CString.lean --- NUL-terminated strings in a flat memory.

  `Seg m p u` says that the bytes `u` lie at `p`; `StrAt m p s` says that `p`
  points to the NUL-terminated string `s`; `StrsAt m p ss` says that the
  strings `ss` lie one after the other from `p`.  `scan` is the one loop of
  every string function: count the bytes before the first stopping one.
-/
import Mathlib.Data.List.Basic
import Microboot.Foundation.Memory

set_option autoImplicit false

namespace Microboot.Foundation

/-! ## Segments -/

/-- The bytes `u` lie at address `p`. -/
def Seg (m : Mem) (p : Nat) : List UInt8 → Prop
  | [] => True
  | c :: u => m.load8 p = c ∧ Seg m (p + 1) u

theorem seg_append {m : Mem} : ∀ {u v : List UInt8} {p : Nat},
    Seg m p (u ++ v) ↔ Seg m p u ∧ Seg m (p + u.length) v := by
  intro u
  induction u with
  | nil => intro v p; simp [Seg]
  | cons c u ih =>
    intro v p
    simp only [List.cons_append, Seg, ih, List.length_cons, and_assoc]
    rw [show p + 1 + u.length = p + (u.length + 1) by omega]

/-- A segment depends only on its own bytes. -/
theorem Seg.congr {m m' : Mem} : ∀ {u : List UInt8} {p : Nat}, Seg m p u →
    p + u.length ≤ 2 ^ 32 → (∀ x, p ≤ x → x < p + u.length → m' x = m x) → Seg m' p u := by
  intro u
  induction u with
  | nil => intro p _ _ _; trivial
  | cons c u ih =>
    intro p h hp hag
    simp only [List.length_cons] at hp hag
    refine ⟨?_, ih h.2 (by omega) fun x h1 h2 => hag x (by omega) (by omega)⟩
    have h8 := h.1
    rw [Mem.load8_eq _ (by omega)] at h8 ⊢
    rw [hag p (by omega) (by omega), h8]

/-- The byte at an offset inside a segment. -/
theorem Seg.load8 {m : Mem} : ∀ {u : List UInt8} {p : Nat}, Seg m p u →
    ∀ i (hi : i < u.length), m.load8 (p + i) = u[i] := by
  intro u
  induction u with
  | nil => intro p _ i hi; simp at hi
  | cons c u ih =>
    intro p h i hi
    cases i with
    | zero => exact h.1
    | succ i =>
      rw [show p + (i + 1) = p + 1 + i by omega, ih h.2 i (by simpa using hi)]
      rfl

/-- A segment is given by its bytes. -/
theorem seg_of_load8 {m : Mem} : ∀ {u : List UInt8} {p : Nat},
    (∀ i (hi : i < u.length), m.load8 (p + i) = u[i]) → Seg m p u := by
  intro u
  induction u with
  | nil => intro p _; trivial
  | cons c u ih =>
    intro p h
    refine ⟨h 0 (by simp), ih fun i hi => ?_⟩
    have := h (i + 1) (by simpa using hi)
    rwa [← Nat.add_assoc, Nat.add_right_comm] at this

/-- A segment that has been copied. -/
theorem Seg.moved {m m' : Mem} {u : List UInt8} {p q : Nat} (h : Seg m p u)
    (hp : p + u.length ≤ 2 ^ 32) (hq : q + u.length ≤ 2 ^ 32)
    (hsame : ∀ i, i < u.length → m' (q + i) = m (p + i)) : Seg m' q u :=
  seg_of_load8 fun i hi => by
    rw [Mem.load8_eq _ (by omega), hsame i hi, ← Mem.load8_eq m (by omega), h.load8 i hi]

/-- Bytes that are stored lie there. -/
theorem seg_storeBytes : ∀ {u : List UInt8} {m : Mem} {p : Nat}, p + u.length ≤ 2 ^ 32 →
    Seg (m.storeBytes p u) p u := by
  intro u
  induction u with
  | nil => intro m p _; trivial
  | cons c u ih =>
    intro m p hp
    rw [List.length_cons] at hp
    refine ⟨?_, ih (by omega)⟩
    have hfirst := Mem.load8_store8_same m p c
    rw [Mem.load8_eq _ (by omega)] at hfirst ⊢
    rw [Mem.storeBytes, Mem.storeBytes_apply_of_disjoint _ _ _ _ (by omega) (by omega), hfirst]

/-- The `n` bytes at `p`. -/
def bytesAt (m : Mem) (p : Nat) : Nat → List UInt8
  | 0 => []
  | n + 1 => m.load8 p :: bytesAt m (p + 1) n

theorem Seg.bytesAt {m : Mem} : ∀ {u : List UInt8} {p : Nat}, Seg m p u →
    Foundation.bytesAt m p u.length = u := by
  intro u
  induction u with
  | nil => intro p _; rfl
  | cons c u ih => intro p h; rw [List.length_cons, Foundation.bytesAt, h.1, ih h.2]

/-! ## Scanning -/

/-- The number of bytes before the first stopping one from `p` on, within the
given number of looks. -/
def scan (stop : UInt8 → Bool) (m : Mem) : Nat → Nat → Option Nat
  | 0, _ => none
  | fuel + 1, p =>
    if stop (m.load8 p) then some 0 else (scan stop m fuel (p + 1)).map (· + 1)

/-- The scan stops right after a run of passing bytes. -/
theorem scan_seg {stop : UInt8 → Bool} {m : Mem} : ∀ (fuel : Nat) (u : List UInt8) (p : Nat),
    Seg m p u → (∀ c ∈ u, stop c = false) → stop (m.load8 (p + u.length)) = true →
    u.length < fuel → scan stop m fuel p = some u.length := by
  intro fuel
  induction fuel with
  | zero => intro u p _ _ _ hfuel; exact absurd hfuel (Nat.not_lt_zero _)
  | succ fuel ih =>
    intro u p h hpass hstop hfuel
    cases u with
    | nil => simpa [scan] using hstop
    | cons c u =>
      have hc : stop (m.load8 p) = false := by rw [h.1]; exact hpass c (by simp)
      have hend : p + 1 + u.length = p + (c :: u).length := by simp; omega
      have hrest := ih u (p + 1) h.2 (fun x hx => hpass x (by simp [hx]))
        (by rw [hend]; exact hstop) (by simpa using hfuel)
      simp [scan, hc, hrest]

/-- A scan counts to less than the number of looks. -/
theorem scan_lt {stop : UInt8 → Bool} {m : Mem} : ∀ {fuel p n : Nat},
    scan stop m fuel p = some n → n < fuel := by
  intro fuel
  induction fuel with
  | zero => intro p n h; rw [scan] at h; cases h
  | succ fuel ih =>
    intro p n h
    rw [scan] at h
    split at h
    · cases h
      exact Nat.succ_pos fuel
    · obtain ⟨k, hk, rfl⟩ := Option.map_eq_some_iff.mp h
      exact Nat.succ_lt_succ (ih hk)

/-- A scan succeeds as soon as some byte ahead stops it. -/
theorem scan_isSome (stop : UInt8 → Bool) (m : Mem) : ∀ (fuel p q : Nat),
    p ≤ q → q < p + fuel → stop (m.load8 q) = true → ∃ n, scan stop m fuel p = some n := by
  intro fuel
  induction fuel with
  | zero => intro p q h1 h2 _; omega
  | succ fuel ih =>
    intro p q h1 h2 hq
    cases hp : stop (m.load8 p) with
    | true => exact ⟨0, by simp [scan, hp]⟩
    | false =>
      have hne : p ≠ q := by rintro rfl; rw [hp] at hq; cases hq
      obtain ⟨n, hn⟩ := ih (p + 1) q (by omega) (by omega) hq
      exact ⟨n + 1, by simp [scan, hp, hn]⟩

/-! ## Strings -/

/-- `p` points to the NUL-terminated string `s`, which lies inside the address
space. -/
structure StrAt (m : Mem) (p : Nat) (s : List UInt8) : Prop where
  seg : Seg m p s
  nul : m.load8 (p + s.length) = 0
  nulFree : (0 : UInt8) ∉ s
  fits : p + s.length < 2 ^ 32

/-- A string depends only on its bytes and its terminator. -/
theorem StrAt.congr {m m' : Mem} {p : Nat} {s : List UInt8} (h : StrAt m p s)
    (hag : ∀ x, p ≤ x → x ≤ p + s.length → m' x = m x) : StrAt m' p s := by
  have hfits := h.fits
  refine ⟨h.seg.congr (by omega) fun x h1 h2 => hag x h1 (by omega), ?_, h.nulFree, h.fits⟩
  have hnul := h.nul
  rw [Mem.load8_eq _ hfits] at hnul ⊢
  rw [hag _ (by omega) (by omega), hnul]

/-- A suffix of a string is the string further on. -/
theorem StrAt.drop {m : Mem} {p : Nat} {u v : List UInt8} (h : StrAt m p (u ++ v)) :
    StrAt m (p + u.length) v where
  seg := (seg_append.mp h.seg).2
  nul := by have := h.nul; rwa [List.length_append, ← Nat.add_assoc] at this
  nulFree := fun hv => h.nulFree (List.mem_append.mpr (Or.inr hv))
  fits := by have := h.fits; rw [List.length_append] at this; omega

/-- A terminator written after a prefix cuts the string there. -/
theorem StrAt.cut {m : Mem} {p : Nat} {u v : List UInt8} {c : UInt8}
    (h : StrAt m p (u ++ c :: v)) :
    StrAt (m.store8 (p + u.length) 0) p u ∧
      StrAt (m.store8 (p + u.length) 0) (p + u.length + 1) v := by
  have hfits := h.fits
  have hlen : (u ++ c :: v).length = u.length + (v.length + 1) := by simp
  rw [hlen] at hfits
  constructor
  · refine ⟨(seg_append.mp h.seg).1.congr (by omega) fun x _ h2 => ?_, ?_, ?_, by omega⟩
    · exact Mem.store8_apply_of_ne _ _ (by omega) (by omega)
    · exact Mem.load8_store8_same _ _ _
    · exact fun hu => h.nulFree (List.mem_append.mpr (Or.inl hu))
  · have htail : StrAt m (p + u.length + 1) v := by
      have := h.drop
      rw [show c :: v = [c] ++ v from rfl] at this
      exact this.drop
    exact htail.congr fun x h1 _ => Mem.store8_apply_of_ne _ _ (by omega) (by omega)

/-- The bytes of `v` and a terminator behind a string. -/
theorem StrAt.storeBytes {m : Mem} {p : Nat} {u v : List UInt8} (h : StrAt m p u)
    (hv : (0 : UInt8) ∉ v) (hfits : p + u.length + v.length < 2 ^ 32) :
    StrAt (m.storeBytes (p + u.length) (v ++ [0])) p (u ++ v) := by
  have hlen : (v ++ [0]).length = v.length + 1 := by simp
  have hnew : Seg (m.storeBytes (p + u.length) (v ++ [0])) (p + u.length) (v ++ [0]) :=
    seg_storeBytes (by omega)
  obtain ⟨hseg, hnul, -⟩ := seg_append.mp hnew
  refine ⟨seg_append.mpr ⟨h.seg.congr (by omega) fun x _ hx => ?_, hseg⟩, ?_, ?_, ?_⟩
  · exact Mem.storeBytes_apply_of_disjoint _ _ _ _ (by omega) (Or.inl hx)
  · rw [List.length_append, ← Nat.add_assoc]
    exact hnul
  · rw [List.mem_append, not_or]
    exact ⟨h.nulFree, hv⟩
  · rw [List.length_append]
    omega

/-- The first byte of a string is NUL exactly when the string is empty. -/
theorem StrAt.load8_eq_zero {m : Mem} {p : Nat} {s : List UInt8} (h : StrAt m p s) :
    m.load8 p = 0 ↔ s = [] := by
  cases s with
  | nil => simpa using h.nul
  | cons c s =>
    have hc : m.load8 p = c := h.seg.1
    have hne : c ≠ 0 := fun hc0 => h.nulFree (by simp [hc0])
    simp [hc, hne]

/-- A string from a character on. -/
theorem StrAt.drop_of_le {m : Mem} {p k : Nat} {s : List UInt8} (h : StrAt m p s)
    (hk : k ≤ s.length) :
    StrAt m (p + k) (s.drop k) := by
  rw [← List.take_append_drop k s] at h
  have hrest := h.drop
  rwa [List.length_take, Nat.min_eq_left hk] at hrest

/-- A character that is not the terminator is looked for in the string. -/
theorem StrAt.load8_eq_iff {m : Mem} {p : Nat} {s : List UInt8} (h : StrAt m p s) {c : UInt8}
    (hc : c ≠ 0) :
    m.load8 p = c ↔ s.head? = some c := by
  cases s with
  | nil =>
    rw [show m.load8 p = 0 from h.nul]
    exact iff_of_false hc.symm (by simp)
  | cons d s =>
    rw [show m.load8 p = d from h.seg.1, List.head?_cons, Option.some.injEq]

/-- The first two characters of a string. -/
theorem StrAt.take_two_eq_iff {m : Mem} {p : Nat} {s : List UInt8} (h : StrAt m p s)
    {c d : UInt8} (hc : c ≠ 0) (hd : d ≠ 0) :
    s.take 2 = [c, d] ↔ m.load8 p = c ∧ m.load8 (p + 1) = d := by
  rw [h.load8_eq_iff hc]
  cases s with
  | nil => simp
  | cons x s =>
    have hrest : StrAt m (p + 1) s := h.drop (u := [x])
    rw [hrest.load8_eq_iff hd]
    cases s with
    | nil => simp
    | cons y s => simp

/-- The memory that holds the string `s` at `p` and zeros elsewhere. -/
def stringMem (p : Nat) (s : List UInt8) : Mem :=
  fun a => if p ≤ a then s.getD (a - p) 0 else 0

theorem strAt_stringMem {p : Nat} {s : List UInt8} (hs : (0 : UInt8) ∉ s)
    (hfits : p + s.length < 2 ^ 32) : StrAt (stringMem p s) p s where
  seg := seg_of_load8 fun i hi => by
    rw [Mem.load8_eq _ (by omega)]
    simp [stringMem, hi]
  nul := by
    rw [Mem.load8_eq _ hfits]
    simp [stringMem]
  nulFree := hs
  fits := hfits

/-- A string among the bytes of such a memory. -/
theorem strAt_stringMem_append {p : Nat} {s : List UInt8} (u v : List UInt8)
    (hs : (0 : UInt8) ∉ s) (hfits : p + u.length + s.length < 2 ^ 32) :
    StrAt (stringMem p (u ++ s ++ 0 :: v)) (p + u.length) s where
  seg := seg_of_load8 fun i hi => by
    have hindex : p + u.length + i - p = u.length + i := by omega
    have hge : p ≤ p + u.length + i := by omega
    rw [Mem.load8_eq _ (by omega), stringMem, if_pos hge, hindex, List.append_assoc,
      List.getD_eq_getElem?_getD, List.getElem?_append_right (Nat.le_add_right _ _),
      Nat.add_sub_cancel_left, List.getElem?_append_left hi, List.getElem?_eq_getElem hi]
    rfl
  nul := by
    have hindex : p + u.length + s.length - p = u.length + s.length := by omega
    have hge : p ≤ p + u.length + s.length := by omega
    rw [Mem.load8_eq _ hfits, stringMem, if_pos hge, hindex]
    simp
  nulFree := hs
  fits := hfits

/-- The strings `ss` lie one behind the other from `p`. -/
def StrsAt (m : Mem) (p : Nat) : List (List UInt8) → Prop
  | [] => True
  | s :: ss => StrAt m p s ∧ StrsAt m (p + s.length + 1) ss

end Microboot.Foundation
