/-
  Foundation/Stack.lean --- words in memory, and a stack that grows downwards.

  A word is pushed by storing its bytes below those that are on the stack.  What was
  pushed since the stack pointer was at `top` is one list of bytes, the last word first,
  and the memory is the one from before with this list stored at the stack pointer.
-/
import Microboot.Foundation.CString
import Microboot.Foundation.Moves

set_option autoImplicit false

namespace Microboot.Foundation

/-! ## The bytes of a word -/

/-- The bytes of a 16-bit word, the low one first. -/
def bytes16 (v : UInt16) : List UInt8 := [v.toUInt8, (v >>> 8).toUInt8]

/-- The bytes of a 32-bit word, the low one first. -/
def bytes32 (v : UInt32) : List UInt8 :=
  [v.toUInt8, (v >>> 8).toUInt8, (v >>> 16).toUInt8, (v >>> 24).toUInt8]

/-- The 16-bit word at `p`. -/
def word16 (m : Mem) (p : Nat) : UInt16 := UInt16.ofNat (m.load16 p)

/-- The 32-bit word at `p`. -/
def word32 (m : Mem) (p : Nat) : UInt32 := UInt32.ofNat (m.load32 p)

@[simp] theorem length_bytes16 (v : UInt16) : (bytes16 v).length = 2 := rfl

@[simp] theorem length_bytes32 (v : UInt32) : (bytes32 v).length = 4 := rfl

section Words

variable {m m' : Mem} {p : Nat}

theorem toNat_word16 : (word16 m p).toNat = m.load16 p := by
  have h0 := (m.load8 p).toNat_lt
  have h1 := (m.load8 (p + 1)).toNat_lt
  refine UInt16.toNat_ofNat_of_lt' ?_
  unfold Mem.load16
  change _ < 2 ^ 16
  omega

theorem toNat_word32 : (word32 m p).toNat = m.load32 p :=
  UInt32.toNat_ofNat_of_lt' (m.load32_lt p)

/-- The word whose bytes are at `p`. -/
theorem Seg.word16 {v : UInt16} (h : Seg m p (bytes16 v)) : word16 m p = v := by
  obtain ⟨h0, h1, -⟩ := h
  have hv := v.toNat_lt
  apply UInt16.toNat_inj.mp
  rw [toNat_word16, Mem.load16, h0, h1, UInt16.toNat_toUInt8, UInt16.toNat_toUInt8,
    UInt16.toNat_shiftRight, Nat.shiftRight_eq_div_pow]
  change v.toNat % 256 + 256 * (v.toNat / 256 % 256) = v.toNat
  omega

theorem Seg.word32 {v : UInt32} (h : Seg m p (bytes32 v)) : word32 m p = v := by
  obtain ⟨h0, h1, h2, h3, -⟩ := h
  have hv := v.toNat_lt
  apply UInt32.toNat_inj.mp
  rw [toNat_word32, Mem.load32, h0, h1, h2, h3]
  simp only [UInt32.toNat_toUInt8, UInt32.toNat_shiftRight, Nat.shiftRight_eq_div_pow]
  change v.toNat % 256 + 256 * (v.toNat / 256 % 256) + 65536 * (v.toNat / 65536 % 256) +
    16777216 * (v.toNat / 16777216 % 256) = v.toNat
  omega

/-- The bytes of the word at `p` are there. -/
theorem seg_word32 : Seg m p (bytes32 (word32 m p)) := by
  have h0 := (m.load8 p).toNat_lt
  have h1 := (m.load8 (p + 1)).toNat_lt
  have h2 := (m.load8 (p + 2)).toNat_lt
  have h3 := (m.load8 (p + 3)).toNat_lt
  have hbyte : ∀ k : UInt32, ((word32 m p) >>> k).toUInt8.toNat =
      m.load32 p / 2 ^ (k.toNat % 32) % 2 ^ 8 := by
    intro k
    rw [UInt32.toNat_toUInt8, UInt32.toNat_shiftRight, toNat_word32, Nat.shiftRight_eq_div_pow]
  have hlow : (word32 m p).toUInt8.toNat = m.load32 p % 2 ^ 8 := by
    rw [UInt32.toNat_toUInt8, toNat_word32]
  unfold Mem.load32 at hbyte hlow
  refine ⟨?_, ?_, ?_, ?_, trivial⟩
  · refine UInt8.toNat_inj.mp (Eq.trans ?_ hlow.symm)
    omega
  · refine UInt8.toNat_inj.mp (Eq.trans ?_ (hbyte 8).symm)
    change _ = _ / 256 % 2 ^ 8
    omega
  · refine UInt8.toNat_inj.mp (Eq.trans ?_ (hbyte 16).symm)
    change (m.load8 (p + 2)).toNat = _ / 65536 % 2 ^ 8
    omega
  · refine UInt8.toNat_inj.mp (Eq.trans ?_ (hbyte 24).symm)
    change (m.load8 (p + 3)).toNat = _ / 16777216 % 2 ^ 8
    omega

/-- A word depends only on its bytes. -/
theorem word16_congr (hp : p + 2 ≤ 2 ^ 32) (h : ∀ x, p ≤ x → x < p + 2 → m' x = m x) :
    word16 m' p = word16 m p := by
  have h0 : m'.load8 p = m.load8 p := by
    rw [Mem.load8_eq _ (by omega), Mem.load8_eq _ (by omega), h p (by omega) (by omega)]
  have h1 : m'.load8 (p + 1) = m.load8 (p + 1) := by
    rw [Mem.load8_eq _ (by omega), Mem.load8_eq _ (by omega), h (p + 1) (by omega) (by omega)]
  rw [Foundation.word16, Foundation.word16, Mem.load16, Mem.load16, h0, h1]

theorem word32_congr (hp : p + 4 ≤ 2 ^ 32) (h : ∀ x, p ≤ x → x < p + 4 → m' x = m x) :
    word32 m' p = word32 m p := by
  rw [Foundation.word32, Foundation.word32, Mem.load32_congr hp h]

end Words

/-! ## Pushing -/

/-- Bytes that are stored elsewhere. -/
theorem load8_storeBytes_of_disjoint {m : Mem} {p x : Nat} {u : List UInt8}
    (hp : p + u.length ≤ 2 ^ 32) (hx : x < 2 ^ 32) (h : x < p ∨ p + u.length ≤ x) :
    (m.storeBytes p u).load8 x = m.load8 x := by
  rw [Mem.load8_eq _ hx, Mem.load8_eq _ hx, Mem.storeBytes_apply_of_disjoint _ _ _ _ hp h]

theorem word32_storeBytes_of_disjoint {m : Mem} {p q : Nat} {u : List UInt8}
    (hp : p + u.length ≤ 2 ^ 32) (hq : q + 4 ≤ 2 ^ 32) (h : q + 4 ≤ p ∨ p + u.length ≤ q) :
    word32 (m.storeBytes p u) q = word32 m q :=
  word32_congr hq fun x _ _ => Mem.storeBytes_apply_of_disjoint _ _ _ _ hp (by omega)

theorem word16_storeBytes_of_disjoint {m : Mem} {p q : Nat} {u : List UInt8}
    (hp : p + u.length ≤ 2 ^ 32) (hq : q + 2 ≤ 2 ^ 32) (h : q + 2 ≤ p ∨ p + u.length ≤ q) :
    word16 (m.storeBytes p u) q = word16 m q :=
  word16_congr hq fun x _ _ => Mem.storeBytes_apply_of_disjoint _ _ _ _ hp (by omega)

theorem word32_storeBytes_same {m : Mem} {p : Nat} {v : UInt32} (hp : p + 4 ≤ 2 ^ 32) :
    word32 (m.storeBytes p (bytes32 v)) p = v := (seg_storeBytes hp).word32

/-- Bytes that are there already. -/
theorem storeBytes_eq_self {m : Mem} {p : Nat} {u : List UInt8} (h : Seg m p u)
    (hp : p + u.length ≤ 2 ^ 32) : m.storeBytes p u = m := by
  funext x
  by_cases hx : x < p ∨ p + u.length ≤ x
  · exact Mem.storeBytes_apply_of_disjoint _ _ _ _ hp hx
  · obtain ⟨i, hi, rfl⟩ : ∃ i < u.length, x = p + i := ⟨x - p, by omega, by omega⟩
    have hstored := (seg_storeBytes (m := m) hp).load8 i hi
    have hold := h.load8 i hi
    rw [Mem.load8_eq _ (by omega)] at hstored hold
    rw [hstored, hold]

/-- Bytes that are stored below others are stored together with them. -/
theorem storeBytes_push {m : Mem} {p : Nat} {b u : List UInt8}
    (hfits : p + b.length + u.length ≤ 2 ^ 32) :
    (m.storeBytes (p + b.length) u).storeBytes p b = m.storeBytes p (b ++ u) := by
  rw [storeBytes_append]
  funext x
  by_cases hx : x < p ∨ p + b.length ≤ x
  · rw [Mem.storeBytes_apply_of_disjoint _ _ _ _ (by omega) hx]
    by_cases hu : x < p + b.length ∨ p + b.length + u.length ≤ x
    · rw [Mem.storeBytes_apply_of_disjoint _ _ _ _ hfits hu,
        Mem.storeBytes_apply_of_disjoint _ _ _ _ hfits hu,
        Mem.storeBytes_apply_of_disjoint _ _ _ _ (by omega) hx]
    · -- inside the bytes above
      obtain ⟨i, hi, rfl⟩ : ∃ i < u.length, x = p + b.length + i :=
        ⟨x - (p + b.length), by omega, by omega⟩
      have hstored := fun m' : Mem => (seg_storeBytes (m := m') hfits).load8 i hi
      have hleft := hstored m
      have hright := hstored (m.storeBytes p b)
      rw [Mem.load8_eq _ (by omega)] at hleft hright
      rw [hleft, hright]
  · -- inside the bytes below
    rw [Mem.storeBytes_apply_of_disjoint u _ _ _ hfits (by omega)]
    obtain ⟨i, hi, rfl⟩ : ∃ i < b.length, x = p + i := ⟨x - p, by omega, by omega⟩
    have hstored := fun m' : Mem =>
      (seg_storeBytes (m := m') (show p + b.length ≤ 2 ^ 32 by omega)).load8 i hi
    have hleft := hstored (m.storeBytes (p + b.length) u)
    have hright := hstored m
    rw [Mem.load8_eq _ (by omega)] at hleft hright
    rw [hleft, hright]

end Microboot.Foundation
