/-
  Kern/Memcpy.lean --- the fast `memcpy`, kern/stdlib.c.

  With `FAST_MEMOPS` a copy of more than 128 bytes moves blocks of 64 bytes through
  the MMX registers, then double words with `rep movsl`, and what is left of a double
  word with `rep movsb`.  The registers of the processor are the variables of the
  model; a `movq` reads its eight bytes before any of them is written, and so does
  `movsl` with its four.  A prefetch has no effect on what the program computes.

  Each of the three counts is computed by itself.  Together they are the length, and
  what is copied is what the plain loop copies.
-/
import Mathlib.Data.UInt
import Microboot.Foundation.Moves
import Microboot.Kern.Stdlib

set_option autoImplicit false

namespace Microboot.Kern

open Microboot.Foundation

/-! ## The model -/

/-- The block of a round of `loop1`: eight loads, and then eight stores. -/
def moveBlock (esi edi : Nat) : DevM Logged Unit := do
  let mm1 ← readBytes esi 8
  let mm2 ← readBytes (esi + 8) 8
  let mm3 ← readBytes (esi + 16) 8
  let mm4 ← readBytes (esi + 24) 8
  let mm5 ← readBytes (esi + 32) 8
  let mm6 ← readBytes (esi + 40) 8
  let mm7 ← readBytes (esi + 48) 8
  let mm0 ← readBytes (esi + 56) 8
  writeBytes edi mm1
  writeBytes (edi + 8) mm2
  writeBytes (edi + 16) mm3
  writeBytes (edi + 24) mm4
  writeBytes (edi + 32) mm5
  writeBytes (edi + 40) mm6
  writeBytes (edi + 48) mm7
  writeBytes (edi + 56) mm0

/-- `loop1: .. dec %ecx; jnz loop1`, with a bound on its rounds. -/
def loop1 : Nat → Nat → Nat → UInt32 → DevM Logged Unit
  | 0, _, _, _ => fun _ => none
  | fuel + 1, esi, edi, ecx => do
    moveBlock esi edi
    let ecx := ecx - 1
    if ecx ≠ 0 then loop1 fuel (esi + 64) (edi + 64) ecx else return ()

/-- `movsb` and `movsl`, for units of one and of four bytes. -/
def movs (size esi edi : Nat) : DevM Logged Unit := do writeBytes edi (← readBytes esi size)

/-- The same with `rep`: `%esi` and `%edi` afterwards. -/
def repMovs (size : Nat) : Nat → Nat → Nat → DevM Logged (Nat × Nat)
  | 0, esi, edi => return (esi, edi)
  | ecx + 1, esi, edi => do
    movs size esi edi
    repMovs size ecx (esi + size) (edi + size)

/-- The second `asm` of `memcpy`. -/
def moveRest (dst src : Nat) (len : UInt32) : DevM Logged Unit := do
  let (esi, edi) ← repMovs 4 (len / 4).toNat src dst
  let ecx := len &&& 3
  if ecx = 0 then return ()
  else
    let _ ← repMovs 1 ecx.toNat esi edi
    return ()

/-- `memcpy(dst, src, len)` with `FAST_MEMOPS`. -/
def memcpyFast (dst src : Nat) (len : UInt32) : DevM Logged Unit := do
  if len > 128 then
    loop1 addrSpace src dst (len >>> 6)
    let copied := len &&& ~~~(0x3f : UInt32)
    moveRest (dst + copied.toNat) (src + copied.toNat) (len - copied)
  else moveRest dst src len

/-- `memcpy(dst, src, len)` without: `while (len > 0) { *cdst++ = *csrc++; len--; }` -/
def memcpyPlain (cdst csrc : Nat) : Nat → DevM Logged Unit
  | 0 => return ()
  | len + 1 => do
    let c ← readByte csrc
    writeByte cdst c
    memcpyPlain (cdst + 1) (csrc + 1) len

/-! ## The parts -/

section Parts

variable {dst src : Nat} {len : UInt32}

theorem storeBytes_bytesAt_add (m m' : Mem) (esi edi k n : Nat) :
    (m'.storeBytes edi (bytesAt m esi k)).storeBytes (edi + k) (bytesAt m (esi + k) n) =
      m'.storeBytes edi (bytesAt m esi (k + n)) := by
  rw [bytesAt_add, storeBytes_append, length_bytesAt]

/-- The eight quadwords of a block, one behind the other. -/
theorem storeBytes_block (m m' : Mem) (esi edi : Nat) :
    (((((((m'.storeBytes edi (bytesAt m esi 8)).storeBytes (edi + 8)
      (bytesAt m (esi + 8) 8)).storeBytes (edi + 16) (bytesAt m (esi + 16) 8)).storeBytes
      (edi + 24) (bytesAt m (esi + 24) 8)).storeBytes (edi + 32)
      (bytesAt m (esi + 32) 8)).storeBytes (edi + 40) (bytesAt m (esi + 40) 8)).storeBytes
      (edi + 48) (bytesAt m (esi + 48) 8)).storeBytes (edi + 56) (bytesAt m (esi + 56) 8) =
      m'.storeBytes edi (bytesAt m esi 64) := by
  simp only [storeBytes_bytesAt_add, Nat.reduceAdd]

theorem moveBlock_copies (dst src : Nat) : Copies (moveBlock src dst) dst src 64 () := by
  refine Copies.of_run fun w => ?_
  simp only [moveBlock, bind_run (readBytes_run _), bind_run (writeBytes_run _), writeBytes_run,
    storeBytes_block, length_bytesAt]
  simp only [List.append_assoc, ← List.map_append, List.range'_append_1, Nat.reduceAdd]

/-- The loop moves as many blocks as `%ecx` says, at least one. -/
theorem loop1_copies {fuel : Nat} {ecx : UInt32} (hfuel : ecx.toNat ≤ fuel)
    (hecx : 0 < ecx.toNat) : Copies (loop1 fuel src dst ecx) dst src (ecx.toNat * 64) () := by
  induction fuel generalizing dst src ecx with
  | zero => omega
  | succ fuel ih =>
    have hpred : (ecx - 1).toNat = ecx.toNat - 1 := UInt32.toNat_sub_of_le _ _ hecx
    rw [show ecx.toNat * 64 = 64 + (ecx - 1).toNat * 64 by omega]
    refine .bind (moveBlock_copies dst src) ?_
    by_cases hlast : ecx - 1 = 0
    · rw [if_neg (not_not.mpr hlast), hlast]
      exact .pure _ _ ()
    · have hpos : 0 < (ecx - 1).toNat :=
        Nat.pos_of_ne_zero fun h0 => hlast (UInt32.toNat_inj.mp h0)
      rw [if_pos hlast]
      exact ih (by omega) hpos

theorem repMovs_copies (size ecx dst src : Nat) :
    Copies (repMovs size ecx src dst) dst src (ecx * size)
      (src + ecx * size, dst + ecx * size) := by
  induction ecx generalizing dst src with
  | zero =>
    rw [Nat.zero_mul]
    exact .pure _ _ _
  | succ ecx ih =>
    rw [show (ecx + 1) * size = size + ecx * size by ring, ← Nat.add_assoc, ← Nat.add_assoc]
    exact .bind (.unit dst src size) (ih (dst + size) (src + size))

theorem toNat_and_three : (len &&& 3).toNat = len.toNat % 4 := by
  rw [UInt32.toNat_and]
  exact Nat.and_two_pow_sub_one_eq_mod len.toNat 2

/-- The double words, and the rest of a double word. -/
theorem moveRest_copies (dst src : Nat) (len : UInt32) :
    Copies (moveRest dst src len) dst src len.toNat () := by
  have hsplit : len.toNat = (len / 4).toNat * 4 + (len &&& 3).toNat * 1 := by
    rw [UInt32.toNat_div, toNat_and_three, Nat.mul_one]
    exact (Nat.div_add_mod' len.toNat 4).symm
  rw [hsplit]
  refine .bind (repMovs_copies 4 (len / 4).toNat dst src) ?_
  dsimp only
  by_cases hrest : len &&& 3 = 0
  · rw [if_pos hrest, hrest]
    exact .pure _ _ ()
  · rw [if_neg hrest]
    exact .bind_pure (repMovs_copies 1 _ _ _) ()

/-- The plain loop moves units of one byte. -/
theorem memcpyPlain_copies (dst src n : Nat) : Copies (memcpyPlain dst src n) dst src n () := by
  induction n generalizing dst src with
  | zero => exact .pure _ _ ()
  | succ n ih =>
    rw [memcpyPlain, ← bind_assoc, Nat.add_comm n 1]
    exact .bind (.byte dst src) (ih (dst + 1) (src + 1))

/-- The bits of a mask, and the others. -/
theorem and_not_add_and (x y : BitVec 32) : (x &&& ~~~y) + (x &&& y) = x := by
  rw [BitVec.add_eq_or_of_and_eq_zero]
  · ext i hi
    simp only [BitVec.getElem_or, BitVec.getElem_and, BitVec.getElem_not]
    cases x[i] <;> cases y[i] <;> rfl
  · ext i hi
    simp only [BitVec.getElem_and, BitVec.getElem_not]
    cases x[i] <;> cases y[i] <;> simp

/-- `len & ~0x3f` are the whole blocks. -/
theorem toNat_and_not (len : UInt32) :
    (len &&& ~~~(0x3f : UInt32)).toNat = len.toNat / 64 * 64 := by
  have hsub : len &&& ~~~(0x3f : UInt32) = len - (len &&& 0x3f) := by
    apply eq_sub_of_add_eq
    exact UInt32.toBitVec_inj.mp (and_not_add_and len.toBitVec 63)
  have hmod : (len &&& 0x3f).toNat = len.toNat % 64 := by
    rw [UInt32.toNat_and]
    exact Nat.and_two_pow_sub_one_eq_mod len.toNat 6
  have hle : len &&& 0x3f ≤ len := by
    rw [UInt32.le_iff_toNat_le, hmod]
    exact Nat.mod_le _ _
  rw [hsub, UInt32.toNat_sub_of_le _ _ hle, hmod]
  omega

/-- The fast version copies. -/
theorem memcpyFast_copies (dst src : Nat) (len : UInt32) :
    Copies (memcpyFast dst src len) dst src len.toNat () := by
  unfold memcpyFast
  by_cases hlen : len > 128
  · have hlong : 128 < len.toNat := UInt32.lt_iff_toNat_lt.mp hlen
    have hlt := len.toNat_lt
    have hblocks : (len >>> 6).toNat = len.toNat / 64 := by
      rw [UInt32.toNat_shiftRight]
      exact Nat.shiftRight_eq_div_pow len.toNat 6
    have hle : len &&& ~~~(0x3f : UInt32) ≤ len := by
      rw [UInt32.le_iff_toNat_le, toNat_and_not]
      exact Nat.div_mul_le_self len.toNat 64
    have hsplit : len.toNat = (len &&& ~~~(0x3f : UInt32)).toNat +
        (len - (len &&& ~~~(0x3f : UInt32))).toNat := by
      rw [UInt32.toNat_sub_of_le _ _ hle]
      exact (Nat.add_sub_cancel' (UInt32.le_iff_toNat_le.mp hle)).symm
    rw [if_pos hlen, hsplit]
    refine .bind (a := ()) ?_ (moveRest_copies _ _ _)
    rw [toNat_and_not, ← hblocks]
    exact loop1_copies (by unfold addrSpace; omega) (by omega)
  · rw [if_neg hlen]
    exact moveRest_copies dst src len

end Parts

/-! ## The two versions -/

/-- What `memcpy` is for: the destination has what the source had, nothing else changes, and
nothing is accessed outside of the two. -/
theorem memcpyFast_refines (m : Mem) (dst src : Nat) (len : UInt32)
    (hdst : dst + len.toNat ≤ 2 ^ 32) (hsrc : src + len.toNat ≤ 2 ^ 32)
    (hapart : Region.Apart ⟨dst, len.toNat⟩ ⟨src, len.toNat⟩) :
    ∃ m', Leaves (Between ⟨src, len.toNat⟩ ⟨dst, len.toNat⟩) (memcpyFast dst src len) m () m' ∧
      Leaves (Between ⟨src, len.toNat⟩ ⟨dst, len.toNat⟩) (memcpyPlain dst src len.toNat) m () m' ∧
      (∀ i < len.toNat, m' (dst + i) = m (src + i)) ∧
      ∀ x, ¬ Region.Has ⟨dst, len.toNat⟩ x → m' x = m x := by
  have h : Movable dst src len.toNat := ⟨hdst, hsrc, hapart⟩
  exact ⟨memcpy m dst src len.toNat, (memcpyFast_copies dst src len).leaves h,
    (memcpyPlain_copies dst src len.toNat).leaves h, h.contents⟩

/-- A length that needs all three parts. -/
theorem memcpyFast_refines_151 :
    ∃ m', Leaves (Between ⟨4096, 151⟩ ⟨8192, 151⟩) (memcpyFast 8192 4096 151) UInt8.ofNat () m' ∧
      Leaves (Between ⟨4096, 151⟩ ⟨8192, 151⟩) (memcpyPlain 8192 4096 151) UInt8.ofNat () m' ∧
      (∀ i < 151, m' (8192 + i) = UInt8.ofNat (4096 + i)) ∧
      ∀ x, ¬ Region.Has ⟨8192, 151⟩ x → m' x = UInt8.ofNat x :=
  memcpyFast_refines UInt8.ofNat 8192 4096 151 (by decide) (by decide) (by decide)

end Microboot.Kern
