/-
  Kern/Memblit.lean --- `memblit`, kern/stdlib.c.

  A rectangle of a buffer is copied to the same place of another one, row by row, and
  each row by `memcpy`.  The two pointers begin at the first element of the rectangle and
  move on by a whole row of the buffer; nothing in the loop knows where a row ends, so
  that a rectangle inside the buffer is what keeps it in there.

  Which version of `memcpy` is called makes no difference to what is left.
-/
import Microboot.Foundation.Raster
import Microboot.Kern.Memcpy

set_option autoImplicit false

namespace Microboot.Kern

open Microboot.Foundation

/-! ## The model -/

/-- The loop of `memblit`.  The counter is an `int` that is compared as a `size_t`: there are
`height` rounds. -/
def memblitLoop (memcpy : Nat → Nat → UInt32 → DevM Logged Unit) (stride : Nat) (len : UInt32) :
    Nat → Nat → Nat → DevM Logged Unit
  | 0, _, _ => return ()
  | height + 1, pdst, psrc => do
    memcpy pdst psrc len
    memblitLoop memcpy stride len height (pdst + stride) (psrc + stride)

/-- `memblit(dst, src, bufwidth, bufheight, elsize, x, y, width, height)`, with the `memcpy` that
it calls. -/
def memblitWith (memcpy : Nat → Nat → UInt32 → DevM Logged Unit)
    (dst src bufwidth _bufheight elsize x y width height : Nat) : DevM Logged Unit :=
  let stride := bufwidth * elsize % 2 ^ 32
  let offset := (x * elsize + y * stride) % 2 ^ 32
  let len := UInt32.ofNat (width * elsize)
  memblitLoop memcpy stride len height (dst + offset) (src + offset)

/-- `memblit` with `FAST_MEMOPS` -/
def memblit (dst src bufwidth bufheight elsize x y width height : Nat) : DevM Logged Unit :=
  memblitWith memcpyFast dst src bufwidth bufheight elsize x y width height

/-- `memblit` without -/
def memblitPlain (dst src bufwidth bufheight elsize x y width height : Nat) : DevM Logged Unit :=
  memblitWith (fun dst src len => memcpyPlain dst src len.toNat)
    dst src bufwidth bufheight elsize x y width height

/-! ## The rows -/

section Rows

variable {memcpy : Nat → Nat → UInt32 → DevM Logged Unit} {dst src : Nat} {buf : Raster}

/-- The loop copies a window whose first row begins at the pointers. -/
theorem memblitLoop_blits
    (hmemcpy : ∀ dst src len, Copies (memcpy dst src len) dst src len.toNat ())
    (window : buf.Window) {len : UInt32} (hlen : len.toNat = window.width * buf.elsize)
    (hmove : Movable dst src buf.size) :
    Blits (memblitLoop memcpy buf.stride len window.height
        (dst + buf.offset window.x window.y) (src + buf.offset window.x window.y))
      dst src window.Bytes () := by
  refine Blits.window window
    (fun n y => memblitLoop memcpy buf.stride len n (dst + buf.offset window.x y)
      (src + buf.offset window.x y))
    (fun y => memcpy (dst + buf.offset window.x y) (src + buf.offset window.x y) len)
    (fun _ => rfl) (fun n y => ?_) (fun y _ _ => ?_) hmove.dstFits hmove.srcFits
  · rw [buf.offset_succ, ← Nat.add_assoc, ← Nat.add_assoc]
    rfl
  · rw [← hlen]
    exact hmemcpy _ _ len

/-- `memblit` copies the window, if its `memcpy` copies and the rows have no gaps. -/
theorem memblitWith_blits
    (hmemcpy : ∀ dst src len, Copies (memcpy dst src len) dst src len.toNat ())
    (window : buf.Window) (hgap : buf.stride = buf.width * buf.elsize)
    (hmove : Movable dst src buf.size) :
    Blits (memblitWith memcpy dst src buf.width buf.height buf.elsize window.x window.y
      window.width window.height) dst src window.Bytes () := by
  unfold memblitWith
  rcases Nat.eq_zero_or_pos window.height with hnone | hrows
  · -- without a row it does not matter which of the products are cut
    rw [hnone]
    refine (Blits.pure dst src ()).congr fun t => ⟨False.elim, ?_⟩
    rintro ⟨y, hlow, hhigh, -⟩
    omega
  · have hsize := hmove.lt
    have hstride : buf.stride ≤ buf.size := by
      refine Nat.le_mul_of_pos_right _ (Nat.lt_of_lt_of_le ?_ window.y_le)
      exact Nat.add_pos_right _ hrows
    have hrow := window.row_le_size (y := window.y) (Nat.lt_add_of_pos_right hrows)
    have hlen : (UInt32.ofNat (window.width * buf.elsize)).toNat = window.width * buf.elsize := by
      rw [UInt32.toNat_ofNat']
      exact Nat.mod_eq_of_lt (by omega)
    have hoffset : (window.x * buf.elsize + window.y * buf.stride) % 2 ^ 32 =
        buf.offset window.x window.y := by
      rw [Nat.mul_comm window.y]
      exact Nat.mod_eq_of_lt (by unfold Raster.offset at hrow; omega)
    dsimp only
    rw [← hgap, Nat.mod_eq_of_lt (by omega : buf.stride < 2 ^ 32), hoffset]
    exact memblitLoop_blits hmemcpy window hlen hmove

/-- Two versions leave the same memory. -/
theorem memblitWith_leaves {memcpy' : Nat → Nat → UInt32 → DevM Logged Unit}
    (hmemcpy : ∀ dst src len, Copies (memcpy dst src len) dst src len.toNat ())
    (hmemcpy' : ∀ dst src len, Copies (memcpy' dst src len) dst src len.toNat ())
    (window : buf.Window) (hgap : buf.stride = buf.width * buf.elsize)
    (hmove : Movable dst src buf.size) (m : Mem) :
    ∃ m', Blitted dst src window.Bytes m m' ∧
      Leaves (Between ⟨src, buf.size⟩ ⟨dst, buf.size⟩) (memblitWith memcpy dst src buf.width
        buf.height buf.elsize window.x window.y window.width window.height) m () m' ∧
      Leaves (Between ⟨src, buf.size⟩ ⟨dst, buf.size⟩) (memblitWith memcpy' dst src buf.width
        buf.height buf.elsize window.x window.y window.width window.height) m () m' := by
  have hapart := hmove.offsetsApart fun t (ht : window.Bytes t) => ht.lt_size
  have hinside : ∀ t, window.Bytes t → Between ⟨src, buf.size⟩ ⟨dst, buf.size⟩ (.read (src + t)) ∧
      Between ⟨src, buf.size⟩ ⟨dst, buf.size⟩ (.write (dst + t)) := fun t ht =>
    ⟨⟨Nat.le_add_right _ _, Nat.add_lt_add_left ht.lt_size _⟩,
      ⟨Nat.le_add_right _ _, Nat.add_lt_add_left ht.lt_size _⟩⟩
  obtain ⟨m', hblit, hleaves⟩ :=
    (memblitWith_blits hmemcpy window hgap hmove).leaves hapart hinside m
  obtain ⟨m'', hblit', hleaves'⟩ :=
    (memblitWith_blits hmemcpy' window hgap hmove).leaves hapart hinside m
  obtain rfl := hblit.unique hapart hblit'
  exact ⟨m', hblit, hleaves, hleaves'⟩

end Rows

/-! ## The two versions -/

/-- What `memblit` is for: the elements in the rectangle are those of the source, the others and
all other bytes are as they were, and nothing is accessed outside of the two buffers. -/
theorem memblit_refines (m : Mem) (dst src bufwidth bufheight elsize x y width height : Nat)
    (hx : x + width ≤ bufwidth) (hy : y + height ≤ bufheight)
    (hmove : Movable dst src (bufwidth * bufheight * elsize)) :
    ∃ m', Leaves (Between ⟨src, bufwidth * bufheight * elsize⟩
        ⟨dst, bufwidth * bufheight * elsize⟩)
        (memblit dst src bufwidth bufheight elsize x y width height) m () m' ∧
      Leaves (Between ⟨src, bufwidth * bufheight * elsize⟩
        ⟨dst, bufwidth * bufheight * elsize⟩)
        (memblitPlain dst src bufwidth bufheight elsize x y width height) m () m' ∧
      (∀ i j, i < bufwidth → j < bufheight →
        (Raster.packed bufwidth bufheight elsize).element m' dst i j =
          if x ≤ i ∧ i < x + width ∧ y ≤ j ∧ j < y + height
          then (Raster.packed bufwidth bufheight elsize).element m src i j
          else (Raster.packed bufwidth bufheight elsize).element m dst i j) ∧
      ∀ z, ¬ Region.Has ⟨dst, bufwidth * bufheight * elsize⟩ z → m' z = m z := by
  let window : (Raster.packed bufwidth bufheight elsize).Window := ⟨x, y, width, height, hx, hy⟩
  rw [← Raster.size_packed] at hmove ⊢
  have hlt : ∀ t, window.Bytes t → t < (Raster.packed bufwidth bufheight elsize).size :=
    fun t ht => ht.lt_size
  obtain ⟨m', hblit, hfast, hplain⟩ := memblitWith_leaves memcpyFast_copies
    (fun dst src len => memcpyPlain_copies dst src len.toNat) window rfl hmove m
  refine ⟨m', hfast, hplain, fun i j hi hj => ?_, fun z hz => ?_⟩
  · exact hblit.element hmove.dstFits (hmove.offsetsApart hlt) hi hj
  · exact hblit.outside hmove.dstFits hlt hz

/-- A window of a screen of 64 by 48 pixels, with rows that are moved in blocks. -/
theorem memblit_refines_screen :
    ∃ m', Leaves (Between ⟨100000, 12288⟩ ⟨65536, 12288⟩)
        (memblit 65536 100000 64 48 4 10 20 40 8) UInt8.ofNat () m' ∧
      Leaves (Between ⟨100000, 12288⟩ ⟨65536, 12288⟩)
        (memblitPlain 65536 100000 64 48 4 10 20 40 8) UInt8.ofNat () m' ∧
      (∀ i j, i < 64 → j < 48 →
        (Raster.packed 64 48 4).element m' 65536 i j =
          if 10 ≤ i ∧ i < 50 ∧ 20 ≤ j ∧ j < 28
          then (Raster.packed 64 48 4).element UInt8.ofNat 100000 i j
          else (Raster.packed 64 48 4).element UInt8.ofNat 65536 i j) ∧
      ∀ z, ¬ Region.Has ⟨65536, 12288⟩ z → m' z = UInt8.ofNat z :=
  memblit_refines UInt8.ofNat 65536 100000 64 48 4 10 20 40 8 (by decide) (by decide)
    ⟨by decide, by decide, by decide⟩

end Microboot.Kern
