/-
  Foundation/Raster.lean --- buffers of elements in rows.

  The rows of a `Raster` begin `stride` bytes apart, and each has room for its
  elements.  A `Window` is a rectangle of elements that is inside, and `Window.Bytes`
  are the offsets of its bytes: a byte of an element is one of them exactly if the
  window has the element.

  A program that copies a window row by row leaves a picture that is the one of the
  source inside the window and what it was outside.
-/
import Microboot.Foundation.Blits

set_option autoImplicit false

namespace Microboot.Foundation

/-- Rows of elements, each of `elsize` bytes. -/
structure Raster where
  width : Nat
  height : Nat
  elsize : Nat
  stride : Nat
  row_le : width * elsize ≤ stride

namespace Raster

/-- Rows without gaps. -/
@[simps]
def packed (width height elsize : Nat) : Raster where
  width := width
  height := height
  elsize := elsize
  stride := width * elsize
  row_le := Nat.le_refl _

/-- The bytes of all rows. -/
def size (buf : Raster) : Nat := buf.stride * buf.height

/-- Where the element is. -/
def offset (buf : Raster) (x y : Nat) : Nat := x * buf.elsize + buf.stride * y

/-- The bytes of an element of the buffer at `p`. -/
def element (buf : Raster) (m : Mem) (p x y : Nat) : List UInt8 :=
  bytesAt m (p + buf.offset x y) buf.elsize

variable {buf : Raster} {x y x' y' n t j : Nat}

/-! ## Offsets -/

theorem offset_succ (buf : Raster) (x y : Nat) :
    buf.offset x (y + 1) = buf.offset x y + buf.stride := by
  rw [offset, Nat.mul_succ, ← Nat.add_assoc]
  rfl

theorem size_packed (width height elsize : Nat) :
    (packed width height elsize).size = width * height * elsize :=
  Nat.mul_right_comm width elsize height

/-- Elements of a row end where it does, or before. -/
theorem offset_le (buf : Raster) (hx : x + n ≤ buf.width) :
    buf.offset x y + n * buf.elsize ≤ buf.stride * (y + 1) := by
  have hcells : (x + n) * buf.elsize ≤ buf.width * buf.elsize := Nat.mul_le_mul_right _ hx
  have hrow := buf.row_le
  rw [Nat.add_mul] at hcells
  rw [offset, Nat.mul_succ]
  omega

theorem offset_le_size (buf : Raster) (hx : x + n ≤ buf.width) (hy : y < buf.height) :
    buf.offset x y + n * buf.elsize ≤ buf.size :=
  (buf.offset_le hx).trans (Nat.mul_le_mul_left _ hy)

/-- One element. -/
theorem element_le (buf : Raster) (hx : x < buf.width) :
    buf.offset x y + buf.elsize ≤ buf.stride * (y + 1) := by
  have hle := buf.offset_le (y := y) (n := 1) hx
  rwa [Nat.one_mul] at hle

theorem element_le_size (buf : Raster) (hx : x < buf.width) (hy : y < buf.height) :
    buf.offset x y + buf.elsize ≤ buf.size :=
  (buf.element_le hx).trans (Nat.mul_le_mul_left _ hy)

/-- The row of a byte. -/
theorem row_unique (buf : Raster) (hlow : buf.stride * y ≤ t) (hhigh : t < buf.stride * (y + 1))
    (hlow' : buf.stride * y' ≤ t) (hhigh' : t < buf.stride * (y' + 1)) : y = y' := by
  rw [Nat.mul_comm] at hlow hhigh hlow' hhigh'
  exact (Nat.div_eq_of_lt_le hlow hhigh).symm.trans (Nat.div_eq_of_lt_le hlow' hhigh')

/-- Two elements have no byte in common. -/
theorem offset_apart (buf : Raster) (hx : x < buf.width) (hx' : x' < buf.width) (hne : (x', y') ≠ (x, y)) :
    buf.offset x' y' + buf.elsize ≤ buf.offset x y ∨
      buf.offset x y + buf.elsize ≤ buf.offset x' y' := by
  have hcells : ∀ {i k : Nat}, i < k → i * buf.elsize + buf.elsize ≤ k * buf.elsize := by
    intro i k hlt
    rw [← Nat.succ_mul]
    exact Nat.mul_le_mul_right _ hlt
  have hrows : ∀ {i k : Nat}, i < k → buf.stride * (i + 1) ≤ buf.stride * k :=
    fun hlt => Nat.mul_le_mul_left _ hlt
  have hrow : buf.stride * y ≤ buf.offset x y := Nat.le_add_left _ _
  have hrow' : buf.stride * y' ≤ buf.offset x' y' := Nat.le_add_left _ _
  rcases Nat.lt_trichotomy y' y with hy | rfl | hy
  · have hle := buf.element_le (y := y') hx'
    have hlow := hrows hy
    omega
  · unfold offset
    rcases Nat.lt_or_gt_of_ne fun h => hne (congrArg (·, y') h) with hlt | hlt
    · have hle := hcells hlt
      omega
    · have hle := hcells hlt
      omega
  · have hle := buf.element_le (y := y) hx
    have hlow := hrows hy
    omega

/-- Without a gap between the rows each byte of the buffer belongs to an element. -/
theorem exists_element (buf : Raster) (hgap : buf.stride = buf.width * buf.elsize) (ht : t < buf.size) :
    ∃ x y, x < buf.width ∧ y < buf.height ∧ buf.offset x y ≤ t ∧
      t < buf.offset x y + buf.elsize := by
  have hrow : 0 < buf.stride := Nat.pos_of_mul_pos_right (Nat.zero_lt_of_lt ht)
  have hin : t % buf.stride < buf.width * buf.elsize := (Nat.mod_lt t hrow).trans_eq hgap
  have hcell : 0 < buf.elsize := Nat.pos_of_mul_pos_left (Nat.zero_lt_of_lt hin)
  have hparts := Nat.div_add_mod t buf.stride
  have hcells := Nat.div_add_mod' (t % buf.stride) buf.elsize
  have hlt := Nat.mod_lt (t % buf.stride) hcell
  refine ⟨t % buf.stride / buf.elsize, t / buf.stride,
    Nat.div_lt_of_lt_mul (Nat.mul_comm .. ▸ hin), Nat.div_lt_of_lt_mul ht, ?_, ?_⟩
  · unfold offset
    omega
  · unfold offset
    omega

/-! ## Windows -/

/-- A rectangle of elements that is inside. -/
structure Window (buf : Raster) where
  x : Nat
  y : Nat
  width : Nat
  height : Nat
  x_le : x + width ≤ buf.width
  y_le : y + height ≤ buf.height

namespace Window

/-- The window has the element. -/
def Has (window : buf.Window) (x y : Nat) : Prop :=
  window.x ≤ x ∧ x < window.x + window.width ∧ window.y ≤ y ∧ y < window.y + window.height

instance (window : buf.Window) (x y : Nat) : Decidable (window.Has x y) :=
  inferInstanceAs (Decidable (_ ∧ _ ∧ _ ∧ _))

/-- The offsets of its rows. -/
def Bytes (window : buf.Window) (t : Nat) : Prop :=
  ∃ y, window.y ≤ y ∧ y < window.y + window.height ∧ buf.offset window.x y ≤ t ∧
    t < buf.offset window.x y + window.width * buf.elsize

variable {window : buf.Window}

theorem row_le_size (window : buf.Window) (hy : y < window.y + window.height) :
    buf.offset window.x y + window.width * buf.elsize ≤ buf.size :=
  buf.offset_le_size window.x_le (Nat.lt_of_lt_of_le hy window.y_le)

theorem Bytes.lt_size (ht : window.Bytes t) : t < buf.size := by
  obtain ⟨y, -, hhigh, -, hlt⟩ := ht
  exact Nat.lt_of_lt_of_le hlt (window.row_le_size hhigh)

/-- A byte of an element is copied with the window that has the element. -/
theorem bytes_offset_iff (window : buf.Window) (hx : x < buf.width) (hj : j < buf.elsize) :
    window.Bytes (buf.offset x y + j) ↔ window.Has x y := by
  have hin : buf.offset x y + j < buf.stride * (y + 1) := by
    have hle := buf.element_le (y := y) hx
    omega
  have hlow : buf.stride * y ≤ buf.offset x y + j :=
    (Nat.le_add_left _ _).trans (Nat.le_add_right _ _)
  constructor
  · rintro ⟨k, hfirst, hlast, hstart, hend⟩
    obtain rfl : k = y := by
      refine buf.row_unique ((Nat.le_add_left _ _).trans hstart) ?_ hlow hin
      exact Nat.lt_of_lt_of_le hend (buf.offset_le window.x_le)
    unfold offset at hstart hend
    refine ⟨?_, ?_, hfirst, hlast⟩
    · -- the window begins in front of the end of the element
      have hlt : window.x * buf.elsize < (x + 1) * buf.elsize := by
        rw [Nat.succ_mul]
        omega
      exact Nat.le_of_lt_succ (Nat.lt_of_mul_lt_mul_right hlt)
    · have hlt : x * buf.elsize < (window.x + window.width) * buf.elsize := by
        rw [Nat.add_mul]
        omega
      exact Nat.lt_of_mul_lt_mul_right hlt
  · rintro ⟨hleft, hright, hfirst, hlast⟩
    have hbefore : window.x * buf.elsize ≤ x * buf.elsize := Nat.mul_le_mul_right _ hleft
    have hbehind : (x + 1) * buf.elsize ≤ (window.x + window.width) * buf.elsize :=
      Nat.mul_le_mul_right _ hright
    rw [Nat.succ_mul, Nat.add_mul] at hbehind
    refine ⟨y, hfirst, hlast, ?_, ?_⟩
    all_goals
      unfold offset
      omega

end Window

end Raster

/-! ## Copying a window -/

section Copying

variable {buf : Raster} {dst src : Nat} {m m' : Mem} {x y : Nat}

/-- A loop that copies the rows of a window copies the window. -/
theorem Blits.window (window : buf.Window) (loop : Nat → Nat → DevM Logged Unit)
    (round : Nat → DevM Logged Unit) (hzero : ∀ y, loop 0 y = Pure.pure ())
    (hsucc : ∀ n y, loop (n + 1) y = round y >>= fun _ => loop n (y + 1))
    (hround : ∀ y, window.y ≤ y → y < window.y + window.height →
      Copies (round y) (dst + buf.offset window.x y) (src + buf.offset window.x y)
        (window.width * buf.elsize) ())
    (hdst : dst + buf.size ≤ 2 ^ 32) (hsrc : src + buf.size ≤ 2 ^ 32) :
    Blits (loop window.height window.y) dst src window.Bytes () := by
  refine Blits.rounds loop round hzero hsucc fun y hlow hhigh => ?_
  have hend := window.row_le_size hhigh
  exact .of_copies (hround y hlow hhigh) (by omega) (by omega)

/-- The picture afterwards: that of the source inside the window. -/
theorem Blitted.element {window : buf.Window} (h : Blitted dst src window.Bytes m m')
    (hdst : dst + buf.size ≤ 2 ^ 32) (hapart : OffsetsApart dst src window.Bytes)
    (hx : x < buf.width) (hy : y < buf.height) :
    buf.element m' dst x y =
      if window.Has x y then buf.element m src x y else buf.element m dst x y := by
  have hcell := buf.element_le_size hx hy
  split
  next hhas =>
    refine bytesAt_eq fun j hj => ?_
    rw [Nat.add_assoc, Nat.add_assoc]
    exact h.copies hapart _ ((window.bytes_offset_iff hx hj).mpr hhas)
  next hhas =>
    refine bytesAt_eq fun j hj => h.keeps _ fun t ht heq => hhas ?_
    have hlt := ht.lt_size
    rw [Nat.add_assoc, wrap_eq (by omega), wrap_eq (by omega)] at heq
    obtain rfl : buf.offset x y + j = t := Nat.add_left_cancel heq
    exact (window.bytes_offset_iff hx hj).mp ht

end Copying

end Microboot.Foundation
