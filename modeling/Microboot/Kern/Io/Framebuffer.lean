/-
  Kern/Io/Framebuffer.lean --- the framebuffer device of framebuffer.h, pixel by
  pixel.

  The driver draws into a back buffer and copies rectangles of it to the display
  when it is told to.  `put_pixel` does no bounds checking: the model records the
  pixels that were put outside the width and height of the moment, and all of the
  calls.  The pixels are those of the 32-bit mode the driver starts in, where each
  has a word of its own.
-/
import Microboot.Foundation.Loop
import Microboot.Foundation.Terminal

set_option autoImplicit false

namespace Microboot.Kern.Io

open Microboot.Foundation

/-- A call of an operation of `fbdev_t`. -/
inductive FbCall where
  | putPixel (x y : Int) (colour : UInt32)
  | invalidate (x y width height : Int)
  | shift (yshift : Int)
  deriving DecidableEq, Repr

/-- `fbdev_t`: the pixels by x and y in the back buffer and on the display.  The pixels put
outside the screen so far and the calls since the mode was set (latest first) are not kept
by the code. -/
structure FbDev where
  width : Int
  height : Int
  back : Int → Int → UInt32
  front : Int → Int → UInt32
  stray : List (Int × Int)
  calls : List FbCall := []

namespace FbDev

/-! ## The operations -/

/-- `put_pixel(dev, x, y, colour)`. -/
def putPixel (fb : FbDev) (x y : Int) (colour : UInt32) : FbDev :=
  { fb with
    back := fun x' y' => if x' = x ∧ y' = y then colour else fb.back x' y'
    stray := if InGrid fb.width fb.height x y then fb.stray else (x, y) :: fb.stray
    calls := .putPixel x y colour :: fb.calls }

/-- `invalidate(dev, x, y, width, height)`. -/
def invalidate (fb : FbDev) (x y width height : Int) : FbDev :=
  { fb with
    front := fun x' y' =>
      if (x ≤ x' ∧ x' < x + width) ∧ y ≤ y' ∧ y' < y + height then fb.back x' y'
      else fb.front x' y'
    calls := .invalidate x y width height :: fb.calls }

/-- `shift(dev, yshift)`: each row of pixels is copied from the one `yshift` below. -/
def shift (fb : FbDev) (yshift : Int) : FbDev :=
  { fb with
    back := forUpto (fb.height - yshift).toNat
      (fun y back x' y' => if y' = y then back x' (y + yshift) else back x' y') fb.back
    calls := .shift yshift :: fb.calls }

/-- A successful mode set: a new size, with a cleared back buffer. -/
def setRes (fb : FbDev) (width height : Int) : FbDev :=
  { fb with
    width := width
    height := height
    back := fun _ _ => 0
    front := fun _ _ => 0
    calls := [] }

/-- The loop over a rectangle of pixels, row by row, that calls `put_pixel` with a
colour for each. -/
def putRect (fb : FbDev) (x y : Int) (width height : Nat) (colour : Nat → Nat → UInt32) : FbDev :=
  forUpto height (fun j => forUpto width (fun i fb => fb.putPixel (x + i) (y + j) (colour i j))) fb

/-- A call on the pixels. -/
def call (fb : FbDev) : FbCall → FbDev
  | .putPixel x y colour => fb.putPixel x y colour
  | .invalidate x y width height => fb.invalidate x y width height
  | .shift yshift => fb.shift yshift

@[simp] theorem call_calls (fb : FbDev) (call : FbCall) :
    (fb.call call).calls = call :: fb.calls := by
  cases call <;> rfl

/-! ## What a rectangle draws -/

section PutRect

variable {fb fb' : FbDev} {x y : Int} {width height : Nat} {colour : Nat → Nat → UInt32}

/-- In front of pixel `(i, j)` of the loop: the pixels before it have their
colours, and nothing else has changed but the record of strays. -/
structure DrawnUpto (fb : FbDev) (x y : Int) (width : Nat) (colour : Nat → Nat → UInt32)
    (j i : Nat) (fb' : FbDev) : Prop where
  sameWidth : fb'.width = fb.width
  sameHeight : fb'.height = fb.height
  back : ∀ a b : Nat, a < width → (b < j ∨ b = j ∧ a < i) →
    fb'.back (x + a) (y + b) = colour a b
  other : ∀ x' y', (∀ a b : Nat, a < width → (b < j ∨ b = j ∧ a < i) →
    ¬ (x' = x + a ∧ y' = y + b)) → fb'.back x' y' = fb.back x' y'

theorem putRect_drawn :
    DrawnUpto fb x y width colour height 0 (fb.putRect x y width height colour) := by
  refine forUpto_grid_inv (DrawnUpto fb x y width colour)
    ⟨rfl, rfl, fun a b _ hlt => absurd hlt (by omega), fun _ _ _ => rfl⟩ ?_ ?_
  · intro j i _ hi t ht
    refine ⟨ht.sameWidth, ht.sameHeight, fun a b ha hlt => ?_, fun x' y' hne => ?_⟩
    · simp only [putPixel]
      by_cases hsame : a = i ∧ b = j
      · obtain ⟨rfl, rfl⟩ := hsame
        rw [if_pos ⟨rfl, rfl⟩]
      · rw [if_neg (by omega)]
        exact ht.back a b ha (by omega)
    · simp only [putPixel]
      rw [if_neg (hne i j hi (by omega))]
      exact ht.other x' y' fun a b ha hlt => hne a b ha (by omega)
  · intro j _ t ht
    exact ⟨ht.sameWidth, ht.sameHeight, fun a b ha hlt => ht.back a b ha (by omega),
      fun x' y' hne => ht.other x' y' fun a b ha hlt => hne a b ha (by omega)⟩

@[simp] theorem putRect_width : (fb.putRect x y width height colour).width = fb.width :=
  putRect_drawn.sameWidth

@[simp] theorem putRect_height : (fb.putRect x y width height colour).height = fb.height :=
  putRect_drawn.sameHeight

/-- A pixel of the rectangle. -/
theorem putRect_back {i j : Nat} (hi : i < width) (hj : j < height) :
    (fb.putRect x y width height colour).back (x + i) (y + j) = colour i j :=
  putRect_drawn.back i j hi (.inl hj)

/-- A pixel off the rectangle. -/
theorem putRect_back_of_off {x' y' : Int}
    (hoff : x' < x ∨ x + width ≤ x' ∨ y' < y ∨ y + height ≤ y') :
    (fb.putRect x y width height colour).back x' y' = fb.back x' y' :=
  putRect_drawn.other x' y' fun a b ha hlt => by omega

/-- A rectangle on the screen strays nowhere. -/
theorem putRect_stray (hx : 0 ≤ x) (hy : 0 ≤ y) (hxw : x + width ≤ fb.width)
    (hyh : y + height ≤ fb.height) :
    (fb.putRect x y width height colour).stray = fb.stray := by
  have hall := forUpto_grid_inv (w := width) (h := height) (s := fb)
    (f := fun j i fb => fb.putPixel (x + i) (y + j) (colour i j))
    (fun _ _ fb' => fb'.width = fb.width ∧ fb'.height = fb.height ∧ fb'.stray = fb.stray)
    ⟨rfl, rfl, rfl⟩ (fun j i hj hi t ht => ?_) fun _ _ _ ht => ht
  · exact hall.2.2
  · refine ⟨ht.1, ht.2.1, ?_⟩
    simp only [putPixel]
    rw [ht.1, ht.2.1, if_pos ⟨⟨by omega, by omega⟩, by omega, by omega⟩]
    exact ht.2.2

/-- What every call keeps, the loop does. -/
theorem putRect_keeps {P : FbDev → Prop} (hcall : ∀ fb call, P fb → P (fb.call call)) (h : P fb) :
    P (fb.putRect x y width height colour) :=
  forUpto_grid_inv (fun _ _ fb' => P fb') h
    (fun j i _ _ fb' hfb' => hcall fb' (.putPixel (x + i) (y + j) (colour i j)) hfb')
    fun _ _ _ hfb' => hfb'

/-- Strays are never forgotten. -/
theorem call_stray_ne (fb : FbDev) (call : FbCall) (h : fb.stray ≠ []) :
    (fb.call call).stray ≠ [] := by
  cases call with
  | putPixel x y colour =>
    simp only [FbDev.call, putPixel]
    split
    · exact h
    · exact List.cons_ne_nil _ _
  | invalidate x y width height => exact h
  | shift yshift => exact h

/-- A rectangle whose last pixel is off the screen strays. -/
theorem putRect_stray_of_off (hw : 0 < width) (hh : 0 < height)
    (hoff : ¬ InGrid fb.width fb.height (x + width - 1) (y + height - 1)) :
    (fb.putRect x y width height colour).stray ≠ [] := by
  obtain ⟨i, rfl⟩ : ∃ i, width = i + 1 := ⟨width - 1, by omega⟩
  obtain ⟨j, rfl⟩ : ∃ j, height = j + 1 := ⟨height - 1, by omega⟩
  -- the last round of the loop, on the state `t` behind the others
  obtain ⟨t, ht, hlast⟩ : ∃ t : FbDev, (t.width = fb.width ∧ t.height = fb.height) ∧
      fb.putRect x y (i + 1) (j + 1) colour = t.putPixel (x + i) (y + j) (colour i j) := by
    refine ⟨_, ?_, rfl⟩
    exact forUpto_inv (f := fun i (t : FbDev) => t.putPixel (x + i) (y + j) (colour i j))
      (fun _ (t : FbDev) => t.width = fb.width ∧ t.height = fb.height)
      ⟨putRect_width, putRect_height⟩ fun _ _ _ ht => ht
  rw [hlast]
  simp only [putPixel]
  rw [ht.1, ht.2, if_neg]
  · exact List.cons_ne_nil _ _
  · intro hin
    apply hoff
    rw [Int.natCast_add, Int.natCast_add]
    unfold InGrid at hin ⊢
    omega

end PutRect

/-! ## What a shift moves -/

/-- Behind the first `n` rows of the shift, they are those `yshift` further on. -/
def ShiftedUpto (pixels : Int → Int → UInt32) (yshift : Int) (n : Nat)
    (back : Int → Int → UInt32) : Prop :=
  ∀ x y, back x y = if 0 ≤ y ∧ y < n then pixels x (y + yshift) else pixels x y

/-- Copying row by row in ascending order moves every row that has one `yshift`
below it. -/
theorem shift_back (fb : FbDev) {yshift : Int} (hshift : 0 ≤ yshift) (x y : Int) :
    (fb.shift yshift).back x y =
      if 0 ≤ y ∧ y < fb.height - yshift then fb.back x (y + yshift) else fb.back x y := by
  have hstart : ShiftedUpto fb.back yshift 0 fb.back := fun x y => by rw [if_neg (by omega)]
  have hrow : ∀ n, n < (fb.height - yshift).toNat → ∀ back, ShiftedUpto fb.back yshift n back →
      ShiftedUpto fb.back yshift (n + 1) fun x' y' =>
        if y' = n then back x' (n + yshift) else back x' y' := by
    intro n _ back hback x y
    beta_reduce
    by_cases hy : y = n
    · -- the row copied is none of those copied so far
      rw [if_pos hy, hback, if_neg (by omega), if_pos (by omega), hy]
    · rw [if_neg hy, hback]
      by_cases hlt : 0 ≤ y ∧ y < n
      · rw [if_pos hlt, if_pos (by omega)]
      · rw [if_neg hlt, if_neg (by omega)]
  have hall := forUpto_inv (ShiftedUpto fb.back yshift) hstart hrow x y
  unfold shift
  simp only
  rw [hall]
  by_cases hlt : 0 ≤ y ∧ y < fb.height - yshift
  · rw [if_pos hlt, if_pos ⟨hlt.1, by omega⟩]
  · rw [if_neg hlt, if_neg fun h => hlt ⟨h.1, by omega⟩]

end FbDev

end Microboot.Kern.Io
