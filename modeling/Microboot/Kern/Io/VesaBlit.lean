/-
  Kern/Io/VesaBlit.lean --- showing what was drawn, `vesa_invalidate` of kern/io/vesa.c.

  A rectangle of the back buffer is copied to the framebuffer.  There are three
  formulas for the place of a pixel: `vesa_put_pixel` has rows of `pitch` bytes, as the
  framebuffer does; `memblit` of kern/stdlib.c has rows of `width` pixels, as the
  allocation does; and with 8 bits for a pixel the offset is a product of all three,
  `x * pitch * y`.

  The bytes that a call copies are a set of offsets.  What is shown is right, whatever
  was in memory, if these are the offsets of the pixels that are to be shown.
-/
import Microboot.Kern.Memblit
import Microboot.Kern.Io.Vesa

set_option autoImplicit false

namespace Microboot.Kern.Io

open Microboot.Foundation

/-! ## The model -/

/-- A row of `vesa_invalidate` with 8 bits for a pixel. -/
def invalidateRow (device : VesaPriv) (y : Nat) : Nat → Nat → DevM Logged Unit
  | 0, _ => return ()
  | width + 1, x => do
    let offset := x * device.pitch * y % 2 ^ 32
    writeByte (device.framebuffer + offset) (← readByte (device.backbuffer + offset))
    invalidateRow device y width (x + 1)

/-- Its rows. -/
def invalidateRows (device : VesaPriv) (xStart width : Nat) : Nat → Nat → DevM Logged Unit
  | 0, _ => return ()
  | height + 1, y => do
    invalidateRow device y width xStart
    invalidateRows device xStart width height (y + 1)

/-- `vesa_invalidate(dev, x_start, y_start, width, height)` -/
def vesaInvalidate (device : VesaPriv) (xStart yStart width height : Nat) : DevM Logged Unit :=
  if device.bitsPerPixel = 8 then invalidateRows device xStart width height yStart
  else memblit device.framebuffer device.backbuffer device.width device.height
    device.bytesPerPixel xStart yStart width height

/-- The arguments of a call of `vesa_put_pixel`. -/
structure Put where
  x : Nat
  y : Nat
  colour : UInt32
  deriving DecidableEq, Repr

/-- A sequence of calls of `vesa_put_pixel`. -/
def putAll (device : VesaPriv) : List Put → DevM Logged Unit
  | [] => return ()
  | p :: puts => do
    vesaPutPixel device p.x p.y p.colour
    putAll device puts

/-! ## The offsets that are copied -/

/-- A rectangle of the screen. -/
structure Rect where
  x : Nat
  y : Nat
  width : Nat
  height : Nat
  deriving DecidableEq, Repr

/-- The rectangle has the pixel. -/
def Rect.Has (r : Rect) (x y : Nat) : Prop :=
  r.x ≤ x ∧ x < r.x + r.width ∧ r.y ≤ y ∧ y < r.y + r.height

instance (r : Rect) (x y : Nat) : Decidable (r.Has x y) :=
  inferInstanceAs (Decidable (_ ∧ _ ∧ _ ∧ _))

/-- The rectangle is inside the screen. -/
def Rect.Inside (r : Rect) (device : VesaPriv) : Prop :=
  r.x + r.width ≤ device.width ∧ r.y + r.height ≤ device.height

instance (r : Rect) (device : VesaPriv) : Decidable (r.Inside device) :=
  inferInstanceAs (Decidable (_ ∧ _))

namespace VesaPriv

/-- The framebuffer has room for the rows, apart from the back buffer. -/
structure Framed (device : VesaPriv) : Prop where
  fits : device.framebuffer + device.pitch * device.height ≤ 2 ^ 32
  apart : Region.Apart ⟨device.framebuffer, device.pitch * device.height⟩ device.back

/-- The offset that `vesa_invalidate` has for a pixel with 8 bits. -/
def byteOffset (device : VesaPriv) (x y : Nat) : Nat := x * device.pitch * y % 2 ^ 32

/-- The offset that `memblit` has for a pixel. -/
def blitOffset (device : VesaPriv) (x y : Nat) : Nat :=
  x * device.bytesPerPixel + y * (device.width * device.bytesPerPixel)

/-- The buffer as `memblit` has it. -/
def picture (device : VesaPriv) : Raster :=
  .packed device.width device.height device.bytesPerPixel

/-- The offsets that `vesa_invalidate` copies. -/
def Copied (device : VesaPriv) (r : Rect) (t : Nat) : Prop :=
  if device.bitsPerPixel = 8 then
    ∃ y, r.y ≤ y ∧ y < r.y + r.height ∧ ∃ x, r.x ≤ x ∧ x < r.x + r.width ∧
      t = device.byteOffset x y
  else
    ∃ y, r.y ≤ y ∧ y < r.y + r.height ∧ device.blitOffset r.x y ≤ t ∧
      t < device.blitOffset r.x y + r.width * device.bytesPerPixel

end VesaPriv

section Copying

variable {device : VesaPriv} {r : Rect} {x y n t : Nat}

theorem invalidateRow_blits (device : VesaPriv) (x y n : Nat) :
    Blits (invalidateRow device y n x) device.framebuffer device.backbuffer
      (fun t => ∃ k, x ≤ k ∧ k < x + n ∧ t = device.byteOffset k y) () :=
  Blits.rounds (invalidateRow device y) _ (fun _ => rfl) (fun _ _ => rfl) fun k _ _ =>
    Blits.byte device.framebuffer device.backbuffer (device.byteOffset k y)

theorem invalidateRows_blits (device : VesaPriv) (x y width n : Nat) :
    Blits (invalidateRows device x width n y) device.framebuffer device.backbuffer
      (fun t => ∃ k, y ≤ k ∧ k < y + n ∧ ∃ j, x ≤ j ∧ j < x + width ∧ t = device.byteOffset j k)
      () :=
  Blits.rounds (invalidateRows device x width) _ (fun _ => rfl) (fun _ _ => rfl) fun k _ _ =>
    invalidateRow_blits device x k width

theorem blitOffset_eq (device : VesaPriv) (x y : Nat) :
    device.blitOffset x y = device.picture.offset x y := by
  rw [VesaPriv.blitOffset, Nat.mul_comm y]
  rfl

theorem size_eq_picture (device : VesaPriv) : device.size = device.picture.size :=
  (Raster.size_packed _ _ _).symm

/-- The rectangle of the buffer. -/
def Rect.Inside.window (hr : r.Inside device) : device.picture.Window :=
  ⟨r.x, r.y, r.width, r.height, hr.1, hr.2⟩

/-- Its bytes are copied. -/
theorem copied_window_iff (hr : r.Inside device) (h8 : device.bitsPerPixel ≠ 8) :
    device.Copied r t ↔ hr.window.Bytes t := by
  rw [VesaPriv.Copied, if_neg h8]
  simp only [blitOffset_eq]
  rfl

/-- The two buffers, as far as `memblit` has them. -/
theorem movable (hready : device.Ready) (hframed : device.Framed) :
    Movable device.framebuffer device.backbuffer device.size := by
  have hsize := hready.size_le
  have hframe := hframed.fits
  have hapart := hframed.apart
  dsimp only [Region.Apart, VesaPriv.back] at hapart
  exact ⟨by omega, hready.fits, by omega⟩

theorem memblit_blits (hready : device.Ready) (hframed : device.Framed) (hr : r.Inside device) :
    Blits (memblit device.framebuffer device.backbuffer device.width device.height
        device.bytesPerPixel r.x r.y r.width r.height) device.framebuffer device.backbuffer
      hr.window.Bytes () := by
  refine memblitWith_blits memcpyFast_copies hr.window rfl ?_
  rw [← size_eq_picture]
  exact movable hready hframed

/-- What `vesa_invalidate` copies. -/
theorem vesaInvalidate_blits (hready : device.Ready) (hframed : device.Framed)
    (hr : r.Inside device) :
    Blits (vesaInvalidate device r.x r.y r.width r.height) device.framebuffer device.backbuffer
      (device.Copied r) () := by
  by_cases h8 : device.bitsPerPixel = 8
  · rw [vesaInvalidate, if_pos h8]
    refine (invalidateRows_blits device r.x r.y r.width r.height).congr fun t => ?_
    rw [VesaPriv.Copied, if_pos h8]
  · rw [vesaInvalidate, if_neg h8]
    exact (memblit_blits hready hframed hr).congr fun t => (copied_window_iff hr h8).symm

/-- The accesses to a pixel with 8 bits. -/
def byteAccesses (device : VesaPriv) (y x : Nat) : List Access :=
  [.read (device.backbuffer + device.byteOffset x y),
    .write (device.framebuffer + device.byteOffset x y)]

theorem invalidateRow_log (device : VesaPriv) (x y n : Nat) (w : Logged) :
    ∃ m', invalidateRow device y n x w =
      some ((), ⟨m', w.log ++ (List.range' x n).flatMap (byteAccesses device y)⟩) := by
  induction n generalizing x w with
  | zero => exact ⟨w.mem, by rw [List.range'_zero, List.flatMap_nil, List.append_nil]; rfl⟩
  | succ n ih =>
    have hround : invalidateRow device y (n + 1) x w = invalidateRow device y n (x + 1)
        ⟨w.mem.store8 (device.framebuffer + device.byteOffset x y)
          (w.mem.load8 (device.backbuffer + device.byteOffset x y)),
          w.log ++ byteAccesses device y x⟩ := by
      rw [byteAccesses, List.append_cons]
      rfl
    obtain ⟨m', hrun⟩ := ih (x + 1) ⟨_, _⟩
    refine ⟨m', ?_⟩
    rw [hround, hrun, List.range'_succ, List.flatMap_cons, ← List.append_assoc]

theorem invalidateRows_log (device : VesaPriv) (x y width n : Nat) (w : Logged) :
    ∃ m', invalidateRows device x width n y w =
      some ((), ⟨m', w.log ++ (List.range' y n).flatMap fun k =>
        (List.range' x width).flatMap (byteAccesses device k)⟩) := by
  induction n generalizing y w with
  | zero => exact ⟨w.mem, by rw [List.range'_zero, List.flatMap_nil, List.append_nil]; rfl⟩
  | succ n ih =>
    obtain ⟨m₁, hrow⟩ := invalidateRow_log device x y width w
    obtain ⟨m', hrun⟩ := ih (y + 1) ⟨m₁, _⟩
    refine ⟨m', ?_⟩
    rw [invalidateRows, bind_run hrow, hrun, List.range'_succ, List.flatMap_cons,
      ← List.append_assoc]

end Copying

/-! ## What was drawn -/

/-- The memory after the calls. -/
def putMem (device : VesaPriv) (puts : List Put) (m : Mem) : Mem :=
  puts.foldl (fun m p => m.store32 (device.backbuffer + device.offset p.x p.y) p.colour.toNat) m

/-- The calls are for pixels of the screen. -/
def OnScreen (device : VesaPriv) (puts : List Put) : Prop :=
  ∀ p ∈ puts, p.x < device.width ∧ p.y < device.height

instance (device : VesaPriv) (puts : List Put) : Decidable (OnScreen device puts) :=
  inferInstanceAs (Decidable (∀ p ∈ puts, _ ∧ _))

section Drawing

variable {device : VesaPriv} {puts : List Put} {m m' : Mem} {z : Nat}

theorem putAll_run (log : List Access) :
    putAll device puts ⟨m, log⟩ = some ((), ⟨putMem device puts m, log ++ puts.flatMap fun p =>
      (List.range' (device.backbuffer + device.offset p.x p.y) 4).map .write⟩) := by
  induction puts generalizing m log with
  | nil =>
    rw [List.flatMap_nil, List.append_nil]
    rfl
  | cons p puts ih =>
    rw [putAll, bind_run (vesaPutPixel_run log), ih, List.flatMap_cons, List.append_assoc]
    rfl

/-- A byte depends on no other one. -/
theorem putMem_congr (hz : m' z = m z) : putMem device puts m' z = putMem device puts m z := by
  induction puts generalizing m m' with
  | nil => exact hz
  | cons p puts ih =>
    refine ih ?_
    simp only [Mem.store32, Mem.store8, hz]

/-- The calls write to the buffer if each has room for a word. -/
theorem putAll_inside_iff (hready : device.Ready) (hputs : OnScreen device puts) :
    (∀ a, .write a ∈ (puts.flatMap fun p =>
      (List.range' (device.backbuffer + device.offset p.x p.y) 4).map Access.write) →
        device.back.Has (wrap a)) ↔ ∀ p ∈ puts, device.offset p.x p.y + 4 ≤ device.size := by
  simp only [List.mem_flatMap, List.mem_map, Access.write.injEq, exists_eq_right]
  constructor
  · intro hall p hp
    obtain ⟨hx, hy⟩ := hputs p hp
    exact (storedWord_inside_iff hready hx hy).mp fun a ha => hall a ⟨p, hp, ha⟩
  · rintro hroom a ⟨p, hp, ha⟩
    obtain ⟨hx, hy⟩ := hputs p hp
    exact (storedWord_inside_iff hready hx hy).mpr (hroom p hp) a ha

/-- Then nothing behind or in front of it changes. -/
theorem putMem_outside (hready : device.Ready)
    (hroom : ∀ p ∈ puts, device.offset p.x p.y + 4 ≤ device.size) (hz : ¬ device.back.Has z) :
    putMem device puts m z = m z := by
  induction puts generalizing m with
  | nil => rfl
  | cons p puts ih =>
    have hword := hroom p List.mem_cons_self
    have hfits := hready.fits
    have hout : z < device.backbuffer + device.offset p.x p.y ∨
        device.backbuffer + device.offset p.x p.y + 4 ≤ z := by
      by_contra hin
      exact hz (And.intro (show device.backbuffer ≤ z by omega)
        (show z < device.backbuffer + device.size by omega))
    exact (ih fun q hq => hroom q (List.mem_cons_of_mem p hq)).trans
      (m.store32_apply_of_disjoint _ (by omega) hout)

end Drawing

/-! ## What is shown -/

/-- After the calls a rectangle is shown: its pixels have the same bytes in the framebuffer and in
the back buffer, and of the latter nothing outside was accessed. -/
def RectShown (device : VesaPriv) (puts : List Put) (r : Rect) (m : Mem) : Prop :=
  ∃ m₁ log₁ m₂ log₂, putAll device puts ⟨m, []⟩ = some ((), ⟨m₁, log₁⟩) ∧
    vesaInvalidate device r.x r.y r.width r.height ⟨m₁, []⟩ = some ((), ⟨m₂, log₂⟩) ∧
    (∀ x y, r.Has x y → ∀ j < device.bytesPerPixel,
      m₂.load8 (device.framebuffer + (device.offset x y + j)) =
        m₂.load8 (device.backbuffer + (device.offset x y + j))) ∧
    (∀ a, .write a ∈ log₁ → device.back.Has (wrap a)) ∧
    ∀ a, .read a ∈ log₂ → device.back.Has (wrap a)

/-- What is copied is in the buffer, and all of the rectangle is copied.  With 8 bits for a
pixel that is a matter of the products; else the rows of the framebuffer have no gaps, or only
the first of them is shown. -/
def VesaPriv.Agrees (device : VesaPriv) (r : Rect) : Prop :=
  if device.bitsPerPixel = 8 then
    (∀ x y, r.Has x y → device.byteOffset x y < device.size) ∧
      ∀ x y, r.Has x y → ∃ x' y', r.Has x' y' ∧ device.byteOffset x' y' = device.offset x y
  else r.width = 0 ∨ r.height = 0 ∨ device.pitch = device.width * device.bytesPerPixel ∨
    r.y + r.height ≤ 1

/-- The offsets of the rectangle's bytes. -/
def Rect.Bytes (r : Rect) (device : VesaPriv) (t : Nat) : Prop :=
  ∃ x y j, r.Has x y ∧ j < device.bytesPerPixel ∧ t = device.offset x y + j

section Shown

variable {device : VesaPriv} {puts : List Put} {r : Rect} {x y s t : Nat}

theorem copied_byte_iff (h8 : device.bitsPerPixel = 8) :
    device.Copied r t ↔ ∃ x y, r.Has x y ∧ t = device.byteOffset x y := by
  rw [VesaPriv.Copied, if_pos h8]
  constructor
  · rintro ⟨y, hlow, hhigh, x, hleft, hright, ht⟩
    exact ⟨x, y, ⟨hleft, hright, hlow, hhigh⟩, ht⟩
  · rintro ⟨x, y, ⟨hleft, hright, hlow, hhigh⟩, ht⟩
    exact ⟨y, hlow, hhigh, x, hleft, hright, ht⟩

/-- With more bits the rectangle is copied if its rows are where `memblit` has them. -/
theorem bytes_copied_iff (hready : device.Ready) (hdepth : device.Depth)
    (hr : r.Inside device) (h8 : device.bitsPerPixel ≠ 8) :
    (∀ t, r.Bytes device t → device.Copied r t) ↔ device.Agrees r := by
  have hcell : 1 ≤ device.bytesPerPixel := by
    have hdepths := hready.bytes_cases hdepth
    omega
  rw [VesaPriv.Agrees, if_neg h8]
  constructor
  · intro hall
    by_contra hnot
    simp only [not_or] at hnot
    obtain ⟨hwidth, hheight, hgap, hrows⟩ := hnot
    -- the last byte of the rectangle is behind all that is copied
    have hcopied := hall
      (device.offset (r.x + (r.width - 1)) (r.y + r.height - 1) + (device.bytesPerPixel - 1))
      ⟨_, _, _, ⟨by omega, by omega, by omega, by omega⟩, by omega, rfl⟩
    rw [VesaPriv.Copied, if_neg h8] at hcopied
    obtain ⟨y', hlow, hhigh, -, hlt⟩ := hcopied
    have hmono : y' * (device.width * device.bytesPerPixel) ≤
        (r.y + r.height - 1) * (device.width * device.bytesPerPixel) :=
      Nat.mul_le_mul_right _ (by omega)
    have hpitch : (r.y + r.height - 1) * (device.width * device.bytesPerPixel + 1) ≤
        device.pitch * (r.y + r.height - 1) := by
      have hrow := hready.row
      rw [Nat.mul_comm]
      exact Nat.mul_le_mul_right _ (by omega)
    have hlast : (r.x + (r.width - 1)) * device.bytesPerPixel + device.bytesPerPixel =
        r.x * device.bytesPerPixel + r.width * device.bytesPerPixel := by
      rw [← Nat.succ_mul, ← Nat.add_mul]
      congr 1
      omega
    rw [Nat.mul_succ] at hpitch
    unfold VesaPriv.blitOffset VesaPriv.offset at hlt
    omega
  · rintro hagrees t ⟨x, y, j, ⟨hleft, hright, hlow, hhigh⟩, hj, rfl⟩
    have hoffset : device.offset x y = device.picture.offset x y := by
      rcases hagrees with h | h | h | h
      · omega
      · omega
      · rw [VesaPriv.offset, h]
        rfl
      · obtain rfl : y = 0 := by omega
        rfl
    rw [hoffset, copied_window_iff hr h8]
    exact (hr.window.bytes_offset_iff (Nat.lt_of_lt_of_le hright hr.1) hj).mpr
      ⟨hleft, hright, hlow, hhigh⟩

/-- What is copied is in the buffer, but for the products. -/
theorem copied_lt_size (hr : r.Inside device) (h8 : device.bitsPerPixel ≠ 8)
    (ht : device.Copied r t) : t < device.size := by
  rw [size_eq_picture]
  exact ((copied_window_iff hr h8).mp ht).lt_size

theorem agrees_iff (hready : device.Ready) (hdepth : device.Depth) (hr : r.Inside device) :
    device.Agrees r ↔ (∀ t, device.Copied r t → t < device.size) ∧
      ∀ t, r.Bytes device t → device.Copied r t := by
  by_cases h8 : device.bitsPerPixel = 8
  · have hcell : device.bytesPerPixel = 1 := by rw [hready.bytes, h8]
    simp only [copied_byte_iff h8, VesaPriv.Agrees, if_pos h8]
    refine and_congr ⟨?_, ?_⟩ ⟨?_, ?_⟩
    · rintro hall t ⟨x, y, hxy, rfl⟩
      exact hall x y hxy
    · exact fun hall x y hxy => hall _ ⟨x, y, hxy, rfl⟩
    · rintro hall t ⟨x, y, j, hxy, hj, rfl⟩
      obtain ⟨x', y', hxy', heq⟩ := hall x y hxy
      obtain rfl : j = 0 := by omega
      exact ⟨x', y', hxy', heq.symm⟩
    · intro hall x y hxy
      obtain ⟨x', y', hxy', heq⟩ := hall (device.offset x y) ⟨x, y, 0, hxy, by omega, rfl⟩
      exact ⟨x', y', hxy', heq.symm⟩
  · rw [← bytes_copied_iff hready hdepth hr h8]
    exact ⟨fun hall => ⟨fun t ht => copied_lt_size hr h8 ht, hall⟩, And.right⟩

/-- Each offset that is copied is inside if each byte that is read is. -/
theorem copied_inside_iff (hready : device.Ready) (hframed : device.Framed)
    (hr : r.Inside device) {m₁ m₂ : Mem} {log₂ : List Access}
    (hrun : vesaInvalidate device r.x r.y r.width r.height ⟨m₁, []⟩ = some ((), ⟨m₂, log₂⟩)) :
    (∀ a, .read a ∈ log₂ → device.back.Has (wrap a)) ↔
      ∀ t, device.Copied r t → t < device.size := by
  have hfits := hready.fits
  constructor
  · intro hreads t ht
    by_cases h8 : device.bitsPerPixel = 8
    · obtain ⟨x, y, ⟨hleft, hright, hlow, hhigh⟩, rfl⟩ := (copied_byte_iff h8).mp ht
      obtain ⟨m', hlog⟩ := invalidateRows_log device r.x r.y r.width r.height ⟨m₁, []⟩
      rw [vesaInvalidate, if_pos h8, hlog] at hrun
      cases hrun
      have hin := hreads (device.backbuffer + device.byteOffset x y) (by
        refine List.mem_append_right _
          (List.mem_flatMap.mpr ⟨y, ?_, List.mem_flatMap.mpr ⟨x, ?_, ?_⟩⟩)
        · exact List.mem_range'_1.mpr ⟨hlow, hhigh⟩
        · exact List.mem_range'_1.mpr ⟨hleft, hright⟩
        · exact List.mem_cons_self)
      have hlt : device.byteOffset x y < 2 ^ 32 := Nat.mod_lt _ (by decide)
      dsimp only [VesaPriv.back, Region.Has, wrap] at hin
      omega
    · exact copied_lt_size hr h8 ht
  · intro hall a ha
    obtain ⟨m', new, hrun', hnew, -⟩ := vesaInvalidate_blits hready hframed hr ⟨m₁, []⟩
    rw [hrun'] at hrun
    cases hrun
    obtain ⟨t, ht, hacc | hacc⟩ := hnew _ ha
    · cases hacc
      have hlt := hall t ht
      rw [wrap_eq (by omega)]
      exact And.intro (Nat.le_add_right _ _) (Nat.add_lt_add_left hlt _)
    · cases hacc

theorem Rect.Bytes.lt_rows (hready : device.Ready) (hr : r.Inside device)
    (ht : r.Bytes device t) : t < device.pitch * device.height := by
  obtain ⟨x, y, j, ⟨-, hright, -, hhigh⟩, hj, rfl⟩ := ht
  have hcell := hready.offset_le_rows (x := x) (y := y) (Nat.lt_of_lt_of_le hright hr.1)
    (Nat.lt_of_lt_of_le hhigh hr.2)
  omega

theorem Rect.Bytes.size_pos (hr : r.Inside device) (ht : r.Bytes device t) : 0 < device.size := by
  obtain ⟨x, y, j, ⟨-, hright, -, hhigh⟩, hj, -⟩ := ht
  obtain ⟨hwidth, hheight⟩ := hr
  exact Nat.mul_pos (Nat.mul_pos (by omega) (by omega)) (Nat.zero_lt_of_lt hj)

/-- The framebuffer has no byte of the back buffer. -/
theorem framed_ne (hframed : device.Framed) (hs : s < device.pitch * device.height)
    (ht : t < device.size) : device.framebuffer + s ≠ device.backbuffer + t := by
  have hapart := hframed.apart
  dsimp only [Region.Apart, VesaPriv.back] at hapart
  omega

theorem offsetsApart (hready : device.Ready) (hframed : device.Framed)
    (hin : ∀ t, device.Copied r t → t < device.size) :
    OffsetsApart device.framebuffer device.backbuffer (device.Copied r) :=
  (movable hready hframed).offsetsApart hin

/-- What is copied is shown. -/
theorem shown_of_copied (hready : device.Ready) (hframed : device.Framed)
    (hin : ∀ t, device.Copied r t → t < device.size) {m m' : Mem}
    (hblit : Blitted device.framebuffer device.backbuffer (device.Copied r) m m')
    (ht : device.Copied r t) :
    m'.load8 (device.framebuffer + t) = m'.load8 (device.backbuffer + t) := by
  have hapart := offsetsApart hready hframed hin
  exact (hblit.copies hapart t ht).trans (hblit.keeps _ fun t' ht' => hapart t t' ht ht').symm

/-- Otherwise a byte of the back buffer is one that was elsewhere than in the framebuffer at the
same offset. -/
theorem exists_source (hready : device.Ready) (hframed : device.Framed) (hr : r.Inside device)
    (hin : ∀ t, device.Copied r t → t < device.size) (hs : r.Bytes device s) :
    ∃ z, z ≠ device.framebuffer + s ∧ ∀ m m' : Mem,
      Blitted device.framebuffer device.backbuffer (device.Copied r) m m' →
        m'.load8 (device.backbuffer + s) = m z := by
  have hfits := hready.fits
  have hframe := hframed.fits
  have hrows := hs.lt_rows hready hr
  by_cases hover : ∃ t, device.Copied r t ∧
      wrap (device.backbuffer + s) = wrap (device.framebuffer + t)
  · obtain ⟨t, ht, hsame⟩ := hover
    refine ⟨device.backbuffer + t, (framed_ne hframed hrows (hin t ht)).symm, fun m m' hblit => ?_⟩
    have hlt := hin t ht
    rw [Mem.load8, hsame, hblit.copies (offsetsApart hready hframed hin) t ht, wrap_eq (by omega)]
  · refine ⟨wrap (device.backbuffer + s), fun hsame => ?_, fun m m' hblit => ?_⟩
    · have hpos := hs.size_pos hr
      have hne := framed_ne hframed (Nat.zero_lt_of_lt hrows) hpos
      unfold wrap at hsame
      omega
    · exact hblit.keeps _ fun t ht hsame => hover ⟨t, ht, hsame⟩

/-- If a rectangle is shown whatever was in memory, all of it is copied: else there is a byte in
the framebuffer that stays, and it may have been another one. -/
theorem copied_of_rectShown (hready : device.Ready) (hframed : device.Framed)
    (hr : r.Inside device) (hroom : ∀ p ∈ puts, device.offset p.x p.y + 4 ≤ device.size)
    (hin : ∀ t, device.Copied r t → t < device.size) (hall : ∀ m, RectShown device puts r m)
    (hs : r.Bytes device s) : device.Copied r s := by
  have hframe := hframed.fits
  have hsize := hready.size_le
  have hrows := hs.lt_rows hready hr
  obtain ⟨z, hz, hsource⟩ := exists_source hready hframed hr hin hs
  by_contra hstays
  obtain ⟨c, hc⟩ : ∃ c, c ≠ putMem device puts (fun _ => 0) z := by
    by_cases h0 : putMem device puts (fun _ => 0) z = 0
    · exact ⟨1, by rw [h0]; decide⟩
    · exact ⟨0, Ne.symm h0⟩
  obtain ⟨m₁, log₁, m₂, log₂, hput, hrun, hsame, -, -⟩ :=
    hall fun y => if y = device.framebuffer + s then c else 0
  rw [putAll_run] at hput
  cases hput
  obtain ⟨m', new, hrun', -, hblit⟩ := vesaInvalidate_blits hready hframed hr ⟨_, []⟩
  rw [hrun'] at hrun
  cases hrun
  dsimp only at hblit
  have hout : ¬ device.back.Has (device.framebuffer + s) := fun ⟨hlow, hhigh⟩ => by
    dsimp only [VesaPriv.back] at hlow hhigh
    exact framed_ne hframed hrows (t := device.framebuffer + s - device.backbuffer) (by omega)
      (by omega)
  have hleft : m₂.load8 (device.framebuffer + s) = c := by
    rw [Mem.load8_eq _ (by omega), hblit.keeps, putMem_outside hready hroom hout, if_pos rfl]
    intro t ht hsame
    have hlt := hin t ht
    rw [wrap_eq (by omega)] at hsame
    exact hstays (Nat.add_left_cancel hsame ▸ ht)
  have hright : m₂.load8 (device.backbuffer + s) = putMem device puts (fun _ => 0) z :=
    (hsource _ _ hblit).trans (putMem_congr (if_neg hz))
  obtain ⟨x, y, j, hxy, hj, rfl⟩ := hs
  exact hc (hleft.symm.trans ((hsame x y hxy j hj).trans hright))

end Shown

/-- The rectangle is shown, whatever was in memory, iff each of the calls has room for a word
and the formulas for the offsets agree on the rectangle. -/
theorem rectShown_iff (device : VesaPriv) (hready : device.Ready) (hdepth : device.Depth)
    (hframed : device.Framed) (r : Rect) (hr : r.Inside device) (puts : List Put)
    (hputs : OnScreen device puts) :
    (∀ m, RectShown device puts r m) ↔
      (∀ p ∈ puts, device.offset p.x p.y + 4 ≤ device.size) ∧ device.Agrees r := by
  rw [agrees_iff hready hdepth hr, ← putAll_inside_iff hready hputs]
  constructor
  · intro hall
    obtain ⟨m₁, log₁, m₂, log₂, hput, hrun, -, hwrites, hreads⟩ := hall fun _ => 0
    rw [putAll_run] at hput
    cases hput
    have hin := (copied_inside_iff hready hframed hr hrun).mp hreads
    have hroom := (putAll_inside_iff hready hputs).mp hwrites
    exact ⟨hwrites, hin, fun t ht => copied_of_rectShown hready hframed hr hroom hin hall ht⟩
  · rintro ⟨hwrites, hin, hcovers⟩ m
    obtain ⟨m', new, hrun, -, hblit⟩ :=
      vesaInvalidate_blits hready hframed hr ⟨putMem device puts m, []⟩
    refine ⟨_, _, m', _, putAll_run [], hrun, fun x y hxy j hj => ?_, hwrites, ?_⟩
    · exact shown_of_copied hready hframed hin hblit (hcovers _ ⟨x, y, j, hxy, hj, rfl⟩)
    · exact (copied_inside_iff hready hframed hr hrun).mpr hin

/-- The mode that the driver sets when it is probed. -/
def trueColour : VesaPriv := ⟨800, 600, 32, 4, 3200, 0xfd000000, 0x200000⟩

/-- A window with a pixel in it, and one pixel outside. -/
theorem rectShown_trueColour :
    trueColour.Ready ∧
    ∀ m, RectShown trueColour [⟨100, 40, 0xff8000⟩, ⟨799, 599, 0xff⟩] ⟨64, 32, 320, 200⟩ m := by
  have hready : trueColour.Ready := ⟨rfl, by decide, by decide, by decide, by decide⟩
  exact ⟨hready, (rectShown_iff trueColour hready (.inr (.inr (.inr rfl))) ⟨by decide, by decide⟩
    ⟨64, 32, 320, 200⟩ (by decide) _ (by decide)).mpr ⟨by decide, .inr (.inr (.inl rfl))⟩⟩

/-- A mode with a palette. -/
def palette : VesaPriv := ⟨320, 200, 8, 1, 320, 0xfd000000, 0x200000⟩

/-- One pixel is drawn and invalidated, and another byte is copied. -/
theorem rectShown_palette : palette.Ready ∧ palette.Depth ∧ palette.Framed ∧
    Rect.Inside ⟨5, 3, 1, 1⟩ palette ∧ OnScreen palette [⟨5, 3, 7⟩] ∧
    ¬ RectShown palette [⟨5, 3, 7⟩] ⟨5, 3, 1, 1⟩ fun _ => 0 := by
  refine ⟨⟨rfl, by decide, by decide, by decide, by decide⟩, .inl rfl, ⟨by decide, by decide⟩,
    by decide, by decide, ?_⟩
  rintro ⟨m₁, log₁, m₂, log₂, hput, hrun, hsame, -, -⟩
  rw [putAll_run] at hput
  cases hput
  cases hrun
  have hbyte := hsame 5 3 (by decide) 0 (by decide)
  revert hbyte
  decide +kernel

end Microboot.Kern.Io
