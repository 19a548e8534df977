/-
  Kern/Io/Vesa.lean --- the VESA framebuffer, kern/io/vesa.c: modes and pixels.

  A mode is set from what the BIOS says about it.  The driver keeps a copy of the
  screen, the back buffer, of `width * height` pixels; a pixel is addressed by rows of
  `pitch` bytes, and always read and written as a word of four bytes, whatever the depth
  of the mode.

  In a mode with fewer bytes for a pixel a store goes on into the pixels behind it, and
  behind the last pixels out of the buffer.
-/
import Microboot.Foundation.Raster
import Microboot.Kern.Realloc

set_option autoImplicit false

namespace Microboot.Kern.Io

open Microboot.Foundation

/-! ## The model -/

/-- What is used of `struct vbe_mode_info_block`. -/
structure ModeInfo where
  modeAttrs : UInt16
  xRes : UInt16
  yRes : UInt16
  bitsPerPixel : UInt8
  memoryModel : UInt8
  physBasePtr : UInt32
  linPitch : UInt16
  deriving DecidableEq, Repr

/-- `struct vesa_priv` -/
structure VesaPriv where
  width : Nat
  height : Nat
  bitsPerPixel : Nat
  bytesPerPixel : Nat
  pitch : Nat
  framebuffer : Nat
  backbuffer : Nat
  deriving DecidableEq, Repr

/-- `if (device->backbuffer) kfree(device->backbuffer);` -/
def freeBackbuffer (device : VesaPriv) (a : Allocator) : Except Fault Allocator :=
  if device.backbuffer ≠ 0 then kfree a device.backbuffer else .ok a

/-- `vesa_set_res`, behind the call that sets the mode. -/
def vesaApplyMode (device : VesaPriv) (info : ModeInfo) (a : Allocator) :
    Except Fault (Allocator × VesaPriv) := do
  let a ← freeBackbuffer device a
  let bytesPerPixel := info.bitsPerPixel.toNat / 8
  let size := info.xRes.toNat * info.yRes.toNat * bytesPerPixel % 2 ^ 32
  let (a, backbuffer) ← kallocz a size
  return (a,
    { width := info.xRes.toNat
      height := info.yRes.toNat
      bitsPerPixel := info.bitsPerPixel.toNat
      bytesPerPixel := bytesPerPixel
      pitch := info.linPitch.toNat
      framebuffer := info.physBasePtr.toNat
      backbuffer := backbuffer })

/-- Where the pixel is in the back buffer. -/
def VesaPriv.offset (device : VesaPriv) (x y : Nat) : Nat :=
  x * device.bytesPerPixel + device.pitch * y

/-- A byte of a colour, the least significant first. -/
def colourByte (colour : UInt32) (k : Nat) : UInt8 := UInt8.ofNat (colour.toNat / 256 ^ k)

/-- The bytes of a colour, as they are in memory. -/
def colourBytes (colour : UInt32) : List UInt8 :=
  [colourByte colour 0, colourByte colour 1, colourByte colour 2, colourByte colour 3]

/-- `vesa_put_pixel(dev, x, y, colour)` -/
def vesaPutPixel (device : VesaPriv) (x y : Nat) (colour : UInt32) : DevM Logged Unit :=
  writeBytes (device.backbuffer + device.offset x y) (colourBytes colour)

/-- `vesa_get_pixel(dev, x, y)` -/
def vesaGetPixel (device : VesaPriv) (m : Mem) (x y : Nat) : Nat :=
  m.load32 (device.backbuffer + device.offset x y)

/-! ## The mode -/

namespace VesaPriv

variable {device : VesaPriv}

/-- The size of the back buffer. -/
def size (device : VesaPriv) : Nat := device.width * device.height * device.bytesPerPixel

/-- The back buffer. -/
def back (device : VesaPriv) : Region := ⟨device.backbuffer, device.size⟩

/-- A depth that the driver knows. -/
def Depth (device : VesaPriv) : Prop :=
  device.bitsPerPixel = 8 ∨ device.bitsPerPixel = 16 ∨ device.bitsPerPixel = 24 ∨
    device.bitsPerPixel = 32

/-- A device whose mode was set: rows have room for their pixels, and the back buffer is
in the address space. -/
structure Ready (device : VesaPriv) : Prop where
  bytes : device.bytesPerPixel = device.bitsPerPixel / 8
  height_lt : device.height < 2 ^ 16
  pitch_lt : device.pitch < 2 ^ 16
  row : device.width * device.bytesPerPixel ≤ device.pitch
  fits : device.backbuffer + device.size ≤ 2 ^ 32

theorem Ready.bytes_cases (hready : device.Ready) (hdepth : device.Depth) :
    device.bytesPerPixel = 1 ∨ device.bytesPerPixel = 2 ∨ device.bytesPerPixel = 3 ∨
      device.bytesPerPixel = 4 := by
  have hbytes := hready.bytes
  unfold Depth at hdepth
  omega

theorem Ready.bits (hready : device.Ready) (hdepth : device.Depth) :
    device.bitsPerPixel = 8 * device.bytesPerPixel := by
  have hbytes := hready.bytes
  unfold Depth at hdepth
  omega

/-- A size has no more bytes than the rows. -/
theorem Ready.size_le (hready : device.Ready) : device.size ≤ device.pitch * device.height := by
  rw [size, Nat.mul_right_comm]
  exact Nat.mul_le_mul_right _ hready.row

/-- The rows end far enough in front of the end of the address space. -/
theorem Ready.rows_le (hready : device.Ready) : device.pitch * device.height ≤ 65535 * 65535 :=
  Nat.mul_le_mul (Nat.le_pred_of_lt hready.pitch_lt) (Nat.le_pred_of_lt hready.height_lt)

variable {x y x' y' : Nat}

/-- The rows of a device that is ready. -/
def Ready.rows (hready : device.Ready) : Raster where
  width := device.width
  height := device.height
  elsize := device.bytesPerPixel
  stride := device.pitch
  row_le := hready.row

/-- The bytes of a pixel are in its row. -/
theorem Ready.offset_le (hready : device.Ready) (hx : x < device.width) :
    device.offset x y + device.bytesPerPixel ≤ device.pitch * (y + 1) :=
  hready.rows.element_le hx

theorem Ready.offset_le_rows (hready : device.Ready) (hx : x < device.width)
    (hy : y < device.height) :
    device.offset x y + device.bytesPerPixel ≤ device.pitch * device.height :=
  hready.rows.element_le_size hx hy

/-- Two pixels have no byte in common. -/
theorem Ready.offset_apart (hready : device.Ready) (hx : x < device.width)
    (hx' : x' < device.width) (hne : (x', y') ≠ (x, y)) :
    device.offset x' y' + device.bytesPerPixel ≤ device.offset x y ∨
      device.offset x y + device.bytesPerPixel ≤ device.offset x' y' :=
  hready.rows.offset_apart hx hx' hne

theorem size_of_pitch (hpitch : device.pitch = device.width * device.bytesPerPixel) :
    device.size = device.pitch * device.height := by
  rw [size, Nat.mul_right_comm, ← hpitch]

/-- Without a gap between the rows the pixels are in the buffer. -/
theorem Ready.pixel_inside (hready : device.Ready)
    (hpitch : device.pitch = device.width * device.bytesPerPixel) (hx : x < device.width)
    (hy : y < device.height) : device.offset x y + device.bytesPerPixel ≤ device.size := by
  rw [size_of_pitch hpitch]
  exact hready.offset_le_rows hx hy

/-- Without a gap between the rows each byte of the buffer belongs to a pixel. -/
theorem exists_pixel (hpitch : device.pitch = device.width * device.bytesPerPixel) {t : Nat}
    (ht : t < device.size) :
    ∃ x y, x < device.width ∧ y < device.height ∧ device.offset x y ≤ t ∧
      t < device.offset x y + device.bytesPerPixel := by
  rw [size_of_pitch hpitch] at ht
  exact Raster.exists_element
    ⟨device.width, device.height, device.bytesPerPixel, device.pitch, hpitch.ge⟩ hpitch ht

end VesaPriv

/-- Setting a mode whose rows have room for their pixels makes the device ready. -/
theorem vesaApplyMode_ready {limit : Nat} {a a' : Allocator} {live : List Nat}
    {blocks : List Extent} {device device' : VesaPriv} {info : ModeInfo}
    (h : Blocks limit a live blocks)
    (hold : device.backbuffer = 0 ∨ device.backbuffer ∈ live)
    (hpitch : info.xRes.toNat * (info.bitsPerPixel.toNat / 8) ≤ info.linPitch.toNat)
    (hpixels : 0 < info.xRes.toNat * info.yRes.toNat * (info.bitsPerPixel.toNat / 8))
    (hroom : limit + blockRoom (info.xRes.toNat * info.yRes.toNat *
      (info.bitsPerPixel.toNat / 8)) ≤ 2 ^ 32)
    (hok : vesaApplyMode device info a = .ok (a', device')) :
    device'.Ready ∧ device'.framebuffer = info.physBasePtr.toNat ∧
      ∃ b live' blocks', Blocks (limit + blockRoom device'.size) a' live' blocks' ∧ b ∈ blocks' ∧
        device'.backbuffer = b.pos + memBlockSize ∧ device'.size ≤ b.size := by
  generalize hsize : info.xRes.toNat * info.yRes.toNat * (info.bitsPerPixel.toNat / 8) = size
    at hpixels hroom
  have hbound : size ≤ 2 ^ 32 - 64 := by
    unfold blockRoom alignment memBlockSize at hroom
    omega
  unfold vesaApplyMode at hok
  -- the allocator without the old buffer
  obtain ⟨a₁, hfree, hok⟩ := bind_eq_ok hok
  have hfreed : ∃ live₁ blocks₁, Blocks limit a₁ live₁ blocks₁ := by
    unfold freeBackbuffer at hfree
    split at hfree
    next hne =>
      obtain ⟨-, blocks₁, hblocks₁, -⟩ := kfree_blocks h (hold.resolve_left hne) hfree
      exact ⟨_, _, hblocks₁⟩
    next =>
      cases hfree
      exact ⟨_, _, h⟩
  obtain ⟨live₁, blocks₁, hblocks₁⟩ := hfreed
  obtain ⟨⟨a₂, p⟩, halloc, hok⟩ := bind_eq_ok hok
  rw [hsize, Nat.mod_eq_of_lt (by omega)] at halloc
  cases hok
  have hlarger := hblocks₁.mono (Nat.le_add_right limit (blockRoom size)) hroom
  obtain ⟨-, blocks₂, hblocks₂, howns⟩ :=
    kallocz_blocks hlarger hbound (hblocks₁.appendFits size) halloc
  have hnull : p ≠ 0 := by
    obtain ⟨a₃, hkalloc, -⟩ := kallocz_eq_ok halloc
    rcases (kalloc_blocks hlarger (by omega) (hblocks₁.appendFits size) hkalloc).2 with
      ⟨h0, -, -⟩ | ⟨-, _, hnew, -⟩
    · exact absurd h0 (alignedSize_ne_zero hpixels hbound)
    · exact hnew.live_ne_zero List.mem_cons_self
  obtain ⟨b, hb, rfl, hbig⟩ := howns hnull
  have hfits := hblocks₂.payload_fits hb
  have hdevice : info.xRes.toNat * info.yRes.toNat * (info.bitsPerPixel.toNat / 8) ≤ b.size :=
    hsize.trans_le hbig
  refine ⟨⟨rfl, info.yRes.toNat_lt, info.linPitch.toNat_lt, hpitch, ?_⟩, rfl,
    b, liveAfter live₁ (b.pos + memBlockSize), blocks₂, ?_, hb, rfl, hdevice⟩
  · show b.pos + memBlockSize + info.xRes.toNat * info.yRes.toNat *
      (info.bitsPerPixel.toNat / 8) ≤ 2 ^ 32
    omega
  · rw [VesaPriv.size]
    dsimp only
    rw [hsize]
    exact hblocks₂

/-! ## A pixel in memory -/

section Pixel

variable {device : VesaPriv} {m : Mem} {x y x' y' a k : Nat} {colour : UInt32}

theorem storeBytes_colourBytes :
    m.storeBytes a (colourBytes colour) = m.store32 a colour.toNat := by
  simp only [colourBytes, colourByte, Mem.storeBytes, Mem.store32, Nat.pow_zero, Nat.div_one]
  rfl

theorem vesaPutPixel_run (log : List Access) :
    vesaPutPixel device x y colour ⟨m, log⟩ =
      some ((), ⟨m.store32 (device.backbuffer + device.offset x y) colour.toNat,
        log ++ (List.range' (device.backbuffer + device.offset x y) 4).map .write⟩) := by
  rw [← storeBytes_colourBytes]
  exact writeBytes_run _

/-- The bytes of the stored word. -/
theorem load8_colour (ha : a + 4 ≤ 2 ^ 32) (hk : k < 4) :
    (m.store32 a colour.toNat).load8 (a + k) = colourByte colour k := by
  rw [← storeBytes_colourBytes]
  have hwrap : ∀ j < 4, wrap (a + j) = a + j := fun j hj => wrap_eq (by omega)
  have h0 : wrap a = a := hwrap 0 (by omega)
  obtain rfl | rfl | rfl | rfl : k = 0 ∨ k = 1 ∨ k = 2 ∨ k = 3 := by omega
  all_goals
    simp [colourBytes, Mem.storeBytes, Mem.load8, Mem.store8, hwrap, h0, Nat.add_assoc]

/-- The other bytes. -/
theorem load8_store32_of_not_mem {b v : Nat} (ha : a + 4 ≤ 2 ^ 32) (hb : b < 2 ^ 32)
    (hout : b < a ∨ a + 4 ≤ b) : (m.store32 a v).load8 b = m.load8 b := by
  rw [Mem.load8_eq _ hb, Mem.load8_eq _ hb]
  exact m.store32_apply_of_disjoint v ha hout

/-- All of a stored word is in the buffer if its end is.  What goes on at address 0 is in
front of the buffer. -/
theorem storedWord_inside_iff (hready : device.Ready) (hx : x < device.width)
    (hy : y < device.height) :
    (∀ a ∈ List.range' (device.backbuffer + device.offset x y) 4, device.back.Has (wrap a)) ↔
      device.offset x y + 4 ≤ device.size := by
  have hfits := hready.fits
  have hrows := hready.rows_le
  have hcell := hready.offset_le_rows hx hy
  constructor
  · intro hall
    have hlast := hall (device.backbuffer + device.offset x y + 3)
      (List.mem_range'_1.mpr ⟨by omega, by omega⟩)
    dsimp only [VesaPriv.back, Region.Has, wrap] at hlast
    omega
  · intro hend a ha
    obtain ⟨hlow, hhigh⟩ := List.mem_range'_1.mp ha
    rw [wrap_eq (by omega)]
    exact And.intro (show device.backbuffer ≤ a by omega)
      (show a < device.backbuffer + device.size by omega)

/-- The depths of the other pixels are kept if the bytes behind the pixel are. -/
theorem pixels_kept_iff (hready : device.Ready) (hdepth : device.Depth)
    (hpitch : device.pitch = device.width * device.bytesPerPixel) (hx : x < device.width)
    (hend : device.offset x y + 4 ≤ device.size) (m : Mem) (colour : UInt32) {m' : Mem}
    (hm' : m' = m.store32 (device.backbuffer + device.offset x y) colour.toNat) :
    (∀ x' y', x' < device.width → y' < device.height → (x', y') ≠ (x, y) →
      vesaGetPixel device m' x' y' % 2 ^ device.bitsPerPixel =
        vesaGetPixel device m x' y' % 2 ^ device.bitsPerPixel) ↔
      ∀ k, device.bytesPerPixel ≤ k → k < 4 →
        m.load8 (device.backbuffer + device.offset x y + k) = colourByte colour k := by
  have hfits := hready.fits
  have hdepths := hready.bytes_cases hdepth
  have hstored : ∀ k < 4, m'.load8 (device.backbuffer + device.offset x y + k) =
      colourByte colour k := by
    intro k hk
    rw [hm']
    exact load8_colour (by omega) hk
  rw [hready.bits hdepth]
  constructor
  · intro hkept k hk hlt
    obtain ⟨x', y', hx', hy', hlow, hhigh⟩ :=
      VesaPriv.exists_pixel hpitch (t := device.offset x y + k) (by omega)
    have hne : (x', y') ≠ (x, y) := by
      rintro ⟨⟩
      omega
    have hbyte := (Mem.load32_mod_eq_iff hdepths).mp (hkept x' y' hx' hy' hne)
      (device.offset x y + k - device.offset x' y') (by omega)
    rw [Nat.add_assoc, Nat.add_sub_cancel' hlow, ← Nat.add_assoc, hstored k hlt] at hbyte
    exact hbyte.symm
  · intro hsame x' y' hx' hy' hne
    have hcell := hready.pixel_inside hpitch hx' hy'
    have happart := hready.offset_apart (y := y) hx hx' hne
    refine (Mem.load32_mod_eq_iff hdepths).mpr fun j hj => ?_
    -- a byte of the other pixel is behind this pixel in the word, or not in the word
    by_cases hword : device.offset x y ≤ device.offset x' y' + j ∧
        device.offset x' y' + j < device.offset x y + 4
    · obtain ⟨k, hk⟩ := Nat.exists_eq_add_of_le hword.1
      rw [Nat.add_assoc, hk, ← Nat.add_assoc, hstored k (by omega)]
      exact (hsame k (by omega) (by omega)).symm
    · rw [hm']
      exact load8_store32_of_not_mem (by omega) (by omega) (by omega)

end Pixel

/-! ## Storing a pixel -/

/-- A pixel was stored: it has the colour as far as the depth goes, the other pixels are as
they were, and nothing outside the buffer was written. -/
def PixelStored (device : VesaPriv) (m : Mem) (x y : Nat) (colour : UInt32) : Prop :=
  ∃ m' log, vesaPutPixel device x y colour ⟨m, []⟩ = some ((), ⟨m', log⟩) ∧
    vesaGetPixel device m' x y % 2 ^ device.bitsPerPixel =
      colour.toNat % 2 ^ device.bitsPerPixel ∧
    (∀ x' y', x' < device.width → y' < device.height → (x', y') ≠ (x, y) →
      vesaGetPixel device m' x' y' % 2 ^ device.bitsPerPixel =
        vesaGetPixel device m x' y' % 2 ^ device.bitsPerPixel) ∧
    ∀ a, .write a ∈ log → device.back.Has (wrap a)

/-- A store has four bytes: it stores the pixel and no more if they are in the buffer and
those behind the pixel have the colour's bytes already. -/
theorem pixelStored_iff (device : VesaPriv) (hready : device.Ready) (hdepth : device.Depth)
    (hpitch : device.pitch = device.width * device.bytesPerPixel) (m : Mem) (x y : Nat)
    (hx : x < device.width) (hy : y < device.height) (colour : UInt32) :
    PixelStored device m x y colour ↔
      device.offset x y + 4 ≤ device.size ∧
        ∀ k, device.bytesPerPixel ≤ k → k < 4 →
          m.load8 (device.backbuffer + device.offset x y + k) = colourByte colour k := by
  have hinside := storedWord_inside_iff hready hx hy
  have hwrites : (∀ a, .write a ∈ (List.range' (device.backbuffer + device.offset x y) 4).map
      Access.write → device.back.Has (wrap a)) ↔ device.offset x y + 4 ≤ device.size := by
    rw [← hinside]
    simp
  have hkept : device.offset x y + 4 ≤ device.size → _ :=
    fun hend => pixels_kept_iff hready hdepth hpitch hx hend m colour rfl
  constructor
  · rintro ⟨m', log, hrun, -, hothers, hlog⟩
    rw [vesaPutPixel_run, List.nil_append] at hrun
    cases hrun
    have hend := hwrites.mp hlog
    exact ⟨hend, (hkept hend).mp hothers⟩
  · rintro ⟨hend, hsame⟩
    refine ⟨_, _, vesaPutPixel_run [], ?_, (hkept hend).mpr hsame, hwrites.mpr hend⟩
    rw [vesaGetPixel, Mem.load32_store32_same m colour.toNat_lt]

/-- A mode with 16 bits for a pixel. -/
def highColour : VesaPriv := ⟨800, 600, 16, 2, 1600, 0xfd000000, 0x200000⟩

theorem highColour_ready : highColour.Ready :=
  ⟨rfl, by decide, by decide, by decide, by decide⟩

/-- A colour of 16 bits on a black screen. -/
theorem pixelStored_black : PixelStored highColour (fun _ => 0) 3 2 0xf800 :=
  (pixelStored_iff highColour highColour_ready (.inr (.inl rfl)) rfl (fun _ => 0) 3 2 (by decide)
    (by decide) 0xf800).mpr ⟨by decide, by decide⟩

/-- On a white screen the pixel behind it becomes black. -/
theorem pixelStored_white : highColour.Ready ∧ highColour.Depth ∧
    highColour.pitch = highColour.width * highColour.bytesPerPixel ∧
    ¬ PixelStored highColour (fun _ => 0xff) 3 2 0xf800 := by
  refine ⟨highColour_ready, .inr (.inl rfl), rfl, ?_⟩
  rintro ⟨m', log, hrun, -, hothers, -⟩
  rw [vesaPutPixel_run] at hrun
  cases hrun
  have hnext := hothers 4 2 (by decide) (by decide) (by decide)
  revert hnext
  decide +kernel

end Microboot.Kern.Io
