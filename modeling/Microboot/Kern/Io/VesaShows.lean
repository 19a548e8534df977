/-
  Kern/Io/VesaShows.lean --- a framebuffer device in memory.

  `FbDev` has a screen of pixels; the driver has two buffers of bytes.  With 32 bits for a
  pixel and rows without gaps each pixel is a word of its own in both, and every call that
  stays on the screen does in memory what it does to the pixels.  Which calls were made
  does not depend on what is in memory, so that the buffers are what the calls make of
  them, one after the other.
-/
import Microboot.Kern.Io.Framebuffer
import Microboot.Kern.Io.VesaBlit

set_option autoImplicit false

namespace Microboot.Kern.Io

open Microboot.Foundation

/-! ## The model -/

/-- The loop of `vesa_shift`. -/
def shiftRows (device : VesaPriv) (yshift : Nat) : Nat → Nat → DevM Logged Unit
  | 0, _ => return ()
  | height + 1, y => do
    memcpyFast (device.backbuffer + device.pitch * y)
      (device.backbuffer + device.pitch * (y + yshift)) (UInt32.ofNat device.pitch)
    shiftRows device yshift height (y + 1)

/-- `vesa_shift(dev, yshift)` -/
def vesaShift (device : VesaPriv) (yshift : Nat) : DevM Logged Unit :=
  shiftRows device yshift (device.height - yshift) 0

/-- A call on the driver's device; no argument is below zero. -/
def vesaCall (device : VesaPriv) : FbCall → DevM Logged Unit
  | .putPixel x y colour => vesaPutPixel device x.toNat y.toNat colour
  | .invalidate x y width height =>
    vesaInvalidate device x.toNat y.toNat width.toNat height.toNat
  | .shift yshift => vesaShift device yshift.toNat

/-- Calls, the latest first. -/
def vesaCalls (device : VesaPriv) : List FbCall → DevM Logged Unit
  | [] => return ()
  | call :: calls => do
    vesaCalls device calls
    vesaCall device call

/-- The pixel in a buffer. -/
def VesaPriv.pixel (device : VesaPriv) (m : Mem) (buffer x y : Nat) : UInt32 :=
  UInt32.ofNat (m.load32 (buffer + device.offset x y))

/-- The device as it is in memory. -/
def fbOf (device : VesaPriv) (m : Mem) : FbDev where
  width := device.width
  height := device.height
  back x y := device.pixel m device.backbuffer x.toNat y.toNat
  front x y := device.pixel m device.framebuffer x.toNat y.toNat
  stray := []

/-- A 32-bit mode whose rows have no gaps. -/
structure VesaPriv.TrueColour (device : VesaPriv) : Prop where
  ready : device.Ready
  framed : device.Framed
  bits : device.bitsPerPixel = 32
  pitch : device.pitch = 4 * device.width

/-! ## Pixels and bytes -/

section Bytes

variable {device : VesaPriv} {m m' : Mem} {x y x' y' t j : Nat} {r : Rect}

namespace VesaPriv.TrueColour

theorem bytes (h : device.TrueColour) : device.bytesPerPixel = 4 := by
  rw [h.ready.bytes, h.bits]

theorem pitch_eq (h : device.TrueColour) : device.pitch = device.width * device.bytesPerPixel := by
  rw [h.pitch, h.bytes, Nat.mul_comm]

theorem size_eq (h : device.TrueColour) : device.size = device.pitch * device.height :=
  size_of_pitch h.pitch_eq

theorem cell (h : device.TrueColour) (hx : x < device.width) (hy : y < device.height) :
    device.offset x y + 4 ≤ device.size := by
  rw [← h.bytes]
  exact h.ready.pixel_inside h.pitch_eq hx hy

/-- The two buffers are in the address space, and apart. -/
theorem buffers (h : device.TrueColour) :
    device.backbuffer + device.size ≤ 2 ^ 32 ∧ device.framebuffer + device.size ≤ 2 ^ 32 ∧
      (device.framebuffer + device.size ≤ device.backbuffer ∨
        device.backbuffer + device.size ≤ device.framebuffer) := by
  have hfits := h.framed.fits
  have hapart := h.framed.apart
  rw [← h.size_eq] at hfits hapart
  exact ⟨h.ready.fits, hfits, hapart⟩

/-- Two pixels have no byte in common. -/
theorem apart (h : device.TrueColour) (hx : x < device.width) (hx' : x' < device.width)
    (hne : (x', y') ≠ (x, y)) :
    device.offset x' y' + 4 ≤ device.offset x y ∨ device.offset x y + 4 ≤ device.offset x' y' := by
  have := h.ready.offset_apart hx hx' hne
  rwa [h.bytes] at this

/-- What `vesa_invalidate` copies of a pixel. -/
theorem copied_iff (h : device.TrueColour) (hr : r.Inside device) (hx : x < device.width)
    (hj : j < 4) : device.Copied r (device.offset x y + j) ↔ r.Has x y := by
  have h8 : device.bitsPerPixel ≠ 8 := by
    rw [h.bits]
    decide
  have hoffset : device.offset x y = device.picture.offset x y := by
    rw [VesaPriv.offset, h.pitch_eq]
    rfl
  rw [hoffset, copied_window_iff hr h8]
  exact hr.window.bytes_offset_iff hx (hj.trans_eq h.bytes.symm)

end VesaPriv.TrueColour

/-- Words with the same bytes. -/
theorem load32_eq_of_bytes {a a' : Nat} (h : ∀ j < 4, m'.load8 (a' + j) = m.load8 (a + j)) :
    m'.load32 a' = m.load32 a := by
  have h0 := h 0 (by omega)
  rw [Nat.add_zero, Nat.add_zero] at h0
  rw [Mem.load32, Mem.load32, h0, h 1 (by omega), h 2 (by omega), h 3 (by omega)]

/-- A pixel of the buffer at `a'` in `m'` is the one of the buffer at `a` in `m`. -/
theorem pixel_congr {a a' : Nat}
    (h : ∀ j < 4, m'.load8 (a' + (device.offset x' y' + j)) =
      m.load8 (a + (device.offset x y + j))) :
    device.pixel m' a' x' y' = device.pixel m a x y := by
  refine congrArg UInt32.ofNat (load32_eq_of_bytes fun j hj => ?_)
  rw [Nat.add_assoc, Nat.add_assoc]
  exact h j hj

end Bytes

/-! ## The calls -/

section Calls

variable {device : VesaPriv} {m m' : Mem} {x y x' y' : Nat} {r : Rect}

/-- `vesa_put_pixel` stores one pixel. -/
theorem pixel_put (h : device.TrueColour) (hx : x < device.width) (hy : y < device.height)
    (hx' : x' < device.width) (hy' : y' < device.height) (colour : UInt32)
    (hm' : m' = m.store32 (device.backbuffer + device.offset x y) colour.toNat) :
    device.pixel m' device.backbuffer x' y' =
        (if x' = x ∧ y' = y then colour else device.pixel m device.backbuffer x' y') ∧
      device.pixel m' device.framebuffer x' y' = device.pixel m device.framebuffer x' y' := by
  obtain ⟨hback, hfront, hapart⟩ := h.buffers
  have hcell := h.cell hx hy
  have hcell' := h.cell hx' hy'
  rw [hm']
  constructor
  · by_cases hsame : x' = x ∧ y' = y
    · obtain ⟨rfl, rfl⟩ := hsame
      rw [if_pos ⟨rfl, rfl⟩, VesaPriv.pixel, Mem.load32_store32_same _ colour.toNat_lt,
        UInt32.ofNat_toNat]
    · rw [if_neg hsame]
      have hne : (x', y') ≠ (x, y) := fun heq => hsame (Prod.mk.injEq .. ▸ heq)
      have := h.apart hx hx' hne
      exact congrArg UInt32.ofNat
        (Mem.load32_store32_of_disjoint _ _ (by omega) (by omega) (by omega))
  · exact congrArg UInt32.ofNat
      (Mem.load32_store32_of_disjoint _ _ (by omega) (by omega) (by omega))

/-- `vesa_invalidate` shows the pixels of the rectangle. -/
theorem pixel_invalidate (h : device.TrueColour) (hr : r.Inside device)
    (hx : x < device.width) (hy : y < device.height)
    (hblit : Blitted device.framebuffer device.backbuffer (device.Copied r) m m') :
    device.pixel m' device.backbuffer x y = device.pixel m device.backbuffer x y ∧
      device.pixel m' device.framebuffer x y =
        if r.Has x y then device.pixel m device.backbuffer x y
        else device.pixel m device.framebuffer x y := by
  obtain ⟨hback, hfront, hapart⟩ := h.buffers
  have hcell := h.cell hx hy
  have h8 : device.bitsPerPixel ≠ 8 := by
    rw [h.bits]
    decide
  have hlt : ∀ t, device.Copied r t → t < device.size := fun t ht => copied_lt_size hr h8 ht
  constructor
  · refine pixel_congr fun j hj => hblit.keeps _ fun t ht => ?_
    have := hlt t ht
    rw [wrap_eq (by omega), wrap_eq (by omega)]
    omega
  · split_ifs with hhas
    · refine pixel_congr fun j hj => ?_
      exact hblit.copies (offsetsApart h.ready h.framed hlt) _ ((h.copied_iff hr hx hj).mpr hhas)
    · refine pixel_congr fun j hj => hblit.keeps _ fun t ht hsame => hhas ?_
      have := hlt t ht
      rw [wrap_eq (by omega), wrap_eq (by omega)] at hsame
      refine (h.copied_iff hr hx hj).mp ?_
      rwa [Nat.add_left_cancel hsame]

/-- A round of `vesa_shift` moves a row from the one `k` below. -/
theorem shiftRow_run {k : Nat} (hk : 0 < k) (hpitch : device.pitch < 2 ^ 32)
    (hfits : device.backbuffer + device.pitch * (y + 1 + k) ≤ 2 ^ 32) (w : Logged) :
    ∃ m' new, memcpyFast (device.backbuffer + device.pitch * y)
        (device.backbuffer + device.pitch * (y + k)) (UInt32.ofNat device.pitch) w =
          some ((), ⟨m', w.log ++ new⟩) ∧
      ∀ z, m' z = if device.backbuffer + device.pitch * y ≤ z ∧
          z < device.backbuffer + device.pitch * (y + 1) then w.mem (z + device.pitch * k)
        else w.mem z := by
  have hrow : device.pitch ≤ device.pitch * k := Nat.le_mul_of_pos_right _ hk
  have hlen : (UInt32.ofNat device.pitch).toNat = device.pitch := by
    rw [UInt32.toNat_ofNat', Nat.mod_eq_of_lt hpitch]
  simp only [Nat.mul_add, Nat.mul_one] at hfits ⊢
  have hcopies := memcpyFast_copies (device.backbuffer + device.pitch * y)
    (device.backbuffer + (device.pitch * y + device.pitch * k)) (UInt32.ofNat device.pitch)
  rw [hlen] at hcopies
  have hmove : Movable (device.backbuffer + device.pitch * y)
      (device.backbuffer + (device.pitch * y + device.pitch * k)) device.pitch :=
    ⟨by omega, by omega, .inl (by omega)⟩
  obtain ⟨m', new, hrun, -, -, -, hcopy⟩ := hcopies w
  refine ⟨m', new, hrun, fun z => ?_⟩
  obtain ⟨hin, hout⟩ := hmove.contents (m := w.mem)
  rw [hcopy hmove]
  split_ifs with hz
  · have hbyte := hin (z - (device.backbuffer + device.pitch * y)) (by omega)
    rw [Nat.add_sub_cancel' hz.1] at hbyte
    rw [hbyte]
    congr 1
    omega
  · refine hout z fun hhas => hz ?_
    obtain ⟨hlow, hhigh⟩ := hhas
    dsimp only at hlow hhigh
    exact ⟨hlow, by omega⟩

/-- The rounds move their rows. -/
theorem shiftRows_run {k n : Nat} (hk : 0 < k) (hpitch : device.pitch < 2 ^ 32)
    (hfits : device.backbuffer + device.pitch * (y + n + k) ≤ 2 ^ 32) (w : Logged) :
    ∃ m' new, shiftRows device k n y w = some ((), ⟨m', w.log ++ new⟩) ∧
      ∀ z, m' z = if device.backbuffer + device.pitch * y ≤ z ∧
          z < device.backbuffer + device.pitch * (y + n) then w.mem (z + device.pitch * k)
        else w.mem z := by
  have hrow : device.pitch ≤ device.pitch * k := Nat.le_mul_of_pos_right _ hk
  induction n generalizing y w with
  | zero =>
    refine ⟨w.mem, [], by rw [List.append_nil]; rfl, fun z => ?_⟩
    rw [if_neg (by rw [Nat.add_zero]; omega)]
  | succ n ih =>
    have hfirst : device.backbuffer + device.pitch * (y + 1 + k) ≤ 2 ^ 32 :=
      Nat.le_trans (Nat.add_le_add_left (Nat.mul_le_mul_left _ (by omega)) _) hfits
    have hrest : device.backbuffer + device.pitch * (y + 1 + n + k) ≤ 2 ^ 32 := by
      rwa [Nat.add_assoc y, Nat.add_comm 1 n]
    obtain ⟨m₁, front, hrun₁, hm₁⟩ := shiftRow_run hk hpitch hfirst w
    obtain ⟨m₂, rest, hrun₂, hm₂⟩ := ih hrest ⟨m₁, w.log ++ front⟩
    refine ⟨m₂, front ++ rest, ?_, fun z => ?_⟩
    · rw [shiftRows, bind_run hrun₁, hrun₂, List.append_assoc]
    · rw [hm₂]
      dsimp only
      rw [hm₁, hm₁]
      simp only [Nat.mul_add, Nat.mul_one]
      by_cases hlater : device.backbuffer + (device.pitch * y + device.pitch) ≤ z ∧
          z < device.backbuffer + (device.pitch * y + device.pitch + device.pitch * n)
      · -- the row that is moved is behind the first one
        rw [if_pos hlater, if_neg (by omega), if_pos (by omega)]
      · rw [if_neg hlater]
        by_cases hfirst : device.backbuffer + device.pitch * y ≤ z ∧
            z < device.backbuffer + (device.pitch * y + device.pitch)
        · rw [if_pos hfirst, if_pos (by omega)]
        · rw [if_neg hfirst, if_neg (by omega)]

/-- `vesa_shift` moves the pixels of the back buffer. -/
theorem pixel_shift {k : Nat} (h : device.TrueColour) (hk : 0 < k) (w : Logged) :
    ∃ m' new, vesaShift device k w = some ((), ⟨m', w.log ++ new⟩) ∧
      ∀ x y, x < device.width → y < device.height →
        device.pixel m' device.backbuffer x y =
            (if y < device.height - k then device.pixel w.mem device.backbuffer x (y + k)
              else device.pixel w.mem device.backbuffer x y) ∧
          device.pixel m' device.framebuffer x y = device.pixel w.mem device.framebuffer x y := by
  obtain ⟨hback, hfront, hapart⟩ := h.buffers
  have hsize := h.size_eq
  rcases Nat.lt_or_ge k device.height with hlt | hge
  · have hpitch := h.ready.pitch_lt
    have hrows : device.backbuffer + device.pitch * (0 + (device.height - k) + k) ≤ 2 ^ 32 := by
      rwa [Nat.zero_add, Nat.sub_add_cancel (Nat.le_of_lt hlt), ← hsize]
    obtain ⟨m', new, hrun, hm'⟩ := shiftRows_run hk (by omega) hrows w
    refine ⟨m', new, hrun, fun x y hx hy => ?_⟩
    have hend := h.ready.offset_le (y := y) hx
    rw [h.bytes] at hend
    have hcell := h.cell hx hy
    have hrow : device.pitch * (device.height - k) ≤ device.size := by
      rw [hsize]
      exact Nat.mul_le_mul_left _ (Nat.sub_le _ _)
    rw [Nat.mul_zero, Nat.add_zero, Nat.zero_add] at hm'
    constructor
    · split_ifs with hin
      · have hrows : device.pitch * (y + 1) ≤ device.pitch * (device.height - k) :=
          Nat.mul_le_mul_left _ hin
        have hcell' := h.cell hx (by omega : y + k < device.height)
        refine pixel_congr fun j hj => ?_
        have hoffset : device.offset x (y + k) = device.offset x y + device.pitch * k := by
          rw [VesaPriv.offset, Nat.mul_add, ← Nat.add_assoc]
          rfl
        rw [Mem.load8_eq _ (by omega), Mem.load8_eq _ (by omega), hm', if_pos (by omega), hoffset]
        congr 1
        omega
      · have hrows : device.pitch * (device.height - k) ≤ device.pitch * y :=
          Nat.mul_le_mul_left _ (Nat.le_of_not_lt hin)
        have hlow : device.pitch * y ≤ device.offset x y := Nat.le_add_left _ _
        refine pixel_congr fun j hj => ?_
        rw [Mem.load8_eq _ (by omega), Mem.load8_eq _ (by omega), hm', if_neg (by omega)]
    · refine pixel_congr fun j hj => ?_
      rw [Mem.load8_eq _ (by omega), Mem.load8_eq _ (by omega), hm', if_neg (by omega)]
  · -- there is no row to move
    have hzero : device.height - k = 0 := Nat.sub_eq_zero_of_le hge
    refine ⟨w.mem, [], ?_, fun x y _ _ => ⟨?_, rfl⟩⟩
    · rw [vesaShift, hzero, List.append_nil]
      rfl
    · rw [hzero, if_neg (Nat.not_lt_zero y)]

end Calls

/-! ## The pixels of the device -/

/-- The call stays on a screen of `W` by `H` pixels. -/
def FbCall.Inside (W H : Int) : FbCall → Prop
  | .putPixel x y _ => InGrid W H x y
  | .invalidate x y width height =>
    (0 ≤ x ∧ 0 ≤ width ∧ x + width ≤ W) ∧ 0 ≤ y ∧ 0 ≤ height ∧ y + height ≤ H
  | .shift yshift => 0 < yshift

instance (W H : Int) : (call : FbCall) → Decidable (call.Inside W H)
  | .putPixel _ _ _ => inferInstanceAs (Decidable (InGrid _ _ _ _))
  | .invalidate _ _ _ _ => inferInstanceAs (Decidable (_ ∧ _))
  | .shift _ => inferInstanceAs (Decidable (_ < _))

/-- The pixels of the device are those in memory. -/
structure Shows (device : VesaPriv) (fb : FbDev) (m : Mem) : Prop where
  width : fb.width = device.width
  height : fb.height = device.height
  back : ∀ x y : Nat, x < device.width → y < device.height →
    fb.back x y = device.pixel m device.backbuffer x y
  front : ∀ x y : Nat, x < device.width → y < device.height →
    fb.front x y = device.pixel m device.framebuffer x y

section Shows

variable {device : VesaPriv} {fb : FbDev} {m₀ : Mem}

theorem shows_fbOf (device : VesaPriv) (m : Mem) : Shows device (fbOf device m) m :=
  ⟨rfl, rfl, fun _ _ _ _ => rfl, fun _ _ _ _ => rfl⟩

/-- A call that stays on the screen does in memory what it does to the pixels. -/
theorem Shows.call (h : device.TrueColour) {w : Logged} {call : FbCall}
    (hs : Shows device fb w.mem) (hin : call.Inside device.width device.height) :
    ∃ m' new, vesaCall device call w = some ((), ⟨m', w.log ++ new⟩) ∧
      Shows device (fb.call call) m' := by
  cases call with
  | putPixel x y colour =>
    obtain ⟨⟨hx0, hx⟩, hy0, hy⟩ := hin
    obtain ⟨x, rfl⟩ := Int.eq_ofNat_of_zero_le hx0
    obtain ⟨y, rfl⟩ := Int.eq_ofNat_of_zero_le hy0
    obtain ⟨m', hm'⟩ : ∃ m', m' =
        w.mem.store32 (device.backbuffer + device.offset x y) colour.toNat := ⟨_, rfl⟩
    have hput : ∀ x' y', x' < device.width → y' < device.height → _ := fun x' y' hx' hy' =>
      pixel_put h (Int.ofNat_lt.mp hx) (Int.ofNat_lt.mp hy) hx' hy' colour hm'
    refine ⟨m', _, by rw [hm']; exact vesaPutPixel_run w.log, hs.width, hs.height,
      fun x' y' hx' hy' => ?_, fun x' y' hx' hy' => ?_⟩
    · rw [(hput x' y' hx' hy').1, ← hs.back x' y' hx' hy']
      simp only [FbDev.call, FbDev.putPixel, Int.natCast_inj]
    · rw [(hput x' y' hx' hy').2]
      exact hs.front x' y' hx' hy'
  | invalidate x y width height =>
    obtain ⟨⟨hx0, hw0, hx⟩, hy0, hh0, hy⟩ := hin
    obtain ⟨x, rfl⟩ := Int.eq_ofNat_of_zero_le hx0
    obtain ⟨y, rfl⟩ := Int.eq_ofNat_of_zero_le hy0
    obtain ⟨width, rfl⟩ := Int.eq_ofNat_of_zero_le hw0
    obtain ⟨height, rfl⟩ := Int.eq_ofNat_of_zero_le hh0
    have hr : Rect.Inside ⟨x, y, width, height⟩ device :=
      ⟨Int.ofNat_le.mp hx, Int.ofNat_le.mp hy⟩
    obtain ⟨m', new, hrun, -, hblit⟩ := vesaInvalidate_blits h.ready h.framed hr w
    refine ⟨m', new, hrun, hs.width, hs.height, fun x' y' hx' hy' => ?_,
      fun x' y' hx' hy' => ?_⟩
    · rw [(pixel_invalidate h hr hx' hy' hblit).1]
      exact hs.back x' y' hx' hy'
    · rw [(pixel_invalidate h hr hx' hy' hblit).2, ← hs.back x' y' hx' hy',
        ← hs.front x' y' hx' hy']
      simp only [FbDev.call, FbDev.invalidate, Rect.Has]
      congr 1
      exact propext ⟨fun h => by omega, fun h => by omega⟩
  | shift yshift =>
    have hpos : 0 < yshift := hin
    obtain ⟨k, rfl⟩ := Int.eq_ofNat_of_zero_le (Int.le_of_lt hpos)
    obtain ⟨m', new, hrun, hpixels⟩ := pixel_shift h (Int.ofNat_lt.mp hpos) w
    refine ⟨m', new, hrun, hs.width, hs.height, fun x y hx hy => ?_, fun x y hx hy => ?_⟩
    · rw [(hpixels x y hx hy).1]
      refine (FbDev.shift_back fb (Int.le_of_lt hpos) x y).trans ?_
      rw [hs.height]
      by_cases hlt : y < device.height - k
      · rw [if_pos (by omega), if_pos hlt, ← hs.back x (y + k) hx (by omega)]
        rfl
      · rw [if_neg (by omega), if_neg hlt, ← hs.back x y hx hy]
    · rw [(hpixels x y hx hy).2]
      exact hs.front x y hx hy

/-- The pixels are those that the calls so far leave in memory, if they all stayed on the
screen. -/
structure Replayed (device : VesaPriv) (m₀ : Mem) (fb : FbDev) : Prop where
  width : fb.width = device.width
  height : fb.height = device.height
  shows : (∀ call ∈ fb.calls, call.Inside device.width device.height) →
    ∃ m log, vesaCalls device fb.calls ⟨m₀, []⟩ = some ((), ⟨m, log⟩) ∧ Shows device fb m

theorem replayed_fbOf (device : VesaPriv) (m₀ : Mem) : Replayed device m₀ (fbOf device m₀) :=
  ⟨rfl, rfl, fun _ => ⟨m₀, [], rfl, shows_fbOf device m₀⟩⟩

theorem Replayed.call (h : device.TrueColour) (hr : Replayed device m₀ fb) (call : FbCall) :
    Replayed device m₀ (fb.call call) := by
  have hsize : (fb.call call).width = fb.width ∧ (fb.call call).height = fb.height := by
    cases call <;> exact ⟨rfl, rfl⟩
  refine ⟨hsize.1.trans hr.width, hsize.2.trans hr.height, fun hin => ?_⟩
  rw [FbDev.call_calls] at hin ⊢
  obtain ⟨hcall, hrest⟩ := List.forall_mem_cons.mp hin
  obtain ⟨m, log, hrun, hs⟩ := hr.shows hrest
  obtain ⟨m', new, hrun', hs'⟩ := hs.call h (w := ⟨m, log⟩) hcall
  exact ⟨m', log ++ new, (bind_run hrun).trans hrun', hs'⟩

end Shows

end Microboot.Kern.Io
