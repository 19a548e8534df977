/-
  Kern/Io/VesaModes.lean --- finding a mode, `vesa_find_mode` of kern/io/vesa.c.

  The BIOS fills in a block with a pointer to the list of its modes, and is then asked
  about each of them.  Its answers go to the same low memory, so that the list is copied
  first: the 512 bytes of the block to a cleared buffer, and from there, from the list
  on, to an array on the stack that is not cleared.

  A mode is taken if one of two bits is set, where the framebuffer needs both.  Of a
  list that goes on behind the block the loop sees zeros, and then what was on the
  stack: the number of entries that it allows is the number of bytes that were copied.

  The BIOS and the stack are parameters.  The allocation of the buffer plays no part.
-/
import Microboot.Kern.Fs.Fat
import Microboot.Kern.Io.BiosDrive
import Microboot.Kern.Io.Vesa

set_option autoImplicit false

namespace Microboot.Kern.Io

open Microboot.Kern.Fs (byteOf wordOf)

/-! ## The model -/

/-- `vbe_ok(ret)` -/
def vbeOk (ret : UInt32) : Prop := ret &&& 0xffff = 0x004f

instance (ret : UInt32) : Decidable (vbeOk ret) := inferInstanceAs (Decidable (_ = _))

/-- The registers of a call that answers in `low_mem_buffer`. -/
def vbeRegs (bios : Bios) (eax ecx : UInt32) : IntRegs :=
  { edi := offof bios.lowMemBuffer
    esi := 0
    ebp := 0
    esp := 0
    ebx := 0
    edx := 0
    ecx := ecx
    eax := eax
    flags := 0
    es := (segof bios.lowMemBuffer).toUInt16
    ds := 0
    fs := 0
    gs := 0 }

/-- The fields of `struct vbe_mode_info_block` in its bytes. -/
def readModeInfo (b : List UInt8) : ModeInfo :=
  { modeAttrs := UInt16.ofNat (wordOf b 0)
    xRes := UInt16.ofNat (wordOf b 18)
    yRes := UInt16.ofNat (wordOf b 20)
    bitsPerPixel := UInt8.ofNat (byteOf b 25)
    memoryModel := UInt8.ofNat (byteOf b 27)
    physBasePtr := UInt32.ofNat (wordOf b 40 + 65536 * wordOf b 42)
    linPitch := UInt16.ofNat (wordOf b 50) }

/-- `vesa_get_info(mode, info)` -/
def vesaGetInfo (bios : Bios) (mode : UInt16) (s : LowMem) : Option ModeInfo × LowMem :=
  let (regs, s) := bios.interrupt 0x10 (vbeRegs bios 0x4f01 mode.toUInt32) s
  (if vbeOk regs.eax then some (readModeInfo s.buffer) else none, s)

/-- `sizeof(struct vbe_info_block)` -/
def infoBlockSize : Nat := 512

/-- What `vesa_get_info_block` puts in front of the call. -/
def LowMem.vbe2 (s : LowMem) : LowMem :=
  { s with
    buffer := [0x56, 0x42, 0x45, 0x32] ++ List.replicate (infoBlockSize - 4) 0 ++
      s.buffer.drop infoBlockSize }

/-- The call of `vesa_get_info_block`. -/
def callInfoBlock (bios : Bios) (s : LowMem) : IntRegs × LowMem :=
  bios.interrupt 0x10 (vbeRegs bios 0x4f00 0) s.vbe2

/-- `vesa_get_info_block(info)` -/
def vesaGetInfoBlock (bios : Bios) (s : LowMem) : Option (List UInt8) × LowMem :=
  let (regs, s) := callInfoBlock bios s
  (if vbeOk regs.eax then some (s.buffer.take infoBlockSize) else none, s)

/-- `U32REAL_TO_LIN(uint8_t*, info->video_mode_ptr) - &low_mem_buffer` -/
def modeOff (bios : Bios) (info : List UInt8) : Nat :=
  let videoModePtr := UInt32.ofNat (wordOf info 14 + 65536 * wordOf info 16)
  (realToLin (packedSegof videoModePtr) (packedOffof videoModePtr) - bios.lowMemBuffer).toNat

/-- A byte of `mode_buffer`: behind what is copied of `info`, the block and zeros, there is what
was on the stack. -/
def modeBufferByte (info : List UInt8) (off : Nat) (stack : Nat → UInt8) (j : Nat) : UInt8 :=
  if j < 4096 - off then info.getD (off + j) 0 else stack j

/-- `mode_buffer[i]` -/
def modeBuffer (info : List UInt8) (off : Nat) (stack : Nat → UInt8) (i : Nat) : UInt16 :=
  UInt16.ofNat ((modeBufferByte info off stack (2 * i)).toNat +
    256 * (modeBufferByte info off stack (2 * i + 1)).toNat)

/-- What the resolution of a mode has to be. -/
structure Resolution where
  x : Int
  y : Int
  bpp : Int
  deriving DecidableEq, Repr

/-- The mode has it. -/
def ModeInfo.Matches (mib : ModeInfo) (res : Resolution) : Prop :=
  mib.xRes.toNat = res.x ∧ mib.yRes.toNat = res.y ∧ mib.bitsPerPixel.toNat = res.bpp

instance (mib : ModeInfo) (res : Resolution) : Decidable (mib.Matches res) :=
  inferInstanceAs (Decidable (_ ∧ _ ∧ _))

/-- The test of the loop. -/
def ModeInfo.Usable (mib : ModeInfo) : Prop := mib.modeAttrs &&& 0x90 ≠ 0 ∧ mib.memoryModel = 6

instance (mib : ModeInfo) : Decidable mib.Usable := inferInstanceAs (Decidable (_ ∧ _))

/-- `vesa_mode_fn_t` -/
abbrev ModeFn : Type := UInt16 → UInt16 → UInt8 → Bool

/-- The loop of `vesa_find_mode`. -/
def vesaFindModeLoop (bios : Bios) (res : Resolution) (modeOk : Option ModeFn)
    (buffer : Nat → UInt16) : Nat → Nat → LowMem → Int × LowMem
  | 0, _, s => (-1, s)
  | n + 1, i, s =>
    if buffer i = 0xffff then (-1, s)
    else
      match vesaGetInfo bios (buffer i) s with
      | (some mib, s) =>
        if mib.Usable ∧ (mib.Matches res ∨
            modeOk.any fun ok => ok mib.xRes mib.yRes mib.bitsPerPixel) then
          ((buffer i).toNat, s)
        else vesaFindModeLoop bios res modeOk buffer n (i + 1) s
      | (none, s) => vesaFindModeLoop bios res modeOk buffer n (i + 1) s

/-- `vesa_find_mode(x, y, bpp, mode_ok)`, for a list that does not start outside of `info`. -/
def vesaFindMode (bios : Bios) (res : Resolution) (modeOk : Option ModeFn)
    (stack : Nat → UInt8) (s : LowMem) : Option (Int × LowMem) :=
  match vesaGetInfoBlock bios s with
  | (none, s) => some (-1, s)
  | (some info, s) =>
    let off := modeOff bios info
    if 4096 < off then none
    else some (vesaFindModeLoop bios res modeOk (modeBuffer info off stack) (4096 - off) 0 s)

/-! ## What is looked for -/

/-- What the BIOS says about the modes, whenever it is asked to answer in `low_mem_buffer`. -/
def AnswersModes (bios : Bios) (answer : UInt16 → Option ModeInfo) : Prop :=
  ∀ (mode : UInt16) (regs : IntRegs) (s : LowMem), regs.eax = 0x4f01 →
    regs.ecx = mode.toUInt32 → realToLin regs.es.toUInt32 regs.edi = bios.lowMemBuffer →
    (if vbeOk (bios.interrupt 0x10 regs s).1.eax then
      some (readModeInfo (bios.interrupt 0x10 regs s).2.buffer) else none) = answer mode

/-- The modes are listed at the offset, and the list ends inside the buffer. -/
structure ModeListAt (buffer : List UInt8) (off : Nat) (modes : List UInt16) : Prop where
  inside : off + 2 * modes.length + 2 ≤ lowMemSize
  entries : ∀ i (hi : i < modes.length), UInt16.ofNat (wordOf buffer (off + 2 * i)) = modes[i]
  proper : ∀ m ∈ modes, m ≠ 0xffff
  ends : UInt16.ofNat (wordOf buffer (off + 2 * modes.length)) = 0xffff

/-- The mode supports graphics and a linear framebuffer, and uses the direct-colour model. -/
def ModeInfo.Suitable (mib : ModeInfo) : Prop :=
  mib.modeAttrs &&& 0x10 ≠ 0 ∧ mib.modeAttrs &&& 0x80 ≠ 0 ∧ mib.memoryModel = 6

instance (mib : ModeInfo) : Decidable mib.Suitable := inferInstanceAs (Decidable (_ ∧ _ ∧ _))

/-- The mode passes the test of the loop. -/
def passes (answer : UInt16 → Option ModeInfo) (res : Resolution) (m : UInt16) : Bool :=
  (answer m).any fun mib => mib.Usable ∧ mib.Matches res

/-- The mode is one that is looked for. -/
def suits (answer : UInt16 → Option ModeInfo) (res : Resolution) (m : UInt16) : Bool :=
  (answer m).any fun mib => mib.Suitable ∧ mib.Matches res

/-- The number of a mode, or -1 if there is none. -/
def modeResult (mode : Option UInt16) : Int := (mode.map fun m => (m.toNat : Int)).getD (-1)

/-- `vesa_find_mode(x, y, bpp, NULL)` returns the first mode of the list that is looked for. -/
def FindsMode (bios : Bios) (answer : UInt16 → Option ModeInfo) (res : Resolution)
    (modes : List UInt16) (stack : Nat → UInt8) (s : LowMem) : Prop :=
  ∃ s', vesaFindMode bios res none stack s = some (modeResult (modes.find? (suits answer res)), s')

section Lists

variable {α : Type} {p q : α → Bool} {l : List α} {a : α} {e : Nat → α} {k n : Nat}

/-- The first element that passes, if a stronger test is made. -/
theorem find?_strengthen (hqp : ∀ a, q a → p a) (hfind : l.find? p = some a) (l' : List α) :
    (l ++ l').find? q = some a ↔ q a := by
  refine ⟨fun h => List.find?_some h, fun ha => ?_⟩
  obtain ⟨-, front, rest, rfl, hfront⟩ := List.find?_eq_some_iff_append.mp hfind
  refine List.find?_eq_some_iff_append.mpr ⟨ha, front, rest ++ l', by simp, fun b hb => ?_⟩
  have hnot := hfront b hb
  by_contra hq
  simp [hqp b (by simpa using hq)] at hnot

theorem find?_none_strengthen (hqp : ∀ a, q a → p a) (hfind : l.find? p = none) :
    l.find? q = none := by
  rw [List.find?_eq_none] at hfind ⊢
  exact fun a ha hq => hfind a ha (hqp a hq)

/-- Entries in front of a stop are kept. -/
theorem takeWhile_entries (stop : α → Bool) (hkn : k ≤ n) (hgo : ∀ i < k, stop (e i) = false) :
    ((List.range' 0 n).map e).takeWhile (fun a => !stop a) =
      (List.range' 0 k).map e ++ ((List.range' k (n - k)).map e).takeWhile (fun a => !stop a) := by
  have hsplit : List.range' 0 k ++ List.range' (0 + k) (n - k) = List.range' 0 (k + (n - k)) :=
    List.range'_append_1
  rw [Nat.zero_add, Nat.add_sub_cancel' hkn] at hsplit
  rw [← hsplit, List.map_append, List.takeWhile_append_of_pos]
  intro a ha
  obtain ⟨i, hi, rfl⟩ := List.mem_map.mp ha
  rw [hgo i (by simpa using (List.mem_range'_1.mp hi).2), Bool.not_false]

end Lists

section Loop

variable {bios : Bios} {answer : UInt16 → Option ModeInfo} {res : Resolution} {s : LowMem}
  {m : UInt16} {buffer : Nat → UInt16}

/-- Each of the bits is one of the two. -/
theorem passes_of_suits (hm : suits answer res m) : passes answer res m := by
  unfold suits at hm
  unfold passes
  cases hinfo : answer m with
  | none =>
    rw [hinfo] at hm
    cases hm
  | some mib =>
    rw [hinfo, Option.any_some, decide_eq_true_eq] at hm
    obtain ⟨⟨hgraphics, -, hmodel⟩, hmatches⟩ := hm
    rw [Option.any_some, decide_eq_true_eq]
    refine ⟨⟨fun hnone => hgraphics ?_, hmodel⟩, hmatches⟩
    rw [show (0x10 : UInt16) = 0x90 &&& 0x10 from rfl, ← UInt16.and_assoc, hnone, UInt16.zero_and]

theorem modeResult_inj {mode mode' : Option UInt16} :
    modeResult mode = modeResult mode' ↔ mode = mode' := by
  refine ⟨fun h => ?_, congrArg modeResult⟩
  cases mode with
  | none =>
    cases mode' with
    | none => rfl
    | some m' =>
      have hneg : (-1 : Int) = m'.toNat := h
      omega
  | some m =>
    cases mode' with
    | none =>
      have hneg : (m.toNat : Int) = -1 := h
      omega
    | some m' =>
      have hsame : (m.toNat : Int) = m'.toNat := h
      rw [UInt16.toNat_inj.mp (Int.ofNat_inj.mp hsame)]

/-- What is said about a mode. -/
theorem vesaGetInfo_answer (hanswers : AnswersModes bios answer) (mode : UInt16) (s : LowMem) :
    (vesaGetInfo bios mode s).1 = answer mode :=
  hanswers mode (vbeRegs bios 0x4f01 mode.toUInt32) s rfl rfl (realToLin_segof bios.buffer_lt)

/-- The loop returns the first entry that passes, in front of the end of the list. -/
theorem vesaFindModeLoop_eq (hanswers : AnswersModes bios answer) (res : Resolution)
    (buffer : Nat → UInt16) (n i : Nat) (s : LowMem) :
    (vesaFindModeLoop bios res none buffer n i s).1 =
      modeResult ((((List.range' i n).map buffer).takeWhile fun m => !decide (m = 0xffff)).find?
        (passes answer res)) := by
  induction n generalizing i s with
  | zero => rfl
  | succ n ih =>
    rw [vesaFindModeLoop, List.range'_succ, List.map_cons]
    by_cases hend : buffer i = 0xffff
    · rw [if_pos hend, List.takeWhile_cons, if_neg (by simp [hend])]
      rfl
    · have hinfo := vesaGetInfo_answer hanswers (buffer i) s
      rw [if_neg hend, List.takeWhile_cons, if_pos (by simp [hend]), List.find?_cons, passes,
        ← hinfo]
      cases hcall : vesaGetInfo bios (buffer i) s with
      | mk info s' =>
        cases info with
        | none => exact ih (i + 1) s'
        | some mib =>
          dsimp only [Option.any_some, Option.any_none]
          simp only [Bool.false_eq_true, or_false]
          by_cases htest : mib.Usable ∧ mib.Matches res
          · rw [if_pos htest, decide_eq_true htest]
            rfl
          · rw [if_neg htest, decide_eq_false htest]
            exact ih (i + 1) s'

end Loop

/-! ## What the loop sees -/

/-- The number of entries of the list that are whole in the block. -/
def wholeEntries (off : Nat) : Nat := (infoBlockSize - off) / 2

/-- The entry behind them: the last byte of the block, if there is half an entry in it, or 0. -/
def edgeMode (low : List UInt8) (off : Nat) : UInt16 :=
  UInt16.ofNat (byteOf (low.take infoBlockSize) (off + 2 * wholeEntries off))

section Entries

variable {low : List UInt8} {off i j : Nat} {stack : Nat → UInt8}

theorem byteOf_take (hj : j < infoBlockSize) :
    byteOf (low.take infoBlockSize) j = byteOf low j := by
  rw [byteOf, byteOf, List.getD_eq_getElem?_getD, List.getElem?_take_of_lt hj,
    ← List.getD_eq_getElem?_getD]

theorem wordOf_take (hj : j + 1 < infoBlockSize) :
    wordOf (low.take infoBlockSize) j = wordOf low j := by
  rw [wordOf, wordOf, byteOf_take (Nat.lt_of_succ_lt hj), byteOf_take hj]

theorem modeOff_take (bios : Bios) (low : List UInt8) :
    modeOff bios (low.take infoBlockSize) = modeOff bios low := by
  unfold modeOff
  rw [wordOf_take (by decide), wordOf_take (by decide)]

/-- Behind the block `info` is zero. -/
theorem getD_take (hj : infoBlockSize ≤ j) : (low.take infoBlockSize).getD j 0 = 0 := by
  rw [List.getD_eq_getElem?_getD, List.getElem?_eq_none]
  · rfl
  · rw [List.length_take]
    omega

theorem modeBuffer_inside (hi : off + 2 * i + 1 < infoBlockSize) :
    modeBuffer (low.take infoBlockSize) off stack i =
      UInt16.ofNat (wordOf low (off + 2 * i)) := by
  have hlt : off + 2 * i + 1 < 512 := hi
  rw [modeBuffer, modeBufferByte, modeBufferByte, if_pos (by omega), if_pos (by omega),
    ← wordOf_take hi]
  rfl

/-- Behind the block there is 0, or what was on the stack. -/
theorem modeBufferByte_behind (hj : infoBlockSize ≤ off + j) :
    modeBufferByte (low.take infoBlockSize) off stack j =
      if j < 4096 - off then 0 else stack j := by
  rw [modeBufferByte, getD_take hj]

theorem modeBuffer_edge (low : List UInt8) (stack : Nat → UInt8) (hoff : off + 2 ≤ 4096) :
    modeBuffer (low.take infoBlockSize) off stack (wholeEntries off) = edgeMode low off := by
  have hbehind : infoBlockSize ≤ off + (2 * wholeEntries off + 1) := by
    unfold wholeEntries infoBlockSize
    omega
  have hin : 2 * wholeEntries off + 1 < 4096 - off := by
    unfold wholeEntries infoBlockSize
    omega
  rw [modeBuffer, modeBufferByte_behind hbehind, if_pos hin, modeBufferByte,
    if_pos (Nat.lt_of_succ_lt hin)]
  rfl

theorem edgeMode_ne (low : List UInt8) (off : Nat) : edgeMode low off ≠ 0xffff := by
  intro h
  have hlt := Fs.byteOf_lt (low.take infoBlockSize) (off + 2 * wholeEntries off)
  have hnat : byteOf (low.take infoBlockSize) (off + 2 * wholeEntries off) % 65536 = 65535 :=
    (UInt16.toNat_ofNat' ..).symm.trans (congrArg UInt16.toNat h)
  omega

/-- There is half an entry at an odd offset only. -/
theorem edgeMode_of_whole (h : infoBlockSize ≤ off + 2 * wholeEntries off) :
    edgeMode low off = 0 := by
  rw [edgeMode, byteOf, getD_take h]
  rfl

theorem behind_edge (hi : wholeEntries off < i) : infoBlockSize ≤ off + 2 * i := by
  unfold wholeEntries infoBlockSize at hi
  unfold infoBlockSize
  omega

theorem modeBuffer_behind (hi : wholeEntries off < i) (hin : 2 * i + 1 < 4096 - off) :
    modeBuffer (low.take infoBlockSize) off stack i = 0 := by
  have hbehind := behind_edge hi
  rw [modeBuffer, modeBufferByte_behind hbehind, modeBufferByte_behind (Nat.le_succ_of_le hbehind),
    if_pos hin, if_pos (Nat.lt_of_succ_lt hin)]
  rfl

/-- On a stack of zeros there are only zeros. -/
theorem modeBuffer_zeros (hi : wholeEntries off < i) :
    modeBuffer (low.take infoBlockSize) off (fun _ => 0) i = 0 := by
  have hbehind := behind_edge hi
  rw [modeBuffer, modeBufferByte_behind hbehind, modeBufferByte_behind (Nat.le_succ_of_le hbehind),
    ite_self, ite_self]
  rfl

/-- A stack full of one mode. -/
def modeStack (m : UInt16) (j : Nat) : UInt8 := UInt8.ofNat (m.toNat / 256 ^ (j % 2))

theorem modeBuffer_modeStack (m : UInt16) (hi : 4096 - off ≤ 2 * i) :
    modeBuffer (low.take infoBlockSize) off (modeStack m) i = m := by
  have hlt := m.toNat_lt
  rw [modeBuffer, modeBufferByte, modeBufferByte, if_neg (Nat.not_lt.mpr hi), if_neg (by omega),
    modeStack, modeStack, Nat.mul_mod_right, Nat.mul_add_mod_self_left]
  apply UInt16.toNat_inj.mp
  simp only [UInt16.toNat_ofNat', UInt8.toNat_ofNat', Nat.pow_zero, Nat.div_one, Nat.reduceMod,
    Nat.pow_one]
  omega

/-- It does not end the list if the mode does not. -/
theorem modeBuffer_modeStack_ne {m : UInt16} (hm : m ≠ 0xffff) (hi : wholeEntries off < i) :
    modeBuffer (low.take infoBlockSize) off (modeStack m) i ≠ 0xffff := by
  by_cases hstack : 4096 - off ≤ 2 * i
  · rw [modeBuffer_modeStack m hstack]
    exact hm
  · intro h
    have hlt : 2 * i < 4096 - off := Nat.lt_of_not_le hstack
    rw [modeBuffer, modeBufferByte_behind (behind_edge hi), if_pos hlt] at h
    have hnat := congrArg UInt16.toNat h
    simp only [UInt16.toNat_ofNat', UInt8.reduceToNat, UInt16.reduceToNat] at hnat
    omega

end Entries

section Scan

variable {low : List UInt8} {off k n : Nat} {stack : Nat → UInt8} {modes : List UInt16}
  {p : UInt16 → Bool} {m : UInt16}

/-- The first entry of the buffer that passes, from the `k`-th on. -/
def scanFrom (p : UInt16 → Bool) (buffer : Nat → UInt16) (k n : Nat) : Option UInt16 :=
  (((List.range' k n).map buffer).takeWhile fun m => !decide (m = 0xffff)).find? p

theorem scanFrom_succ {buffer : Nat → UInt16} (hk : buffer k ≠ 0xffff) :
    scanFrom p buffer k (n + 1) =
      if p (buffer k) then some (buffer k) else scanFrom p buffer (k + 1) n := by
  rw [scanFrom, List.range'_succ, List.map_cons, List.takeWhile_cons, if_pos (by simp [hk]),
    List.find?_cons]
  cases hp : p (buffer k) <;> rfl

theorem inside_of_whole {i : Nat} (hi : i < wholeEntries off) :
    off + 2 * i + 1 < infoBlockSize := by
  unfold wholeEntries infoBlockSize at hi
  unfold infoBlockSize
  omega

/-- The entries in the block are those of the list. -/
theorem ModeListAt.entry_eq (hlist : ModeListAt low off modes) {i : Nat} (hi : i < modes.length)
    (hwhole : i < wholeEntries off) :
    modeBuffer (low.take infoBlockSize) off stack i = modes[i] :=
  (modeBuffer_inside (inside_of_whole hwhole)).trans (hlist.entries i hi)

theorem ModeListAt.scan_split (hlist : ModeListAt low off modes) (hk : k ≤ modes.length)
    (hwhole : k ≤ wholeEntries off) :
    scanFrom p (modeBuffer (low.take infoBlockSize) off stack) 0 (4096 - off) =
      ((modes.take k).find? p).or
        (scanFrom p (modeBuffer (low.take infoBlockSize) off stack) k (4096 - off - k)) := by
  have hinside := hlist.inside
  unfold lowMemSize at hinside
  have hentries : (List.range' 0 k).map (modeBuffer (low.take infoBlockSize) off stack) =
      modes.take k := by
    refine List.ext_getElem (by simp [hk]) fun i hi hi' => ?_
    rw [List.length_map, List.length_range'] at hi
    rw [List.getElem_map, List.getElem_range', List.getElem_take, Nat.zero_add, Nat.one_mul]
    exact hlist.entry_eq (Nat.lt_of_lt_of_le hi hk) (Nat.lt_of_lt_of_le hi hwhole)
  have hgo : ∀ i < k,
      decide (modeBuffer (low.take infoBlockSize) off stack i = 0xffff) = false := by
    intro i hi
    rw [hlist.entry_eq (Nat.lt_of_lt_of_le hi hk) (Nat.lt_of_lt_of_le hi hwhole)]
    exact decide_eq_false (hlist.proper _ (List.getElem_mem _))
  rw [scanFrom, takeWhile_entries (fun m => decide (m = 0xffff)) (by omega) hgo, hentries,
    List.find?_append]
  rfl

/-- A list that ends in the block is seen. -/
theorem ModeListAt.scan_whole (hlist : ModeListAt low off modes)
    (hends : modes.length < wholeEntries off) :
    scanFrom p (modeBuffer (low.take infoBlockSize) off stack) 0 (4096 - off) = modes.find? p := by
  have hinside := hlist.inside
  unfold lowMemSize at hinside
  have hstop : modeBuffer (low.take infoBlockSize) off stack modes.length = 0xffff :=
    (modeBuffer_inside (inside_of_whole hends)).trans hlist.ends
  obtain ⟨n, hn⟩ : ∃ n, 4096 - off - modes.length = n + 1 :=
    ⟨4096 - off - modes.length - 1, by omega⟩
  rw [hlist.scan_split (Nat.le_refl _) (Nat.le_of_lt hends), List.take_length, hn, scanFrom,
    List.range'_succ, List.map_cons, List.takeWhile_cons, if_neg (by simp [hstop]), List.find?_nil,
    Option.or_none]

/-- Behind the block one of two modes may be found, whatever was on the stack. -/
theorem scan_edge (hoff : off + 2 ≤ 4096) (hfind : [edgeMode low off, 0].find? p = some m) :
    scanFrom p (modeBuffer (low.take infoBlockSize) off stack) (wholeEntries off)
      (4096 - off - wholeEntries off) = some m := by
  have hedge := modeBuffer_edge low stack hoff
  obtain ⟨n, hn⟩ : ∃ n, 4096 - off - wholeEntries off = n + 1 := by
    refine ⟨4096 - off - wholeEntries off - 1, ?_⟩
    unfold wholeEntries infoBlockSize
    omega
  rw [hn, scanFrom_succ (by rw [hedge]; exact edgeMode_ne low off), hedge]
  by_cases hp : p (edgeMode low off) = true
  · rw [List.find?_cons_of_pos hp] at hfind
    rw [if_pos hp, hfind]
  · rw [List.find?_cons_of_neg hp] at hfind
    have h0 : p 0 = true := by
      by_contra hnot
      rw [List.find?_cons_of_neg hnot] at hfind
      cases hfind
    rw [List.find?_cons_of_pos h0] at hfind
    -- the edge is not 0, so that there is half an entry in the block
    have hhalf : off + 2 * wholeEntries off < infoBlockSize := by
      by_contra hwhole
      rw [edgeMode_of_whole (Nat.le_of_not_lt hwhole)] at hp
      exact hp h0
    unfold wholeEntries infoBlockSize at hhalf hn
    obtain ⟨n, rfl⟩ : ∃ n', n = n' + 1 := ⟨n - 1, by omega⟩
    have hzero : modeBuffer (low.take infoBlockSize) off stack (wholeEntries off + 1) = 0 := by
      refine modeBuffer_behind (Nat.lt_succ_self _) ?_
      unfold wholeEntries infoBlockSize
      omega
    rw [if_neg hp, scanFrom_succ (by rw [hzero]; decide), hzero, if_pos h0, hfind]

/-- Else nothing may be found. -/
theorem scan_zeros (hoff : off + 2 ≤ 4096) (hfind : [edgeMode low off, 0].find? p = none) :
    scanFrom p (modeBuffer (low.take infoBlockSize) off fun _ => 0) (wholeEntries off)
      (4096 - off - wholeEntries off) = none := by
  rw [List.find?_eq_none] at hfind
  refine List.find?_eq_none.mpr fun m hm => ?_
  obtain ⟨i, hi, rfl⟩ := List.mem_map.mp ((List.takeWhile_sublist _).mem hm)
  rcases Nat.eq_or_lt_of_le (List.mem_range'_1.mp hi).1 with rfl | hlt
  · rw [modeBuffer_edge low _ hoff]
    exact hfind _ List.mem_cons_self
  · rw [modeBuffer_zeros hlt]
    exact hfind 0 (List.mem_cons_of_mem _ List.mem_cons_self)

/-- And any mode that passes may be found. -/
theorem scan_modeStack (hoff : off + 2 ≤ 4096) (hm : m ≠ 0xffff) (hp : p m = true) :
    scanFrom p (modeBuffer (low.take infoBlockSize) off (modeStack m)) (wholeEntries off)
      (4096 - off - wholeEntries off) ≠ none := by
  have hgo : ∀ e ∈ (List.range' (wholeEntries off) (4096 - off - wholeEntries off)).map
      (modeBuffer (low.take infoBlockSize) off (modeStack m)), (!decide (e = 0xffff)) = true := by
    intro e he
    obtain ⟨i, hi, rfl⟩ := List.mem_map.mp he
    rw [Bool.not_eq_true', decide_eq_false_iff_not]
    rcases Nat.eq_or_lt_of_le (List.mem_range'_1.mp hi).1 with rfl | hlt
    · rw [modeBuffer_edge low _ hoff]
      exact edgeMode_ne low off
    · exact modeBuffer_modeStack_ne hm hlt
  rw [scanFrom, List.takeWhile_eq_self_iff.mpr hgo]
  refine fun hnone => List.find?_eq_none.mp hnone m ?_ hp
  refine List.mem_map.mpr
    ⟨4096 - off - 1, List.mem_range'_1.mpr ?_, modeBuffer_modeStack m (by omega)⟩
  unfold wholeEntries infoBlockSize
  omega

end Scan

/-! ## Finding a mode -/

/-- The list goes on behind the block.  What is found there is one of the two modes that are seen,
or, if neither passes, may be any mode that does. -/
def BehindAgrees (answer : UInt16 → Option ModeInfo) (res : Resolution) (low : List UInt8)
    (off : Nat) (modes : List UInt16) : Prop :=
  (∀ m, [edgeMode low off, 0].find? (passes answer res) = some m →
    modes.find? (suits answer res) = some m) ∧
  ([edgeMode low off, 0].find? (passes answer res) = none →
    ∀ m, m ≠ 0xffff → ¬ passes answer res m)

/-- The first mode in the block that passes is one that is looked for.  If there is none, the list
ends in the block, or what is behind it agrees with the list. -/
def ListAgrees (answer : UInt16 → Option ModeInfo) (res : Resolution) (low : List UInt8)
    (off : Nat) (modes : List UInt16) : Prop :=
  (∀ m, (modes.take (wholeEntries off)).find? (passes answer res) = some m →
    suits answer res m) ∧
  ((modes.take (wholeEntries off)).find? (passes answer res) = none →
    modes.length < wholeEntries off ∨ BehindAgrees answer res low off modes)

section Find

variable {bios : Bios} {answer : UInt16 → Option ModeInfo} {res : Resolution} {s : LowMem}
  {low : List UInt8} {off : Nat} {modes : List UInt16} {stack : Nat → UInt8} {m : UInt16}

/-- What the search returns is what the loop sees. -/
theorem findsMode_scan (hanswers : AnswersModes bios answer)
    (hok : vbeOk (callInfoBlock bios s).1.eax) (hlow : (callInfoBlock bios s).2.buffer = low)
    (hoff : modeOff bios low = off) (hle : off ≤ 4096) (res : Resolution) :
    FindsMode bios answer res modes stack s ↔
      scanFrom (passes answer res) (modeBuffer (low.take infoBlockSize) off stack) 0 (4096 - off) =
        modes.find? (suits answer res) := by
  have hloop := vesaFindModeLoop_eq hanswers res (modeBuffer (low.take infoBlockSize) off stack)
    (4096 - off) 0 (callInfoBlock bios s).2
  have hrun : vesaFindMode bios res none stack s =
      some (vesaFindModeLoop bios res none (modeBuffer (low.take infoBlockSize) off stack)
        (4096 - off) 0 (callInfoBlock bios s).2) := by
    unfold vesaFindMode vesaGetInfoBlock
    dsimp only
    rw [if_pos hok, hlow]
    dsimp only
    rw [modeOff_take, hoff, if_neg (Nat.not_lt.mpr hle)]
  rw [FindsMode, hrun, ← modeResult_inj]
  constructor
  · rintro ⟨s', hsame⟩
    exact hloop.symm.trans (congrArg Prod.fst (Option.some.inj hsame))
  · exact fun hsame => ⟨_, congrArg some (Prod.ext (hloop.trans hsame) rfl)⟩

/-- A mode in the block that passes is returned. -/
theorem scan_some (hlist : ModeListAt low off modes)
    (hfind : (modes.take (wholeEntries off)).find? (passes answer res) = some m) :
    scanFrom (passes answer res) (modeBuffer (low.take infoBlockSize) off stack) 0 (4096 - off) =
      some m := by
  rcases Nat.lt_or_ge modes.length (wholeEntries off) with hends | hcut
  · rw [List.take_of_length_le (Nat.le_of_lt hends)] at hfind
    rw [hlist.scan_whole hends, hfind]
  · rw [hlist.scan_split hcut (Nat.le_refl _), hfind, Option.some_or]

/-- The list goes on behind the block. -/
theorem scan_behind_iff (hlist : ModeListAt low off modes)
    (hcut : wholeEntries off ≤ modes.length)
    (hnone : (modes.take (wholeEntries off)).find? (passes answer res) = none) :
    (∀ stack, scanFrom (passes answer res) (modeBuffer (low.take infoBlockSize) off stack) 0
      (4096 - off) = modes.find? (suits answer res)) ↔
      BehindAgrees answer res low off modes := by
  have hoff : off + 2 ≤ 4096 := by
    have hinside := hlist.inside
    unfold lowMemSize at hinside
    omega
  simp only [hlist.scan_split hcut (Nat.le_refl _), hnone, Option.none_or]
  constructor
  · refine fun hall => ⟨fun m hfind => ?_, fun hfind m hm hp => ?_⟩
    · rw [← hall fun _ => 0, scan_edge hoff hfind]
    · have hzeros := (hall fun _ => 0).symm.trans (scan_zeros hoff hfind)
      exact scan_modeStack hoff hm hp ((hall (modeStack m)).trans hzeros)
  · rintro ⟨hfound, hnever⟩ stack
    cases hfind : [edgeMode low off, 0].find? (passes answer res) with
    | some m => rw [scan_edge hoff hfind, hfound m hfind]
    | none =>
      have hany : ∀ m, m ≠ 0xffff → ¬ passes answer res m := hnever hfind
      have hsuits : modes.find? (suits answer res) = none :=
        List.find?_eq_none.mpr fun m hm hs => hany m (hlist.proper m hm) (passes_of_suits hs)
      rw [hsuits]
      refine List.find?_eq_none.mpr fun m hm => hany m ?_
      have hgo := List.mem_takeWhile_imp hm
      simpa using hgo

end Find

/-- The search returns the first mode of the list that is looked for, whatever was on the stack,
iff the list agrees with the test of the loop as far as the block goes, and behind it. -/
theorem findsMode_iff (bios : Bios) (answer : UInt16 → Option ModeInfo)
    (hanswers : AnswersModes bios answer) (s : LowMem)
    (hok : vbeOk (callInfoBlock bios s).1.eax) (modes : List UInt16)
    (hlist : ModeListAt (callInfoBlock bios s).2.buffer
      (modeOff bios (callInfoBlock bios s).2.buffer) modes) (res : Resolution) :
    (∀ stack, FindsMode bios answer res modes stack s) ↔
      ListAgrees answer res (callInfoBlock bios s).2.buffer
        (modeOff bios (callInfoBlock bios s).2.buffer) modes := by
  generalize hlow : (callInfoBlock bios s).2.buffer = low at hlist ⊢
  generalize hoff : modeOff bios low = off at hlist ⊢
  have hle : off ≤ 4096 := by
    have hinside := hlist.inside
    unfold lowMemSize at hinside
    omega
  simp only [findsMode_scan hanswers hok hlow hoff hle]
  unfold ListAgrees
  cases hfind : (modes.take (wholeEntries off)).find? (passes answer res) with
  | some m =>
    have hsuits := find?_strengthen
      (fun m (hm : suits answer res m) => passes_of_suits hm) hfind (modes.drop (wholeEntries off))
    rw [List.take_append_drop] at hsuits
    simp only [scan_some hlist hfind]
    constructor
    · refine fun hall => ⟨fun m' hm' => ?_, fun hnone => by cases hnone⟩
      cases hm'
      exact hsuits.mp (hall fun _ => 0).symm
    · rintro ⟨hm, -⟩ _
      exact (hsuits.mpr (hm m rfl)).symm
  | none =>
    rcases Nat.lt_or_ge modes.length (wholeEntries off) with hends | hcut
    · rw [List.take_of_length_le (Nat.le_of_lt hends)] at hfind
      have hsuits := find?_none_strengthen (fun m (hm : suits answer res m) => passes_of_suits hm)
        hfind
      refine ⟨fun _ => ⟨fun _ hm => (by cases hm), fun _ => .inl hends⟩, fun _ stack => ?_⟩
      rw [hlist.scan_whole hends, hfind, hsuits]
    · rw [scan_behind_iff hlist hcut hfind]
      refine ⟨fun h => ⟨fun _ hm => (by cases hm), fun _ => .inr h⟩, ?_⟩
      rintro ⟨-, h⟩
      exact (h rfl).resolve_left (Nat.not_lt.mpr hcut)

/-! ## A card with one mode -/

/-- The block, with the list behind its reserved bytes. -/
def cardBlock : List UInt8 :=
  [0x56, 0x45, 0x53, 0x41] ++ List.replicate 10 0 ++ [0x22, 0, 0, 0x08] ++ List.replicate 16 0 ++
    [0x01, 0x01, 0xff, 0xff] ++ List.replicate 4058 0

/-- Mode 0x101 has 800 by 600 pixels of 32 bits. -/
def cardMode (attrs : UInt8) : List UInt8 :=
  [attrs, 0] ++ List.replicate 16 0 ++ [0x20, 0x03, 0x58, 0x02, 0, 0, 0, 32, 0, 6] ++
    List.replicate 228 0

/-- The BIOS of the card. -/
def cardBios (attrs : UInt8) : Bios :=
  { plainBios with
    interrupt := fun _ regs s =>
      if regs.eax = 0x4f00 then ({ regs with eax := 0x4f }, { s with buffer := cardBlock })
      else if regs.ecx = 0x101 then
        ({ regs with eax := 0x4f }, { s with buffer := cardMode attrs })
      else ({ regs with eax := 0x14f }, s) }

/-- Its answers. -/
def cardAnswer (attrs : UInt8) (m : UInt16) : Option ModeInfo :=
  if m = 0x101 then some (readModeInfo (cardMode attrs)) else none

theorem cardBios_answers (attrs : UInt8) : AnswersModes (cardBios attrs) (cardAnswer attrs) := by
  intro mode regs s heax hecx _
  by_cases hmode : mode = 0x101
  · rw [hmode] at hecx
    simp [cardBios, cardAnswer, heax, hecx, hmode, vbeOk]
    decide
  · have hother : mode.toUInt32 ≠ 0x101 := by
      intro h
      apply hmode
      apply UInt16.toNat_inj.mp
      simpa using congrArg UInt32.toNat h
    simp [cardBios, cardAnswer, heax, hecx, hother, hmode, vbeOk]
    decide

/-- The list is behind the reserved bytes. -/
theorem cardBlock_off (attrs : UInt8) :
    modeOff (cardBios attrs) (callInfoBlock (cardBios attrs) zeroLowMem).2.buffer = 34 := by
  show modeOff (cardBios 0) cardBlock = 34
  decide +kernel

theorem cardBlock_modes (attrs : UInt8) :
    ModeListAt (callInfoBlock (cardBios attrs) zeroLowMem).2.buffer
      (modeOff (cardBios attrs) (callInfoBlock (cardBios attrs) zeroLowMem).2.buffer) [0x101] := by
  rw [cardBlock_off]
  refine ⟨by decide, fun i hi => ?_, by simp, ?_⟩
  · obtain rfl : i = 0 := by simpa using hi
    show UInt16.ofNat (wordOf cardBlock 34) = 0x101
    decide +kernel
  · show UInt16.ofNat (wordOf cardBlock 36) = 0xffff
    decide +kernel

/-- A mode with both bits. -/
theorem findsMode_linear :
    suits (cardAnswer 0x9b) ⟨800, 600, 32⟩ 0x101 ∧
    ∀ stack, FindsMode (cardBios 0x9b) (cardAnswer 0x9b) ⟨800, 600, 32⟩ [0x101] stack
      zeroLowMem := by
  have hsuits : suits (cardAnswer 0x9b) ⟨800, 600, 32⟩ 0x101 := by decide +kernel
  have hfind : ([0x101].take (wholeEntries 34)).find? (passes (cardAnswer 0x9b) ⟨800, 600, 32⟩) =
      some 0x101 := by decide +kernel
  refine ⟨hsuits, (findsMode_iff (cardBios 0x9b) (cardAnswer 0x9b) (cardBios_answers 0x9b) zeroLowMem
    (by decide +kernel) [0x101] (cardBlock_modes 0x9b) ⟨800, 600, 32⟩).mpr ?_⟩
  rw [cardBlock_off]
  refine ⟨fun m hm => ?_, fun hnone => ?_⟩
  · rw [hfind] at hm
    cases hm
    exact hsuits
  · rw [hfind] at hnone
    cases hnone

/-- A mode without a linear framebuffer is returned as well. -/
theorem findsMode_banked :
    AnswersModes (cardBios 0x1b) (cardAnswer 0x1b) ∧
    vbeOk (callInfoBlock (cardBios 0x1b) zeroLowMem).1.eax ∧
    ModeListAt (callInfoBlock (cardBios 0x1b) zeroLowMem).2.buffer
      (modeOff (cardBios 0x1b) (callInfoBlock (cardBios 0x1b) zeroLowMem).2.buffer) [0x101] ∧
    ¬ FindsMode (cardBios 0x1b) (cardAnswer 0x1b) ⟨800, 600, 32⟩ [0x101] (fun _ => 0)
      zeroLowMem := by
  refine ⟨cardBios_answers 0x1b, by decide +kernel, cardBlock_modes 0x1b, ?_⟩
  rintro ⟨s', hrun⟩
  have hresult := congrArg (Option.map Prod.fst) hrun
  revert hresult
  show ¬ (vesaFindMode (cardBios 0x1b) ⟨800, 600, 32⟩ none (fun _ => 0) zeroLowMem).map Prod.fst =
    some (modeResult ([0x101].find? (suits (cardAnswer 0x1b) ⟨800, 600, 32⟩)))
  decide +kernel

end Microboot.Kern.Io
