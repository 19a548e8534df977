/-
  Kern/Io/Keyboard.lean --- scancodes to characters, kern/io/keyboard.c.

  One flag says whether a shift key is held.  Both keys set it when they go down; when
  they come up only the left one clears it, for the test names that key twice.  The
  flag is right as long as the right key does not come up alone, and the left key not
  while the right one is held.

  A scancode behind the shift codes is an index of one of two tables of 58 characters,
  and 58 is taken for one, too: the byte behind a table is a parameter.  The model
  keeps what the code does not, the scancodes seen so far and the table that each
  character came from.
-/
import Microboot.Foundation.Run
import Microboot.Kern.Stdlib

set_option autoImplicit false

namespace Microboot.Kern.Io

open Microboot.Foundation

/-! ## The model -/

/-- `KB_LSHIFT` -/
def kbLshift : UInt8 := 42

/-- `KB_RSHIFT` -/
def kbRshift : UInt8 := 54

/-- `KB_UP_LSHIFT` -/
def kbUpLshift : UInt8 := 170

/-- `KB_UP_RSHIFT` -/
def kbUpRshift : UInt8 := 182

/-- `scancode_pc104_lut`, from the digits, `q`, `a` and `z` on a line each. -/
def scancodePc104Lut : List UInt8 :=
  [0, 19, 49, 50, 51, 52, 53, 54, 55, 56, 57, 48, 45, 61, 8,
    9, 113, 119, 101, 114, 116, 121, 117, 105, 111, 112, 91, 93, 10,
    0, 97, 115, 100, 102, 103, 104, 106, 107, 108, 59, 39, 0, 0, 0,
    122, 120, 99, 118, 98, 110, 109, 44, 46, 47, 0, 0, 0, 32]

/-- `scancode_pc104_shift_lut` -/
def scancodePc104ShiftLut : List UInt8 :=
  [0, 19, 33, 64, 35, 36, 37, 94, 38, 42, 40, 41, 95, 43, 8,
    9, 81, 87, 69, 82, 84, 89, 85, 73, 79, 80, 123, 125, 10,
    0, 65, 83, 68, 70, 71, 72, 74, 75, 76, 58, 34, 0, 0, 0,
    90, 88, 67, 86, 66, 78, 77, 60, 62, 63, 0, 0, 0, 32]

/-- A read of a table, with what was seen before the scancode. -/
structure Lookup where
  shifted : Bool
  index : Nat
  seen : List UInt8
  deriving DecidableEq, Repr

/-- `shift`, and what the code does not keep: the scancodes seen and the tables read. -/
structure Keyboard where
  shift : Bool
  seen : List UInt8
  lookups : List Lookup
  deriving DecidableEq, Repr

/-- The state at the start. -/
def keyboardInit : Keyboard := { shift := false, seen := [], lookups := [] }

/-- A scancode's character, with the read that it comes from. -/
structure Code where
  value : UInt8
  source : Option Lookup
  deriving DecidableEq, Repr

/-- `uint8_t code = 0;` -/
def Code.zero : Code := { value := 0, source := none }

/-- What is at an index of one of the tables; `behind` has the byte behind each. -/
def lutAt (behind : Bool → UInt8) (shifted : Bool) (index : Nat) : UInt8 :=
  (if shifted then scancodePc104ShiftLut else scancodePc104Lut).getD index (behind shifted)

/-- `keyboard_convert_scancode(scancode)` -/
def keyboardConvertScancode (behind : Bool → UInt8) (kb : Keyboard) (scancode : UInt8) :
    Code × Keyboard :=
  if scancode.toNat > scancodePc104Lut.length then (.zero, kb)
  else
    let lookup : Lookup := { shifted := kb.shift, index := scancode.toNat, seen := kb.seen }
    ({ value := lutAt behind kb.shift scancode.toNat, source := some lookup },
      { kb with lookups := lookup :: kb.lookups })

/-- The body of the loop of `keyboard_getchar`, for the scancode that was polled. -/
def keyboardRound (behind : Bool → UInt8) (code : Code) (kb : Keyboard) (rawCode : UInt8) :
    Code × Keyboard :=
  let (code, kb) :=
    if rawCode = kbLshift ∨ rawCode = kbRshift then (code, { kb with shift := true })
    else if rawCode = kbUpLshift ∨ rawCode = kbUpLshift then (code, { kb with shift := false })
    else keyboardConvertScancode behind kb rawCode
  (code, { kb with seen := kb.seen ++ [rawCode] })

/-- The loop of `keyboard_getchar(retry)` over the scancodes to come: what it returns, and the
scancodes left.  Without one to poll it waits, and returns nothing. -/
def keyboardLoop (behind : Bool → UInt8) (retry : Bool) :
    Code → Keyboard → List UInt8 → Option Code × Keyboard × List UInt8
  | _, kb, [] => (none, kb, [])
  | code, kb, rawCode :: codes =>
    let (code, kb) := keyboardRound behind code kb rawCode
    if retry ∧ code.value = 0 then keyboardLoop behind retry code kb codes
    else (some code, kb, codes)

/-- `keyboard_getchar(retry)` -/
def keyboardGetchar (behind : Bool → UInt8) (retry : Bool) (kb : Keyboard) (codes : List UInt8) :
    Option Code × Keyboard × List UInt8 :=
  keyboardLoop behind retry .zero kb codes

/-- Calls of `keyboard_getchar`, one after the other: what they return, and the state. -/
def keyboardRun (behind : Bool → UInt8) :
    List Bool → Keyboard → List UInt8 → List Code × Keyboard
  | [], kb, _ => ([], kb)
  | retry :: calls, kb, codes =>
    match keyboardGetchar behind retry kb codes with
    | (none, kb, _) => ([], kb)
    | (some code, kb, codes) =>
      let (rest, kb) := keyboardRun behind calls kb codes
      (code :: rest, kb)

/-! ## The keys that are held -/

/-- Whether the left and the right shift key are held. -/
structure Shifts where
  left : Bool
  right : Bool
  deriving DecidableEq, Repr

/-- A scancode changes that if it is of a shift key that goes down or comes up. -/
def Shifts.step (held : Shifts) (code : UInt8) : Shifts :=
  if code = kbLshift then { held with left := true }
  else if code = kbUpLshift then { held with left := false }
  else if code = kbRshift then { held with right := true }
  else if code = kbUpRshift then { held with right := false }
  else held

/-- The shift keys that are held after the scancodes. -/
def shiftsAfter (codes : List UInt8) : Shifts :=
  codes.foldl Shifts.step { left := false, right := false }

/-- A shift key is held. -/
def Shifts.Held (held : Shifts) : Prop := held.left = true ∨ held.right = true

instance (held : Shifts) : Decidable held.Held := inferInstanceAs (Decidable (_ ∨ _))

/-- The characters that are returned come from the table for the keys that are held, and no
read is off a table. -/
def ShiftsRight (behind : Bool → UInt8) (run : List Code × Keyboard) : Prop :=
  (∀ code ∈ run.1, code.value ≠ 0 → ∃ lookup, code.source = some lookup ∧
    code.value = lutAt behind lookup.shifted lookup.index ∧
    (lookup.shifted = true ↔ (shiftsAfter lookup.seen).Held)) ∧
    ∀ lookup ∈ run.2.lookups, lookup.index < scancodePc104Lut.length

/-- The flag follows: the right key does not come up alone, nor the left key while the right
one is held.  The scancode is not the one behind the tables. -/
def Shifts.Follows (held : Shifts) (code : UInt8) : Prop :=
  code ≠ 58 ∧ (code = kbUpLshift → held.right = false) ∧
    (code = kbUpRshift → held.right = true → held.left = true)

instance (held : Shifts) (code : UInt8) : Decidable (held.Follows code) :=
  inferInstanceAs (Decidable (_ ∧ _ ∧ _))

/-- Every scancode is one that the flag follows. -/
def AllFollow : Shifts → List UInt8 → Prop
  | _, [] => True
  | held, code :: codes => held.Follows code ∧ AllFollow (held.step code) codes

instance decidableAllFollow : (held : Shifts) → (codes : List UInt8) →
    Decidable (AllFollow held codes)
  | _, [] => inferInstanceAs (Decidable True)
  | held, code :: codes =>
    have := decidableAllFollow (held.step code) codes
    inferInstanceAs (Decidable (held.Follows code ∧ AllFollow (held.step code) codes))

/-! ## The flag -/

section Flag

variable {behind : Bool → UInt8} {kb : Keyboard} {code : Code} {held : Shifts} {c : UInt8}
  {codes : List UInt8}

theorem shiftsAfter_snoc (codes : List UInt8) (c : UInt8) :
    shiftsAfter (codes ++ [c]) = (shiftsAfter codes).step c := by
  unfold shiftsAfter
  rw [List.foldl_append]
  rfl

/-- The flag behind a scancode. -/
def nextShift (shift : Bool) (c : UInt8) : Bool :=
  if c = kbLshift ∨ c = kbRshift then true else if c = kbUpLshift then false else shift

/-- A flag that was right is right again exactly if it follows. -/
theorem nextShift_iff (hc : c ≠ 58) {shift : Bool} (h : shift = true ↔ held.Held) :
    (nextShift shift c = true ↔ (held.step c).Held) ↔ held.Follows c := by
  obtain ⟨left, right⟩ := held
  obtain rfl : shift = (left || right) := by
    rw [Bool.eq_iff_iff, h, Bool.or_eq_true]
    rfl
  clear h
  unfold nextShift Shifts.step Shifts.Follows Shifts.Held
  by_cases hl : c = kbLshift
  · subst hl
    revert left right
    decide
  by_cases hul : c = kbUpLshift
  · subst hul
    revert left right
    decide
  by_cases hr : c = kbRshift
  · subst hr
    revert left right
    decide
  by_cases hur : c = kbUpRshift
  · subst hur
    revert left right
    decide
  simp [hl, hul, hr, hur, hc]

/-- What a round leaves behind, and where its character is from. -/
theorem keyboardRound_spec (behind : Bool → UInt8) (code : Code) (kb : Keyboard) (c : UInt8) :
    (keyboardRound behind code kb c).2.shift = nextShift kb.shift c ∧
      (keyboardRound behind code kb c).2.seen = kb.seen ++ [c] ∧
      ((keyboardRound behind code kb c).2.lookups = kb.lookups ∧
          ((keyboardRound behind code kb c).1 = code ∨
            (keyboardRound behind code kb c).1 = .zero) ∨
        (∃ lookup : Lookup, lookup = ⟨kb.shift, c.toNat, kb.seen⟩ ∧ c.toNat ≤ 58 ∧
          (keyboardRound behind code kb c).2.lookups = lookup :: kb.lookups ∧
          (keyboardRound behind code kb c).1 =
            ⟨lutAt behind kb.shift c.toNat, some lookup⟩)) := by
  have hlength : scancodePc104Lut.length = 58 := rfl
  unfold keyboardRound nextShift
  by_cases hdown : c = kbLshift ∨ c = kbRshift
  · simp [hdown]
  by_cases hup : c = kbUpLshift
  · subst hup
    simp [show ¬ (kbUpLshift = kbLshift ∨ kbUpLshift = kbRshift) by decide]
  unfold keyboardConvertScancode
  by_cases hbig : c.toNat > scancodePc104Lut.length
  · simp [hdown, hup, hbig]
  · have hindex : c.toNat ≤ 58 := by omega
    simp [hdown, hup, hbig, hindex]

end Flag

/-! ## Runs -/

section Runs

variable {behind : Bool → UInt8} {kb : Keyboard} {code : Code} {held : Shifts} {c : UInt8}
  {codes : List UInt8} {retry : Bool}

/-- The read was of the table for the keys that were held, and not off it. -/
def Lookup.Right (lookup : Lookup) : Prop :=
  (lookup.shifted = true ↔ (shiftsAfter lookup.seen).Held) ∧ lookup.index < 58

/-- A character from a read that was right, or none. -/
def Code.Right (behind : Bool → UInt8) (code : Code) : Prop :=
  code.value = 0 ∨ ∃ lookup, code.source = some lookup ∧
    code.value = lutAt behind lookup.shifted lookup.index ∧ lookup.Right

/-- The flag says whether a shift key is held, and every read was right. -/
structure KeyboardInv (kb : Keyboard) : Prop where
  shift : kb.shift = true ↔ (shiftsAfter kb.seen).Held
  lookups : ∀ lookup ∈ kb.lookups, lookup.Right

theorem keyboardInit_inv : KeyboardInv keyboardInit where
  shift := by decide
  lookups _ h := by cases h

theorem Code.zero_right : Code.zero.Right behind := .inl rfl

/-- A round with a scancode that the flag follows. -/
theorem keyboardRound_inv (behind : Bool → UInt8) (hkb : KeyboardInv kb) (hcode : code.Right behind)
    (hc : (shiftsAfter kb.seen).Follows c) :
    KeyboardInv (keyboardRound behind code kb c).2 ∧
      (keyboardRound behind code kb c).1.Right behind := by
  obtain ⟨hshift, hseen, hread⟩ := keyboardRound_spec behind code kb c
  have hflag : (keyboardRound behind code kb c).2.shift = true ↔
      (shiftsAfter (keyboardRound behind code kb c).2.seen).Held := by
    rw [hshift, hseen, shiftsAfter_snoc]
    exact (nextShift_iff hc.1 hkb.shift).mpr hc
  rcases hread with ⟨hlookups, hvalue⟩ | ⟨lookup, rfl, hindex, hlookups, hvalue⟩
  · refine ⟨⟨hflag, by rw [hlookups]; exact hkb.lookups⟩, ?_⟩
    rcases hvalue with hvalue | hvalue
    · rw [hvalue]
      exact hcode
    · rw [hvalue]
      exact Code.zero_right
  · have hne : c.toNat ≠ 58 := fun h => hc.1 (UInt8.toNat_inj.mp h)
    have hright : Lookup.Right ⟨kb.shift, c.toNat, kb.seen⟩ :=
      ⟨hkb.shift, Nat.lt_of_le_of_ne hindex hne⟩
    refine ⟨⟨hflag, ?_⟩, ?_⟩
    · rw [hlookups]
      exact List.forall_mem_cons.mpr ⟨hright, hkb.lookups⟩
    · rw [hvalue]
      exact .inr ⟨_, rfl, rfl, hright⟩

/-- A call that is given scancodes that the flag follows. -/
theorem keyboardLoop_inv (hkb : KeyboardInv kb) (hcode : code.Right behind)
    (hcodes : AllFollow (shiftsAfter kb.seen) codes) {result : Option Code} {kb' : Keyboard}
    {rest : List UInt8} (hloop : keyboardLoop behind retry code kb codes = (result, kb', rest)) :
    KeyboardInv kb' ∧ AllFollow (shiftsAfter kb'.seen) rest ∧
      ∀ code ∈ result, code.Right behind := by
  induction codes generalizing code kb with
  | nil =>
    cases hloop
    exact ⟨hkb, trivial, fun _ h => by cases h⟩
  | cons c codes ih =>
    obtain ⟨hc, hrest⟩ := hcodes
    obtain ⟨hkb₁, hcode₁⟩ := keyboardRound_inv behind hkb hcode hc
    rw [← shiftsAfter_snoc, ← (keyboardRound_spec behind code kb c).2.1] at hrest
    rw [keyboardLoop] at hloop
    dsimp only at hloop
    split at hloop
    · exact ih hkb₁ hcode₁ hrest hloop
    · cases hloop
      refine ⟨hkb₁, hrest, ?_⟩
      rintro _ ⟨⟩
      exact hcode₁

/-- Calls that are given such scancodes. -/
theorem keyboardRun_inv (behind : Bool → UInt8) (calls : List Bool) (hkb : KeyboardInv kb)
    (hcodes : AllFollow (shiftsAfter kb.seen) codes) :
    (∀ code ∈ (keyboardRun behind calls kb codes).1, code.Right behind) ∧
      KeyboardInv (keyboardRun behind calls kb codes).2 := by
  induction calls generalizing kb codes with
  | nil => exact ⟨(fun _ h => by cases h), hkb⟩
  | cons retry calls ih =>
    obtain ⟨result, kb₁, rest, hcall⟩ : ∃ result kb₁ rest,
        keyboardGetchar behind retry kb codes = (result, kb₁, rest) := ⟨_, _, _, rfl⟩
    obtain ⟨hkb₁, hrest, hresult⟩ := keyboardLoop_inv hkb Code.zero_right hcodes hcall
    rw [keyboardRun, hcall]
    cases result with
    | none => exact ⟨(fun _ h => by cases h), hkb₁⟩
    | some code =>
      obtain ⟨hall, hkb'⟩ := ih hkb₁ hrest
      exact ⟨List.forall_mem_cons.mpr ⟨hresult code rfl, hall⟩, hkb'⟩

/-- A call without retry takes one scancode. -/
theorem keyboardRun_cons (behind : Bool → UInt8) (calls : List Bool) (kb : Keyboard) (c : UInt8)
    (codes : List UInt8) :
    keyboardRun behind (false :: calls) kb (c :: codes) =
      ((keyboardRound behind .zero kb c).1 ::
          (keyboardRun behind calls (keyboardRound behind .zero kb c).2 codes).1,
        (keyboardRun behind calls (keyboardRound behind .zero kb c).2 codes).2) := by
  rw [keyboardRun, keyboardGetchar, keyboardLoop]
  simp

/-- Calls that take the scancodes one by one, up to the last ones. -/
theorem keyboardRun_append (behind : Bool → UInt8) (calls : List Bool) (codes : List UInt8) :
    ∀ (done : List UInt8) (kb : Keyboard), KeyboardInv kb → AllFollow (shiftsAfter kb.seen) done →
    ∃ chars kb₁, KeyboardInv kb₁ ∧ kb₁.seen = kb.seen ++ done ∧
      keyboardRun behind (List.replicate done.length false ++ calls) kb (done ++ codes) =
        (chars ++ (keyboardRun behind calls kb₁ codes).1,
          (keyboardRun behind calls kb₁ codes).2) := by
  intro done
  induction done with
  | nil => exact fun kb hkb _ => ⟨[], kb, hkb, (List.append_nil _).symm, rfl⟩
  | cons c done ih =>
    rintro kb hkb ⟨hc, hdone⟩
    obtain ⟨hkb₁, -⟩ := keyboardRound_inv behind hkb Code.zero_right hc
    have hseen := (keyboardRound_spec behind .zero kb c).2.1
    rw [← shiftsAfter_snoc, ← hseen] at hdone
    obtain ⟨chars, kb₂, hkb₂, hseen₂, hrun⟩ := ih _ hkb₁ hdone
    refine ⟨(keyboardRound behind .zero kb c).1 :: chars, kb₂, hkb₂, ?_, ?_⟩
    · rw [hseen₂, hseen, List.append_assoc, List.singleton_append]
    · rw [List.length_cons, List.replicate_succ, List.cons_append, List.cons_append,
        keyboardRun_cons, hrun]
      rfl

/-- The first scancode that the flag does not follow. -/
theorem exists_not_follows (h : ¬ AllFollow held codes) :
    ∃ done c rest, codes = done ++ c :: rest ∧ AllFollow held done ∧
      ¬ (done.foldl Shifts.step held).Follows c := by
  induction codes generalizing held with
  | nil => exact absurd trivial h
  | cons c codes ih =>
    by_cases hc : held.Follows c
    · obtain ⟨done, c', rest, rfl, hdone, hnot⟩ := ih fun hrest => h ⟨hc, hrest⟩
      exact ⟨c :: done, c', rest, rfl, ⟨hc, hdone⟩, hnot⟩
    · exact ⟨[], c, codes, rfl, trivial, hc⟩

theorem letter_ne_zero (behind : Bool → UInt8) (shifted : Bool) : lutAt behind shifted 30 ≠ 0 := by
  cases shifted
  · exact (by decide : (97 : UInt8) ≠ 0)
  · exact (by decide : (65 : UInt8) ≠ 0)

/-- A scancode that is looked up. -/
theorem keyboardRound_lookup (hc : c = 30 ∨ c = 58) :
    keyboardRound behind code kb c =
      (⟨lutAt behind kb.shift c.toNat, some ⟨kb.shift, c.toNat, kb.seen⟩⟩,
        ⟨kb.shift, kb.seen ++ [c], ⟨kb.shift, c.toNat, kb.seen⟩ :: kb.lookups⟩) := by
  rcases hc with rfl | rfl
  · rfl
  · rfl

/-- Behind a scancode that the flag does not follow, the next letter is from the wrong table, or
a read was off one. -/
theorem not_shiftsRight_letter (behind : Bool → UInt8) (hkb : KeyboardInv kb)
    (hc : ¬ (shiftsAfter kb.seen).Follows c) (chars : List Code) :
    ¬ ShiftsRight behind (chars ++ (keyboardRun behind [false, false] kb [c, 30]).1,
      (keyboardRun behind [false, false] kb [c, 30]).2) := by
  rw [keyboardRun_cons, keyboardRun_cons, keyboardRound_lookup (c := 30) (.inl rfl)]
  rintro ⟨hchars, hlookups⟩
  by_cases hoff : c = 58
  · -- the read off the table is on record
    rw [keyboardRound_lookup (.inr hoff)] at hlookups
    have hread := hlookups ⟨kb.shift, c.toNat, kb.seen⟩
      (List.mem_cons_of_mem _ List.mem_cons_self)
    rw [hoff] at hread
    exact Nat.lt_irrefl 58 hread
  · obtain ⟨hshift, hseen, -⟩ := keyboardRound_spec behind .zero kb c
    obtain ⟨lookup, hsource, -, hletter⟩ := hchars _
      (List.mem_append_right _ (List.mem_cons_of_mem _ List.mem_cons_self)) (letter_ne_zero _ _)
    cases hsource
    rw [hshift, hseen, shiftsAfter_snoc] at hletter
    exact hc ((nextShift_iff hoff hkb.shift).mp hletter)

/-- The flag follows every scancode, and then every character is from the table for the keys
that are held; behind the first scancode that it does not follow, a letter is not. -/
theorem keyboardRun_shiftsRight_iff (behind : Bool → UInt8) (codes : List UInt8) :
    (AllFollow (shiftsAfter []) codes →
        ∀ calls, ShiftsRight behind (keyboardRun behind calls keyboardInit codes)) ∧
      (¬ AllFollow (shiftsAfter []) codes → ∃ done rest, codes = done ++ rest ∧
        ∃ calls, ¬ ShiftsRight behind (keyboardRun behind calls keyboardInit (done ++ [30]))) := by
  constructor
  · intro hcodes calls
    obtain ⟨hchars, hkb⟩ := keyboardRun_inv behind calls keyboardInit_inv hcodes
    refine ⟨fun code hcode hne => ?_, fun lookup hlookup => (hkb.lookups lookup hlookup).2⟩
    obtain hzero | ⟨lookup, hsource, hvalue, hright⟩ := hchars code hcode
    · exact absurd hzero hne
    · exact ⟨lookup, hsource, hvalue, hright.1⟩
  · intro hcodes
    obtain ⟨done, c, rest, rfl, hdone, hc⟩ := exists_not_follows hcodes
    obtain ⟨chars, kb₁, hkb₁, hseen, hrun⟩ := keyboardRun_append behind [false, false] [c, 30] done
      keyboardInit keyboardInit_inv hdone
    refine ⟨done ++ [c], rest, by simp, List.replicate done.length false ++ [false, false], ?_⟩
    rw [List.append_assoc, List.singleton_append, hrun]
    refine not_shiftsRight_letter behind hkb₁ ?_ chars
    rw [hseen]
    exact hc

/-- The left key goes down, comes up, and a letter is typed with either. -/
theorem keyboardRun_shiftsRight_left :
    ShiftsRight (fun _ => 0)
      (keyboardRun (fun _ => 0) [true, true] keyboardInit [42, 30, 170, 30]) :=
  (keyboardRun_shiftsRight_iff (fun _ => 0) [42, 30, 170, 30]).1 (by decide) [true, true]

/-- The right key has come up, and the letter is a capital. -/
theorem rightShift_sticks :
    ¬ ShiftsRight (fun _ => 0) (keyboardRun (fun _ => 0) [true] keyboardInit [54, 182, 30]) := by
  rintro ⟨hchars, -⟩
  obtain ⟨lookup, hsource, -, hshift⟩ := hchars ⟨65, some ⟨true, 30, [54, 182]⟩⟩
    (by decide +kernel) (by decide)
  cases hsource
  exact absurd (hshift.mp rfl) (by decide)

end Runs

end Microboot.Kern.Io
