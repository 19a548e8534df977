/-
  Kern/FormatNames.lean --- names and numerals that sprintf writes, kern/printf.c.

  A specifier without flags, width and precision prints the numeral that `itoa` writes,
  and `%d` the one that the names of devices end in.  `fat_create` makes its name with two
  calls of `sprintf`, the second of which reads what the first has written.
-/
import Microboot.Kern.FormatRead
import Microboot.Kern.Io.Names

set_option autoImplicit false

namespace Microboot.Kern.Printf

open Microboot.Foundation

/-! ## Plain numbers -/

/-- A conversion without flags, width and precision. -/
def plain : Spec := { flags := {}, width := 0, precision := 0 }

section Plain

variable {c : UInt8} {w : UInt32} {value base : Nat} {flags : Flags}

/-- Without flags, width and precision a sign and the digits are printed. -/
theorem ntoaText_plain {negative : Bool} (hflags : flags.zeropad = false ∧ flags.left = false ∧
    flags.plus = false ∧ flags.space = false ∧ flags.hash = false ∧ flags.precision = false)
    (hbase : 2 ≤ base) (hvalue : value < base ^ ntoaBufferSize)
    (hroom : negative = true → value < base ^ 31) :
    ntoaText value negative base 0 0 flags =
      (if negative then [45] else []) ++ digitsText flags base value := by
  obtain ⟨hzero, hleft, hplus, hspace, hhash, hprec⟩ := hflags
  have hshown : shownDigits flags base value = digitsText flags base value := by
    rw [shownDigits, hprec]
    rfl
  have hzeros : leadingZeros flags 0 0 (signOf negative flags).length
      (digitsText flags base value).length = 0 := by
    simp [leadingZeros, hleft, hzero]
  have hfits : (if (digitsText flags base value).length < ntoaBufferSize then
      signOf negative flags else []) = if negative then [45] else [] := by
    cases negative with
    | false => simp [signOf, hplus, hspace]
    | true =>
      have hlen : (digitsText flags base value).length ≤ 31 :=
        length_digitsText_le hbase (hroom rfl) (by decide)
      have hlt : (digitsText flags base value).length < ntoaBufferSize := Nat.lt_succ_of_le hlen
      rw [if_pos hlt]
      rfl
  rw [ntoaText_eq hhash hbase hvalue, hzero, if_neg (fun h => Bool.false_ne_true h.1)]
  unfold padded numberBody
  dsimp only
  rw [hleft, hshown, hzeros, Nat.add_zero, hfits]
  simp

theorem ntoaDigits_eq {room : Nat} {buf : NtoaBuf} (h : buf.len + room = ntoaBufferSize) :
    (ntoaLoop {} 10 room value buf h).chars = buf.chars ++ ntoaDigits room value := by
  induction room generalizing value buf with
  | zero => exact (List.append_nil _).symm
  | succ room ih =>
    have hdigit : ntoaDigit {} (value % 10) = UInt8.ofNat (48 + value % 10) := by
      rw [ntoaDigit, if_pos (Nat.mod_lt _ (by decide))]
    rw [ntoaLoop, ntoaDigits, ← hdigit]
    split
    · rfl
    · rw [ih]
      exact List.append_assoc _ [_] _

/-- `%d` prints the numeral that names end in. -/
theorem integerText_d : integerText 100 plain w = formatInt w.toInt32.toInt := by
  have hlow := Int32.le_toInt w.toInt32
  have hhigh := Int32.toInt_lt w.toInt32
  have hneg : (decide (w.toInt32 < 0) = true) ↔ w.toInt32.toInt < 0 := by
    rw [decide_eq_true_iff, Int32.lt_iff_toInt_lt]
    rfl
  have hvalue : w.toInt32.toInt.natAbs < 10 ^ ntoaBufferSize := by
    rw [show ntoaBufferSize = 32 from rfl]
    omega
  have hdigits : ntoaDigits ntoaBufferSize w.toInt32.toInt.natAbs =
      (digitsText {} 10 w.toInt32.toInt.natAbs).reverse := by
    have hloop : (ntoaLoop {} 10 ntoaBufferSize w.toInt32.toInt.natAbs .empty
        (Nat.zero_add _)).chars = NtoaBuf.empty.chars ++
          (digitsText {} 10 w.toInt32.toInt.natAbs).reverse :=
      chars_ntoaLoop (by decide) (by decide) hvalue _
    exact List.append_cancel_left ((ntoaDigits_eq _).symm.trans hloop)
  unfold formatInt
  rw [hdigits, List.reverse_append, List.reverse_reverse]
  have hplain : integerText 100 plain w = ntoaText w.toInt32.toInt.natAbs
      (decide (w.toInt32 < 0)) 10 0 0 {} := rfl
  rw [hplain, ntoaText_plain (by decide) (by decide) hvalue (fun _ => by omega)]
  congr 1
  by_cases h : w.toInt32.toInt < 0
  · rw [if_pos (hneg.mpr h), if_pos h]
    rfl
  · rw [if_neg (mt hneg.mp h), if_neg h]
    rfl

/-- The digits of `printf` are those of `itoa`, where there are no small letters. -/
theorem digitsText_eq_numeral (hbase : 2 ≤ base) (hbase' : base ≤ 16)
    (hupper : flags.uppercase = true ∨ base ≤ 10) :
    digitsText flags base value = numeral base value := by
  unfold digitsText numeral
  split
  · rfl
  · congr 1
    refine List.map_congr_left fun d hd => ?_
    have hlt := Nat.digits_lt_base hbase hd
    unfold ntoaDigit digitChar
    by_cases hten : d < 10
    · rw [if_pos hten, if_pos hten]
    · have hset := hupper.resolve_right (by omega)
      rw [if_neg hten, if_neg hten, if_pos hset]
      congr 1
      omega

/-- What a plain specifier prints is what `itoa` is to write: of every number in base 10,
and of a number that is not negative in the other bases. -/
theorem integerText_eq_itoaText (hc : (c = 100 ∨ c = 105) ∨
    (c = 117 ∨ c = 88 ∨ c = 111 ∨ c = 98) ∧ 0 ≤ w.toInt32) :
    integerText c plain w = itoaText w.toInt32 (Int32.ofNat (baseOf c)) := by
  have hlow := Int32.le_toInt w.toInt32
  have hhigh := Int32.toInt_lt w.toInt32
  have hsize : ntoaBufferSize = 32 := rfl
  rcases hc with hc | ⟨hc, hle⟩
  · have hten : baseOf c = 10 := by rcases hc with rfl | rfl <;> rfl
    have htext : integerText c plain w =
        ntoaText w.toInt32.toInt.natAbs (decide (w.toInt32 < 0)) 10 0 0 {} := by
      rcases hc with rfl | rfl <;> rfl
    have hvalue : w.toInt32.toInt.natAbs < 10 ^ ntoaBufferSize := by
      rw [hsize]
      omega
    rw [htext, hten, ntoaText_plain (by decide) (by decide) hvalue (fun _ => by omega),
      digitsText_eq_numeral (by decide) (by decide) (.inr (by decide))]
    unfold itoaText
    simp
  · have hunsigned : ¬(c = 105 ∨ c = 100) := by rcases hc with rfl | rfl | rfl | rfl <;> decide
    have hbase : 2 ≤ baseOf c ∧ baseOf c ≤ 16 := by
      rcases hc with rfl | rfl | rfl | rfl <;> decide
    have hpow : 2 ^ 32 ≤ baseOf c ^ ntoaBufferSize := Nat.pow_le_pow_left hbase.1 32
    have hflags : (integerFlags c {}).zeropad = false ∧ (integerFlags c {}).left = false ∧
        (integerFlags c {}).plus = false ∧ (integerFlags c {}).space = false ∧
          (integerFlags c {}).hash = false ∧ (integerFlags c {}).precision = false := by
      rcases hc with rfl | rfl | rfl | rfl <;> decide
    have hupper : (integerFlags c {}).uppercase = true ∨ baseOf c ≤ 10 := by
      rcases hc with rfl | rfl | rfl | rfl <;> decide
    have htext : integerText c plain w =
        ntoaText w.toNat false (baseOf c) 0 0 (integerFlags c {}) := by
      unfold integerText
      rw [if_neg hunsigned, unsignedArg_integerFlags]
      rfl
    have hlt := w.toNat_lt
    have hvalue : w.toNat = w.toInt32.toInt.natAbs := by
      have hword := toUInt32_eq_natAbs (Int32.le_iff_toInt_le.mp hle)
      rw [UInt32.toUInt32_toInt32] at hword
      have hnat := congrArg UInt32.toNat hword
      rwa [UInt32.toNat_ofNat_of_lt' (by change _ < 2 ^ 32; omega)] at hnat
    rw [htext, ntoaText_plain hflags hbase.1 (hlt.trans_le hpow) (fun h => by cases h),
      digitsText_eq_numeral hbase.1 hbase.2 hupper, hvalue]
    have hsign : ¬(w.toInt32 < 0 ∧ Int32.ofNat (baseOf c) = 10) :=
      fun h => Int32.not_lt.mpr hle h.1
    unfold itoaText
    rw [if_neg Bool.false_ne_true, if_neg hsign, Int32.toInt_ofNat_of_lt (by omega)]
    rfl

/-- A plain specifier prints the string that `itoa` leaves in its buffer. -/
theorem itoa_integerText (hc : (c = 100 ∨ c = 105) ∨
    (c = 117 ∨ c = 88 ∨ c = 111 ∨ c = 98) ∧ 0 ≤ w.toInt32) (hmin : w.toInt32 ≠ Int32.minValue)
    (buffer : Chars) :
    ∃ buffer', itoa w.toInt32 buffer (Int32.ofNat (baseOf c)) = some buffer' ∧
      Terminated buffer' (integerText c plain w) := by
  have hbase : 2 ≤ Int32.ofNat (baseOf c) ∧ Int32.ofNat (baseOf c) ≤ 32 := by
    rcases hc with (rfl | rfl) | ⟨rfl | rfl | rfl | rfl, -⟩ <;> decide
  rw [integerText_eq_itoaText hc]
  exact itoa_of_ne_minValue hbase.1 hbase.2 hmin

/-- The 3 of `"hd3"`. -/
theorem itoa_integerText_three :
    ∃ buffer', itoa 3 (fun _ => 0) 10 = some buffer' ∧ Terminated buffer' [51] :=
  itoa_integerText (c := 100) (w := 3) (.inl (.inl rfl)) (by decide) fun _ => 0

end Plain

/-! ## Formats that names are made of -/

section Names

variable {strings : UInt32 → Option (List UInt8)} {pre u s : List UInt8} {va : VaList}
  {w p : UInt32}

/-- Characters without a `%` are printed as they are. -/
theorem formatText_literal (hpre : ∀ c ∈ pre, c ≠ 37) :
    formatText strings (pre ++ u) va = (formatText strings u va).map (.behind pre) := by
  induction pre with
  | nil =>
    rw [List.nil_append]
    cases formatText strings u va <;> rfl
  | cons c pre ih =>
    rw [List.cons_append, formatText_char (hpre c (by simp)), ih fun c hc => hpre c (by simp [hc]),
      Option.map_map]
    congr 1

/-- `%d` in a format. -/
theorem formatText_d : formatText strings (37 :: 100 :: u) (w :: va) =
    (formatText strings u va).map (.behind (formatInt w.toInt32.toInt)) := by
  rw [formatText_conversion (show readSpec (100 :: u) (w :: va) = some (plain, 100 :: u, w :: va)
    from rfl), ← integerText_d]
  rfl

/-- `%s` in a format. -/
theorem formatText_s (hp : strings p = some s) : formatText strings (37 :: 115 :: u) (p :: va) =
    (formatText strings u va).map (.behind s) := by
  rw [formatText_conversion (show readSpec (115 :: u) (p :: va) = some (plain, 115 :: u, p :: va)
    from rfl)]
  have htext : conversionText strings 115 plain (p :: va) = some (s, va) := by
    simp [conversionText, vaArg, hp, stringText, padded, plain]
  rw [htext]
  rfl

/-- `"%sp"` -/
theorem formatText_sp (hp : strings p = some s) :
    formatText strings [37, 115, 112] [p] = some ⟨s ++ [112], [], false⟩ := by
  rw [formatText_s hp, formatText_char (by decide), formatText_nil]
  rfl

/-- `"%s%d"` -/
theorem formatText_sd (hp : strings p = some s) :
    formatText strings [37, 115, 37, 100] [p, w] =
      some ⟨s ++ formatInt w.toInt32.toInt, [], false⟩ := by
  rw [formatText_s hp, formatText_d, formatText_nil]
  simp [Formatted.behind]

/-- The one string of a call. -/
def oneString (p : Nat) (s : List UInt8) (w : UInt32) : Option (List UInt8) :=
  if w.toNat = p then some s else none

theorem oneString_self {q : Nat} (hq : q < 2 ^ 32) : oneString q s (UInt32.ofNat q) = some s :=
  if_pos (UInt32.toNat_ofNat_of_lt' hq)

theorem stringsAt_oneString {m : Mem} {q : Nat} (h : StrAt m q s) :
    StringsAt (oneString q s) m := by
  intro w t hw
  unfold oneString at hw
  split at hw
  · rename_i heq
    cases hw
    rw [heq]
    exact h
  · cases hw

theorem outside_oneString {buffer n q : Nat} (h : Outside buffer n q s) (w : UInt32)
    (t : List UInt8) (hw : oneString q s w = some t) : Outside buffer n w.toNat t := by
  unfold oneString at hw
  split at hw
  · rename_i heq
    cases hw
    rw [heq]
    exact h
  · cases hw

/-- A suffix is at most 512. -/
theorem suffix_le {names : List (List UInt8)} {k : Nat}
    (h : Io.deviceGetFirstAvailableSuffix names pre = .ok k) : k ≤ 512 := by
  unfold Io.deviceGetFirstAvailableSuffix at h
  cases hmarks : Io.markSuffixes pre names (List.replicate 64 0#8) with
  | error e => rw [hmarks] at h; cases h
  | ok bitmap =>
    rw [hmarks] at h
    have hk : ((List.range 512).find? fun i => !Io.suffixMarked bitmap i).getD 512 = k :=
      Except.ok.inj h
    rw [← hk]
    cases hfind : (List.range 512).find? fun i => !Io.suffixMarked bitmap i with
    | none => exact Nat.le_refl _
    | some i => exact (List.mem_range.mp (List.mem_of_find?_eq_some hfind)).le

theorem fatCreate_ok {devices : List Io.Device} {invoker d : Io.Device}
    (h : Io.fatCreate devices invoker = .ok d) :
    ∃ k, Io.deviceGetFirstAvailableSuffix (devices.map (·.name)) (invoker.name ++ [112]) = .ok k ∧
      d.name = invoker.name ++ [112] ++ formatInt k := by
  unfold Io.fatCreate at h
  dsimp only at h
  cases hsuffix : Io.deviceGetFirstAvailableSuffix (devices.map (·.name))
      (invoker.name ++ [112]) with
  | error e => rw [hsuffix] at h; cases h
  | ok k =>
    rw [hsuffix] at h
    have hd := Except.ok.inj h
    exact ⟨k, rfl, by rw [← hd]⟩

/-- The name of a drive and the formats of `fat_create`. -/
def namesText : List UInt8 := [104, 100, 48, 0, 37, 115, 112, 0, 37, 115, 37, 100]

theorem strAt_namesText {s : List UInt8} (pre post : List UInt8)
    (h : namesText ++ [0] = pre ++ s ++ 0 :: post) (hs : (0 : UInt8) ∉ s)
    (hlen : pre.length + s.length < 100) :
    StrAt (stringMem 100 (namesText ++ [0])) (100 + pre.length) s := by
  rw [h]
  exact strAt_stringMem_append pre post hs (by omega)

end Names

end Microboot.Kern.Printf
