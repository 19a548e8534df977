/-
  Kern/FormatRead.lean --- printed numbers, and `strtoul`, kern/printf.c.

  What is printed of a number is spaces, a sign, the hash, digits and spaces again, and
  `strtoul` takes such a text apart in this way.  It reads the number that was printed
  unless the sign or a digit has been lost.
-/
import Microboot.Kern.FormatNumber

set_option autoImplicit false

namespace Microboot.Kern.Printf

open Microboot.Foundation

/-! ## The parts of a printed number -/

section Parts

variable {b : Nat} {spaces sign leader digits tail rest : List UInt8} {n : Nat}

theorem takeWhile_isSpace (hrest : ∀ c, rest.head? = some c → isSpace c = false) :
    (List.replicate n 32 ++ rest).takeWhile isSpace = List.replicate n 32 := by
  rw [List.takeWhile_append_of_pos fun c hc => by rw [List.eq_of_mem_replicate hc]; rfl]
  cases rest with
  | nil => exact List.append_nil _
  | cons c rest =>
    rw [List.takeWhile_cons_of_neg (by rw [hrest c rfl]; decide), List.append_nil]

theorem takeWhile_validDigit (hdigits : ∀ c ∈ digits, validDigit b c = true) :
    (digits ++ List.replicate n 32).takeWhile (validDigit b) = digits := by
  rw [List.takeWhile_append_of_pos hdigits]
  cases n with
  | zero => exact List.append_nil _
  | succ n =>
    rw [List.replicate_succ, List.takeWhile_cons_of_neg (by simp [validDigit, digitValue]),
      List.append_nil]

/-- Digits and spaces do not begin with the prefix of a hexadecimal number. -/
theorem leaderText_digits (hb : b ≤ 33) (hdigits : ∀ c ∈ digits, validDigit b c = true) :
    leaderText b (digits ++ List.replicate n 32) = [] := by
  have hplain : ∀ c ∈ digits ++ List.replicate n 32, c ≠ 120 ∧ c ≠ 88 := by
    intro c hc
    rcases List.mem_append.mp hc with hc | hc
    · exact (not_skipped_of_validDigit c (validDigit_mono hb (hdigits c hc))).2.2.2
    · rw [List.eq_of_mem_replicate hc]
      decide
  refine if_neg fun h => ?_
  rcases h.2 with h | h
  · have hmem : (120 : UInt8) ∈ (digits ++ List.replicate n 32).take 2 :=
      h ▸ List.mem_of_getLast? rfl
    exact (hplain 120 (List.mem_of_mem_take hmem)).1 rfl
  · have hmem : (88 : UInt8) ∈ (digits ++ List.replicate n 32).take 2 :=
      h ▸ List.mem_of_getLast? rfl
    exact (hplain 88 (List.mem_of_mem_take hmem)).2 rfl

/-- A digit is not skipped. -/
theorem head_digits (hb : b ≤ 33) (hdigits : ∀ c ∈ digits, validDigit b c = true)
    (hne : digits ≠ []) {c : UInt8} (hc : (digits ++ rest).head? = some c) :
    isSpace c = false ∧ c ≠ 45 ∧ c ≠ 43 := by
  rw [List.head?_append_of_ne_nil _ hne] at hc
  have hplain := not_skipped_of_validDigit c
    (validDigit_mono hb (hdigits c (List.mem_of_mem_head? hc)))
  exact ⟨hplain.1, hplain.2.1, hplain.2.2.1⟩

/-- The parts of a number with a sign or without. -/
theorem numberText_signed (hb : 2 ≤ b) (hb' : b ≤ 33) (k : Nat)
    (hsign : sign = [] ∨ sign = [45] ∨ sign = [43])
    (hdigits : ∀ c ∈ digits, validDigit b c = true) (hne : digits ≠ []) :
    numberText b (List.replicate k 32 ++ (sign ++ (digits ++ List.replicate n 32))) =
      ⟨List.replicate k 32, sign, [], b, digits⟩ := by
  have hhead : ∀ c, (digits ++ List.replicate n 32).head? = some c →
      isSpace c = false ∧ c ≠ 45 ∧ c ≠ 43 := fun c hc => head_digits hb' hdigits hne hc
  have hspaces : (List.replicate k 32 ++ (sign ++ (digits ++ List.replicate n 32))).takeWhile
      isSpace = List.replicate k 32 := by
    refine takeWhile_isSpace fun c hc => ?_
    rcases hsign with rfl | rfl | rfl
    · exact (hhead c hc).1
    · cases hc
      rfl
    · cases hc
      rfl
  have hsignText : signText (sign ++ (digits ++ List.replicate n 32)) = sign := by
    rcases hsign with rfl | rfl | rfl
    · refine if_neg fun h => ?_
      rcases h with h | h
      · exact (hhead 45 h).2.1 rfl
      · exact (hhead 43 h).2.2 rfl
    · rfl
    · rfl
  have hbase : resolveBase b [] (digits ++ List.replicate n 32) = b := by
    rw [resolveBase, if_neg (fun h => h rfl), if_pos (by omega)]
  unfold numberText
  simp only [hspaces, List.drop_left, hsignText, leaderText_digits hb' hdigits, List.length_nil,
    List.drop_zero, hbase, takeWhile_validDigit hdigits]

/-- The parts of a number with the prefix of base 16. -/
theorem numberText_hex (k : Nat) (hleader : leader = [48, 120] ∨ leader = [48, 88])
    (hdigits : ∀ c ∈ digits, validDigit 16 c = true) :
    numberText 16 (List.replicate k 32 ++ (leader ++ (digits ++ List.replicate n 32))) =
      ⟨List.replicate k 32, [], leader, 16, digits⟩ := by
  have hspaces : (List.replicate k 32 ++ (leader ++ (digits ++ List.replicate n 32))).takeWhile
      isSpace = List.replicate k 32 := by
    refine takeWhile_isSpace fun c hc => ?_
    rcases hleader with rfl | rfl <;> cases hc <;> rfl
  have hsign : signText (leader ++ (digits ++ List.replicate n 32)) = [] := by
    rcases hleader with rfl | rfl <;> rfl
  have hleaderText : leaderText 16 (leader ++ (digits ++ List.replicate n 32)) = leader := by
    rcases hleader with rfl | rfl <;> rfl
  have hbase : ∀ t, resolveBase 16 leader t = 16 := by
    rcases hleader with rfl | rfl <;> exact fun t => rfl
  unfold numberText
  simp only [hspaces, List.drop_left, hsign, List.length_nil, List.drop_zero, hleaderText, hbase,
    takeWhile_validDigit hdigits]

/-- A text without a digit has the value zero. -/
theorem value_of_no_digit {t : List UInt8} (ht : ∀ c ∈ t, c = 32 ∨ c = 43 ∨ c = 45) :
    (numberText b t).value = 0 := by
  have hdigits : (numberText b t).digits = [] := by
    refine List.eq_nil_iff_forall_not_mem.mpr fun c hc => ?_
    have hvalid := List.mem_takeWhile_imp hc
    have hmem : c ∈ t := List.mem_of_mem_drop (List.mem_of_mem_drop (List.mem_of_mem_drop
      ((List.takeWhile_sublist _).subset hc)))
    rcases ht c hmem with rfl | rfl | rfl <;> simp [validDigit, digitValue] at hvalid
  unfold NumberText.value
  rw [hdigits]
  simp

end Parts

/-! ## The digits that are printed -/

section Digits

variable {flags : Flags} {b value n : Nat} {digits : List UInt8} {c : UInt8}

theorem digitValue_ntoaDigit : ∀ d : Fin 16, digitValue (ntoaDigit flags d) = some d.val := by
  unfold ntoaDigit
  cases flags.uppercase <;> decide

theorem validDigit_digitsText (hb : 2 ≤ b) (hb' : b ≤ 16) (hc : c ∈ digitsText flags b value) :
    validDigit b c = true := by
  rw [digitsText] at hc
  split at hc
  · rw [List.mem_singleton.mp hc]
    exact decide_eq_true (show 0 < b by omega)
  · obtain ⟨d, hd, rfl⟩ := List.mem_map.mp (List.mem_reverse.mp hc)
    have hlt := Nat.digits_lt_base hb hd
    rw [validDigit, digitValue_ntoaDigit ⟨d, by omega⟩]
    exact decide_eq_true hlt

/-- The digits stand for the number. -/
theorem radixValue_digitsText (hb : 2 ≤ b) (hb' : b ≤ 16) :
    radixValue b (digitsText flags b value) = value := by
  rw [digitsText]
  split
  next hzero =>
    rw [hzero]
    exact (radixValue_concat (s := []) (show digitValue 48 = some 0 from rfl)).trans (by simp)
  next =>
    have hdigits : (Nat.digits b value).filterMap (digitValue ∘ ntoaDigit flags) =
        Nat.digits b value := by
      rw [List.filterMap_congr (g := some), List.filterMap_some]
      intro d hd
      have hlt := Nat.digits_lt_base hb hd
      exact digitValue_ntoaDigit ⟨d, by omega⟩
    rw [radixValue, List.filterMap_reverse, List.reverse_reverse, List.filterMap_map, hdigits,
      Nat.ofDigits_digits]

/-- Leading zeros do not count. -/
theorem radixValue_zeros : radixValue b (List.replicate n 48 ++ digits) = radixValue b digits := by
  have hzeros : (List.replicate n (48 : UInt8)).filterMap digitValue = List.replicate n 0 :=
    List.filterMap_replicate_of_some rfl
  rw [radixValue, List.filterMap_append, hzeros, List.reverse_append, List.reverse_replicate,
    Nat.ofDigits_append_replicate_zero]
  rfl

/-- Zeros and digits. -/
theorem validDigit_zeros (hb : 2 ≤ b) (hdigits : ∀ c ∈ digits, validDigit b c = true) :
    ∀ c ∈ List.replicate n 48 ++ digits, validDigit b c = true := by
  intro c hc
  rcases List.mem_append.mp hc with hc | hc
  · rw [List.eq_of_mem_replicate hc]
    exact decide_eq_true (show 0 < b by omega)
  · exact hdigits c hc

/-- `strtoul` returns the value of a text. -/
theorem strtoul_printed {m : Mem} {p : Nat} {t : List UInt8} (h : StrAt m p t) (hb : b ≤ 36) :
    strtoul m p 0 (Int32.ofNat b) = some (m, (numberText b t).value) := by
  have hbase : (Int32.ofNat b).toInt = b := Int32.toInt_ofNat_of_lt (by omega)
  obtain ⟨acc, any, hread, hrun⟩ := strtoul_run 0 h hbase hb
  rw [hread.value_eq] at hrun
  exact hrun

end Digits

/-! ## Numbers without the hash -/

section Plain

variable {flags : Flags} {negative : Bool} {b prec width value n : Nat}

/-- The sign of a number is printed. -/
def SignFits (flags : Flags) (negative : Bool) (base prec width value : Nat) : Prop :=
  (shownDigits flags base value).length + leadingZeros flags prec width
    (signOf negative flags).length (shownDigits flags base value).length < ntoaBufferSize

instance : Decidable (SignFits flags negative b prec width value) :=
  inferInstanceAs (Decidable (_ < _))

/-- A sign is a space, or a sign that `strtoul` knows. -/
theorem sign_parts (flags : Flags) (negative : Bool) (b prec width value : Nat) :
    ∃ k sign, (if SignFits flags negative b prec width value then signOf negative flags else []) =
        List.replicate k 32 ++ sign ∧
      (sign = [] ∨ sign = [45] ∨ sign = [43]) ∧
      (sign = [45] ↔ negative = true ∧ SignFits flags negative b prec width value) := by
  by_cases hfits : SignFits flags negative b prec width value
  · simp only [hfits, and_true]
    unfold signOf
    cases negative with
    | true => exact ⟨0, [45], rfl, by simp, by simp⟩
    | false =>
      cases flags.plus with
      | true => exact ⟨0, [43], rfl, by simp, by simp⟩
      | false =>
        cases flags.space with
        | true => exact ⟨1, [], rfl, by simp, by simp⟩
        | false => exact ⟨0, [], rfl, by simp, by simp⟩
  · exact ⟨0, [], by rw [if_neg hfits]; rfl, by simp, by simp [hfits]⟩

/-- What is printed are spaces, at most one sign, zeros and digits, and spaces. -/
theorem ntoaText_parts (hhash : flags.hash = false) (hb : 2 ≤ b)
    (hvalue : value < b ^ ntoaBufferSize) :
    ∃ k n sign, ntoaText value negative b prec width flags =
        List.replicate k 32 ++ (sign ++ (List.replicate (leadingZeros flags prec width
          (signOf negative flags).length (shownDigits flags b value).length) 48 ++
            shownDigits flags b value ++ List.replicate n 32)) ∧
      (sign = [] ∨ sign = [45] ∨ sign = [43]) ∧
      (sign = [45] ↔ negative = true ∧ SignFits flags negative b prec width value) := by
  obtain ⟨k, sign, hparts, hsign, hminus⟩ := sign_parts flags negative b prec width value
  have hbody : numberBody flags negative b prec width value =
      List.replicate k 32 ++ (sign ++ (List.replicate (leadingZeros flags prec width
        (signOf negative flags).length (shownDigits flags b value).length) 48 ++
          shownDigits flags b value)) := by
    rw [← List.append_assoc, ← hparts]
    rfl
  rw [ntoaText_eq hhash hb hvalue, hbody]
  split
  · exact ⟨k, 0, sign, by simp, hsign, hminus⟩
  · unfold padded
    dsimp only
    generalize width - List.length _ = n
    split
    · exact ⟨k, n, sign, by simp only [List.append_assoc], hsign, hminus⟩
    · refine ⟨n + k, 0, sign, ?_, hsign, hminus⟩
      rw [List.replicate_add]
      simp only [List.append_assoc, List.replicate_zero, List.append_nil]

theorem validDigit_shownDigits (hb : 2 ≤ b) (hb' : b ≤ 16) :
    ∀ c ∈ shownDigits flags b value, validDigit b c = true := by
  unfold shownDigits
  split
  · simp
  · exact fun c hc => validDigit_digitsText hb hb' hc

theorem radixValue_shownDigits (hb : 2 ≤ b) (hb' : b ≤ 16) :
    radixValue b (shownDigits flags b value) = value := by
  unfold shownDigits
  split
  next h => rw [h.2, radixValue_nil]
  next => exact radixValue_digitsText hb hb'

/-- A number is printed without a digit only if it is zero. -/
theorem value_eq_zero_of_shownDigits (h : shownDigits flags b value = []) : value = 0 := by
  unfold shownDigits at h
  split at h
  next hzero => exact hzero.2
  next =>
    have hpos : 0 < (digitsText flags b value).length := length_digitsText_pos
    rw [h] at hpos
    cases hpos

/-- `strtoul` reads the number, and its sign where it is printed. -/
theorem value_ntoaText (hhash : flags.hash = false) (hb : 2 ≤ b) (hb' : b ≤ 16)
    (hvalue : value < 2 ^ 32) :
    (numberText b (ntoaText value negative b prec width flags)).value =
      if negative = true ∧ SignFits flags negative b prec width value then -UInt32.ofNat value
      else UInt32.ofNat value := by
  have hpow : value < b ^ ntoaBufferSize := Nat.lt_of_lt_of_le hvalue (Nat.pow_le_pow_left hb 32)
  obtain ⟨k, n, sign, htext, hsign, hminus⟩ := ntoaText_parts hhash hb hpow
  rw [htext]
  generalize leadingZeros flags prec width _ _ = zeros
  by_cases hne : List.replicate zeros 48 ++ shownDigits flags b value = []
  · -- nothing is printed of a zero
    have hzero := value_eq_zero_of_shownDigits (List.append_eq_nil_iff.mp hne).2
    rw [hne, value_of_no_digit, hzero]
    · simp
    · intro c hc
      simp only [List.nil_append, List.mem_append, List.mem_replicate] at hc
      rcases hsign with rfl | rfl | rfl <;> simp at hc <;> tauto
  · have hdigits : ∀ c ∈ List.replicate zeros 48 ++ shownDigits flags b value,
        validDigit b c = true := validDigit_zeros hb (validDigit_shownDigits hb hb')
    rw [numberText_signed hb (by omega) k hsign hdigits hne]
    unfold NumberText.value
    dsimp only
    rw [radixValue_zeros, radixValue_shownDigits hb hb', if_pos hvalue]
    simp only [hminus]

end Plain

/-! ## Reading an integer back -/

section Integers

variable {m : Mem} {p : Nat} {c : UInt8} {spec : Spec} {w : UInt32} {value : Int32}

/-- The flags that decide on the value of an argument are left as they are. -/
theorem signedArg_integerFlags {flags : Flags} :
    signedArg (integerFlags c flags) w = signedArg flags w := by
  unfold integerFlags
  dsimp only
  repeat' split
  all_goals rfl

theorem unsignedArg_integerFlags {flags : Flags} :
    unsignedArg (integerFlags c flags) w = unsignedArg flags w := by
  unfold integerFlags
  dsimp only
  repeat' split
  all_goals rfl

theorem integerFlags_hash {flags : Flags} :
    (integerFlags c flags).hash = (flags.hash && decide (baseOf c ≠ 10)) := by
  unfold integerFlags
  dsimp only
  split_ifs <;> simp_all

theorem integerFlags_zeropad {flags : Flags} :
    (integerFlags c flags).zeropad = (flags.zeropad && !flags.precision) := by
  unfold integerFlags
  dsimp only
  split_ifs <;> simp_all

theorem integerFlags_left {flags : Flags} : (integerFlags c flags).left = flags.left := by
  unfold integerFlags
  dsimp only
  split_ifs <;> rfl

/-- A negative number as an `unsigned long`. -/
theorem toUInt32_of_neg (h : value < 0) :
    value.toUInt32 = -UInt32.ofNat value.toInt.natAbs := by
  have hlt := value.toBitVec.isLt
  have hneg : value.toBitVec.toInt < 0 := Int32.lt_iff_toInt_lt.mp h
  rw [BitVec.toInt_eq_toNat_cond] at hneg
  apply UInt32.toNat_inj.mp
  rw [UInt32.toNat_neg, UInt32.toNat_ofNat', show value.toInt = value.toBitVec.toInt from rfl,
    BitVec.toInt_eq_toNat_cond, show UInt32.size = 2 ^ 32 from rfl]
  change value.toBitVec.toNat = _
  omega

/-- A negative number without its sign. -/
theorem ofNat_natAbs_eq_iff (h : value < 0) :
    UInt32.ofNat value.toInt.natAbs = value.toUInt32 ↔ value = Int32.minValue := by
  have hlt := value.toBitVec.isLt
  have hneg : value.toBitVec.toInt < 0 := Int32.lt_iff_toInt_lt.mp h
  rw [BitVec.toInt_eq_toNat_cond] at hneg
  rw [← UInt32.toNat_inj, ← Int32.toInt_inj, UInt32.toNat_ofNat', Int32.toInt_minValue,
    show value.toInt = value.toBitVec.toInt from rfl, BitVec.toInt_eq_toNat_cond]
  change _ = value.toBitVec.toNat ↔ _
  omega

/-- The sign of a decimal number is lost exactly if zeros fill the buffer. -/
theorem signFits_iff {flags : Flags} {prec width n : Nat} (hn : n < 2 ^ 32) :
    SignFits flags true 10 prec width n ↔
      flags.left ∨ prec < 32 ∧ (flags.zeropad → width < 33) := by
  have hlen : (shownDigits flags 10 n).length ≤ 10 := by
    unfold shownDigits
    split
    · exact Nat.zero_le _
    · exact length_digitsText_le (by decide) (by omega) (by decide)
  unfold SignFits leadingZeros
  rw [show (signOf true flags).length = 1 from rfl, show ntoaBufferSize = 32 from rfl]
  cases hleft : flags.left with
  | true =>
    simp
    omega
  | false =>
    cases hzero : flags.zeropad with
    | true =>
      simp
      omega
    | false =>
      simp
      omega

/-- `strtoul` reads back what `%d` prints of an integer, unless zeros have taken the place
of its sign. -/
theorem strtoul_signed_iff (hc : c = 100 ∨ c = 105) (h : StrAt m p (integerText c spec w)) :
    strtoul m p 0 10 = some (m, (signedArg spec.flags w).toUInt32) ↔
      0 ≤ signedArg spec.flags w ∨ signedArg spec.flags w = Int32.minValue ∨
        spec.flags.left = true ∨ spec.precision < 32 ∧
          (spec.flags.zeropad = true → spec.flags.precision = true ∨ spec.width < 33) := by
  have hbase : baseOf c = 10 := by rcases hc with rfl | rfl <;> rfl
  have hflags : (integerFlags c spec.flags).hash = false := by
    rw [integerFlags_hash, hbase]
    exact Bool.and_false _
  have htext : integerText c spec w = ntoaText (signedArg spec.flags w).toInt.natAbs
      (signedArg spec.flags w < 0) 10 spec.precision spec.width (integerFlags c spec.flags) := by
    unfold integerText
    rw [if_pos hc.symm, hbase, signedArg_integerFlags]
  have hlt : (signedArg spec.flags w).toInt.natAbs < 2 ^ 32 := by
    have hlow := Int32.le_toInt (signedArg spec.flags w)
    have hhigh := Int32.toInt_lt (signedArg spec.flags w)
    omega
  have hfits : SignFits (integerFlags c spec.flags) true 10 spec.precision spec.width
      (signedArg spec.flags w).toInt.natAbs ↔ spec.flags.left = true ∨ spec.precision < 32 ∧
        (spec.flags.zeropad = true → spec.flags.precision = true ∨ spec.width < 33) := by
    rw [signFits_iff hlt, integerFlags_left, integerFlags_zeropad]
    cases spec.flags.precision <;> simp
  rw [htext] at h
  rw [show (10 : Int32) = Int32.ofNat 10 from rfl, strtoul_printed h (by decide),
    value_ntoaText hflags (by decide) (by decide) hlt, ← hfits, Option.some.injEq, Prod.mk.injEq,
    and_iff_right rfl]
  by_cases hneg : signedArg spec.flags w < 0
  · rw [decide_eq_true hneg, or_iff_right (Int32.not_le.mpr hneg)]
    split
    · rename_i hsign
      exact iff_of_true (toUInt32_of_neg hneg).symm (.inr hsign.2)
    · rename_i hsign
      rw [ofNat_natAbs_eq_iff hneg, or_iff_left fun h => hsign ⟨rfl, h⟩]
  · have hle := Int32.not_lt.mp hneg
    rw [decide_eq_false hneg, if_neg fun h => Bool.false_ne_true h.1]
    exact iff_of_true (toUInt32_eq_natAbs (Int32.le_iff_toInt_le.mp hle)).symm (.inl hle)

/-- `"%d"` and `"%.32d"` of -5. -/
theorem strtoul_signed_minus_five :
    strtoul (stringMem 100 [45, 53]) 100 0 10 = some (stringMem 100 [45, 53], -5) ∧
      strtoul (stringMem 100 (List.replicate 31 48 ++ [53])) 100 0 10 ≠
        some (stringMem 100 (List.replicate 31 48 ++ [53]), -5) := by
  have hplain : StrAt (stringMem 100 [45, 53]) 100 (integerText 100 ⟨{}, 0, 0⟩ (-5)) :=
    strAt_stringMem (by decide) (by decide)
  have hzeros : StrAt (stringMem 100 (List.replicate 31 48 ++ [53])) 100
      (integerText 100 ⟨{ precision := true }, 0, 32⟩ (-5)) :=
    strAt_stringMem (by decide) (by decide)
  refine ⟨(strtoul_signed_iff (.inl rfl) hplain).mpr (by decide), fun h => ?_⟩
  exact absurd ((strtoul_signed_iff (.inl rfl) hzeros).mp h) (by decide)

end Integers

/-! ## Reading a number with the hash back -/

section Hash

variable {flags : Flags} {b value zeros width k : Nat} {m : Mem} {p : Nat} {c : UInt8}
  {spec : Spec} {w : UInt32}

/-- The digits of a number that is not zero are more than any numeral with less digits
stands for. -/
theorem pow_length_digitsText_le (hb : 2 ≤ b) (hpos : value ≠ 0) :
    b ^ ((digitsText flags b value).length - 1) ≤ value := by
  have hlen : (digitsText flags b value).length = (Nat.digits b value).length := by
    rw [digitsText, if_neg hpos, List.length_reverse, List.length_map]
  have hlt : (digitsText flags b value).length - 1 < (Nat.digits b value).length := by
    have h : 0 < (digitsText flags b value).length := length_digitsText_pos
    omega
  exact (Nat.lt_digits_length_iff hb value).mp hlt

/-- Without its first characters a text stands for the same number if they are leading
zeros, and else for a smaller one. -/
theorem radixValue_drop (flags : Flags) (zeros k : Nat) (hb : 2 ≤ b) (hb' : b ≤ 16)
    (hpos : value ≠ 0) :
    (k ≤ zeros ∧
        radixValue b ((List.replicate zeros 48 ++ digitsText flags b value).drop k) = value) ∨
      (zeros < k ∧
        radixValue b ((List.replicate zeros 48 ++ digitsText flags b value).drop k) < value) := by
  rw [List.drop_append, List.drop_replicate, List.length_replicate, radixValue_zeros]
  rcases Nat.lt_or_ge zeros k with hlt | hle
  · refine .inr ⟨hlt, ?_⟩
    have hvalue := radixValue_lt (s := (digitsText flags b value).drop (k - zeros)) hb
      fun c hc => validDigit_digitsText hb hb' (List.mem_of_mem_drop hc)
    have hlen : ((digitsText flags b value).drop (k - zeros)).length ≤
        (digitsText flags b value).length - 1 := by
      rw [List.length_drop]
      omega
    calc radixValue b ((digitsText flags b value).drop (k - zeros))
        < b ^ ((digitsText flags b value).drop (k - zeros)).length := hvalue
      _ ≤ b ^ ((digitsText flags b value).length - 1) := Nat.pow_le_pow_right (by omega) hlen
      _ ≤ value := pow_length_digitsText_le hb hpos
  · rw [Nat.sub_eq_zero_of_le hle, List.drop_zero]
    exact .inl ⟨hle, radixValue_digitsText hb hb'⟩

/-- A text is printed with spaces around it. -/
theorem exists_spaces (flags : Flags) (width : Nat) (text : List UInt8) :
    ∃ i j, (if flags.zeropad ∧ ¬flags.left then text else padded flags.left width text) =
      List.replicate i 32 ++ (text ++ List.replicate j 32) := by
  split
  · exact ⟨0, 0, (List.append_nil _).symm⟩
  · unfold padded
    dsimp only
    split
    · exact ⟨0, _, rfl⟩
    · exact ⟨width - text.length, 0, by rw [List.replicate_zero, List.append_nil]⟩

/-- The number of zeros and digits in front of which the hash is put. -/
theorem length_zeros_digits (flags : Flags) (width : Nat) {n : Nat} (hn : n ≤ ntoaBufferSize) :
    leadingZeros flags 0 width 0 n + n =
      if flags.zeropad ∧ ¬flags.left then max n (min width ntoaBufferSize) else n := by
  unfold leadingZeros
  cases flags.left <;> cases flags.zeropad <;> simp
  omega

/-- The value of digits, saturated at the largest `unsigned long`. -/
def digitsValue (b : Nat) (digits : List UInt8) : UInt32 :=
  if radixValue b digits < 2 ^ 32 then UInt32.ofNat (radixValue b digits) else 0xffffffff

/-- What `strtoul` reads of a hexadecimal number with the hash: the digits that the hash
leaves. -/
theorem value_hashed_hex {t : List UInt8} {i j : Nat} (ht : ∀ c ∈ t, validDigit 16 c = true)
    (hne : t ≠ []) (hprec : flags.precision = false) (hle : t.length ≤ ntoaBufferSize)
    (hroom : t.length + 1 = ntoaBufferSize → t.length = width) :
    (numberText 16 (List.replicate i 32 ++
        (hashed flags 16 0 width t ++ List.replicate j 32))).value =
      digitsValue 16 (if t.length = width then t.drop 2 else t) := by
  have hzero : t.length ≠ 0 := mt List.length_eq_zero_iff.mp hne
  have hsize : ntoaBufferSize = 32 := rfl
  have hletter : ∀ u : List UInt8, (∀ c ∈ u, validDigit 16 c = true) →
      u.length + 1 < ntoaBufferSize →
      (numberText 16 (List.replicate i 32 ++ ((if ((if u.length < ntoaBufferSize then
          [if flags.uppercase then 88 else 120] else []) ++ u).length < ntoaBufferSize then
            [48] else []) ++ ((if u.length < ntoaBufferSize then
              [if flags.uppercase then 88 else 120] else []) ++ u) ++
                List.replicate j 32))).value = digitsValue 16 u := by
    intro u hu hlt
    rw [if_pos (show u.length < ntoaBufferSize by omega), if_pos (by simpa using hlt)]
    have hleader : [(48 : UInt8)] ++ [if flags.uppercase then 88 else 120] = [48, 120] ∨
        [(48 : UInt8)] ++ [if flags.uppercase then 88 else 120] = [48, 88] := by
      cases flags.uppercase <;> simp
    rw [← List.append_assoc [48], List.append_assoc _ u, numberText_hex i hleader hu]
    rfl
  unfold hashed
  rw [hprec]
  simp only [true_and, hzero, false_or, if_true]
  by_cases hstrip : t.length = width
  · rw [if_pos hstrip]
    refine hletter _ (fun c hc => ht c (List.mem_of_mem_drop hc)) ?_
    rw [List.length_drop]
    omega
  · rw [if_neg hstrip]
    by_cases hfull : t.length = ntoaBufferSize
    · rw [if_neg (Nat.not_lt.mpr hfull.ge), List.nil_append, if_neg (Nat.not_lt.mpr hfull.ge),
        List.nil_append]
      have hparts := numberText_signed (n := j) (by decide) (by decide) i (.inl rfl) ht hne
      rw [List.nil_append] at hparts
      rw [hparts]
      rfl
    · exact hletter t ht (by omega)

/-- What `strtoul` reads of an octal number with the hash. -/
theorem value_hashed_octal {t : List UInt8} {i j : Nat} (ht : ∀ c ∈ t, validDigit 8 c = true)
    (hne : t ≠ []) (hprec : flags.precision = false) :
    (numberText 8 (List.replicate i 32 ++
        (hashed flags 8 0 width t ++ List.replicate j 32))).value =
      digitsValue 8 (if t.length = width then t.drop 1 else t) := by
  have hzero : t.length ≠ 0 := mt List.length_eq_zero_iff.mp hne
  have hread : ∀ u : List UInt8, (∀ c ∈ u, validDigit 8 c = true) →
      (numberText 8 (List.replicate i 32 ++ ((if u.length < ntoaBufferSize then [48] else []) ++
        u ++ List.replicate j 32))).value = digitsValue 8 u := by
    intro u hu
    have hdigits : ∀ c ∈ (if u.length < ntoaBufferSize then [48] else []) ++ u,
        validDigit 8 c = true := by
      split
      · exact fun c hc => validDigit_zeros (n := 1) (by decide) hu c hc
      · exact hu
    have hradix : radixValue 8 ((if u.length < ntoaBufferSize then [48] else []) ++ u) =
        radixValue 8 u := by
      split
      · exact radixValue_zeros (n := 1)
      · rfl
    have hcons : (if u.length < ntoaBufferSize then [(48 : UInt8)] else []) ++ u ≠ [] := by
      split
      · exact List.cons_ne_nil _ _
      · rename_i hfull
        rintro rfl
        exact hfull (by decide)
    have hparts := numberText_signed (n := j) (by decide) (by decide) i (.inl rfl) hdigits hcons
    rw [List.nil_append] at hparts
    rw [hparts]
    unfold NumberText.value digitsValue
    dsimp only
    rw [hradix]
    rfl
  unfold hashed
  rw [hprec]
  simp only [true_and, hzero, false_or, show ¬(8 : Nat) = 16 by decide,
    show ¬(8 : Nat) = 2 by decide, if_false, ite_self, List.nil_append]
  refine hread _ ?_
  split
  · exact fun c hc => ht c (List.mem_of_mem_drop hc)
  · exact ht

/-- Digits without leading zeros are read as the number, and digits that have lost one
are not. -/
theorem digitsValue_drop (hb : 2 ≤ b) (hb' : b ≤ 16) (hpos : w.toNat ≠ 0) :
    digitsValue b ((List.replicate zeros 48 ++ digitsText flags b w.toNat).drop k) = w ↔
      k ≤ zeros := by
  have hlt := w.toNat_lt
  unfold digitsValue
  rcases radixValue_drop flags zeros k hb hb' hpos with
    ⟨hle, heq⟩ | ⟨hgt, hless⟩
  · rw [heq, if_pos hlt, UInt32.ofNat_toNat]
    exact iff_of_true rfl hle
  · rw [if_pos (hless.trans hlt)]
    refine iff_of_false (fun h => Nat.ne_of_lt hless ?_) (Nat.not_le.mpr hgt)
    have hvalue := congrArg UInt32.toNat h
    rwa [UInt32.toNat_ofNat_of_lt' (hless.trans hlt)] at hvalue

/-- What `strtoul` reads of a number with the hash. -/
theorem value_hashed (hb : b = 16 ∨ b = 8) {t : List UInt8} {i j : Nat}
    (ht : ∀ c ∈ t, validDigit b c = true) (hne : t ≠ []) (hprec : flags.precision = false)
    (hle : t.length ≤ ntoaBufferSize) (hroom : t.length + 1 = ntoaBufferSize → t.length = width) :
    (numberText b (List.replicate i 32 ++
        (hashed flags b 0 width t ++ List.replicate j 32))).value =
      digitsValue b (if t.length = width then t.drop (if b = 16 then 2 else 1) else t) := by
  rcases hb with rfl | rfl
  · exact value_hashed_hex ht hne hprec hle hroom
  · exact value_hashed_octal ht hne hprec

/-- The digits that the hash takes away are zeros, or not. -/
theorem leadingZeros_hash_iff {n : Nat} (hpos : 0 < n) (hn : n ≤ 11) (hb : b = 16 ∨ b = 8) :
    (if leadingZeros flags 0 width 0 n + n = width then (if b = 16 then 2 else 1) else 0) ≤
        leadingZeros flags 0 width 0 n ↔
      width ≠ n ∧ ¬(b = 16 ∧ flags.zeropad = true ∧ flags.left = false ∧ width = n + 1) := by
  have hsize : ntoaBufferSize = 32 := rfl
  unfold leadingZeros
  rw [hsize]
  cases flags.left with
  | true => rcases hb with rfl | rfl <;> simp <;> omega
  | false =>
    cases flags.zeropad with
    | true =>
      by_cases hstrip : min 32 width - n + n = width
      · rcases hb with rfl | rfl <;> simp [hstrip] <;> omega
      · rcases hb with rfl | rfl <;> simp [hstrip] <;> omega
    | false => rcases hb with rfl | rfl <;> simp <;> omega

/-- `strtoul` reads a number with the hash if the hash takes no digit away. -/
theorem value_ntoaText_hash (width : Nat) (hhash : flags.hash = true) (hplus : flags.plus = false)
    (hspace : flags.space = false) (hprec : flags.precision = false) (hb : b = 16 ∨ b = 8)
    (hpos : w.toNat ≠ 0) :
    (numberText b (ntoaText w.toNat false b 0 width flags)).value = w ↔
      width ≠ (Nat.digits b w.toNat).length ∧
        ¬(b = 16 ∧ flags.zeropad = true ∧ flags.left = false ∧
          width = (Nat.digits b w.toNat).length + 1) := by
  have hvalue := w.toNat_lt
  obtain ⟨htwo, hsixteen, hpow⟩ : 2 ≤ b ∧ b ≤ 16 ∧ 2 ^ 32 ≤ b ^ 11 := by
    rcases hb with rfl | rfl <;> decide
  have hlen : (digitsText flags b w.toNat).length = (Nat.digits b w.toNat).length := by
    rw [digitsText, if_neg hpos, List.length_reverse, List.length_map]
  have hn : (digitsText flags b w.toNat).length ≤ 11 :=
    length_digitsText_le htwo (hvalue.trans_le hpow) (by decide)
  have hn' : 0 < (digitsText flags b w.toNat).length := length_digitsText_pos
  have hsize : ntoaBufferSize = 32 := rfl
  have htotal := length_zeros_digits flags width (hn.trans (by decide))
  rw [hsize] at htotal
  rw [← hlen, ← leadingZeros_hash_iff hn' hn hb,
    ntoaText_hash hhash hplus hspace htwo hpos (hvalue.trans_le (hpow.trans
      (Nat.pow_le_pow_right (by omega) (by decide))))]
  dsimp only
  generalize leadingZeros flags 0 width 0 (digitsText flags b w.toNat).length = zeros at htotal ⊢
  have hdigits : ∀ c ∈ List.replicate zeros 48 ++ digitsText flags b w.toNat,
      validDigit b c = true :=
    validDigit_zeros htwo fun c hc => validDigit_digitsText htwo hsixteen hc
  have hlength : (List.replicate zeros 48 ++ digitsText flags b w.toNat).length =
      zeros + (digitsText flags b w.toNat).length := by
    rw [List.length_append, List.length_replicate]
  have hne : List.replicate zeros 48 ++ digitsText flags b w.toNat ≠ [] := by
    rw [← List.length_pos_iff, hlength]
    omega
  obtain ⟨i, j, hspaces⟩ := exists_spaces flags width
    (hashed flags b 0 width (List.replicate zeros 48 ++ digitsText flags b w.toNat))
  rw [hspaces, value_hashed hb hdigits hne hprec, hlength]
  · split
    · exact digitsValue_drop htwo hsixteen hpos
    · exact digitsValue_drop (k := 0) htwo hsixteen hpos
  · rw [hlength, htotal, hsize]
    split <;> omega
  · rw [hlength, htotal, hsize]
    split <;> omega

theorem integerFlags_precision {flags : Flags} :
    (integerFlags c flags).precision = flags.precision := by
  unfold integerFlags
  dsimp only
  split_ifs <;> rfl

/-- An unsigned number has no sign. -/
theorem integerFlags_sign {flags : Flags} (hc : c ≠ 105 ∧ c ≠ 100) :
    (integerFlags c flags).plus = false ∧ (integerFlags c flags).space = false := by
  unfold integerFlags
  dsimp only
  rw [if_pos hc]
  split_ifs <;> exact ⟨rfl, rfl⟩

/-- `strtoul` reads back what is printed of a number with the hash, unless the width is the
number of its digits or, for base 16 and zeros on the left, one more. -/
theorem strtoul_hash_iff (hc : c = 120 ∨ c = 88 ∨ c = 111) (hhash : spec.flags.hash = true)
    (hprec : spec.flags.precision = false) (hzero : spec.precision = 0)
    (hpos : unsignedArg spec.flags w ≠ 0) (h : StrAt m p (integerText c spec w)) :
    strtoul m p 0 (Int32.ofNat (baseOf c)) = some (m, unsignedArg spec.flags w) ↔
      spec.width ≠ (Nat.digits (baseOf c) (unsignedArg spec.flags w).toNat).length ∧
        ¬(baseOf c = 16 ∧ spec.flags.zeropad = true ∧ spec.flags.left = false ∧
          spec.width = (Nat.digits (baseOf c) (unsignedArg spec.flags w).toNat).length + 1) := by
  have hbase : baseOf c = 16 ∨ baseOf c = 8 := by rcases hc with rfl | rfl | rfl <;> decide
  have hunsigned : c ≠ 105 ∧ c ≠ 100 := by rcases hc with rfl | rfl | rfl <;> decide
  have htext : integerText c spec w = ntoaText (unsignedArg spec.flags w).toNat false (baseOf c) 0
      spec.width (integerFlags c spec.flags) := by
    unfold integerText
    rw [if_neg (not_or.mpr hunsigned), unsignedArg_integerFlags, hzero]
  have hhash' : (integerFlags c spec.flags).hash = true := by
    rw [integerFlags_hash, hhash]
    rcases hbase with h | h <;> rw [h] <;> rfl
  have hread := value_ntoaText_hash spec.width hhash'
    (integerFlags_sign hunsigned).1 (integerFlags_sign hunsigned).2
    (integerFlags_precision.trans hprec) hbase
    fun h => hpos (UInt32.toNat_inj.mp h)
  rw [integerFlags_zeropad, integerFlags_left, hprec, Bool.not_false, Bool.and_true] at hread
  rw [htext] at h
  rw [strtoul_printed h (by rcases hbase with h | h <;> rw [h] <;> decide), Option.some.injEq,
    Prod.mk.injEq, and_iff_right rfl, hread]

/-- `"%#x"` and `"%#3x"` of 0xabc. -/
theorem strtoul_hash_abc :
    strtoul (stringMem 100 [48, 120, 97, 98, 99]) 100 0 16 =
        some (stringMem 100 [48, 120, 97, 98, 99], 0xabc) ∧
      strtoul (stringMem 100 [48, 120, 99]) 100 0 16 ≠
        some (stringMem 100 [48, 120, 99], 0xabc) := by
  have hwhole : StrAt (stringMem 100 [48, 120, 97, 98, 99]) 100
      (integerText 120 ⟨{ hash := true }, 0, 0⟩ 0xabc) := strAt_stringMem (by decide) (by decide)
  have hcut : StrAt (stringMem 100 [48, 120, 99]) 100
      (integerText 120 ⟨{ hash := true }, 3, 0⟩ 0xabc) := strAt_stringMem (by decide) (by decide)
  have hlen : (Nat.digits 16 0xabc).length = 3 := by simp
  refine ⟨(strtoul_hash_iff (.inl rfl) rfl rfl rfl (by decide) hwhole).mpr ?_, fun h => ?_⟩
  · exact ⟨fun h => absurd (h.trans hlen) (by decide), fun h => absurd h.2.1 (by decide)⟩
  · exact ((strtoul_hash_iff (.inl rfl) rfl rfl rfl (by decide) hcut).mp h).1 hlen.symm

end Hash

end Microboot.Kern.Printf
