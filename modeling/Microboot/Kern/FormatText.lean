/-
  Kern/FormatText.lean --- what a format prints, kern/printf.c.

  The text of a format is a function of the format, of the strings that the arguments
  point to and of the arguments, and knows nothing of indices, buffers and output
  functions.  `_vsnprintf` puts exactly these characters out, in order, for every
  output function that leaves the format and the strings alone.

  A format may end between a `%` and its specifier.  The terminator is then taken for
  the specifier and printed, and the loop goes on behind it; the text says so with
  `cut`.
-/
import Microboot.Kern.Format

set_option autoImplicit false

namespace Microboot.Kern.Printf

open Microboot.Foundation

/-! ## Texts -/

/-- A text and the spaces that bring it to a width. -/
def padded (left : Bool) (width : Nat) (text : List UInt8) : List UInt8 :=
  let spaces := List.replicate (width - text.length) 32
  if left then text ++ spaces else spaces ++ text

/-- What `_out_rev` prints. -/
def revText (buf : NtoaBuf) (width : Nat) (flags : Flags) : List UInt8 :=
  if flags.zeropad ∧ ¬flags.left then buf.chars.reverse
  else padded flags.left width buf.chars.reverse

/-- What `_ntoa_format` prints. -/
def ntoaFormatText (buf : NtoaBuf) (negative : Bool) (base prec width : Nat) (flags : Flags) :
    List UInt8 :=
  let (buf, width) := ntoaPad buf negative prec width flags
  let buf := ntoaHash buf base prec width flags
  let buf := ntoaSign buf negative flags
  revText buf width flags

/-- What `_ntoa_long` prints. -/
def ntoaText (value : Nat) (negative : Bool) (base prec width : Nat) (flags : Flags) :
    List UInt8 :=
  let flags := if value = 0 then { flags with hash := false } else flags
  let buf :=
    if ¬flags.precision ∨ value ≠ 0 then
      ntoaLoop flags base ntoaBufferSize value .empty (Nat.zero_add _)
    else .empty
  ntoaFormatText buf negative base prec width flags

/-- What a specifier for integers prints, if anything, for its argument. -/
def integerText (c : UInt8) (spec : Spec) (w : UInt32) : List UInt8 :=
  let base := baseOf c
  let flags := integerFlags c spec.flags
  if c = 105 ∨ c = 100 then
    ntoaText (signedArg flags w).toInt.natAbs (signedArg flags w < 0) base spec.precision
      spec.width flags
  else ntoaText (unsignedArg flags w).toNat false base spec.precision spec.width flags

/-- What `s` prints for a string. -/
def stringText (spec : Spec) (t : List UInt8) : List UInt8 :=
  padded spec.flags.left spec.width (if spec.flags.precision then t.take spec.precision else t)

/-- What `p` prints for a pointer. -/
def pointerText (spec : Spec) (w : UInt32) : List UInt8 :=
  ntoaText w.toNat false 16 spec.precision 8 { spec.flags with zeropad := true, uppercase := true }

/-- What a conversion prints, and the arguments it leaves. -/
def conversionText (strings : UInt32 → Option (List UInt8)) (c : UInt8) (spec : Spec)
    (va : VaList) : Option (List UInt8 × VaList) := do
  if c = 100 ∨ c = 105 ∨ c = 117 ∨ c = 120 ∨ c = 88 ∨ c = 111 ∨ c = 98 then
    if spec.flags.longLong then return ([], va)
    let (w, va) ← vaArg va
    return (integerText c spec w, va)
  else if c = 99 then
    let (w, va) ← vaArg va
    return (padded spec.flags.left spec.width [w.toUInt8], va)
  else if c = 115 then
    let (w, va) ← vaArg va
    return (stringText spec (← strings w), va)
  else if c = 112 then
    let (w, va) ← vaArg va
    return (pointerText spec w, va)
  else return ([c], va)

/-! ## The parts of a conversion -/

/-- The flags at the beginning of a text, and the rest of it. -/
def readFlags : List UInt8 → Flags → Flags × List UInt8
  | [], flags => (flags, [])
  | c :: u, flags =>
    match flagOf c flags with
    | some flags => readFlags u flags
    | none => (flags, c :: u)

/-- The number at the beginning of a text, and the rest of it. -/
def readNumber : List UInt8 → Nat → Nat × List UInt8
  | [], i => (i, [])
  | c :: u, i =>
    if isDigit c then readNumber u ((i * 10 + (c.toNat - 48)) % 2 ^ 32) else (i, c :: u)

/-- The width, and the rest of the text and of the arguments. -/
def readWidth (u : List UInt8) (flags : Flags) (va : VaList) :
    Option (Spec × List UInt8 × VaList) :=
  match u with
  | 42 :: u => do
    let (w, va) ← vaArg va
    if w.toInt32 < 0 then
      return ({ flags := { flags with left := true }, width := (-w).toNat, precision := 0 }, u, va)
    else return ({ flags, width := w.toNat, precision := 0 }, u, va)
  | u =>
    let (width, u) := readNumber u 0
    some ({ flags, width, precision := 0 }, u, va)

/-- The precision, and the rest of the text and of the arguments. -/
def readPrecision (u : List UInt8) (spec : Spec) (va : VaList) :
    Option (Spec × List UInt8 × VaList) :=
  match u with
  | 46 :: 42 :: u => do
    let (prec, va) ← vaArg va
    let precision := if prec.toInt32 > 0 then prec.toNat else 0
    return ({ spec with flags := { spec.flags with precision := true }, precision }, u, va)
  | 46 :: u =>
    let (precision, u) := readNumber u 0
    some ({ spec with flags := { spec.flags with precision := true }, precision }, u, va)
  | u => some ({ spec with precision := 0 }, u, va)

/-- The length, and the rest of the text. -/
def readLength (u : List UInt8) (flags : Flags) : Flags × List UInt8 :=
  match u with
  | 108 :: 108 :: u => ({ flags with long := true, longLong := true }, u)
  | 108 :: u => ({ flags with long := true }, u)
  | 104 :: 104 :: u => ({ flags with short := true, char := true }, u)
  | 104 :: u => ({ flags with short := true }, u)
  | 106 :: u => ({ flags with longLong := true }, u)
  | 122 :: u => ({ flags with long := true }, u)
  | u => (flags, u)

/-- What stands between a `%` and its specifier, and the rest. -/
def readSpec (u : List UInt8) (va : VaList) : Option (Spec × List UInt8 × VaList) := do
  let (flags, u) := readFlags u {}
  let (spec, u, va) ← readWidth u flags va
  let (spec, u, va) ← readPrecision u spec va
  let (flags, u) := readLength u spec.flags
  return ({ spec with flags }, u, va)

section Lengths

variable {u r : List UInt8} {va va' : VaList} {flags : Flags} {spec spec' : Spec}

theorem length_readFlags_le : (readFlags u flags).2.length ≤ u.length := by
  induction u generalizing flags with
  | nil => exact Nat.le_refl _
  | cons c u ih =>
    rw [readFlags]
    split
    · exact ih.trans (Nat.le_succ _)
    · exact Nat.le_refl _

theorem length_readNumber_le {i : Nat} : (readNumber u i).2.length ≤ u.length := by
  induction u generalizing i with
  | nil => exact Nat.le_refl _
  | cons c u ih =>
    rw [readNumber]
    split
    · exact ih.trans (Nat.le_succ _)
    · exact Nat.le_refl _

theorem length_readWidth_le (h : readWidth u flags va = some (spec, r, va')) :
    r.length ≤ u.length := by
  unfold readWidth at h
  split at h
  · obtain ⟨⟨w, va₁⟩, -, h⟩ := Option.bind_eq_some_iff.mp h
    dsimp only at h
    split at h <;> cases h <;> exact Nat.le_succ _
  · cases h
    exact length_readNumber_le

theorem length_readPrecision_le (h : readPrecision u spec va = some (spec', r, va')) :
    r.length ≤ u.length := by
  unfold readPrecision at h
  split at h
  · obtain ⟨⟨w, va₁⟩, -, h⟩ := Option.bind_eq_some_iff.mp h
    cases h
    simp only [List.length_cons]
    omega
  · cases h
    exact length_readNumber_le.trans (Nat.le_succ _)
  · cases h
    exact Nat.le_refl _

theorem length_readLength_le : (readLength u flags).2.length ≤ u.length := by
  unfold readLength
  split <;> simp only [List.length_cons] <;> omega

theorem length_readSpec_le (h : readSpec u va = some (spec, r, va')) : r.length ≤ u.length := by
  obtain ⟨⟨spec₁, u₁, va₁⟩, hwidth, h⟩ := Option.bind_eq_some_iff.mp h
  obtain ⟨⟨spec₂, u₂, va₂⟩, hprec, h⟩ := Option.bind_eq_some_iff.mp h
  cases h
  calc (readLength u₂ spec₂.flags).2.length ≤ u₂.length := length_readLength_le
    _ ≤ u₁.length := length_readPrecision_le hprec
    _ ≤ (readFlags u {}).2.length := length_readWidth_le hwidth
    _ ≤ u.length := length_readFlags_le

end Lengths

/-! ## The text of a format -/

/-- What is printed of a format, the arguments that are left, and whether the format
is cut off inside a conversion. -/
structure Formatted where
  text : List UInt8
  va : VaList
  cut : Bool
  deriving DecidableEq, Repr

/-- Characters in front. -/
def Formatted.behind (t : List UInt8) (r : Formatted) : Formatted := { r with text := t ++ r.text }

/-- The text of a format, where `strings` are the strings that arguments point to. -/
def formatText (strings : UInt32 → Option (List UInt8)) (u : List UInt8) (va : VaList) :
    Option Formatted :=
  match u with
  | [] => some { text := [], va, cut := false }
  | c :: u =>
    if c ≠ 37 then (formatText strings u va).map (.behind [c])
    else
      match _h : readSpec u va with
      | none => none
      -- the terminator is the specifier
      | some (_, [], va) => some { text := [0], va, cut := true }
      | some (spec, c :: r, va) =>
        match conversionText strings c spec va with
        | none => none
        | some (t, va) => (formatText strings r va).map (.behind t)
termination_by u.length
decreasing_by
  · exact Nat.lt_succ_self _
  · have hle := length_readSpec_le ‹readSpec u _ = _›
    simp only [List.length_cons] at hle ⊢
    omega

section Cases

variable {strings : UInt32 → Option (List UInt8)} {c : UInt8} {u r t : List UInt8}
  {va va' va'' : VaList} {spec : Spec}

theorem formatText_nil : formatText strings [] va = some ⟨[], va, false⟩ := by rw [formatText]

theorem formatText_char (hchar : c ≠ 37) :
    formatText strings (c :: u) va = (formatText strings u va).map (.behind [c]) := by
  rw [formatText, if_pos hchar]

theorem formatText_unread (hread : readSpec u va = none) :
    formatText strings (37 :: u) va = none := by
  rw [formatText, if_neg (by decide)]
  split <;> simp_all

theorem formatText_cut (hread : readSpec u va = some (spec, [], va')) :
    formatText strings (37 :: u) va = some { text := [0], va := va', cut := true } := by
  rw [formatText, if_neg (by decide)]
  split <;> simp_all

theorem formatText_conversion (hread : readSpec u va = some (spec, c :: r, va')) :
    formatText strings (37 :: u) va =
      (conversionText strings c spec va').bind fun x =>
        (formatText strings r x.2).map (.behind x.1) := by
  rw [formatText, if_neg (by decide)]
  split
  · simp_all
  · simp_all
  · rename_i hread'
    rw [hread] at hread'
    cases hread'
    cases conversionText strings c spec va' <;> rfl

end Cases

/-! ## Characters that are put out -/

section Output

variable {σ : Type} {f : OutFct σ} {maxlen : UInt32} {s : Printed σ} {t t' : List UInt8}

@[simp] theorem Printed.puts_nil : s.puts f maxlen [] = s := rfl

@[simp] theorem Printed.puts_cons {c : UInt8} :
    s.puts f maxlen (c :: t) = (s.put f maxlen c).puts f maxlen t := rfl

theorem Printed.puts_append :
    s.puts f maxlen (t ++ t') = (s.puts f maxlen t).puts f maxlen t' := List.foldl_append

theorem Printed.idx_puts : (s.puts f maxlen t).idx = s.idx + UInt32.ofNat t.length := by
  induction t generalizing s with
  | nil => simp
  | cons c t ih =>
    rw [puts_cons, ih, List.length_cons, Nat.add_comm, UInt32.ofNat_add, ← UInt32.add_assoc]
    rfl

/-- Spaces before a text or behind it. -/
theorem Printed.puts_padded {left : Bool} {width : Nat} :
    (if left then
      ((if ¬left then s.spaces f maxlen (width - t.length) else s).puts f maxlen t).spaces f maxlen
        (width - t.length)
    else (if ¬left then s.spaces f maxlen (width - t.length) else s).puts f maxlen t) =
      s.puts f maxlen (padded left width t) := by
  cases left <;> simp [padded, spaces, puts_append]

/-- `_out_rev` puts its text out. -/
theorem outRev_eq {buf : NtoaBuf} {width : Nat} {flags : Flags} :
    outRev f maxlen s buf width flags = s.puts f maxlen (revText buf width flags) := by
  have hlen : buf.chars.reverse.length = buf.len := List.length_reverse
  have hdiff : ((s.puts f maxlen buf.chars.reverse).idx - s.idx).toNat = buf.len := by
    rw [Printed.idx_puts, hlen, UInt32.add_comm, UInt32.add_sub_cancel, UInt32.toNat_ofNat_of_lt']
    exact buf.len_le.trans_lt (by decide)
  unfold outRev revText
  cases hleft : flags.left with
  | true => simp [hdiff, padded, hlen, Printed.spaces, Printed.puts_append]
  | false =>
    cases hzero : flags.zeropad with
    | true => simp
    | false => simp [padded, hlen, Printed.spaces, Printed.puts_append]

theorem ntoaFormat_eq {buf : NtoaBuf} {negative : Bool} {base prec width : Nat} {flags : Flags} :
    ntoaFormat f maxlen s buf negative base prec width flags =
      s.puts f maxlen (ntoaFormatText buf negative base prec width flags) := outRev_eq

theorem ntoaLong_eq {value : Nat} {negative : Bool} {base prec width : Nat} {flags : Flags} :
    ntoaLong f maxlen s value negative base prec width flags =
      s.puts f maxlen (ntoaText value negative base prec width flags) := ntoaFormat_eq

end Output

/-! ## The parts of a conversion in memory -/

section Reading

variable {m : Mem} {p q : Nat} {u r : List UInt8} {va va' : VaList} {flags : Flags}
  {spec spec' : Spec}

/-- From `p`, where the text is `u`, one gets to `q`, where the rest of it is `r`. -/
structure Reaches (m : Mem) (p : Nat) (u : List UInt8) (q : Nat) (r : List UInt8) : Prop where
  rest : StrAt m q r
  stop : q + r.length = p + u.length

theorem Reaches.refl (h : StrAt m p u) : Reaches m p u p u := ⟨h, rfl⟩

theorem Reaches.trans {p' : Nat} {u' : List UInt8} (h : Reaches m p u q r)
    (h' : Reaches m q r p' u') : Reaches m p u p' u' := ⟨h'.rest, h'.stop.trans h.stop⟩

/-- Behind the first characters. -/
theorem Reaches.append {t : List UInt8} (h : StrAt m p (t ++ u)) :
    Reaches m p (t ++ u) (p + t.length) u := ⟨h.drop, by rw [List.length_append]; omega⟩

theorem Reaches.cons {c : UInt8} (h : StrAt m p (c :: u)) : Reaches m p (c :: u) (p + 1) u :=
  .append (t := [c]) h

theorem Reaches.cons_cons {c d : UInt8} (h : StrAt m p (c :: d :: u)) :
    Reaches m p (c :: d :: u) (p + 2) u := .append (t := [c, d]) h

theorem evalFlags_eq (flags : Flags) {fuel : Nat} (h : StrAt m p u) (hfuel : u.length < fuel) :
    ∃ q, evalFlags m fuel p flags = some ((readFlags u flags).1, q) ∧
      Reaches m p u q (readFlags u flags).2 := by
  induction fuel generalizing p u flags with
  | zero => exact absurd hfuel (Nat.not_lt_zero _)
  | succ fuel ih =>
    cases u with
    | nil =>
      have hnul : m.load8 p = 0 := h.nul
      exact ⟨p, by simp [evalFlags, hnul, flagOf, readFlags], .refl h⟩
    | cons c u =>
      have hc : m.load8 p = c := h.seg.1
      rw [evalFlags, readFlags, hc]
      cases flagOf c flags with
      | none => exact ⟨p, rfl, .refl h⟩
      | some flags' =>
        obtain ⟨q, heq, hreach⟩ := ih flags' (Reaches.cons h).rest
          (Nat.lt_of_succ_lt_succ hfuel)
        exact ⟨q, heq, (Reaches.cons h).trans hreach⟩

theorem atoi_eq {fuel i : Nat} (h : StrAt m p u) (hfuel : u.length < fuel) :
    ∃ q, atoi m fuel p i = some ((readNumber u i).1, q) ∧ Reaches m p u q (readNumber u i).2 := by
  induction fuel generalizing p u i with
  | zero => exact absurd hfuel (Nat.not_lt_zero _)
  | succ fuel ih =>
    cases u with
    | nil =>
      have hnul : m.load8 p = 0 := h.nul
      exact ⟨p, by simp [atoi, hnul, isDigit, readNumber], .refl h⟩
    | cons c u =>
      have hc : m.load8 p = c := h.seg.1
      rw [atoi, readNumber, hc]
      cases hdigit : isDigit c with
      | false => exact ⟨p, by simp, by simpa using Reaches.refl h⟩
      | true =>
        obtain ⟨q, heq, hreach⟩ := ih (i := (i * 10 + (c.toNat - 48)) % 2 ^ 32)
          (Reaches.cons h).rest (Nat.lt_of_succ_lt_succ hfuel)
        exact ⟨q, by simpa using heq, by simpa [hdigit] using (Reaches.cons h).trans hreach⟩

theorem length_lt_addrSpace (h : StrAt m p u) : u.length < addrSpace := by
  have hfits := h.fits
  unfold addrSpace
  omega

/-- A character that a text does not begin with. -/
theorem load8_ne {c : UInt8} (h : StrAt m p u) (hc : c ≠ 0) (hne : ∀ v, u ≠ c :: v) :
    m.load8 p ≠ c := fun heq => by
  obtain ⟨v, rfl⟩ := List.head?_eq_some_iff.mp ((h.load8_eq_iff hc).mp heq)
  exact hne v rfl

/-- A text that does not begin with a digit holds no number. -/
theorem readNumber_of_not_isDigit {i : Nat} (h : StrAt m p u)
    (hdigit : isDigit (m.load8 p) = false) :
    readNumber u i = (i, u) := by
  cases u with
  | nil => rfl
  | cons c u =>
    rw [show m.load8 p = c from h.seg.1] at hdigit
    rw [readNumber, hdigit]
    rfl

theorem evalWidth_eq (h : StrAt m p u) (hread : readWidth u flags va = some (spec, r, va')) :
    ∃ q, evalWidth m p flags va = some (spec, q, va') ∧ Reaches m p u q r := by
  unfold readWidth at hread
  unfold evalWidth
  split at hread
  · -- `*`
    rename_i u
    have hstar : m.load8 p = 42 := h.seg.1
    obtain ⟨⟨w, va₁⟩, harg, hread⟩ := Option.bind_eq_some_iff.mp hread
    refine ⟨p + 1, ?_, ?_⟩
    · rw [hstar, if_neg (by decide), if_pos rfl, harg]
      dsimp only at hread ⊢
      split at hread <;> cases hread <;> simp_all
    · dsimp only at hread
      split at hread <;> cases hread <;> exact .cons h
  · rename_i hne
    cases hread
    cases hdigit : isDigit (m.load8 p) with
    | true =>
      obtain ⟨q, heq, hreach⟩ := atoi_eq (i := 0) h (length_lt_addrSpace h)
      exact ⟨q, by rw [if_pos rfl, heq]; rfl, hreach⟩
    | false =>
      have hstar : m.load8 p ≠ 42 := load8_ne h (by decide) hne
      rw [if_neg (by decide), if_neg hstar, readNumber_of_not_isDigit h hdigit]
      exact ⟨p, rfl, .refl h⟩

theorem evalPrecision_eq (h : StrAt m p u)
    (hread : readPrecision u spec va = some (spec', r, va')) :
    ∃ q, evalPrecision m p spec va = some (spec', q, va') ∧ Reaches m p u q r := by
  unfold readPrecision at hread
  unfold evalPrecision
  split at hread
  · -- `.*`
    have hdot : m.load8 p = 46 := h.seg.1
    have hstar : m.load8 (p + 1) = 42 := h.seg.2.1
    obtain ⟨⟨w, va₁⟩, harg, hread⟩ := Option.bind_eq_some_iff.mp hread
    cases hread
    refine ⟨p + 2, ?_, .cons_cons h⟩
    dsimp only
    rw [if_pos hdot, hstar, if_neg (by decide), if_pos rfl, harg]
    rfl
  · rename_i u hne
    have hdot : m.load8 p = 46 := h.seg.1
    have hrest := Reaches.cons h
    cases hread
    dsimp only
    rw [if_pos hdot]
    cases hdigit : isDigit (m.load8 (p + 1)) with
    | true =>
      obtain ⟨q, heq, hreach⟩ := atoi_eq (i := 0) hrest.rest (length_lt_addrSpace hrest.rest)
      exact ⟨q, by rw [if_pos rfl, heq]; rfl, hrest.trans hreach⟩
    | false =>
      have hstar : m.load8 (p + 1) ≠ 42 := load8_ne hrest.rest (by decide) hne
      rw [if_neg (by decide), if_neg hstar, readNumber_of_not_isDigit hrest.rest hdigit]
      exact ⟨p + 1, rfl, hrest⟩
  · rename_i hne
    cases hread
    have hdot : m.load8 p ≠ 46 := load8_ne h (by decide) hne
    dsimp only
    rw [if_neg hdot]
    exact ⟨p, rfl, .refl h⟩

theorem evalLength_eq (flags : Flags) (h : StrAt m p u) :
    ∃ q, evalLength m p flags = ((readLength u flags).1, q) ∧
      Reaches m p u q (readLength u flags).2 := by
  unfold readLength
  split
  · have hl : m.load8 p = 108 := h.seg.1
    have hll : m.load8 (p + 1) = 108 := h.seg.2.1
    exact ⟨p + 2, by simp [evalLength, hl, hll], .cons_cons h⟩
  · rename_i u hne
    have hl : m.load8 p = 108 := h.seg.1
    have hll : m.load8 (p + 1) ≠ 108 := load8_ne (Reaches.cons h).rest (by decide) hne
    exact ⟨p + 1, by simp [evalLength, hl, hll], .cons h⟩
  · have hh : m.load8 p = 104 := h.seg.1
    have hhh : m.load8 (p + 1) = 104 := h.seg.2.1
    exact ⟨p + 2, by simp [evalLength, hh, hhh], .cons_cons h⟩
  · rename_i u hne
    have hh : m.load8 p = 104 := h.seg.1
    have hhh : m.load8 (p + 1) ≠ 104 := load8_ne (Reaches.cons h).rest (by decide) hne
    exact ⟨p + 1, by simp [evalLength, hh, hhh], .cons h⟩
  · have hj : m.load8 p = 106 := h.seg.1
    exact ⟨p + 1, by simp [evalLength, hj], .cons h⟩
  · have hz : m.load8 p = 122 := h.seg.1
    exact ⟨p + 1, by simp [evalLength, hz], .cons h⟩
  · rename_i _ hl _ hh hj hz
    have hl := load8_ne h (by decide) hl
    have hh := load8_ne h (by decide) hh
    have hj := load8_ne h (by decide) hj
    have hz := load8_ne h (by decide) hz
    exact ⟨p, by simp [evalLength, hl, hh, hj, hz], .refl h⟩

theorem evalSpec_eq (h : StrAt m p u) (hread : readSpec u va = some (spec, r, va')) :
    ∃ q, evalSpec m p va = some (spec, q, va') ∧ Reaches m p u q r := by
  obtain ⟨⟨spec₁, u₁, va₁⟩, hwidth, hread⟩ := Option.bind_eq_some_iff.mp hread
  obtain ⟨⟨spec₂, u₂, va₂⟩, hprec, hread⟩ := Option.bind_eq_some_iff.mp hread
  obtain ⟨rfl, rfl, rfl⟩ : { spec₂ with flags := (readLength u₂ spec₂.flags).1 } = spec ∧
      (readLength u₂ spec₂.flags).2 = r ∧ va₂ = va' := by simpa using hread
  obtain ⟨q₁, hflags', h₁⟩ := evalFlags_eq {} h (length_lt_addrSpace h)
  obtain ⟨q₂, hwidth', h₂⟩ := evalWidth_eq h₁.rest hwidth
  obtain ⟨q₃, hprec', h₃⟩ := evalPrecision_eq h₂.rest hprec
  obtain ⟨q₄, hlength', h₄⟩ := evalLength_eq spec₂.flags h₃.rest
  refine ⟨q₄, ?_, ((h₁.trans h₂).trans h₃).trans h₄⟩
  simp [evalSpec, hflags', hwidth', hprec', hlength']

theorem strnlenS_eq {n : Nat} (h : StrAt m p u) : strnlenS m p n = min u.length n := by
  induction n generalizing p u with
  | zero => exact (Nat.min_zero _).symm
  | succ n ih =>
    rw [strnlenS]
    cases u with
    | nil =>
      have hnul : m.load8 p = 0 := h.nul
      rw [if_pos hnul, List.length_nil, Nat.zero_min]
    | cons c u =>
      have hc : m.load8 p ≠ 0 := mt h.load8_eq_zero.mp (List.cons_ne_nil _ _)
      rw [if_neg hc, ih (Reaches.cons h).rest, List.length_cons, Nat.succ_min_succ]

/-- A precision is given or it is zero. -/
theorem readPrecision_limited (hread : readPrecision u spec va = some (spec', r, va'))
    (h : spec'.flags.precision = false) : spec'.precision = 0 := by
  unfold readPrecision at hread
  split at hread
  · obtain ⟨⟨w, va₁⟩, -, hread⟩ := Option.bind_eq_some_iff.mp hread
    cases hread
    cases h
  · cases hread
    cases h
  · cases hread
    rfl

theorem readLength_precision : (readLength u flags).1.precision = flags.precision := by
  unfold readLength
  split <;> rfl

theorem readSpec_limited (hread : readSpec u va = some (spec, r, va'))
    (h : spec.flags.precision = false) : spec.precision = 0 := by
  obtain ⟨⟨spec₁, u₁, va₁⟩, -, hread⟩ := Option.bind_eq_some_iff.mp hread
  obtain ⟨⟨spec₂, u₂, va₂⟩, hprec, hread⟩ := Option.bind_eq_some_iff.mp hread
  obtain ⟨rfl, -, -⟩ : { spec₂ with flags := (readLength u₂ spec₂.flags).1 } = spec ∧
      (readLength u₂ spec₂.flags).2 = r ∧ va₂ = va' := by simpa using hread
  have hprecision : spec₂.flags.precision = false := by
    rw [← readLength_precision]
    exact h
  have hzero := readPrecision_limited hprec hprecision
  exact hzero

end Reading

/-! ## The engine puts the text out -/

/-- The strings lie in the memory. -/
def StringsAt (strings : UInt32 → Option (List UInt8)) (m : Mem) : Prop :=
  ∀ w t, strings w = some t → StrAt m w.toNat t

/-- While a text is put out, a property of the state stays. -/
def Stays {σ : Type} (f : OutFct σ) (maxlen : UInt32) (P : σ → Prop) (s : Printed σ)
    (t : List UInt8) : Prop :=
  ∀ t', t' <+: t → P (s.puts f maxlen t').state

theorem stringsAt_none {m : Mem} : StringsAt (fun _ => none) m := fun _ _ h => by cases h

section Engine

variable {σ : Type} {f : OutFct σ} {maxlen : UInt32} {s s' : Printed σ} {P : σ → Prop}
  {strings : UInt32 → Option (List UInt8)} {c : UInt8} {spec : Spec} {va va' : VaList}
  {t u : List UInt8}

theorem Stays.start (h : Stays f maxlen P s t) : P s.state := h [] List.nil_prefix

theorem Stays.left (h : Stays f maxlen P s (t ++ u)) : Stays f maxlen P s t :=
  fun t' ht' => h t' (ht'.trans (List.prefix_append t u))

theorem Stays.right (h : Stays f maxlen P s (t ++ u)) : Stays f maxlen P (s.puts f maxlen t) u :=
  fun t' ht' => by
    rw [← Printed.puts_append]
    exact h _ ((List.prefix_append_right_inj t).mpr ht')

/-- A property that every character keeps stays. -/
theorem stays_of_keeps (hkeep : ∀ c idx s, P s → P (f.out c idx maxlen s)) (hs : P s.state) :
    Stays f maxlen P s t := by
  intro t' _
  clear * - hkeep hs
  induction t' generalizing s with
  | nil => exact hs
  | cons c t' ih => exact ih (s := s.put f maxlen c) (hkeep c s.idx s.state hs)

theorem outString_eq (fuel : Nat) (flags : Flags) (precision : Nat) {p : Nat}
    (hstr : ∀ s, P s → StrAt (f.mem s) p t)
    (hstays : Stays f maxlen P s (if flags.precision then t.take precision else t))
    (hfuel : t.length < fuel) :
    outString f maxlen flags fuel p precision s =
      some (s.puts f maxlen (if flags.precision then t.take precision else t)) := by
  induction fuel generalizing p precision t s with
  | zero => exact absurd hfuel (Nat.not_lt_zero _)
  | succ fuel ih =>
    rw [outString]
    have hs := hstr _ hstays.start
    cases t with
    | nil =>
      have hnul : (f.mem s.state).load8 p = 0 := hs.nul
      simp [hnul]
    | cons c t =>
      have hc : (f.mem s.state).load8 p = c := hs.seg.1
      have hne : c ≠ 0 := fun h => hs.nulFree (by simp [h])
      have hrest := fun precision => ih (s := s.put f maxlen c) precision (p := p + 1)
        fun s hs => (Reaches.cons (hstr s hs)).rest
      have hlt := Nat.lt_of_succ_lt_succ hfuel
      cases hprec : flags.precision with
      | false =>
        simp only [hprec, Bool.false_eq_true, if_false] at hstays hrest ⊢
        have hstays := Stays.right (t := [c]) hstays
        simp [hc, hne, hrest (precision - 1) hstays hlt]
      | true =>
        cases precision with
        | zero => simp
        | succ precision =>
          simp only [hprec, if_true, List.take_succ_cons] at hstays hrest ⊢
          have hstays := Stays.right (t := [c]) hstays
          simp [hc, hne, hrest precision hstays hlt]

/-- The magnitude of an `int`. -/
theorem magnitude_eq (value : Int32) :
    (if value > 0 then value else 0 - value).toUInt32.toNat = value.toInt.natAbs := by
  have hlt := value.toBitVec.isLt
  have hint : value.toInt = value.toBitVec.toInt := rfl
  have hpos : value > 0 ↔ 0 < value.toBitVec.toInt := Int32.lt_iff_toInt_lt
  rw [BitVec.toInt_eq_toNat_cond] at hpos
  rw [hint, BitVec.toInt_eq_toNat_cond]
  split
  · rename_i h
    have h := hpos.mp h
    change value.toBitVec.toNat = _
    omega
  · rename_i h
    have h := mt hpos.mpr h
    change (0#32 - value.toBitVec).toNat = _
    rw [BitVec.toNat_sub, BitVec.toNat_ofNat]
    omega

theorem integerFlags_longLong {flags : Flags} :
    (integerFlags c flags).longLong = flags.longLong := by
  unfold integerFlags
  dsimp only
  repeat' split
  all_goals rfl

theorem convertInteger_eq (hlong : spec.flags.longLong = false) {w : UInt32} :
    convertInteger f maxlen s c spec (w :: va) =
      some (s.puts f maxlen (integerText c spec w), va) := by
  have hflags : (integerFlags c spec.flags).longLong = false := by
    rw [integerFlags_longLong, hlong]
  unfold convertInteger integerText
  simp only [hflags, vaArg, ntoaLong_eq, magnitude_eq]
  by_cases hc : c = 105 ∨ c = 100 <;> simp [hc]

theorem convertString_eq {w : UInt32} (hstr : ∀ s, P s → StrAt (f.mem s) w.toNat u)
    (hstays : Stays f maxlen P s (stringText spec u))
    (hlimited : spec.flags.precision = false → spec.precision = 0) :
    convertString f maxlen s spec (w :: va) = some (s.puts f maxlen (stringText spec u), va) := by
  have hstrAt := hstr _ hstays.start
  have hlt := length_lt_addrSpace hstrAt
  have hfits := hstrAt.fits
  have hlen : (if spec.flags.precision then
      min (strnlenS (f.mem s.state) w.toNat
        (if spec.precision ≠ 0 then spec.precision else 2 ^ 32 - 1)) spec.precision
      else strnlenS (f.mem s.state) w.toNat
        (if spec.precision ≠ 0 then spec.precision else 2 ^ 32 - 1)) =
      (if spec.flags.precision then u.take spec.precision else u).length := by
    rw [strnlenS_eq hstrAt]
    cases hprec : spec.flags.precision with
    | true =>
      rw [if_pos rfl, if_pos rfl, List.length_take]
      split <;> omega
    | false =>
      rw [hlimited hprec]
      simp
      omega
  have hout := fun s (hs : Stays f maxlen P s _) =>
    outString_eq addrSpace spec.flags spec.precision hstr hs hlt
  unfold stringText padded at hstays
  unfold convertString stringText
  simp only [vaArg, Option.bind_eq_bind, Option.bind_some, hlen]
  cases hleft : spec.flags.left with
  | true =>
    rw [hleft] at hstays
    simp [hout s hstays.left, padded, Printed.spaces, Printed.puts_append]
  | false =>
    rw [hleft] at hstays
    simp [hout _ hstays.right, padded, Printed.spaces, Printed.puts_append]

/-- A conversion puts its text out. -/
theorem convert_eq (hstr : ∀ s, P s → StringsAt strings (f.mem s))
    (hstays : Stays f maxlen P s t) (hlimited : spec.flags.precision = false → spec.precision = 0)
    (htext : conversionText strings c spec va = some (t, va')) :
    convert f maxlen s c spec va = some (s.puts f maxlen t, va') := by
  unfold conversionText at htext
  unfold convert
  split at htext
  · rename_i hc
    rw [if_pos hc]
    cases hlong : spec.flags.longLong with
    | true =>
      rw [if_pos hlong] at htext
      cases htext
      simp [convertInteger, integerFlags_longLong, hlong]
    | false =>
      rw [hlong, if_neg (by decide)] at htext
      cases va with
      | nil => cases htext
      | cons w va =>
        cases htext
        exact convertInteger_eq hlong
  rename_i hinteger
  rw [if_neg hinteger]
  split at htext
  · rename_i hc
    rw [if_pos hc]
    cases va with
    | nil => cases htext
    | cons w va =>
      cases htext
      cases hleft : spec.flags.left <;>
        simp [convertChar, vaArg, hleft, padded, Printed.spaces, Printed.puts_append]
  rename_i hchar
  rw [if_neg hchar]
  split at htext
  · rename_i hc
    rw [if_pos hc]
    cases va with
    | nil => cases htext
    | cons w va =>
      obtain ⟨u, hu, heq⟩ : ∃ u, strings w = some u ∧
          some (stringText spec u, va) = some (t, va') :=
        Option.bind_eq_some_iff.mp htext
      cases heq
      exact convertString_eq (fun s hs => hstr s hs w u hu) hstays hlimited
  rename_i hstring
  rw [if_neg hstring]
  split at htext
  · rename_i hc
    rw [if_pos hc]
    cases va with
    | nil => cases htext
    | cons w va =>
      cases htext
      simp [convertPointer, vaArg, pointerText, ntoaLong_eq]
  rename_i hpointer
  rw [if_neg hpointer]
  cases htext
  rfl

theorem formatLoop_char {fuel p : Nat} (hc : (f.mem s.state).load8 p = c) (hne : c ≠ 0)
    (hchar : c ≠ 37) :
    formatLoop f maxlen (fuel + 1) p va s =
      formatLoop f maxlen fuel (p + 1) va (s.put f maxlen c) := by
  rw [formatLoop]
  simp [hc, hne, hchar]

/-- A conversion in the loop: its parts, and what they print. -/
theorem formatLoop_conversion {fuel p q : Nat} (hc : (f.mem s.state).load8 p = 37)
    (hspec : evalSpec (f.mem s.state) (p + 1) va = some (spec, q, va'))
    {va'' : VaList}
    (hconv : convert f maxlen s ((f.mem s.state).load8 q) spec va' = some (s', va'')) :
    formatLoop f maxlen (fuel + 1) p va s = formatLoop f maxlen fuel (q + 1) va'' s' := by
  rw [formatLoop]
  simp [hc, hspec, hconv]

/-- The rest of a text lies at one address, whichever memory has the text. -/
theorem evalSpec_rest {p q : Nat} {r : List UInt8} (hread : readSpec u va = some (spec, r, va'))
    (hq : q + r.length = p + u.length) (hformat : ∀ s, P s → StrAt (f.mem s) p u) :
    ∀ s, P s → evalSpec (f.mem s) p va = some (spec, q, va') ∧ StrAt (f.mem s) q r := by
  intro s hs
  obtain ⟨q', hspec, hreach⟩ := evalSpec_eq (hformat s hs) hread
  have hstop := hreach.stop
  obtain rfl : q' = q := by omega
  exact ⟨hspec, hreach.rest⟩

/-- The loop puts the text of its format out and goes on behind it, and behind the
terminator too if the format is cut off. -/
theorem formatLoop_eq (hstr : ∀ s, P s → StringsAt strings (f.mem s)) {p : Nat} {r : Formatted}
    (hformat : ∀ s, P s → StrAt (f.mem s) p u) (htext : formatText strings u va = some r)
    (hstays : Stays f maxlen P s r.text) :
    ∃ k ≤ u.length, ∀ fuel, formatLoop f maxlen (k + fuel) p va s =
      formatLoop f maxlen fuel (p + u.length + if r.cut then 1 else 0) r.va
        (s.puts f maxlen r.text) := by
  induction u, va using formatText.induct strings generalizing p s r with
  | case1 va =>
    rw [formatText] at htext
    cases htext
    exact ⟨0, Nat.le_refl _, fun fuel => by simp⟩
  | case2 va c u hchar ih =>
    rw [formatText_char hchar] at htext
    obtain ⟨r', hr', rfl⟩ := Option.map_eq_some_iff.mp htext
    have hstrAt := hformat _ hstays.start
    have hne : c ≠ 0 := fun h => hstrAt.nulFree (by simp [h])
    obtain ⟨k, hk, hloop⟩ := ih (s := s.put f maxlen c)
      (fun s hs => (Reaches.cons (hformat s hs)).rest) hr' (Stays.right (t := [c]) hstays)
    refine ⟨k + 1, Nat.succ_le_succ hk, fun fuel => ?_⟩
    rw [Nat.add_right_comm, formatLoop_char hstrAt.seg.1 hne hchar, hloop, List.length_cons,
      ← Nat.add_assoc, Nat.add_right_comm p 1]
    rfl
  | case3 va c u hchar hread =>
    obtain rfl : c = 37 := not_not.mp hchar
    rw [formatText_unread hread] at htext
    cases htext
  | case4 va c u hchar spec va' hread =>
    -- the specifier is the terminator
    obtain rfl : c = 37 := not_not.mp hchar
    rw [formatText_cut hread] at htext
    cases htext
    have hs := hstays.start
    have hrest := evalSpec_rest (q := p + 1 + u.length) hread rfl
      (fun s hs => (Reaches.cons (hformat s hs)).rest)
    refine ⟨1, by simp, fun fuel => ?_⟩
    have hnul : (f.mem s.state).load8 (p + 1 + u.length) = 0 := (hrest _ hs).2.nul
    have hconv : convert f maxlen s ((f.mem s.state).load8 (p + 1 + u.length)) spec va' =
        some (s.put f maxlen 0, va') := by
      rw [hnul]
      rfl
    rw [Nat.add_comm 1 fuel, formatLoop_conversion (hformat _ hs).seg.1 (hrest _ hs).1 hconv,
      List.length_cons, ← Nat.add_assoc, Nat.add_right_comm p 1]
    rfl
  | case5 va c u hchar spec c' r' va' hread hconv =>
    obtain rfl : c = 37 := not_not.mp hchar
    rw [formatText_conversion hread, hconv] at htext
    cases htext
  | case6 va c u hchar spec c' r' va' hread t va'' hconv ih =>
    obtain rfl : c = 37 := not_not.mp hchar
    rw [formatText_conversion hread, hconv] at htext
    obtain ⟨r'', hr'', rfl⟩ := Option.map_eq_some_iff.mp htext
    have hs := hstays.start
    have hle := length_readSpec_le hread
    rw [List.length_cons] at hle
    have hrest := evalSpec_rest (q := p + 1 + u.length - (r'.length + 1)) hread
      (by rw [List.length_cons]; omega) (fun s hs => (Reaches.cons (hformat s hs)).rest)
    obtain ⟨k, hk, hloop⟩ := ih (s := s.puts f maxlen t)
      (fun s hs => (Reaches.cons (hrest s hs).2).rest) hr'' (Stays.right (t := t) hstays)
    refine ⟨k + 1, by rw [List.length_cons]; omega, fun fuel => ?_⟩
    have hc' : (f.mem s.state).load8 (p + 1 + u.length - (r'.length + 1)) = c' :=
      (hrest _ hs).2.seg.1
    have hconv' := convert_eq hstr (Stays.left (t := t) hstays) (readSpec_limited hread) hconv
    rw [← hc'] at hconv'
    rw [Nat.add_right_comm, formatLoop_conversion (hformat _ hs).seg.1 (hrest _ hs).1 hconv', hloop,
      show p + 1 + u.length - (r'.length + 1) + 1 + r'.length = p + (37 :: u).length by
        rw [List.length_cons]; omega, ← Printed.puts_append]
    rfl

end Engine

end Microboot.Kern.Printf
