/-
  Kern/Stdlib.lean --- the memory and string functions of kern/stdlib.c that
  the rest of the model runs on.

  Every loop over a string looks at the whole 32-bit address space at most
  once: `addrSpace` is the fuel of such a loop, and running out of it means
  that the C loop never ends.
-/
import Microboot.Foundation.CString
import Microboot.Foundation.Numeral
import Microboot.Foundation.Words

set_option autoImplicit false

namespace Microboot.Kern

open Microboot.Foundation

/-- The number of addresses, which bounds every terminating scan. -/
def addrSpace : Nat := 2 ^ 32

/-! ## Assertions -/

/-- How a call can fail to return: an assertion failed, with its message, a loop goes
on for ever, or a number was divided by zero. -/
inductive Fault where
  | assert (message : String)
  | hang
  | divide
  deriving DecidableEq, Repr

/-- `ASSERT(expr, message)`: `_assert` prints the message and hangs the machine. -/
def require (expr : Prop) [Decidable expr] (message : String) : Except Fault Unit :=
  if expr then .ok () else .error (.assert message)

theorem require_eq_ok {expr : Prop} [Decidable expr] {message : String} {u : Unit}
    (h : require expr message = .ok u) : expr := by
  unfold require at h
  split at h
  · assumption
  · cases h

@[simp] theorem require_of {expr : Prop} [Decidable expr] (message : String) (h : expr) :
    require expr message = .ok () := if_pos h

@[simp] theorem ok_bind {ε α β : Type} (a : α) (f : α → Except ε β) :
    (Except.ok a >>= f) = f a := rfl

@[simp] theorem error_bind {ε α β : Type} (e : ε) (f : α → Except ε β) :
    (Except.error e >>= f) = .error e := rfl

/-- What follows an assertion decides on the assertions with another text. -/
theorem require_bind_ne {α : Type} {expr : Prop} [Decidable expr] {message other : String}
    {rest : Unit → Except Fault α} (hmessage : message ≠ other)
    (hrest : rest () ≠ .error (.assert other)) :
    (require expr message >>= rest) ≠ .error (.assert other) := by
  unfold require
  split
  · exact hrest
  · intro h
    cases h
    exact hmessage rfl

/-- A sequence returns if its parts do. -/
theorem bind_eq_ok {ε α β : Type} {x : Except ε α} {f : α → Except ε β} {b : β}
    (h : (x >>= f) = .ok b) : ∃ a, x = .ok a ∧ f a = .ok b := by
  cases x with
  | error e => cases h
  | ok a => exact ⟨a, rfl, h⟩

theorem map_eq_ok {ε α β : Type} {x : Except ε α} {f : α → β} {b : β}
    (h : f <$> x = .ok b) : ∃ a, x = .ok a ∧ f a = b := by
  cases x with
  | error e => cases h
  | ok a => exact ⟨a, rfl, Except.ok.inj h⟩

/-- Whether a call returns, with a property of what it returns, can be computed. -/
instance decidableExistsOk {α : Type} {x : Except Fault α} {P : α → Prop} [DecidablePred P] :
    Decidable (∃ a, x = .ok a ∧ P a) :=
  match x with
  | .ok a => decidable_of_iff (P a)
      ⟨fun h => ⟨a, rfl, h⟩, fun ⟨_, hok, h⟩ => by cases hok; exact h⟩
  | .error _ => .isFalse fun ⟨_, hok, _⟩ => (nomatch hok)

/-! ## memset, memcpy, strlen -/

/-- `memset(memory, value, len)`. -/
def memset (m : Mem) (memory : Nat) (value : UInt8) (len : Nat) : Mem :=
  m.fill memory value len

/-- `memcpy(dst, src, len)`, the plain byte loop. -/
def memcpy (m : Mem) (dst src len : Nat) : Mem := m.copy dst src len

/-- `strlen(str)`. -/
def strlen (m : Mem) (str : Nat) : Option Nat := scan (· == 0) m addrSpace str

theorem strlen_eq {m : Mem} {p : Nat} {s : List UInt8} (h : StrAt m p s) :
    strlen m p = some s.length := by
  have hfits := h.fits
  refine scan_seg addrSpace s p h.seg (fun c hc => ?_) ?_ (by unfold addrSpace; omega)
  · simp only [beq_eq_false_iff_ne, ne_eq]
    rintro rfl
    exact h.nulFree hc
  · simp [h.nul]

/-- The string at `p`, if the scan for its terminator ends. -/
def cstr (m : Mem) (p : Nat) : Option (List UInt8) :=
  (strlen m p).map fun n => bytesAt m p n

theorem cstr_eq {m : Mem} {p : Nat} {s : List UInt8} (h : StrAt m p s) :
    cstr m p = some s := by
  rw [cstr, strlen_eq h, Option.map_some, h.seg.bytesAt]

/-- `strdup(s)`, given the address `str` that `kalloc(strlen(s) + 1)` returned. -/
def strdup (m : Mem) (s str : Nat) : Option Mem := do
  let size := (← strlen m s) + 1
  if str ≠ 0 then return memcpy m str s size else return m

/-- The duplicate is the string. -/
theorem strdup_spec {m : Mem} {p str : Nat} {s : List UInt8} (h : StrAt m p s)
    (hstr : str ≠ 0) (hfits : str + s.length < 2 ^ 32)
    (hdis : str + s.length < p ∨ p + s.length < str) :
    ∃ m', strdup m p str = some m' ∧ StrAt m' str s := by
  have hp := h.fits
  refine ⟨memcpy m str p (s.length + 1), by simp [strdup, strlen_eq h, hstr], ?_⟩
  have hcopy : ∀ i, i ≤ s.length → memcpy m str p (s.length + 1) (str + i) = m (p + i) :=
    fun i hi => Mem.copy_apply _ m str p i (by omega) (by omega) (by omega) (by omega)
  refine ⟨seg_of_load8 fun i hi => ?_, ?_, h.nulFree, hfits⟩
  · rw [Mem.load8_eq _ (by omega), hcopy i (by omega), ← Mem.load8_eq m (by omega),
      h.seg.load8 i hi]
  · rw [Mem.load8_eq _ hfits, hcopy _ (by omega), ← Mem.load8_eq m hp, h.nul]

/-! ## strcmp -/

/-- `strcmp(a, b)` of two strings, each followed by its terminator. -/
def strcmp : List UInt8 → List UInt8 → Int
  | [], [] => 0
  | [], b :: _ => 0 - (b.toNat : Int)
  | a :: _, [] => a.toNat
  | a :: as, b :: bs => if a ≠ 0 ∧ a = b then strcmp as bs else (a.toNat : Int) - b.toNat

/-- The difference of two characters that a comparison stops at. -/
theorem toNat_sub_ne_zero {c d : UInt8} (h : c ≠ d) : (c.toNat : Int) - d.toNat ≠ 0 := by
  have hne : c.toNat ≠ d.toNat := fun heq => h (UInt8.toNat.inj heq)
  omega

theorem toNat_ne_zero {c : UInt8} (h : c ≠ 0) : (c.toNat : Int) ≠ 0 := by
  simpa using toNat_sub_ne_zero h

/-- Strings without a terminator in them compare as equal exactly if they are. -/
theorem strcmp_eq_zero_iff {a b : List UInt8} (ha : 0 ∉ a) (hb : 0 ∉ b) :
    strcmp a b = 0 ↔ a = b := by
  induction a generalizing b with
  | nil =>
    cases b with
    | nil => simp [strcmp]
    | cons c cs =>
      have hc := toNat_ne_zero (c := c) fun h => hb (by simp [h])
      simp only [strcmp, reduceCtorEq, iff_false]
      omega
  | cons c cs ih =>
    have hc0 : c ≠ 0 := fun h => ha (by simp [h])
    cases b with
    | nil =>
      simp only [strcmp, reduceCtorEq, iff_false]
      exact toNat_ne_zero hc0
    | cons d ds =>
      have hrest : strcmp cs ds = 0 ↔ cs = ds :=
        ih (fun h => ha (List.mem_cons_of_mem _ h)) fun h => hb (List.mem_cons_of_mem _ h)
      rw [strcmp, List.cons.injEq]
      by_cases hcd : c = d
      · rw [if_pos ⟨hc0, hcd⟩, hrest]
        simp [hcd]
      · rw [if_neg fun h => hcd h.2]
        exact iff_of_false (toNat_sub_ne_zero hcd) fun h => hcd h.1

/-- A C string: bytes without a terminator among them. -/
abbrev Key : Type := { s : List UInt8 // (0 : UInt8) ∉ s }

theorem nul_not_mem_nil : (0 : UInt8) ∉ ([] : List UInt8) := List.not_mem_nil

theorem nul_not_mem_a : (0 : UInt8) ∉ [97] := by decide

theorem strcmp_key_eq_zero_iff {a b : Key} : strcmp a.val b.val = 0 ↔ a = b :=
  (strcmp_eq_zero_iff a.property b.property).trans Subtype.ext_iff.symm

/-! ## stricmp -/

/-- `tolower(ch)` -/
def tolower (ch : UInt8) : UInt8 := if 65 ≤ ch ∧ ch ≤ 90 then ch ^^^ 0x20 else ch

/-- `stricmp(a, b)` of two strings, each followed by its terminator. -/
def stricmp : List UInt8 → List UInt8 → Int
  | [], [] => 0
  | [], b :: _ => 0 - (b.toNat : Int)
  | a :: _, [] => a.toNat
  | a :: as, b :: bs =>
    if a ≠ 0 ∧ tolower a = tolower b then stricmp as bs else (a.toNat : Int) - b.toNat

theorem tolower_eq_zero_iff : ∀ c : UInt8, tolower c = 0 ↔ c = 0 :=
  byte_all (by decide +kernel)

/-- Strings without a terminator in them compare as equal exactly if they are, but for
the case of letters. -/
theorem stricmp_eq_zero_iff {a b : List UInt8} (ha : 0 ∉ a) (hb : 0 ∉ b) :
    stricmp a b = 0 ↔ a.map tolower = b.map tolower := by
  induction a generalizing b with
  | nil =>
    cases b with
    | nil => simp [stricmp]
    | cons d ds =>
      have hd := toNat_ne_zero (c := d) fun h => hb (by simp [h])
      simp only [stricmp, List.map_nil, List.map_cons, reduceCtorEq, iff_false]
      omega
  | cons c cs ih =>
    have hc0 : c ≠ 0 := fun h => ha (by simp [h])
    cases b with
    | nil =>
      simp only [stricmp, List.map_nil, List.map_cons, reduceCtorEq, iff_false]
      exact toNat_ne_zero hc0
    | cons d ds =>
      have hrest : stricmp cs ds = 0 ↔ cs.map tolower = ds.map tolower :=
        ih (fun h => ha (List.mem_cons_of_mem _ h)) fun h => hb (List.mem_cons_of_mem _ h)
      rw [stricmp, List.map_cons, List.map_cons, List.cons.injEq]
      by_cases hcd : tolower c = tolower d
      · rw [if_pos ⟨hc0, hcd⟩, hrest]
        simp [hcd]
      · -- the difference is that of the characters themselves
        rw [if_neg fun h => hcd h.2]
        exact iff_of_false (toNat_sub_ne_zero fun h => hcd (congrArg tolower h)) fun h => hcd h.1

/-! ## strncmp -/

/-- `strncmp(a, b, n)` of two strings, each followed by its terminator. -/
def strncmp : List UInt8 → List UInt8 → Nat → Int
  | _, _, 0 => 0
  | [], b, _ + 1 => 0 - ((b.headD 0).toNat : Int)
  | a :: as, b, n + 1 =>
    if a ≠ 0 ∧ a = b.headD 0 then strncmp as b.tail n else (a.toNat : Int) - (b.headD 0).toNat

/-- A string starts with another, if it compares as equal over its length. -/
theorem strncmp_length_eq_zero_iff {a b : List UInt8} (hb : 0 ∉ b) :
    strncmp a b b.length = 0 ↔ b <+: a := by
  induction b generalizing a with
  | nil => cases a <;> simp [strncmp]
  | cons d ds ih =>
    have hd : d ≠ 0 := fun h => hb (by simp [h])
    cases a with
    | nil =>
      have hpos := toNat_ne_zero hd
      simp only [List.length_cons, strncmp, List.headD_cons, List.prefix_nil, reduceCtorEq,
        iff_false]
      omega
    | cons c cs =>
      rw [List.length_cons, strncmp, List.headD_cons, List.tail_cons, List.cons_prefix_cons]
      by_cases hcd : c = d
      · subst hcd
        rw [if_pos ⟨hd, rfl⟩, ih fun h => hb (List.mem_cons_of_mem _ h)]
        simp
      · rw [if_neg fun h => hcd h.2]
        exact iff_of_false (toNat_sub_ne_zero hcd) fun h => hcd h.1.symm

/-! ## atoi -/

/-- `while (*str != '\0') n = 10 * n - (*str++ - '0');` -/
def atoiLoop : Int32 → List UInt8 → Int32
  | n, [] => n
  | n, c :: str => atoiLoop (10 * n - (Int32.ofInt c.toInt8.toInt - 48)) str

/-- `atoi(str)` -/
def atoi : List UInt8 → Int32
  | 45 :: str => atoiLoop 0 str
  | 43 :: str => -atoiLoop 0 str
  | str => -atoiLoop 0 str

/-- The loop counts downwards, wrapping around. -/
theorem atoiLoop_ofInt (n : Int) (s : List UInt8) :
    atoiLoop (Int32.ofInt (-n)) s = Int32.ofInt (-textValueFrom n s) := by
  induction s generalizing n with
  | nil => rfl
  | cons c s ih =>
    have hstep : 10 * Int32.ofInt (-n) - (Int32.ofInt c.toInt8.toInt - 48) =
        Int32.ofInt (-(10 * n + digitOf c)) := by
      have hten : (10 : Int32) = Int32.ofInt 10 := rfl
      have hzero : (48 : Int32) = Int32.ofInt 48 := rfl
      rw [hten, hzero, ← Int32.ofInt_sub, ← Int32.ofInt_mul, ← Int32.ofInt_sub]
      congr 1
      unfold digitOf
      ring
    rw [atoiLoop, hstep, ih]
    rfl

/-- A string without a sign has its value in base 10. -/
theorem atoi_eq {s : List UInt8} (hminus : s.head? ≠ some 45) (hplus : s.head? ≠ some 43) :
    atoi s = Int32.ofInt (textValue s) := by
  have hloop : atoiLoop 0 s = Int32.ofInt (-textValue s) := atoiLoop_ofInt 0 s
  have hatoi : atoi s = -atoiLoop 0 s := by
    unfold atoi
    split
    · exact absurd rfl hminus
    · exact absurd rfl hplus
    · rfl
  rw [hatoi, hloop, Int32.ofInt_neg, Int32.neg_neg]

/-- A value of an `int` is not wrapped. -/
theorem atoi_toInt {s : List UInt8} (hminus : s.head? ≠ some 45) (hplus : s.head? ≠ some 43)
    (hge : -2 ^ 31 ≤ textValue s) (hlt : textValue s < 2 ^ 31) : (atoi s).toInt = textValue s := by
  rw [atoi_eq hminus hplus]
  exact Int32.toInt_ofInt_of_le hge hlt

/-! ## strchr -/

/-- `strchr(s, c)`: the offset of the first `c` in the string or its terminator. -/
def strchr : List UInt8 → UInt8 → Option Nat
  | [], c => if c = 0 then some 0 else none
  | a :: s, c => if a = c then some 0 else (strchr s c).map (· + 1)

theorem strchr_append {u v : List UInt8} {c : UInt8} (hu : c ∉ u) :
    strchr (u ++ c :: v) c = some u.length := by
  induction u with
  | nil => simp [strchr]
  | cons a u ih =>
    rw [List.mem_cons, not_or] at hu
    simp [strchr, Ne.symm hu.1, ih hu.2]

/-- A character that is found splits the string. -/
theorem strchr_eq_some {s : List UInt8} {c : UInt8} {i : Nat} (hc : c ≠ 0)
    (h : strchr s c = some i) : ∃ u v, s = u ++ c :: v ∧ c ∉ u ∧ u.length = i := by
  induction s generalizing i with
  | nil => simp [strchr, hc] at h
  | cons a s ih =>
    rw [strchr] at h
    split at h
    next heq =>
      cases h
      exact ⟨[], s, by rw [heq]; rfl, by simp, rfl⟩
    next hne =>
      rw [Option.map_eq_some_iff] at h
      obtain ⟨j, hj, rfl⟩ := h
      obtain ⟨u, v, rfl, hu, rfl⟩ := ih hj
      exact ⟨a :: u, v, rfl, by simp [hu, Ne.symm hne], rfl⟩

theorem strchr_eq_none_iff {s : List UInt8} {c : UInt8} (hc : c ≠ 0) :
    strchr s c = none ↔ c ∉ s := by
  constructor
  · intro h hmem
    obtain ⟨u, v, rfl, hu⟩ := List.eq_append_cons_of_mem hmem
    rw [strchr_append hu] at h
    cases h
  · intro h
    cases hs : strchr s c with
    | none => rfl
    | some i =>
      obtain ⟨u, v, rfl, -, -⟩ := strchr_eq_some hc hs
      exact absurd (by simp) h

/-! ## strtok_r -/

/-- The inner loop of `strtok_r`: is `c` one of the delimiters? -/
def isDelim (delim : List UInt8) (c : UInt8) : Bool := delim.contains c

/-- The string that a call works on: the argument, or the rest of the old one
that `saveptr` holds. -/
def tokSource (str saveptr : Nat) : Nat := if str ≠ 0 then str else saveptr

@[simp] theorem tokSource_null (saveptr : Nat) : tokSource 0 saveptr = saveptr := rfl

theorem tokSource_of_ne {str : Nat} (h : str ≠ 0) (saveptr : Nat) :
    tokSource str saveptr = str := if_pos h

/-- `strtok_r(str, delim, &saveptr)`: the memory with the delimiter after the
token overwritten, the token (0 for `NULL`) and the new `saveptr`. -/
def strtokR (m : Mem) (str : Nat) (delim : List UInt8) (saveptr : Nat) :
    Option (Mem × Nat × Nat) := do
  let str := tokSource str saveptr
  if str = 0 then
    return (m, 0, saveptr)
  let skipped ← scan (fun c => c == 0 || !isDelim delim c) m addrSpace str
  let str := str + skipped
  if m.load8 str = 0 then
    return (m, 0, str)
  let len ← scan (fun c => c == 0 || isDelim delim c) m addrSpace str
  let saveptr := str + len
  if m.load8 saveptr = 0 then
    return (m, str, saveptr)
  return (m.store8 saveptr 0, str, saveptr + 1)

section Spec

variable {m : Mem} (delim : List UInt8) (str saveptr : Nat)

/-- Skipping the delimiters in front of a token. -/
theorem scan_lead {p : Nat} {lead s : List UInt8} (h : StrAt m p (lead ++ s))
    (hlead : Blank (isDelim delim) lead) (hs : ∀ c t, s = c :: t → isDelim delim c = false) :
    scan (fun c => c == 0 || !isDelim delim c) m addrSpace p = some lead.length := by
  have hfits := h.fits
  rw [List.length_append] at hfits
  refine scan_seg addrSpace lead p (seg_append.mp h.seg).1 (fun c hc => ?_) ?_
    (by unfold addrSpace; omega)
  · have hne : c ≠ 0 := fun h0 => h.nulFree (by simp [← h0, hc])
    simp [hne, hlead c hc]
  · cases s with
    | nil => simp [h.drop.load8_eq_zero.mpr rfl]
    | cons c t => simp [h.drop.seg.1, hs c t rfl]

/-- Running over a token up to the delimiter or the terminator after it. -/
theorem scan_word {p : Nat} {w s : List UInt8} (h : StrAt m p (w ++ s))
    (hw : ∀ c ∈ w, isDelim delim c = false) (hs : ∀ c t, s = c :: t → isDelim delim c = true) :
    scan (fun c => c == 0 || isDelim delim c) m addrSpace p = some w.length := by
  have hfits := h.fits
  rw [List.length_append] at hfits
  refine scan_seg addrSpace w p (seg_append.mp h.seg).1 (fun c hc => ?_) ?_
    (by unfold addrSpace; omega)
  · have hne : c ≠ 0 := fun h0 => h.nulFree (by simp [← h0, hc])
    simp [hne, hw c hc]
  · cases s with
    | nil => simp [h.drop.load8_eq_zero.mpr rfl]
    | cons c t => simp [h.drop.seg.1, hs c t rfl]

/-- Nothing but delimiters is left: no token, and `saveptr` is at the end. -/
theorem strtokR_blank {s : List UInt8} (hp : tokSource str saveptr ≠ 0)
    (h : StrAt m (tokSource str saveptr) s) (hs : Blank (isDelim delim) s) :
    strtokR m str delim saveptr = some (m, 0, tokSource str saveptr + s.length) := by
  have hscan := scan_lead delim (s := []) (by simpa using h) hs (by simp)
  simp [strtokR, hp, hscan, h.nul]

/-- The last token: nothing is overwritten. -/
theorem strtokR_last {lead w : List UInt8} (hp : tokSource str saveptr ≠ 0)
    (h : StrAt m (tokSource str saveptr) (lead ++ w)) (hlead : Blank (isDelim delim) lead)
    (hw : IsWord (isDelim delim) w) :
    strtokR m str delim saveptr =
      some (m, tokSource str saveptr + lead.length,
        tokSource str saveptr + lead.length + w.length) := by
  have hscan := scan_lead delim h hlead (by rintro c t rfl; exact hw.2 c (by simp))
  have hscan' := scan_word delim (s := []) (by simpa using h.drop) hw.2 (by simp)
  have hne : m.load8 (tokSource str saveptr + lead.length) ≠ 0 :=
    fun h0 => hw.1 (h.drop.load8_eq_zero.mp h0)
  have hend := h.drop.nul
  simp [strtokR, hp, hscan, hscan', hne, hend]

/-- A token with a delimiter after it, which becomes its terminator. -/
theorem strtokR_cons {lead w rest : List UInt8} {d : UInt8} (hp : tokSource str saveptr ≠ 0)
    (h : StrAt m (tokSource str saveptr) (lead ++ (w ++ d :: rest)))
    (hlead : Blank (isDelim delim) lead) (hw : IsWord (isDelim delim) w)
    (hd : isDelim delim d = true) :
    strtokR m str delim saveptr =
      some (m.store8 (tokSource str saveptr + lead.length + w.length) 0,
        tokSource str saveptr + lead.length,
        tokSource str saveptr + lead.length + w.length + 1) := by
  have hscan := scan_lead delim h hlead (by
    intro c t hct
    cases w with
    | nil => exact absurd rfl hw.1
    | cons c' w =>
      simp only [List.cons_append, List.cons.injEq] at hct
      exact hct.1 ▸ hw.2 c' (by simp))
  have hscan' := scan_word delim h.drop hw.2 (by
    intro c t hct
    simp only [List.cons.injEq] at hct
    exact hct.1 ▸ hd)
  have hne : m.load8 (tokSource str saveptr + lead.length) ≠ 0 :=
    fun h0 => hw.1 (List.append_eq_nil_iff.mp (h.drop.load8_eq_zero.mp h0)).1
  have hend : m.load8 (tokSource str saveptr + lead.length + w.length) ≠ 0 :=
    fun h0 => List.cons_ne_nil d rest (h.drop.drop.load8_eq_zero.mp h0)
  simp [strtokR, hp, hscan, hscan', hne, hend]

end Spec

end Microboot.Kern
