/-
  Kern/Strtoul.lean --- numbers from text, kern/stdlib.c.

  `strtoul` skips white space, takes a sign and the prefix of a base, and reads
  digits into an accumulator of 32 bits as long as they are digits of the base.
  `any` says what has happened: 0 if there was no digit, 1 if the accumulator has
  the number, and -1 if the number is too large for it.

  `NumberText` are the parts of the text by themselves, on lists.  The value that is
  returned is the one of the digits; the end that is stored is not behind them but
  on the last one, whichever way the loop was left.

  The numerals of `itoa` are such texts, and have no part but their digits.
-/
import Microboot.Foundation.Radix
import Microboot.Kern.Itoa

set_option autoImplicit false

namespace Microboot.Kern

open Microboot.Foundation

/-! ## The model -/

/-- A `char` as the `int` that it is promoted to. -/
def charInt (c : UInt8) : Int32 := c.toInt8.toInt32

/-- `isspace(c)` -/
def isspace (c : Int32) : Bool :=
  c = 9 ∨ c = 10 ∨ c = 11 ∨ c = 12 ∨ c = 13 ∨ c = 32

/-- `isdigit(c)` -/
def isdigit (c : Int32) : Bool := c ≥ 48 ∧ c ≤ 57

/-- `isalpha(c)` -/
def isalpha (c : Int32) : Bool := (c ≥ 97 ∧ c ≤ 122) ∨ (c ≥ 65 ∧ c ≤ 90)

/-- `isupper(c)` -/
def isupper (c : Int32) : Bool := c ≥ 65 ∧ c ≤ 90

/-- The digit that the loop of `strtoul` takes a character for. -/
def charDigit (c : Int32) : Option Int32 :=
  if isdigit c then some (c - 48)
  else if isalpha c then some (c - if isupper c then 55 else 87)
  else none

/-- `for (;; p++) { .. }`: where the loop is left, `acc` and `any`. -/
def digitsLoop (m : Mem) (base : Int32) (cutoff cutlim : UInt32) :
    Nat → Nat → UInt32 → Int32 → Option (Nat × UInt32 × Int32)
  | 0, _, _, _ => none
  | fuel + 1, p, acc, any =>
    match charDigit (charInt (m.load8 p)) with
    | none => some (p, acc, any)
    | some c =>
      if c ≥ base then some (p, acc, any)
      else if any < 0 ∨ acc > cutoff ∨ (acc = cutoff ∧ c.toUInt32 > cutlim) then
        digitsLoop m base cutoff cutlim fuel (p + 1) acc (-1)
      else digitsLoop m base cutoff cutlim fuel (p + 1) (acc * base.toUInt32 + c.toUInt32) 1

/-- `strtoul(nptr, endptr, base)`: the memory afterwards and the value. -/
def strtoul (m : Mem) (nptr endptr : Nat) (base : Int32) : Option (Mem × UInt32) := do
  let p := nptr + (← scan (fun c => !isspace (charInt c)) m addrSpace nptr)
  let neg : Bool := m.load8 p = 45
  let p := if m.load8 p = 45 ∨ m.load8 p = 43 then p + 1 else p
  let next := m.load8 (p + 1)
  let (p, base) :=
    if (base = 0 ∨ base = 16) ∧ m.load8 p = 48 ∧ (next = 120 ∨ next = 88) then (p + 2, 16)
    else (p, base)
  let base := if base = 0 then (if m.load8 p = 48 then 8 else 10) else base
  let cutoff := 0xffffffff / base.toUInt32
  let cutlim := 0xffffffff % base.toUInt32
  let (p, acc, any) ← digitsLoop m base cutoff cutlim addrSpace p 0 0
  let acc := if any < 0 then 0xffffffff else if neg then -acc else acc
  let m := if endptr ≠ 0 then m.store32 endptr (if any ≠ 0 then p - 1 else nptr) else m
  return (m, acc)

/-! ## The parts of the text -/

/-- White space. -/
def isSpace (c : UInt8) : Bool := c = 9 ∨ c = 10 ∨ c = 11 ∨ c = 12 ∨ c = 13 ∨ c = 32

/-- The parts of the text of a number: the white space, the sign, the prefix, the
base that is resolved and its digits. -/
structure NumberText where
  spaces : List UInt8
  sign : List UInt8
  leader : List UInt8
  base : Nat
  digits : List UInt8
  deriving DecidableEq, Repr

/-- One sign, if there is one. -/
def signText (s : List UInt8) : List UInt8 :=
  if s.head? = some 45 ∨ s.head? = some 43 then s.take 1 else []

/-- The prefix of a hexadecimal number, where the base allows it: `0x` or `0X`. -/
def leaderText (base : Nat) (s : List UInt8) : List UInt8 :=
  if (base = 0 ∨ base = 16) ∧ (s.take 2 = [48, 120] ∨ s.take 2 = [48, 88]) then s.take 2 else []

/-- The base of a text, where it begins with the prefix `leader` or with `s`. -/
def resolveBase (base : Nat) (leader s : List UInt8) : Nat :=
  if leader ≠ [] then 16
  else if base ≠ 0 then base
  else if s.head? = some 48 then 8 else 10

/-- The parts of a text. -/
def numberText (base : Nat) (s : List UInt8) : NumberText :=
  let spaces := s.takeWhile isSpace
  let s := s.drop spaces.length
  let sign := signText s
  let s := s.drop sign.length
  let leader := leaderText base s
  let base := resolveBase base leader s
  let s := s.drop leader.length
  { spaces, sign, leader, base, digits := s.takeWhile (validDigit base) }

/-- The length of what is in front of the digits. -/
def NumberText.start (t : NumberText) : Nat := t.spaces.length + t.sign.length + t.leader.length

/-- The offset of the end of a number: behind the last digit, and at the start of the
text if there is none. -/
def NumberText.stop (t : NumberText) : Nat :=
  if t.digits = [] then 0 else t.start + t.digits.length

/-- The value of a text, saturated at the largest `unsigned long`. -/
def NumberText.value (t : NumberText) : UInt32 :=
  let v := radixValue t.base t.digits
  if v < 2 ^ 32 then (if t.sign = [45] then -UInt32.ofNat v else UInt32.ofNat v) else 0xffffffff

/-! ## Characters -/

theorem isspace_charInt : ∀ c : UInt8, isspace (charInt c) = isSpace c :=
  byte_all (by decide +kernel)

/-- The loop takes a character for the digit that it is. -/
theorem charDigit_charInt :
    ∀ c : UInt8, charDigit (charInt c) = (digitValue c).map Int32.ofNat :=
  byte_all (by decide +kernel)

theorem digitValue_lt : ∀ c : UInt8, ∀ d ∈ digitValue c, d < 36 :=
  byte_all (by decide +kernel)

/-! ## The digits -/

section Digits

variable {m : Mem} {b p : Nat} {base any : Int32} {cutoff cutlim acc : UInt32}
  {s run : List UInt8} {c : UInt8} {d : Nat}

/-- What the accumulator and `any` are once the digits `s` have been read. -/
def Accumulated (base : Nat) (s : List UInt8) (acc : UInt32) (any : Int32) : Prop :=
  match saturate 0xffffffff (radixValue base s) with
  | none => any = -1
  | some v => acc.toNat = v ∧ any = if s = [] then 0 else 1

theorem accumulated_nil : Accumulated b [] 0 0 := ⟨rfl, rfl⟩

theorem toNat_toUInt32 (hbase : base.toInt = b) (hb : b ≤ 36) : base.toUInt32.toNat = b := by
  have hofNat : base = Int32.ofNat b := by
    apply Int32.toInt_inj.mp
    rw [hbase, Int32.toInt_ofNat_of_lt (by omega)]
  rw [hofNat, Int32.toUInt32_ofNat', UInt32.toNat_ofNat_of_lt' (by rw [UInt32.size]; omega)]

/-- The test of the loop: one more digit is too much for the accumulator. -/
theorem overflow_iff (hbase : base.toUInt32.toNat = b) (hd : d < 36) :
    (acc > 0xffffffff / base.toUInt32 ∨
      (acc = 0xffffffff / base.toUInt32 ∧
        (Int32.ofNat d).toUInt32 > 0xffffffff % base.toUInt32)) ↔
      0xffffffff / b < acc.toNat ∨ acc.toNat = 0xffffffff / b ∧ 0xffffffff % b < d := by
  have hdigit : (Int32.ofNat d).toUInt32.toNat = d :=
    toNat_toUInt32 (Int32.toInt_ofNat_of_lt (by omega)) (by omega)
  rw [gt_iff_lt, gt_iff_lt, UInt32.lt_iff_toNat_lt, UInt32.lt_iff_toNat_lt, ← UInt32.toNat_inj,
    UInt32.toNat_div, UInt32.toNat_mod, hbase, hdigit]
  rfl

/-- A round of the loop reads a digit. -/
theorem Accumulated.concat (h : Accumulated b s acc any) (hbase : base.toUInt32.toNat = b)
    (hc : digitValue c = some d) (hd : d < b) :
    if any < 0 ∨ acc > 0xffffffff / base.toUInt32 ∨
        (acc = 0xffffffff / base.toUInt32 ∧ (Int32.ofNat d).toUInt32 > 0xffffffff % base.toUInt32)
      then Accumulated b (s ++ [c]) acc (-1)
      else Accumulated b (s ++ [c]) (acc * base.toUInt32 + (Int32.ofNat d).toUInt32) 1 := by
  have hd36 := digitValue_lt c d hc
  have hdigit : (Int32.ofNat d).toUInt32.toNat = d :=
    toNat_toUInt32 (Int32.toInt_ofNat_of_lt (by omega)) (by omega)
  simp only [overflow_iff hbase hd36]
  unfold Accumulated at h ⊢
  rw [← saturatedStep_radixValue hc hd]
  cases hread : saturate 0xffffffff (radixValue b s) with
  | none =>
    rw [hread] at h
    rw [if_pos (.inl (h ▸ by decide))]
    rfl
  | some v =>
    rw [hread] at h
    obtain ⟨hacc, hany⟩ := h
    have hnonneg : ¬ any < 0 := by
      rw [hany]
      split <;> decide
    simp only [saturatedStep, Option.bind_some, hnonneg, false_or, hacc]
    split
    next => trivial
    next hover =>
      have hle : v * b + d ≤ 0xffffffff := Nat.not_lt.mp (mt (lt_mul_add_iff hd).mp hover)
      refine ⟨?_, (if_neg (by simp)).symm⟩
      rw [UInt32.toNat_add, UInt32.toNat_mul, hacc, hbase, hdigit]
      omega

/-- The loop reads the digits of the base, as many as there are. -/
theorem digitsLoop_run (fuel : Nat) (h : StrAt m p run) (hfuel : run.length < fuel)
    (hbase : base.toInt = b) (hb : b ≤ 36) (hs : Accumulated b s acc any) :
    ∃ acc' any', digitsLoop m base (0xffffffff / base.toUInt32) (0xffffffff % base.toUInt32)
      fuel p acc any = some (p + (run.takeWhile (validDigit b)).length, acc', any') ∧
      Accumulated b (s ++ run.takeWhile (validDigit b)) acc' any' := by
  induction fuel generalizing p run s acc any with
  | zero => exact absurd hfuel (Nat.not_lt_zero _)
  | succ fuel ih =>
    rw [digitsLoop, charDigit_charInt]
    cases run with
    | nil =>
      rw [show m.load8 p = 0 from h.nul]
      exact ⟨acc, any, rfl, by rwa [List.takeWhile_nil, List.append_nil]⟩
    | cons c run =>
      rw [show m.load8 p = c from h.seg.1]
      cases hc : digitValue c with
      | none =>
        have hvalid : validDigit b c = false := by rw [validDigit, hc]; rfl
        rw [List.takeWhile_cons_of_neg (by rw [hvalid]; exact Bool.false_ne_true)]
        exact ⟨acc, any, rfl, by rwa [List.append_nil]⟩
      | some d =>
        have hd36 := digitValue_lt c d hc
        have hle : Int32.ofNat d ≥ base ↔ b ≤ d := by
          rw [ge_iff_le, Int32.le_iff_toInt_le, hbase, Int32.toInt_ofNat_of_lt (by omega),
            Int.ofNat_le]
        have hvalid : validDigit b c = decide (d < b) := by rw [validDigit, hc]; rfl
        simp only [Option.map_some, hle]
        by_cases hd : b ≤ d
        · rw [if_pos hd, List.takeWhile_cons_of_neg (by rw [hvalid, decide_eq_true_eq]; omega)]
          exact ⟨acc, any, rfl, by rwa [List.append_nil]⟩
        · have hround := hs.concat (toNat_toUInt32 hbase hb) hc (by omega)
          rw [if_neg hd, List.takeWhile_cons_of_pos (by rw [hvalid, decide_eq_true_eq]; omega)]
          have hrest : StrAt m (p + 1) run := h.drop (u := [c])
          rw [List.length_cons] at hfuel ⊢
          rw [List.append_cons, Nat.add_comm (List.length _) 1, ← Nat.add_assoc]
          split at hround
          next hover =>
            rw [if_pos hover]
            exact ih hrest (by omega) hround
          next hover =>
            rw [if_neg hover]
            exact ih hrest (by omega) hround

end Digits

/-! ## The text -/

section Text

variable {m : Mem} {p : Nat} {s : List UInt8} {base : Int32}

/-- The white space is scanned. -/
theorem scan_spaces (h : StrAt m p s) :
    scan (fun c => !isspace (charInt c)) m addrSpace p = some (s.takeWhile isSpace).length := by
  have hfits := h.fits
  have hle := (List.takeWhile_prefix isSpace (l := s)).length_le
  have hparts := h
  rw [← List.takeWhile_append_dropWhile (p := isSpace) (l := s)] at hparts
  refine scan_seg addrSpace _ p (seg_append.mp hparts.seg).1 (fun c hc => ?_) ?_
    (by unfold addrSpace; omega)
  · rw [isspace_charInt, List.mem_takeWhile_imp hc]
    rfl
  · have hrest := hparts.drop
    have hhead := List.head?_dropWhile_not isSpace s
    rw [isspace_charInt]
    cases hdrop : s.dropWhile isSpace with
    | nil =>
      rw [hdrop] at hrest
      rw [hrest.load8_eq_zero.mpr rfl]
      rfl
    | cons c t =>
      rw [hdrop] at hrest hhead
      rw [show m.load8 _ = c from hrest.seg.1, show isSpace c = false from hhead]
      rfl

theorem signText_prefix : signText s <+: s := by
  unfold signText
  split
  · exact List.take_prefix 1 s
  · exact List.nil_prefix

theorem leaderText_prefix (b : Nat) : leaderText b s <+: s := by
  unfold leaderText
  split
  · exact List.take_prefix 2 s
  · exact List.nil_prefix

/-- The sign is skipped. -/
theorem skip_sign (h : StrAt m p s) :
    (if m.load8 p = 45 ∨ m.load8 p = 43 then p + 1 else p) = p + (signText s).length := by
  simp only [h.load8_eq_iff (show (45 : UInt8) ≠ 0 by decide),
    h.load8_eq_iff (show (43 : UInt8) ≠ 0 by decide), signText]
  split
  next hsign =>
    cases s with
    | nil => simp at hsign
    | cons c s => rfl
  next => rfl

theorem signText_eq_minus_iff : signText s = [45] ↔ s.head? = some 45 := by
  unfold signText
  cases s with
  | nil => simp
  | cons c s =>
    simp only [List.head?_cons, Option.some.injEq, List.take_succ_cons, List.take_zero]
    split
    next => rw [List.singleton_inj]
    next hsign => exact iff_of_false (by simp) fun hc => hsign (.inl hc)

/-- The prefix is skipped. -/
theorem skip_leader (h : StrAt m p s) {b : Nat} (hbase : base.toInt = b) :
    (if (base = 0 ∨ base = 16) ∧ m.load8 p = 48 ∧ (m.load8 (p + 1) = 120 ∨ m.load8 (p + 1) = 88)
      then (p + 2, 16) else (p, base)) =
      (p + (leaderText b s).length, if leaderText b s = [] then base else 16) := by
  have hzero : base = 0 ↔ b = 0 := by
    rw [← Int32.toInt_inj, hbase]
    exact Int.natCast_eq_zero
  have hhex : base = 16 ↔ b = 16 := by
    rw [← Int32.toInt_inj, hbase]
    exact Int.ofNat_inj (n := 16)
  have hlower := h.take_two_eq_iff (show (48 : UInt8) ≠ 0 by decide)
    (show (120 : UInt8) ≠ 0 by decide)
  have hupper := h.take_two_eq_iff (show (48 : UInt8) ≠ 0 by decide)
    (show (88 : UInt8) ≠ 0 by decide)
  simp only [hzero, hhex, and_or_left, ← hlower, ← hupper, leaderText]
  split
  next hleader =>
    rcases hleader with htwo | htwo
    · rw [htwo.2]
      rfl
    · rw [htwo.2]
      rfl
  next => rfl

/-- The base is resolved. -/
theorem resolve_base (h : StrAt m p s) {b : Nat} (hbase : base.toInt = b) (leader : List UInt8) :
    (if (if leader = [] then base else 16) = 0
      then (if m.load8 (p + leader.length) = 48 then 8 else 10)
      else if leader = [] then base else 16).toInt = (resolveBase b leader s : Int) := by
  rw [resolveBase]
  by_cases hleader : leader = []
  · subst hleader
    simp only [if_true, List.length_nil, Nat.add_zero,
      h.load8_eq_iff (show (48 : UInt8) ≠ 0 by decide), ne_eq, not_true_eq_false, if_false]
    by_cases hzero : base = 0
    · obtain rfl : b = 0 := by
        rw [hzero] at hbase
        exact Int.natCast_eq_zero.mp hbase.symm
      rw [if_pos hzero, if_neg (show ¬ (0 : Nat) ≠ 0 from fun h => h rfl)]
      split <;> rfl
    · have hne : b ≠ 0 := by
        rintro rfl
        exact hzero (Int32.toInt_inj.mp hbase)
      rw [if_neg hzero, if_pos hne, hbase]
  · simp only [ne_eq, hleader, not_false_eq_true, if_true]
    rfl

theorem resolveBase_le {b : Nat} (hb : b ≤ 36) (leader s : List UInt8) :
    resolveBase b leader s ≤ 36 := by
  unfold resolveBase
  repeat' split
  all_goals omega

/-- What `strtoul` does with a text: the parts of the text, an accumulator that has
read its digits, and where the loop is left. -/
theorem strtoul_run (endptr : Nat) (h : StrAt m p s) {b : Nat} (hbase : base.toInt = b)
    (hb : b ≤ 36) :
    ∃ acc any, Accumulated (numberText b s).base (numberText b s).digits acc any ∧
      strtoul m p endptr base = some
        (if endptr ≠ 0 then
            m.store32 endptr (if any ≠ 0
              then p + (numberText b s).start + (numberText b s).digits.length - 1 else p)
          else m,
          if any < 0 then 0xffffffff else if (numberText b s).sign = [45] then -acc else acc) := by
  have hspaces := h.drop_of_le (List.takeWhile_prefix isSpace (l := s)).length_le
  rw [numberText]
  generalize s.drop (s.takeWhile isSpace).length = s₁ at hspaces ⊢
  have hsign := hspaces.drop_of_le signText_prefix.length_le
  have hminus := (hspaces.load8_eq_iff (show (45 : UInt8) ≠ 0 by decide)).trans
    signText_eq_minus_iff.symm
  unfold strtoul
  rw [scan_spaces h]
  simp only [Option.bind_eq_bind, Option.bind_some, skip_sign hspaces, skip_leader hsign hbase]
  simp only [hminus, NumberText.start]
  generalize s₁.drop (signText s₁).length = s₂ at hsign ⊢
  have hleader := hsign.drop_of_le ( leaderText_prefix b).length_le
  have hresolve := resolve_base hsign hbase (leaderText b s₂)
  generalize (if (if leaderText b s₂ = [] then base else 16) = 0 then _ else _ : Int32) = resolved
    at hresolve ⊢
  obtain ⟨acc, any, hloop, hread⟩ := digitsLoop_run addrSpace hleader
    (by have := hleader.fits; rw [addrSpace]; omega)
    hresolve (resolveBase_le hb _ _) accumulated_nil
  refine ⟨acc, any, hread, ?_⟩
  rw [hloop]
  simp only [Option.bind_some, Option.pure_def, decide_eq_true_eq, Nat.add_assoc]

/-- The parts of a text are the text, up to what is behind the digits. -/
theorem numberText_prefix (b : Nat) : (numberText b s).spaces ++ (numberText b s).sign ++
    (numberText b s).leader ++ (numberText b s).digits <+: s := by
  rw [numberText]
  have hspaces := List.prefix_iff_eq_append.mp (List.takeWhile_prefix isSpace (l := s))
  generalize s.drop (s.takeWhile isSpace).length = s₁ at hspaces ⊢
  have hsign := List.prefix_iff_eq_append.mp ( signText_prefix (s := s₁))
  generalize s₁.drop (signText s₁).length = s₂ at hsign ⊢
  have hleader := List.prefix_iff_eq_append.mp ( leaderText_prefix (s := s₂) b)
  generalize s₂.drop (leaderText b s₂).length = s₃ at hleader ⊢
  obtain ⟨rest, hrest⟩ := List.takeWhile_prefix (validDigit (resolveBase b (leaderText b s₂) s₂))
    (l := s₃)
  refine ⟨rest, ?_⟩
  simp only [List.append_assoc, hrest, hleader, hsign, hspaces]

theorem numberText_stop_le (b : Nat) : (numberText b s).stop ≤ s.length := by
  have hle := ( numberText_prefix (s := s) b).length_le
  simp only [List.length_append] at hle
  unfold NumberText.stop NumberText.start
  split
  · exact Nat.zero_le _
  · exact hle

end Text

/-! ## The value and the end -/

section Results

variable {m : Mem} {p endptr b : Nat} {s : List UInt8} {base any : Int32} {acc : UInt32}

theorem Accumulated.any_eq_zero_iff (h : Accumulated b s acc any) : any = 0 ↔ s = [] := by
  unfold Accumulated at h
  split at h
  next hread =>
    have hne : s ≠ [] := by
      rintro rfl
      cases hread
    rw [h]
    exact iff_of_false (by decide) hne
  next =>
    rw [h.2]
    split
    next hnil => exact iff_of_true rfl hnil
    next hnil => exact iff_of_false (by decide) hnil

theorem Accumulated.value_eq (h : Accumulated b s acc any) (neg : Prop) [Decidable neg] :
    (if any < 0 then 0xffffffff else if neg then -acc else acc) =
      if radixValue b s < 2 ^ 32 then
        (if neg then -UInt32.ofNat (radixValue b s) else UInt32.ofNat (radixValue b s))
      else 0xffffffff := by
  unfold Accumulated saturate at h
  by_cases hlt : radixValue b s < 2 ^ 32
  · rw [if_pos (show radixValue b s ≤ 0xffffffff by omega)] at h
    obtain ⟨hacc, hany⟩ := h
    have hnonneg : ¬ any < 0 := by
      rw [hany]
      split <;> decide
    rw [if_neg hnonneg, if_pos hlt, ← hacc, UInt32.ofNat_toNat]
  · rw [if_neg (show ¬ radixValue b s ≤ 0xffffffff by omega)] at h
    rw [if_pos (h ▸ by decide), if_neg hlt]

theorem base_eq (hbase : base = 0 ∨ 2 ≤ base ∧ base ≤ 36) :
    base.toInt = (base.toInt.toNat : Int) ∧ base.toInt.toNat ≤ 36 := by
  rw [Int32.le_iff_toInt_le, Int32.le_iff_toInt_le, ← Int32.toInt_inj,
    show (0 : Int32).toInt = 0 from rfl, show (2 : Int32).toInt = 2 from rfl,
    show (36 : Int32).toInt = 36 from rfl] at hbase
  omega

/-- `strtoul` returns the value of the text. -/
theorem strtoul_value (h : StrAt m p s) (hbase : base = 0 ∨ 2 ≤ base ∧ base ≤ 36) :
    ∃ m', strtoul m p endptr base = some (m', (numberText base.toInt.toNat s).value) := by
  obtain ⟨hb, hle⟩ := base_eq hbase
  obtain ⟨acc, any, hread, hrun⟩ := strtoul_run endptr h hb hle
  rw [hread.value_eq] at hrun
  exact ⟨_, hrun⟩

theorem strtoul_value_hex : ∃ m', strtoul (stringMem 100 [32, 45, 48, 120, 49, 70, 122]) 100 0 0 =
    some (m', (numberText 0 [32, 45, 48, 120, 49, 70, 122]).value) :=
  strtoul_value (strAt_stringMem (by decide) (by decide)) (by decide)

/-- The end that `strtoul` stores: the start of the string if there is no digit, and
else the last digit. -/
theorem strtoul_endptr (h : StrAt m p s) (hbase : base = 0 ∨ 2 ≤ base ∧ base ≤ 36)
    (hendptr : endptr ≠ 0) :
    ∃ m' v, strtoul m p endptr base = some (m', v) ∧
      m'.load32 endptr = if (numberText base.toInt.toNat s).digits = [] then p
        else p + (numberText base.toInt.toNat s).stop - 1 := by
  obtain ⟨hb, hle⟩ := base_eq hbase
  obtain ⟨acc, any, hread, hrun⟩ := strtoul_run endptr h hb hle
  rw [if_pos hendptr] at hrun
  have hstop := numberText_stop_le (s := s) base.toInt.toNat
  have hfits := h.fits
  refine ⟨_, _, hrun, ?_⟩
  unfold NumberText.stop at hstop ⊢
  by_cases hdigits : (numberText base.toInt.toNat s).digits = []
  · rw [if_pos hdigits, if_neg (fun hany => hany (hread.any_eq_zero_iff.mpr hdigits)),
      Mem.load32_store32_same _ (by omega)]
  · rw [if_neg hdigits] at hstop
    rw [if_neg hdigits, if_neg hdigits, if_pos (mt hread.any_eq_zero_iff.mp hdigits),
      Mem.load32_store32_same _ (by omega), ← Nat.add_assoc]

/-- The end is behind the last digit exactly if there is no digit. -/
theorem strtoul_endptr_iff (h : StrAt m p s) (hbase : base = 0 ∨ 2 ≤ base ∧ base ≤ 36)
    (hendptr : endptr ≠ 0) :
    (∃ m' v, strtoul m p endptr base = some (m', v) ∧
        m'.load32 endptr = p + (numberText base.toInt.toNat s).stop) ↔
      (numberText base.toInt.toNat s).digits = [] := by
  obtain ⟨m', v, hrun, hload⟩ := strtoul_endptr h hbase hendptr
  constructor
  · rintro ⟨m'', v', hrun', hload'⟩
    rw [hrun, Option.some.injEq, Prod.mk.injEq] at hrun'
    by_contra hdigits
    rw [hrun'.1, hload', if_neg hdigits, NumberText.stop, if_neg hdigits] at hload
    have hlength := List.length_pos_iff.mpr hdigits
    omega
  · intro hdigits
    rw [if_pos hdigits] at hload
    refine ⟨m', v, hrun, ?_⟩
    rw [hload, NumberText.stop, if_pos hdigits, Nat.add_zero]

theorem strtoul_endptr_iff_digit :
    (∃ m' v, strtoul (stringMem 100 [55]) 100 4 10 = some (m', v) ∧
        m'.load32 4 = 100 + (numberText 10 [55]).stop) ↔
      (numberText 10 [55]).digits = [] :=
  strtoul_endptr_iff (strAt_stringMem (by decide) (by decide)) (by decide) (by decide)

/-- The text `7`: the end that is stored is the digit itself. -/
theorem strtoul_endptr_seven :
    ∃ m' v, strtoul (stringMem 100 [55]) 100 4 10 = some (m', v) ∧ m'.load32 4 = 100 ∧
      m'.load32 4 ≠ 100 + (numberText 10 [55]).stop :=
  ⟨_, _, rfl, by decide +kernel, by decide +kernel⟩

end Results

/-! ## The numerals that `itoa` writes -/

section Numerals

variable {m : Mem} {value base : Int32} {buffer : Chars} {b k p : Nat} {s : List UInt8}
  {c : UInt8}

theorem digitValue_digitChar : ∀ d : Fin 32, digitValue (digitChar d) = some d.val := by decide

/-- The characters of a numeral are digits of the base. -/
theorem validDigit_of_mem_numeral (hb : 2 ≤ b) (hb' : b ≤ 32) (hc : c ∈ numeral b k) :
    validDigit b c = true := by
  rw [numeral] at hc
  split at hc
  · rw [List.mem_singleton.mp hc]
    exact decide_eq_true (show 0 < b by omega)
  · obtain ⟨d, hd, rfl⟩ := List.mem_map.mp (List.mem_reverse.mp hc)
    have hlt := Nat.digits_lt_base hb hd
    rw [validDigit, digitValue_digitChar ⟨d, by omega⟩]
    exact decide_eq_true hlt

/-- The numeral of a number stands for it. -/
theorem radixValue_numeral (hb : 2 ≤ b) (hb' : b ≤ 32) : radixValue b (numeral b k) = k := by
  rw [numeral]
  split
  next hk =>
    rw [hk]
    exact (radixValue_concat (s := []) (digitValue_digitChar 0)).trans (by simp)
  next =>
    have hdigits : (Nat.digits b k).filterMap (digitValue ∘ digitChar) = Nat.digits b k := by
      rw [List.filterMap_congr (g := some), List.filterMap_some]
      intro d hd
      have hlt := Nat.digits_lt_base hb hd
      exact digitValue_digitChar ⟨d, by omega⟩
    rw [radixValue, List.filterMap_reverse, List.reverse_reverse, List.filterMap_map, hdigits,
      Nat.ofDigits_digits]

/-- Nothing that is skipped in front of the digits is a digit of a base up to 33: the letter
of a prefix has the value 33. -/
theorem not_skipped_of_validDigit : ∀ c : UInt8, validDigit 33 c = true →
    isSpace c = false ∧ c ≠ 45 ∧ c ≠ 43 ∧ c ≠ 120 ∧ c ≠ 88 :=
  byte_all (by decide +kernel)

theorem validDigit_mono {b' : Nat} (hle : b ≤ b') (hc : validDigit b c = true) :
    validDigit b' c = true := by
  rw [validDigit, Option.any_eq_true] at hc ⊢
  obtain ⟨d, hd, hlt⟩ := hc
  exact ⟨d, hd, decide_eq_true (Nat.lt_of_lt_of_le (of_decide_eq_true hlt) hle)⟩

/-- A text of digits has no other parts. -/
theorem numberText_of_validDigit (hb : 2 ≤ b) (hb' : b ≤ 33)
    (hs : ∀ c ∈ s, validDigit b c = true) : numberText b s = ⟨[], [], [], b, s⟩ := by
  have hplain : ∀ c ∈ s, isSpace c = false ∧ c ≠ 45 ∧ c ≠ 43 ∧ c ≠ 120 ∧ c ≠ 88 :=
    fun c hc => not_skipped_of_validDigit c (validDigit_mono hb' (hs c hc))
  have hspaces : s.takeWhile isSpace = [] := by
    rw [List.takeWhile_eq_nil_iff]
    intro hpos
    rw [(hplain _ (List.get_mem s ⟨0, hpos⟩)).1]
    exact Bool.false_ne_true
  have hsign : signText s = [] := by
    refine if_neg fun h => ?_
    rcases h with h | h
    · exact (hplain _ (List.mem_of_mem_head? h)).2.1 rfl
    · exact (hplain _ (List.mem_of_mem_head? h)).2.2.1 rfl
  have hleader : leaderText b s = [] := by
    refine if_neg fun h => ?_
    rcases h.2 with h | h
    · have hmem : (120 : UInt8) ∈ s.take 2 := h ▸ List.mem_of_getLast? rfl
      exact (hplain 120 (List.mem_of_mem_take hmem)).2.2.2.1 rfl
    · have hmem : (88 : UInt8) ∈ s.take 2 := h ▸ List.mem_of_getLast? rfl
      exact (hplain 88 (List.mem_of_mem_take hmem)).2.2.2.2 rfl
  have hbase : resolveBase b [] s = b := by
    rw [resolveBase, if_neg (fun h => h rfl), if_pos (by omega)]
  simp only [numberText, hspaces, hsign, hleader, hbase, List.length_nil, List.drop_zero]
  rw [List.takeWhile_eq_self_iff.mpr hs]

/-- A string in the buffer, in the memory that the buffer is part of. -/
theorem Terminated.strAt (h : Terminated buffer s) (hne : (0 : UInt8) ∉ s)
    (hfits : p + s.length < 2 ^ 32) (hmem : ∀ i ≤ s.length, m.load8 (p + i) = buffer i) :
    StrAt m p s := by
  refine ⟨seg_of_load8 fun i hi => ?_, ?_, hne, hfits⟩
  · rw [hmem i (Nat.le_of_lt hi), h.1 i hi]
  · rw [hmem _ (Nat.le_refl _), h.2]

theorem toUInt32_eq_natAbs (hvalue : 0 ≤ value.toInt) :
    value.toUInt32 = UInt32.ofNat value.toInt.natAbs := by
  have hbound := Int32.toInt_lt value
  have hofNat : value = Int32.ofNat value.toInt.natAbs := by
    apply Int32.toInt_inj.mp
    rw [Int32.toInt_ofNat_of_lt (by omega)]
    omega
  conv_lhs => rw [hofNat]
  exact Int32.toUInt32_ofNat'

/-- A number below `2 ^ 31` has at most 31 digits, the most of them in base 2. -/
theorem numeral_length_le (hb : 2 ≤ b) (hk : k < 2 ^ 31) : (numeral b k).length ≤ 31 := by
  rw [numeral]
  split
  · decide
  · rw [List.length_reverse, List.length_map, Nat.digits_length_le_iff hb]
    exact Nat.lt_of_lt_of_le hk (Nat.pow_le_pow_left hb 31)

/-- `strtoul` reads what `itoa` has written of a number that is not negative. -/
theorem strtoul_itoa (value base : Int32) (buffer : Chars) (hvalue : 0 ≤ value) (hlow : 2 ≤ base)
    (hhigh : base ≤ 32) :
    ∃ buffer', itoa value buffer base = some buffer' ∧
      ∀ m p, p + 32 ≤ 2 ^ 32 → (∀ i < 32, m.load8 (p + i) = buffer' i) →
        strtoul m p 0 base = some (m, value.toUInt32) := by
  have hmin : value ≠ Int32.minValue := by
    rintro rfl
    exact absurd hvalue (by decide)
  have hwrites : WritesNumeral value buffer base := itoa_of_ne_minValue hlow hhigh hmin
  obtain ⟨buffer', hrun, htext⟩ := hwrites
  rw [itoaText, if_neg (fun h => Int32.not_lt.mpr hvalue h.1), List.nil_append] at htext
  refine ⟨buffer', hrun, fun m p hfits hmem => ?_⟩
  obtain ⟨hb, hle⟩ := base_eq (.inr ⟨hlow, Int32.le_trans hhigh (by decide)⟩)
  rw [Int32.le_iff_toInt_le, show (2 : Int32).toInt = 2 from rfl] at hlow
  rw [Int32.le_iff_toInt_le, show (32 : Int32).toInt = 32 from rfl] at hhigh
  rw [Int32.le_iff_toInt_le, show (0 : Int32).toInt = 0 from rfl] at hvalue
  have htwo : 2 ≤ base.toInt.toNat := by omega
  have hthirty : base.toInt.toNat ≤ 32 := by omega
  have hbound := Int32.toInt_lt value
  have hlength : (numeral base.toInt.toNat value.toInt.natAbs).length ≤ 31 :=
    numeral_length_le htwo (by omega)
  have hnul : (0 : UInt8) ∉ numeral base.toInt.toNat value.toInt.natAbs :=
    fun h => absurd (numeral_ge htwo hthirty h) (by decide)
  have hstr := htext.strAt (m := m) (p := p) hnul (by omega) fun i hi => hmem i (by omega)
  obtain ⟨acc, any, hread, hstrtoul⟩ := strtoul_run 0 hstr hb hle
  rw [hread.value_eq, numberText_of_validDigit htwo (by omega)
    fun c hc => validDigit_of_mem_numeral htwo hthirty hc] at hstrtoul
  -- there is no sign, and the number is within the limit
  simp only [radixValue_numeral htwo hthirty, if_pos (show value.toInt.natAbs < 2 ^ 32 by omega),
    if_neg (List.cons_ne_nil (45 : UInt8) []).symm, ne_eq, not_true_eq_false, if_false] at hstrtoul
  rw [hstrtoul, toUInt32_eq_natAbs hvalue]

theorem strtoul_itoa_hex :
    ∃ buffer', itoa 255 (fun _ => 0) 16 = some buffer' ∧
      strtoul (fun x => buffer' (x - 100)) 100 0 16 = some (fun x => buffer' (x - 100), 255) := by
  obtain ⟨buffer', hrun, hread⟩ :=
    strtoul_itoa 255 16 (fun _ => 0) (by decide) (by decide) (by decide)
  refine ⟨buffer', hrun, hread _ 100 (by decide) fun i hi => ?_⟩
  rw [Mem.load8_eq _ (by omega), Nat.add_sub_cancel_left]

end Numerals

end Microboot.Kern
