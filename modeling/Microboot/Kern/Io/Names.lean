/-
  Kern/Io/Names.lean --- the names of devices.

  A driver names a device by a prefix of its own and the first suffix that
  `device_get_first_available_suffix` finds unused.  The search reads whatever
  follows the prefix with `atoi`, and marks it in a bitmap of 512 bits.

  It is sound as long as every name with the prefix continues with a numeral.  The
  name of a partition starts with the name of its drive, and so with the prefix
  of drives: `hd0p0` read as a drive has the suffix 640.
-/
import Mathlib.Data.Finset.Card
import Mathlib.Order.Bounds.Basic
import Mathlib.Tactic.Push
import Microboot.Kern.Io.Driver
import Microboot.Kern.Printf

set_option autoImplicit false

namespace Microboot.Kern.Io

open Microboot.Foundation

/-! ## The model -/

/-- How the search can fail: an assertion, or a suffix below 0, with which it
shifts by a negative count or writes in front of the bitmap. -/
inductive SuffixFault where
  | assert (message : String)
  | negative (suffix : Int)
  deriving DecidableEq, Repr

/-- `bitmap[suffix_num / 8] |= 1 << (suffix_num % 8);` -/
def markSuffix (bitmap : List (BitVec 8)) (suffixNum : Int32) :
    Except SuffixFault (List (BitVec 8)) :=
  if suffixNum.toInt < 0 then .error (.negative suffixNum.toInt)
  else .ok (bitmap.modify (suffixNum.toInt.toNat / 8) (· ||| (1#8 <<< (suffixNum.toInt.toNat % 8))))

/-- The loop over the devices, which marks the suffixes of those with the prefix. -/
def markSuffixes (pre : List UInt8) :
    List (List UInt8) → List (BitVec 8) → Except SuffixFault (List (BitVec 8))
  | [], bitmap => .ok bitmap
  | name :: names, bitmap =>
    if strncmp name pre pre.length = 0 then do
      let suffixNum := atoi (name.drop pre.length)
      if suffixNum < 512 then
        let bitmap ← markSuffix bitmap suffixNum
        markSuffixes pre names bitmap
      else .error (.assert "Suffix numbers greater than 512 not supported")
    else markSuffixes pre names bitmap

/-- `bitmap[i / 8] & (1 << i % 8)` -/
def suffixMarked (bitmap : List (BitVec 8)) (i : Nat) : Bool :=
  bitmap.getD (i / 8) 0#8 &&& (1#8 <<< (i % 8)) ≠ 0#8

/-- `device_get_first_available_suffix(prefix)`, where the registered devices have
these names. -/
def deviceGetFirstAvailableSuffix (names : List (List UInt8)) (pre : List UInt8) :
    Except SuffixFault Nat := do
  let bitmap ← markSuffixes pre names (List.replicate 64 0#8)
  return ((List.range 512).find? fun i => !suffixMarked bitmap i).getD 512

/-- `bdrive_create(drive_nr)`: `"hd%d"` -/
def bdriveCreate (devices : List Device) : Except SuffixFault Device := do
  let suffix ← deviceGetFirstAvailableSuffix (devices.map (·.name)) [104, 100]
  return { name := [104, 100] ++ formatInt suffix, type := .block, destroy := true
           subdevices := none }

/-- `fat_create(invoker, ..)`: `"%sp"`, and `"%s%d"` of that prefix. -/
def fatCreate (devices : List Device) (invoker : Device) : Except SuffixFault Device := do
  let pre := invoker.name ++ [112]
  let suffix ← deviceGetFirstAvailableSuffix (devices.map (·.name)) pre
  return { name := pre ++ formatInt suffix, type := .fs, destroy := false, subdevices := none }

/-- A drive is created, or a partition on one of the drives, counted in the order
of their registration. -/
inductive Creation where
  | bdrive
  | fat (drive : Nat)
  deriving DecidableEq, Repr

/-- The registered block devices. -/
def blockDevices (devices : List Device) : List Device := devices.filter (·.type = .block)

/-- A device is created and registered; nothing happens if there is no such drive. -/
def create (devices : List Device) : Creation → Except SuffixFault (List Device)
  | .bdrive => do return devices ++ [← bdriveCreate devices]
  | .fat drive =>
    match (blockDevices devices)[drive]? with
    | some invoker => do return devices ++ [← fatCreate devices invoker]
    | none => .ok devices

/-- A sequence of creations. -/
def creations (devices : List Device) (steps : List Creation) : Except SuffixFault (List Device) :=
  steps.foldlM create devices

/-! ## The bitmap -/

section Bitmap

variable {bitmap : List (BitVec 8)} {pre : List UInt8} {names : List (List UInt8)}

theorem bitMarked_iff (b : BitVec 8) {j : Nat} (hj : j < 8) :
    b &&& (1#8 <<< j) ≠ 0#8 ↔ b.getLsbD j = true := by
  have hne : BitVec.twoPow 8 j ≠ 0#8 := by
    intro h
    have hbit := congrArg (·.getLsbD j) h
    simp [hj] at hbit
  rw [← BitVec.twoPow_eq, BitVec.and_twoPow]
  by_cases hb : b.getLsbD j <;> simp [hb, hne]

theorem suffixMarked_iff (i : Nat) :
    suffixMarked bitmap i = true ↔ (bitmap.getD (i / 8) 0#8).getLsbD (i % 8) = true := by
  unfold suffixMarked
  rw [decide_eq_true_iff]
  exact bitMarked_iff _ (Nat.mod_lt i (by decide))

/-- Marking a suffix marks that one. -/
theorem suffixMarked_modify {n i : Nat} (hn : n / 8 < bitmap.length) :
    suffixMarked (bitmap.modify (n / 8) (· ||| (1#8 <<< (n % 8)))) i = true ↔
      i = n ∨ suffixMarked bitmap i = true := by
  have hlt := Nat.mod_lt i (show 8 > 0 by decide)
  rw [suffixMarked_iff, suffixMarked_iff, List.getD_eq_getElem?_getD, List.getD_eq_getElem?_getD,
    List.getElem?_modify]
  by_cases hbyte : n / 8 = i / 8
  · rw [hbyte] at hn
    rw [List.getElem?_eq_getElem hn, ← BitVec.twoPow_eq]
    have hbit : i % 8 = n % 8 ↔ i = n := by omega
    simp [hbyte, hlt, hbit, or_comm]
  · have hne : i ≠ n := fun h => hbyte (by rw [h])
    simp [hbyte, hne]

theorem suffixMarked_replicate (n i : Nat) :
    suffixMarked (List.replicate n 0#8) i = false := by
  rw [Bool.eq_false_iff, Ne, suffixMarked_iff, List.getD_eq_getElem?_getD, List.getElem?_replicate]
  split <;> simp

end Bitmap

/-! ## The search -/

section Search

variable {bitmap : List (BitVec 8)} {pre : List UInt8} {names : List (List UInt8)}

/-- Some name continues the prefix with a numeral of value `i`. -/
def Taken (names : List (List UInt8)) (pre : List UInt8) (i : Nat) : Prop :=
  ∃ s, pre ++ s ∈ names ∧ textValue s = i

/-- Every name with the prefix continues with a numeral below 512. -/
def Conventional (names : List (List UInt8)) (pre : List UInt8) : Prop :=
  ∀ s, pre ++ s ∈ names → IsNumeral s ∧ textValue s < 512

/-- `atoi` of a numeral below 512. -/
theorem atoi_numeral {s : List UInt8} (hs : IsNumeral s) (hlt : textValue s < 512) :
    (atoi s).toInt = textValue s := by
  have hsign : ∀ c, ¬ IsDigit c → s.head? ≠ some c := by
    intro c hc h
    exact hc (hs.2 c (List.mem_of_mem_head? h))
  have hge := hs.textValue_nonneg
  exact atoi_toInt (hsign 45 (by decide)) (hsign 43 (by decide)) (by omega) (by omega)

/-- The loop marks the suffixes that are taken. -/
theorem markSuffixes_spec (hpre : 0 ∉ pre) (hconv : Conventional names pre)
    (hlen : bitmap.length = 64) :
    ∃ bitmap', markSuffixes pre names bitmap = .ok bitmap' ∧
      ∀ i, suffixMarked bitmap' i = true ↔ Taken names pre i ∨ suffixMarked bitmap i = true := by
  induction names generalizing bitmap with
  | nil => exact ⟨bitmap, rfl, fun i => by simp [Taken]⟩
  | cons name names ih =>
    have hrest : Conventional names pre := fun s hs => hconv s (List.mem_cons_of_mem name hs)
    rw [markSuffixes]
    by_cases hname : pre <+: name
    · obtain ⟨s, rfl⟩ := hname
      obtain ⟨hnumeral, hlt⟩ := hconv s List.mem_cons_self
      have hge := hnumeral.textValue_nonneg
      have hint := atoi_numeral hnumeral hlt
      have hsmall : atoi s < 512 := by
        rw [Int32.lt_iff_toInt_lt, hint]
        exact hlt
      rw [if_pos ((strncmp_length_eq_zero_iff hpre).mpr (List.prefix_append pre s)),
        List.drop_left]
      simp only [if_pos hsmall]
      unfold markSuffix
      rw [hint, if_neg (by omega), ok_bind]
      have hlen' : (bitmap.modify ((textValue s).toNat / 8)
          (· ||| (1#8 <<< ((textValue s).toNat % 8)))).length = 64 := by
        rw [List.length_modify, hlen]
      obtain ⟨bitmap', hmark, hbits⟩ := ih hrest hlen'
      refine ⟨bitmap', hmark, fun i => ?_⟩
      rw [hbits, suffixMarked_modify (by rw [hlen]; omega), ← or_assoc]
      refine or_congr_left ⟨?_, ?_⟩
      · rintro (⟨t, ht, hi⟩ | rfl)
        · exact ⟨t, List.mem_cons_of_mem _ ht, hi⟩
        · exact ⟨s, List.mem_cons_self, by omega⟩
      · rintro ⟨t, ht, hi⟩
        rcases List.mem_cons.mp ht with heq | ht
        · rw [List.append_cancel_left heq] at hi
          exact Or.inr (by omega)
        · exact Or.inl ⟨t, ht, hi⟩
    · rw [if_neg fun h => hname ((strncmp_length_eq_zero_iff hpre).mp h)]
      obtain ⟨bitmap', hmark, hbits⟩ := ih hrest hlen
      refine ⟨bitmap', hmark, fun i => ?_⟩
      rw [hbits]
      have hne : ∀ t, pre ++ t ≠ name := fun t heq => hname ⟨t, heq⟩
      refine or_congr_left (exists_congr fun t => and_congr_left fun _ => ?_)
      rw [List.mem_cons]
      exact (or_iff_right (hne t)).symm

/-- The search finds the least suffix that is not taken, and 512 if all are. -/
theorem deviceGetFirstAvailableSuffix_spec (hpre : 0 ∉ pre) (hconv : Conventional names pre) :
    ∃ r, deviceGetFirstAvailableSuffix names pre = .ok r ∧ r ≤ 512 ∧
      (r < 512 → ¬ Taken names pre r) ∧ ∀ i < r, Taken names pre i := by
  have hlen : (List.replicate 64 0#8).length = 64 := List.length_replicate
  obtain ⟨bitmap, hmark, hbits⟩ := markSuffixes_spec hpre hconv hlen
  have htaken : ∀ i, suffixMarked bitmap i = true ↔ Taken names pre i := by
    intro i
    rw [hbits, suffixMarked_replicate, or_iff_left Bool.false_ne_true]
  refine ⟨_, by unfold deviceGetFirstAvailableSuffix; rw [hmark]; rfl, ?_⟩
  cases hfind : (List.range 512).find? fun i => !suffixMarked bitmap i with
  | none =>
    rw [List.find?_eq_none] at hfind
    refine ⟨Nat.le_refl _, fun h => absurd h (Nat.lt_irrefl _), fun i hi => ?_⟩
    simpa [htaken] using hfind i (List.mem_range.mpr hi)
  | some r =>
    rw [List.find?_range_eq_some] at hfind
    obtain ⟨hfree, hlt, hbelow⟩ := hfind
    have hlt := List.mem_range.mp hlt
    refine ⟨Nat.le_of_lt hlt, fun _ hr => ?_, fun i hi => ?_⟩
    · rw [(htaken r).mpr hr] at hfree
      cases hfree
    · simpa [htaken] using hbelow i hi

/-- So many suffixes are taken as there are names, at most. -/
theorem suffix_le_length {r : Nat} (h : ∀ i < r, Taken names pre i) : r ≤ names.length := by
  let suffix : List UInt8 → Nat := fun name => (textValue (name.drop pre.length)).toNat
  have hsub : Finset.range r ⊆ (names.map suffix).toFinset := by
    intro i hi
    obtain ⟨s, hs, hvalue⟩ := h i (Finset.mem_range.mp hi)
    rw [List.mem_toFinset, List.mem_map]
    refine ⟨pre ++ s, hs, ?_⟩
    change (textValue ((pre ++ s).drop pre.length)).toNat = i
    rw [List.drop_left, hvalue, Int.toNat_natCast]
  have hcard := Finset.card_le_card hsub
  rw [Finset.card_range] at hcard
  exact (hcard.trans (List.toFinset_card_le _)).trans (Nat.le_of_eq (List.length_map _))

/-- `bitmap[..]` in the search: the index of the loop over the devices, for a name with the
prefix, and the index of the loop over the bits. -/
inductive BitmapAccess (names : List (List UInt8)) (pre : List UInt8) : Int → Prop
  | mark {name : List UInt8} : name ∈ names → strncmp name pre pre.length = 0 →
      BitmapAccess names pre ((atoi (name.drop pre.length)).toInt.tdiv 8)
  | search {i : Nat} : i < 512 → BitmapAccess names pre (i / 8 : Nat)

theorem BitmapAccess.inside (hpre : 0 ∉ pre) (hconv : Conventional names pre) {byte : Int}
    (h : BitmapAccess names pre byte) : 0 ≤ byte ∧ byte < 64 := by
  cases h with
  | mark hmem hname =>
    obtain ⟨s, rfl⟩ := (strncmp_length_eq_zero_iff hpre).mp hname
    obtain ⟨hnumeral, hlt⟩ := hconv s hmem
    have hge := hnumeral.textValue_nonneg
    rw [List.drop_left, atoi_numeral hnumeral hlt, Int.tdiv_eq_ediv_of_nonneg hge]
    omega
  | search hi => omega

/-- Of the devices whose names are numbered, the search finds the least number that is free,
and it stays in the bitmap. -/
theorem deviceGetFirstAvailableSuffix_isLeast (hpre : 0 ∉ pre) (hconv : Conventional names pre) :
    (∃ r, deviceGetFirstAvailableSuffix names pre = .ok r ∧ IsLeast {i | ¬ Taken names pre i} r) ∧
      ∀ byte, BitmapAccess names pre byte → 0 ≤ byte ∧ byte < 64 := by
  refine ⟨?_, fun byte hbyte => hbyte.inside hpre hconv⟩
  obtain ⟨r, hsearch, hle, hfree, hbelow⟩ := deviceGetFirstAvailableSuffix_spec hpre hconv
  refine ⟨r, hsearch, ?_, fun i hi => ?_⟩
  · rintro ⟨s, hs, hvalue⟩
    -- 512 is free, since no device has it
    have hlt := (hconv s hs).2
    exact hfree (by omega) ⟨s, hs, hvalue⟩
  · by_contra hlt
    exact hi (hbelow i (Nat.not_le.mp hlt))

/-- `sp0`, `sp2` and `sp00`: the first free number is 1. -/
theorem deviceGetFirstAvailableSuffix_isLeast_gap :
    (∃ r, deviceGetFirstAvailableSuffix [[115, 112, 48], [115, 112, 50], [115, 112, 48, 48]]
        [115, 112] = .ok r ∧
      IsLeast {i | ¬ Taken [[115, 112, 48], [115, 112, 50], [115, 112, 48, 48]] [115, 112] i} r) ∧
      ∀ byte, BitmapAccess [[115, 112, 48], [115, 112, 50], [115, 112, 48, 48]] [115, 112] byte →
        0 ≤ byte ∧ byte < 64 := by
  refine deviceGetFirstAvailableSuffix_isLeast (by decide) fun s hs => ?_
  simp only [List.cons_append, List.nil_append, List.mem_cons, List.cons.injEq, true_and,
    List.not_mem_nil, or_false] at hs
  rcases hs with rfl | rfl | rfl
  · decide +kernel
  · decide +kernel
  · decide +kernel

end Search

/-! ## Drives and partitions -/

section Names

variable {devices : List Device} {drives n j : Nat}

/-- `hd0`, `hd1` and so on. -/
def driveName (n : Nat) : List UInt8 := [104, 100] ++ formatInt n

/-- `hd0p0` and so on. -/
def partitionName (n j : Nat) : List UInt8 := driveName n ++ [112] ++ formatInt j

/-- The drives are numbered in the order of their registration, and every other
device is a partition of one of them. -/
structure Named (drives : Nat) (devices : List Device) : Prop where
  drive : (blockDevices devices).map (·.name) = (List.range drives).map driveName
  partition : ∀ d ∈ devices, d.type ≠ .block →
    ∃ n < drives, ∃ j < 512, d.name = partitionName n j
  nodup : (devices.map (·.name)).Nodup

theorem formatInt_inj {n j : Nat} (hn : n < 10 ^ 32) (hj : j < 10 ^ 32)
    (h : formatInt n = formatInt j) : n = j := by
  have hvalue := congrArg textValue h
  rw [textValue_formatInt hn, textValue_formatInt hj] at hvalue
  exact Int.ofNat_inj.mp hvalue

/-- There is no `p` in a number. -/
theorem p_notMem_formatInt (n : Nat) : 112 ∉ formatInt n := fun h =>
  absurd ((isNumeral_formatInt n).2 112 h) (by decide)

theorem p_notMem_driveName (n : Nat) : 112 ∉ driveName n := by
  unfold driveName
  simp [p_notMem_formatInt n]

theorem zero_notMem_driveName (n : Nat) : 0 ∉ driveName n := by
  have hzero : 0 ∉ formatInt n := fun h => absurd ((isNumeral_formatInt n).2 0 h) (by decide)
  unfold driveName
  simp [hzero]

/-- A drive's name does not start with the prefix of partitions. -/
theorem driveName_ne (n k : Nat) (s : List UInt8) : driveName k ++ [112] ++ s ≠ driveName n := by
  intro h
  have hmem : 112 ∈ driveName n := by
    rw [← h]
    simp
  exact p_notMem_driveName n hmem

/-- A partition's name starts with the prefix of one drive only. -/
theorem partitionName_eq {k : Nat} {s : List UInt8}
    (h : driveName k ++ [112] ++ s = partitionName n j) :
    driveName k = driveName n ∧ s = formatInt j := by
  have hsplit : driveName n ++ 112 :: formatInt j = driveName k ++ 112 :: s := by
    simpa [partitionName] using h.symm
  obtain ⟨hname, -, hsuffix⟩ := (List.append_cons_inj_of_notMem (p_notMem_driveName n)
    (p_notMem_formatInt j)).mp hsplit
  exact ⟨hname.symm, hsuffix.symm⟩

/-- A partition read as a drive has a suffix from 640 on. -/
theorem atoi_partition (hn : n < 512) (hj : j < 512) :
    512 ≤ (atoi (formatInt n ++ [112] ++ formatInt j)).toInt := by
  have hvalue : textValue (formatInt n ++ [112] ++ formatInt j) =
      (n * 10 + 64) * 10 ^ (formatInt j).length + j := by
    rw [textValue_append, textValue_append, textValue_singleton, textValue_formatInt (by omega),
      textValue_formatInt (by omega)]
    rfl
  have hsign : ∀ c, ¬ IsDigit c →
      (formatInt n ++ [112] ++ formatInt j).head? ≠ some c := by
    intro c hc h
    obtain ⟨hne, hdigits⟩ := isNumeral_formatInt n
    rw [List.append_assoc, List.head?_append_of_ne_nil _ hne] at h
    exact hc (hdigits c (List.mem_of_mem_head? h))
  -- a suffix below 512 has one to three digits
  have hpos := List.length_pos_iff.mpr (isNumeral_formatInt j).1
  have hlen : (formatInt j).length ≤ 3 := length_formatInt_le (by omega)
  have hrange : 640 ≤ textValue (formatInt n ++ [112] ++ formatInt j) ∧
      textValue (formatInt n ++ [112] ++ formatInt j) < 2 ^ 31 := by
    rw [hvalue]
    obtain heq | heq | heq : (formatInt j).length = 1 ∨ (formatInt j).length = 2 ∨
        (formatInt j).length = 3 := by omega
    all_goals
      rw [heq]
      omega
  rw [atoi_toInt (hsign 45 (by decide)) (hsign 43 (by decide)) (by omega) hrange.2]
  omega

theorem Named.drives_le (h : Named drives devices) : drives ≤ devices.length := by
  have hlen := congrArg List.length h.drive
  rw [List.length_map, List.length_map, List.length_range] at hlen
  rw [← hlen]
  exact List.length_filter_le _ _

/-- A name in the list is the one of a drive or of a partition. -/
theorem Named.name_cases (h : Named drives devices) {name : List UInt8}
    (hname : name ∈ devices.map (·.name)) :
    (∃ n < drives, name = driveName n) ∨
      ∃ n < drives, ∃ j < 512, name = partitionName n j := by
  obtain ⟨d, hd, rfl⟩ := List.mem_map.mp hname
  by_cases htype : d.type = .block
  · have hmem : d.name ∈ (blockDevices devices).map (·.name) :=
      List.mem_map_of_mem (List.mem_filter.mpr ⟨hd, by simpa using htype⟩)
    rw [h.drive, List.mem_map] at hmem
    obtain ⟨n, hn, heq⟩ := hmem
    exact Or.inl ⟨n, List.mem_range.mp hn, heq.symm⟩
  · exact Or.inr (h.partition d hd htype)

/-- A device whose name is new is added. -/
theorem Named.nodup_append (h : Named drives devices) {dev : Device}
    (hnew : dev.name ∉ devices.map (·.name)) : ((devices ++ [dev]).map (·.name)).Nodup := by
  rw [List.map_append, List.map_singleton, List.nodup_append_comm]
  exact List.nodup_cons.mpr ⟨hnew, h.nodup⟩

/-- Without partitions, the next drive gets the next number. -/
theorem Named.create_bdrive (h : Named drives devices) (hlen : devices.length < 512)
    (hdrives : ∀ d ∈ devices, d.type = .block) :
    ∃ dev, create devices .bdrive = .ok (devices ++ [dev]) ∧ dev.type = .block ∧
      Named (drives + 1) (devices ++ [dev]) := by
  have hle := h.drives_le
  have hall : blockDevices devices = devices :=
    List.filter_eq_self.mpr fun d hd => by simpa using hdrives d hd
  have hnames : devices.map (·.name) = (List.range drives).map driveName := by
    rw [← h.drive, hall]
  have hmem : ∀ s, [104, 100] ++ s ∈ devices.map (·.name) ↔ ∃ n < drives, s = formatInt n := by
    intro s
    rw [hnames, List.mem_map]
    constructor
    · rintro ⟨n, hn, heq⟩
      exact ⟨n, List.mem_range.mp hn, (List.append_cancel_left heq).symm⟩
    · rintro ⟨n, hn, rfl⟩
      exact ⟨n, List.mem_range.mpr hn, rfl⟩
  have htaken : ∀ i, Taken (devices.map (·.name)) [104, 100] i ↔ i < drives := by
    intro i
    unfold Taken
    simp only [hmem]
    constructor
    · rintro ⟨s, ⟨n, hn, rfl⟩, hi⟩
      rw [textValue_formatInt (by omega)] at hi
      omega
    · intro hi
      exact ⟨formatInt i, ⟨i, hi, rfl⟩, textValue_formatInt (by omega)⟩
  have hconv : Conventional (devices.map (·.name)) [104, 100] := by
    intro s hs
    obtain ⟨n, hn, rfl⟩ := (hmem s).mp hs
    refine ⟨isNumeral_formatInt n, ?_⟩
    rw [textValue_formatInt (by omega)]
    omega
  obtain ⟨r, hsearch, hle', hfree, hbelow⟩ :=
    deviceGetFirstAvailableSuffix_spec (by decide) hconv
  obtain rfl : r = drives := by
    have hge : ¬ drives < r := fun hlt => Nat.lt_irrefl _ ((htaken drives).mp (hbelow drives hlt))
    have hle : ¬ r < drives := fun hlt => hfree (by omega) ((htaken r).mpr hlt)
    omega
  refine ⟨{ name := driveName r, type := .block, destroy := true, subdevices := none }, ?_, rfl,
    ?_, fun d hd htype => ?_, h.nodup_append fun hin => ?_⟩
  · unfold create bdriveCreate
    rw [hsearch]
    rfl
  · rw [blockDevices, List.filter_append, List.map_append, List.range_succ, List.map_append,
      ← h.drive]
    rfl
  · rcases List.mem_append.mp hd with hd | hd
    · exact absurd (hdrives d hd) htype
    · rw [List.mem_singleton.mp hd] at htype
      exact absurd rfl htype
  · obtain ⟨n, hn, heq⟩ := (hmem (formatInt r)).mp hin
    have := formatInt_inj (by omega) (by omega) heq
    omega

/-- A partition of a registered drive gets a name of its own. -/
theorem Named.create_fat (h : Named drives devices) (hlen : devices.length < 512) {k : Nat}
    (hk : k < drives) :
    ∃ dev, create devices (.fat k) = .ok (devices ++ [dev]) ∧ dev.type = .fs ∧
      Named drives (devices ++ [dev]) := by
  have hle := h.drives_le
  have hget : ((blockDevices devices).map (·.name))[k]? = some (driveName k) := by
    rw [h.drive, List.getElem?_map, List.getElem?_range hk]
    rfl
  rw [List.getElem?_map, Option.map_eq_some_iff] at hget
  obtain ⟨invoker, hinvoker, hname⟩ := hget
  have hzero : 0 ∉ driveName k ++ [112] := by
    have := zero_notMem_driveName k
    simp [this]
  have hmem : ∀ s, driveName k ++ [112] ++ s ∈ devices.map (·.name) →
      ∃ j : Nat, j < 512 ∧ s = formatInt j := by
    intro s hs
    rcases h.name_cases hs with ⟨n, -, heq⟩ | ⟨n, -, j, hj, heq⟩
    · exact absurd heq (driveName_ne n k s)
    · exact ⟨j, hj, (partitionName_eq heq).2⟩
  have hconv : Conventional (devices.map (·.name)) (driveName k ++ [112]) := by
    intro s hs
    obtain ⟨j, hj, rfl⟩ := hmem s hs
    refine ⟨isNumeral_formatInt j, ?_⟩
    rw [textValue_formatInt (by omega)]
    omega
  obtain ⟨r, hsearch, -, hfree, hbelow⟩ := deviceGetFirstAvailableSuffix_spec hzero hconv
  have hr := suffix_le_length hbelow
  rw [List.length_map] at hr
  refine ⟨{ name := partitionName k r, type := .fs, destroy := false, subdevices := none }, ?_,
    rfl, ?_, fun d hd htype => ?_, h.nodup_append fun hin => ?_⟩
  · simp only [create, hinvoker, fatCreate, hname, hsearch]
    rfl
  · rw [blockDevices, List.filter_append, List.map_append, ← h.drive]
    simp [blockDevices]
  · rcases List.mem_append.mp hd with hd | hd
    · exact h.partition d hd htype
    · rw [List.mem_singleton.mp hd]
      exact ⟨k, hk, r, by omega, rfl⟩
  · exact hfree (by omega) ⟨formatInt r, hin, textValue_formatInt (by omega)⟩

/-- The loop comes to an end only if all suffixes are below 512. -/
theorem markSuffixes_ok {pre : List UInt8} {names : List (List UInt8)}
    {bitmap bitmap' : List (BitVec 8)} (hpre : 0 ∉ pre)
    (h : markSuffixes pre names bitmap = .ok bitmap') {s : List UInt8} (hs : pre ++ s ∈ names) :
    (atoi s).toInt < 512 := by
  induction names generalizing bitmap with
  | nil => cases hs
  | cons name names ih =>
    rw [markSuffixes] at h
    rcases List.mem_cons.mp hs with rfl | hs
    · rw [if_pos ((strncmp_length_eq_zero_iff hpre).mpr (List.prefix_append pre s)),
        List.drop_left] at h
      by_cases hsmall : atoi s < 512
      · exact Int32.lt_iff_toInt_lt.mp hsmall
      · simp only [if_neg hsmall] at h
        cases h
    · split at h
      · dsimp only at h
        split at h
        · cases hmark : markSuffix bitmap (atoi (name.drop pre.length)) with
          | error e =>
            rw [hmark] at h
            cases h
          | ok bitmap₁ =>
            rw [hmark] at h
            exact ih h hs
        · cases h
      · exact ih h hs

/-- Behind a partition, no drive can be created. -/
theorem Named.create_bdrive_fails (h : Named drives devices) (hle : drives ≤ 512)
    (hpartition : ∃ d ∈ devices, d.type ≠ .block) (devices' : List Device) :
    create devices .bdrive ≠ .ok devices' := by
  obtain ⟨d, hd, htype⟩ := hpartition
  obtain ⟨n, hn, j, hj, hname⟩ := h.partition d hd htype
  have hmem : [104, 100] ++ (formatInt n ++ [112] ++ formatInt j) ∈ devices.map (·.name) := by
    have heq : [104, 100] ++ (formatInt n ++ [112] ++ formatInt j) = d.name := by
      rw [hname]
      simp [partitionName, driveName]
    rw [heq]
    exact List.mem_map_of_mem hd
  intro hok
  unfold create bdriveCreate deviceGetFirstAvailableSuffix at hok
  cases hmark : markSuffixes [104, 100] (devices.map (·.name)) (List.replicate 64 0#8) with
  | error e =>
    rw [hmark] at hok
    cases hok
  | ok bitmap =>
    have hlt := markSuffixes_ok (by decide) hmark hmem
    have hge := atoi_partition (Nat.lt_of_lt_of_le hn hle) hj
    omega

end Names

/-! ## Sequences of creations -/

section Creations

variable {devices : List Device} {drives : Nat} {steps : List Creation}

/-- Every partition is on a drive that is registered by then. -/
def OnDrives : Nat → List Creation → Prop
  | _, [] => True
  | drives, .bdrive :: steps => OnDrives (drives + 1) steps
  | drives, .fat drive :: steps => drive < drives ∧ OnDrives drives steps

instance decidableOnDrives : (drives : Nat) → (steps : List Creation) →
    Decidable (OnDrives drives steps)
  | _, [] => inferInstanceAs (Decidable True)
  | drives, .bdrive :: steps => decidableOnDrives (drives + 1) steps
  | drives, .fat drive :: steps =>
    have := decidableOnDrives drives steps
    inferInstanceAs (Decidable (drive < drives ∧ OnDrives drives steps))

/-- No drive is created behind a partition. -/
def DrivesFirst (steps : List Creation) : Prop :=
  steps.Pairwise fun a b => a ≠ .bdrive → b ≠ .bdrive

instance (steps : List Creation) : Decidable (DrivesFirst steps) :=
  inferInstanceAs (Decidable (List.Pairwise _ _))

theorem drivesFirst_cons {step : Creation} :
    DrivesFirst (step :: steps) ↔
      (step ≠ .bdrive → ∀ b ∈ steps, b ≠ .bdrive) ∧ DrivesFirst steps := by
  unfold DrivesFirst
  rw [List.pairwise_cons]
  refine and_congr_left fun _ => ⟨fun h hstep b hb => h b hb hstep, fun h b hb hstep => ?_⟩
  exact h hstep b hb

/-- From devices named as they should be: all creations succeed, with names that are
pairwise distinct, if and only if no drive comes behind a partition. -/
theorem Named.creations_iff (h : Named drives devices)
    (hlen : devices.length + steps.length < 512) (hon : OnDrives drives steps) :
    (∃ devices', creations devices steps = .ok devices' ∧ (devices'.map (·.name)).Nodup) ↔
      DrivesFirst steps ∧
        ((∃ d ∈ devices, d.type ≠ .block) → ∀ step ∈ steps, step ≠ .bdrive) := by
  induction steps generalizing devices drives with
  | nil =>
    refine iff_of_true ⟨devices, rfl, h.nodup⟩ ⟨List.Pairwise.nil, fun _ step hstep => ?_⟩
    cases hstep
  | cons step rest ih =>
    have hle := h.drives_le
    rw [List.length_cons] at hlen
    have hcons : ∀ devices', create devices step = .ok devices' →
        creations devices (step :: rest) = creations devices' rest := by
      intro devices' hok
      unfold creations
      rw [List.foldlM_cons, hok]
      rfl
    rw [drivesFirst_cons]
    cases step with
    | bdrive =>
      by_cases hpartition : ∃ d ∈ devices, d.type ≠ .block
      · -- the search fails its assertion
        refine iff_of_false ?_ fun hright => hright.2 hpartition .bdrive List.mem_cons_self rfl
        rintro ⟨devices', hok, -⟩
        obtain ⟨devices₁, hcreate, -⟩ : ∃ devices₁, create devices .bdrive = .ok devices₁ ∧ True := by
          cases hcreate : create devices .bdrive with
          | error e =>
            unfold creations at hok
            rw [List.foldlM_cons, hcreate] at hok
            cases hok
          | ok devices₁ => exact ⟨devices₁, rfl, trivial⟩
        exact h.create_bdrive_fails (by omega) hpartition devices₁ hcreate
      · push Not at hpartition
        obtain ⟨dev, hcreate, htype, hnamed⟩ := h.create_bdrive (by omega) hpartition
        have hnone : ¬ ∃ d ∈ devices ++ [dev], d.type ≠ .block := by
          push Not
          intro d hd
          rcases List.mem_append.mp hd with hd | hd
          · exact hpartition d hd
          · rw [List.mem_singleton.mp hd, htype]
        rw [hcons _ hcreate, ih hnamed (by rw [List.length_append, List.length_singleton]; omega) hon]
        have hold : ¬ ∃ d ∈ devices, d.type ≠ .block := by push Not; exact hpartition
        simp only [hnone, hold, false_implies, and_true, ne_eq, not_true_eq_false, true_and]
    | fat drive =>
      obtain ⟨dev, hcreate, htype, hnamed⟩ := h.create_fat (by omega) hon.1
      have hsome : ∃ d ∈ devices ++ [dev], d.type ≠ .block :=
        ⟨dev, List.mem_append_right _ (List.mem_singleton_self dev), by rw [htype]; decide⟩
      rw [hcons _ hcreate, ih hnamed (by rw [List.length_append, List.length_singleton]; omega) hon.2]
      constructor
      · intro ⟨hfirst, hrest⟩
        have hnone := hrest hsome
        refine ⟨⟨fun _ => hnone, hfirst⟩, fun _ step hstep => ?_⟩
        rcases List.mem_cons.mp hstep with rfl | hstep
        · simp
        · exact hnone step hstep
      · rintro ⟨⟨hnone, hfirst⟩, -⟩
        exact ⟨hfirst, fun _ => hnone (by simp)⟩

/-- In every sequence of fewer than 512 creations no assertion fails and all names
are distinct if and only if no drive is created behind a partition. -/
theorem creations_distinct_iff (hlen : steps.length < 512) (hon : OnDrives 0 steps) :
    (∃ devices, creations [] steps = .ok devices ∧ (devices.map (·.name)).Nodup) ↔
      DrivesFirst steps := by
  have hnamed : Named 0 [] := ⟨rfl, fun d hd => absurd hd List.not_mem_nil, List.nodup_nil⟩
  rw [hnamed.creations_iff (by simpa using hlen) hon]
  refine and_iff_left fun ⟨d, hd, _⟩ => ?_
  cases hd

/-- Two drives, and then a partition of each. -/
theorem creations_distinct_iff_drivesFirst :
    (∃ devices, creations [] [.bdrive, .bdrive, .fat 0, .fat 1] = .ok devices ∧
        (devices.map (·.name)).Nodup) ↔
      DrivesFirst [.bdrive, .bdrive, .fat 0, .fat 1] :=
  creations_distinct_iff (by decide) (by decide)

/-- The drive behind the partition `hd0p0` fails the assertion. -/
theorem creations_fail :
    ¬ ∃ devices, creations [] [.bdrive, .fat 0, .bdrive] = .ok devices ∧
      (devices.map (·.name)).Nodup := by
  rintro ⟨devices, hok, -⟩
  have hfault : creations [] [.bdrive, .fat 0, .bdrive] =
      .error (.assert "Suffix numbers greater than 512 not supported") := by
    decide +kernel
  rw [hfault] at hok
  cases hok

end Creations

end Microboot.Kern.Io
