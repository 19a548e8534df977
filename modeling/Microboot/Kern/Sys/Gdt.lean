/-
  Kern/Sys/Gdt.lean --- segment descriptors, kern/sys/gdt.c.

  `encode_entry` writes the eight bytes of a descriptor, with the base in four of them
  and the limit in two and a half.  `descriptorAt` reads them as the processor does.

  The entries of the table have base 0.  For others the last byte of the base is not
  the byte but whether it is zero: what was written is read again exactly if the base
  has at most the lowest bit of that byte.
-/
import Microboot.Foundation.Loop
import Microboot.Foundation.Memory

set_option autoImplicit false

namespace Microboot.Kern.Sys

open Microboot.Foundation

/-! ## The model -/

/-- `struct gdt_entry` -/
structure GdtEntry where
  base : UInt32
  limit : UInt32
  type : UInt32
  flags : UInt32
  deriving DecidableEq, Repr

/-- `GDT_GRANULARITY` -/
def gdtGranularity : UInt8 := 0x80

/-- `GDT_SIZE` -/
def gdtSize : UInt32 := 0x40

/-- `GDT_TYPE(rw, dc, executable, segtype, priv)` -/
def gdtType (rw dc executable segtype priv : UInt32) : UInt32 :=
  (rw &&& 1) <<< 1 ||| (dc &&& 1) <<< 2 ||| (executable &&& 1) <<< 3 ||| (segtype &&& 1) <<< 4 |||
    (priv &&& 2) <<< 6 ||| (1 : UInt32) <<< 7

/-- `gdt` -/
def gdt : List GdtEntry :=
  [⟨0, 0, 0, 0⟩,
    ⟨0, 0xffffffff, gdtType 1 0 1 1 0, gdtSize⟩,
    ⟨0, 0xffffffff, gdtType 1 0 0 1 0, gdtSize⟩,
    ⟨0, 0xffff, gdtType 1 0 1 1 0, 0xb0⟩,
    ⟨0, 0xffff, gdtType 1 0 0 1 0, 0xb0⟩]

/-- `encode_entry(dst, src)`.  The last byte of the base is `(src.base >> 24) && 0xff`. -/
def encodeEntry (m : Mem) (dst : Nat) (src : GdtEntry) : Mem :=
  let (limit, m) :=
    if src.limit > 65536 then (src.limit >>> 12, m.store8 (dst + 6) gdtGranularity)
    else (src.limit, m.store8 (dst + 6) 0)
  let m := m.store8 (dst + 5) src.type.toUInt8
  let m := m.store8 (dst + 0) (limit &&& 0xff).toUInt8
  let m := m.store8 (dst + 1) ((limit >>> 8) &&& 0xff).toUInt8
  let m := m.store8 (dst + 6) (m.load8 (dst + 6) ||| ((limit >>> 16) &&& 0x0f).toUInt8)
  let m := m.store8 (dst + 6) (m.load8 (dst + 6) ||| (src.flags &&& 0xf0).toUInt8)
  let m := m.store8 (dst + 2) (src.base &&& 0xff).toUInt8
  let m := m.store8 (dst + 3) ((src.base >>> 8) &&& 0xff).toUInt8
  let m := m.store8 (dst + 4) ((src.base >>> 16) &&& 0xff).toUInt8
  m.store8 (dst + 7) (if src.base >>> 24 ≠ 0 ∧ (0xff : UInt32) ≠ 0 then 1 else 0)

/-- `encode()`, with the table and the buffer for its descriptors. -/
def encode (m : Mem) (gdtBuffer : Nat) (table : List GdtEntry) : Mem :=
  forUpto table.length
    (fun i m => encodeEntry m (gdtBuffer + i * 8) (table.getD i ⟨0, 0, 0, 0⟩)) m

/-! ## The processor's descriptors -/

/-- A segment: its first address, the last offset in it, the access byte and the flags in
the high half of their byte. -/
structure Descriptor where
  base : Nat
  limit : Nat
  access : Nat
  flags : Nat
  deriving DecidableEq, Repr

/-- The descriptor in the eight bytes at `p`.  With the granularity bit its limit counts
pages of 4096 bytes. -/
def descriptorAt (m : Mem) (p : Nat) : Descriptor :=
  let byte := fun i => (m.load8 (p + i)).toNat
  let limit := byte 0 + 256 * byte 1 + 65536 * (byte 6 % 16)
  { base := byte 2 + 256 * byte 3 + 65536 * byte 4 + 16777216 * byte 7
    limit := if byte 6 / 128 = 1 then 4096 * limit + 4095 else limit
    access := byte 5
    flags := byte 6 / 16 * 16 }

/-- The descriptor of an entry: one with a limit above 65536 counts pages, with the last of
them included. -/
def GdtEntry.descriptor (src : GdtEntry) : Descriptor where
  base := src.base.toNat
  limit := if src.limit > 65536 then (src.limit ||| 0xfff).toNat else src.limit.toNat
  access := src.type.toNat
  flags := if src.limit > 65536 then (src.flags ||| gdtGranularity.toUInt32).toNat
    else src.flags.toNat

/-- An access byte and flags, without the bit and the half byte that the encoding fills in. -/
structure GdtEntry.Plain (src : GdtEntry) : Prop where
  type_lt : src.type < 256
  flags_lt : src.flags < 256
  flags_clear : src.flags &&& 0x8f = 0

/-! ## What is written -/

section Encode

variable {m : Mem} {dst : Nat} {src : GdtEntry}

/-- The bytes of an entry, with the limit that is stored. -/
theorem encodeEntry_load8 (m : Mem) (dst : Nat) (src : GdtEntry) : ∃ limit : UInt32,
    limit = (if src.limit > 65536 then src.limit >>> 12 else src.limit) ∧
    (encodeEntry m dst src).load8 (dst + 0) = (limit &&& 0xff).toUInt8 ∧
    (encodeEntry m dst src).load8 (dst + 1) = ((limit >>> 8) &&& 0xff).toUInt8 ∧
    (encodeEntry m dst src).load8 (dst + 2) = (src.base &&& 0xff).toUInt8 ∧
    (encodeEntry m dst src).load8 (dst + 3) = ((src.base >>> 8) &&& 0xff).toUInt8 ∧
    (encodeEntry m dst src).load8 (dst + 4) = ((src.base >>> 16) &&& 0xff).toUInt8 ∧
    (encodeEntry m dst src).load8 (dst + 5) = src.type.toUInt8 ∧
    (encodeEntry m dst src).load8 (dst + 6) = (if src.limit > 65536 then gdtGranularity else 0) |||
      ((limit >>> 16) &&& 0x0f).toUInt8 ||| (src.flags &&& 0xf0).toUInt8 ∧
    (encodeEntry m dst src).load8 (dst + 7) = if src.base >>> 24 ≠ 0 then 1 else 0 := by
  refine ⟨_, rfl, ?_⟩
  unfold encodeEntry
  by_cases hlimit : src.limit > 65536
  · simp only [if_pos hlimit]
    simp (disch := decide) only [Mem.load8_store8_offset, Mem.load8_store8_same, true_and]
    simp
  · simp only [if_neg hlimit]
    simp (disch := decide) only [Mem.load8_store8_offset, Mem.load8_store8_same, true_and]
    simp

/-- The low byte of a word. -/
theorem toNat_lowByte (x : UInt32) : (x &&& 0xff).toUInt8.toNat = x.toNat % 256 := by
  have hand : x.toNat &&& 255 = x.toNat % 256 := Nat.and_two_pow_sub_one_eq_mod _ 8
  rw [UInt32.toNat_toUInt8, UInt32.toNat_and]
  show (x.toNat &&& 255) % 256 = _
  rw [hand, Nat.mod_mod]

/-- Its low four bits. -/
theorem toNat_lowNibble (x : UInt32) : (x &&& 0x0f).toUInt8.toNat = x.toNat % 16 := by
  have hand : x.toNat &&& 15 = x.toNat % 16 := Nat.and_two_pow_sub_one_eq_mod _ 4
  rw [UInt32.toNat_toUInt8, UInt32.toNat_and]
  show (x.toNat &&& 15) % 256 = _
  rw [hand]
  omega

/-- Of flags that are clear elsewhere, the mask keeps all bits. -/
theorem flags_nibble : ∀ n : Fin 256, UInt32.ofNat n &&& 0x8f = 0 →
    (UInt32.ofNat n &&& 0xf0).toUInt8.toNat = n ∧ n.val % 16 = 0 ∧ n.val < 128 := by
  decide +kernel

/-- The byte that the limit shares with the flags: no bit is set twice. -/
theorem or_shared {g x y : Nat} (hg : g = 0 ∨ g = 128) (hx : x < 16) (hy : y % 16 = 0)
    (hlt : y < 128) : g ||| x ||| y = g + x + y := by
  have hlow : y + x = y ||| x := by
    have h := Nat.two_pow_add_eq_or_of_lt (i := 4) hx (y / 16)
    rwa [show 2 ^ 4 * (y / 16) = y by omega] at h
  rw [Nat.or_assoc, Nat.or_comm x y, ← hlow]
  rcases hg with rfl | rfl
  · rw [Nat.zero_or]
    omega
  · have h := Nat.two_pow_add_eq_or_of_lt (i := 7) (show y + x < 2 ^ 7 by omega) 1
    rw [show 2 ^ 7 * 1 = 128 from rfl] at h
    rw [← h]
    omega

/-- With its low bits set, a number is the last of its page. -/
theorem or_pageMask (n : Nat) : n ||| 0xfff = 4096 * (n / 4096) + 4095 := by
  have hsplit : 2 ^ 12 * (n / 4096) + n % 4096 = 2 ^ 12 * (n / 4096) ||| n % 4096 :=
    Nat.two_pow_add_eq_or_of_lt (Nat.mod_lt n (by decide)) _
  have hjoin : 2 ^ 12 * (n / 4096) + 4095 = 2 ^ 12 * (n / 4096) ||| 4095 :=
    Nat.two_pow_add_eq_or_of_lt (by decide) _
  have hlow : n % 4096 ||| 4095 = 4095 := by
    apply Nat.eq_of_testBit_eq
    intro i
    rw [Nat.testBit_or, show (4096 : Nat) = 2 ^ 12 from rfl, Nat.testBit_mod_two_pow,
      show (4095 : Nat) = 2 ^ 12 - 1 from rfl, Nat.testBit_two_pow_sub_one]
    by_cases hi : i < 12
    · simp [hi]
    · simp [hi]
  have hn : 2 ^ 12 * (n / 4096) + n % 4096 = n := Nat.div_add_mod n 4096
  calc n ||| 0xfff = (2 ^ 12 * (n / 4096) + n % 4096) ||| 4095 := by rw [hn]
    _ = 2 ^ 12 * (n / 4096) ||| (n % 4096 ||| 4095) := by rw [hsplit, Nat.or_assoc]
    _ = 2 ^ 12 * (n / 4096) + 4095 := by rw [hlow, ← hjoin]

/-- The limit that is stored, and the bit that goes with it. -/
theorem storedLimit (src : GdtEntry) : ∃ g,
    (if src.limit > 65536 then gdtGranularity else 0).toNat = g ∧
    ((src.limit > 65536 ∧ g = 128 ∧
        (if src.limit > 65536 then src.limit >>> 12 else src.limit).toNat =
          src.limit.toNat / 4096) ∨
      (¬ src.limit > 65536 ∧ g = 0 ∧ src.limit.toNat ≤ 65536 ∧
        (if src.limit > 65536 then src.limit >>> 12 else src.limit).toNat = src.limit.toNat)) := by
  by_cases hlimit : src.limit > 65536
  · simp only [if_pos hlimit]
    refine ⟨128, rfl, .inl ⟨hlimit, rfl, ?_⟩⟩
    rw [UInt32.toNat_shiftRight, Nat.shiftRight_eq_div_pow]
    rfl
  · simp only [if_neg hlimit]
    exact ⟨0, rfl, .inr ⟨hlimit, rfl, UInt32.not_lt.mp hlimit, trivial⟩⟩

/-- The processor reads what was encoded, but for the last byte of the base. -/
theorem descriptorAt_encodeEntry (h : src.Plain) :
    descriptorAt (encodeEntry m dst src) dst =
      { src.descriptor with
        base := src.base.toNat % 2 ^ 24 + if src.base >>> 24 ≠ 0 then 2 ^ 24 else 0 } := by
  obtain ⟨limit, hlimit, h0, h1, h2, h3, h4, h5, h6, h7⟩ := encodeEntry_load8 m dst src
  obtain ⟨g, hg, hstored⟩ := storedLimit src
  rw [← hlimit] at hstored
  have hword := src.limit.toNat_lt
  have htype : src.type.toNat < 256 := h.type_lt
  obtain ⟨hflags, hlow, hhigh⟩ := flags_nibble ⟨src.flags.toNat, h.flags_lt⟩
    (by simpa using h.flags_clear)
  simp only [UInt32.ofNat_toNat] at hflags hlow hhigh
  -- the bytes as numbers
  have n0 : ((encodeEntry m dst src).load8 (dst + 0)).toNat = limit.toNat % 256 := by
    rw [h0, toNat_lowByte]
  have n1 : ((encodeEntry m dst src).load8 (dst + 1)).toNat = limit.toNat / 256 % 256 := by
    rw [h1, toNat_lowByte, UInt32.toNat_shiftRight, Nat.shiftRight_eq_div_pow]
    rfl
  have n2 : ((encodeEntry m dst src).load8 (dst + 2)).toNat = src.base.toNat % 256 := by
    rw [h2, toNat_lowByte]
  have n3 : ((encodeEntry m dst src).load8 (dst + 3)).toNat = src.base.toNat / 256 % 256 := by
    rw [h3, toNat_lowByte, UInt32.toNat_shiftRight, Nat.shiftRight_eq_div_pow]
    rfl
  have n4 : ((encodeEntry m dst src).load8 (dst + 4)).toNat = src.base.toNat / 65536 % 256 := by
    rw [h4, toNat_lowByte, UInt32.toNat_shiftRight, Nat.shiftRight_eq_div_pow]
    rfl
  have n5 : ((encodeEntry m dst src).load8 (dst + 5)).toNat = src.type.toNat := by
    rw [h5, UInt32.toNat_toUInt8]
    exact Nat.mod_eq_of_lt htype
  have n6 : ((encodeEntry m dst src).load8 (dst + 6)).toNat =
      g + limit.toNat / 65536 % 16 + src.flags.toNat := by
    rw [h6, UInt8.toNat_or, UInt8.toNat_or, hg, toNat_lowNibble, hflags, UInt32.toNat_shiftRight,
      Nat.shiftRight_eq_div_pow]
    exact or_shared (by omega) (Nat.mod_lt _ (by decide)) hlow hhigh
  have n7 : ((encodeEntry m dst src).load8 (dst + 7)).toNat =
      if src.base >>> 24 ≠ 0 then 1 else 0 := by
    rw [h7]
    split <;> rfl
  have hor : (src.flags ||| gdtGranularity.toUInt32).toNat = 128 + src.flags.toNat := by
    have := or_shared (g := 128) (x := 0) (.inr rfl) (by decide) hlow hhigh
    rw [UInt32.toNat_or, Nat.or_comm]
    exact this
  unfold descriptorAt GdtEntry.descriptor
  simp only [n0, n1, n2, n3, n4, n5, n6, n7, Descriptor.mk.injEq, true_and]
  refine ⟨?_, ?_, ?_⟩
  · by_cases htop : src.base >>> 24 ≠ 0
    · rw [if_pos htop, if_pos htop]
      omega
    · rw [if_neg htop, if_neg htop]
      omega
  · rcases hstored with ⟨hbig, rfl, hL⟩ | ⟨hbig, rfl, hle, hL⟩
    · rw [if_pos (by omega), if_pos hbig, UInt32.toNat_or]
      show _ = src.limit.toNat ||| 0xfff
      rw [or_pageMask]
      omega
    · rw [if_neg (by omega), if_neg hbig]
      omega
  · rcases hstored with ⟨hbig, rfl, hL⟩ | ⟨hbig, rfl, hle, hL⟩
    · rw [if_pos hbig, hor]
      omega
    · rw [if_neg hbig]
      omega

/-- Nothing but the eight bytes changes. -/
theorem encodeEntry_keeps {a : Nat} (ha : ∀ i < 8, wrap a ≠ wrap (dst + i)) :
    (encodeEntry m dst src).load8 a = m.load8 a := by
  have hstore : ∀ (m : Mem) (v : UInt8), ∀ i < 8, (m.store8 (dst + i) v).load8 a = m.load8 a :=
    fun m v i hi => if_neg (ha i hi)
  unfold encodeEntry
  by_cases hlimit : src.limit > 65536
  · simp (disch := decide) only [if_pos hlimit, hstore]
  · simp (disch := decide) only [if_neg hlimit, hstore]

theorem descriptorAt_congr {m' : Mem} {p : Nat} (h : ∀ i < 8, m'.load8 (p + i) = m.load8 (p + i)) :
    descriptorAt m' p = descriptorAt m p := by
  unfold descriptorAt
  simp (disch := decide) only [h]

/-- What is left of the last byte of a base. -/
theorem base_kept_iff (base : UInt32) :
    (base.toNat % 2 ^ 24 + if base >>> 24 ≠ 0 then 2 ^ 24 else 0) = base.toNat ↔
      base >>> 24 ≤ 1 := by
  have hbase := base.toNat_lt
  have htop : (base >>> 24).toNat = base.toNat / 2 ^ 24 := by
    rw [UInt32.toNat_shiftRight, Nat.shiftRight_eq_div_pow]
    rfl
  have hone : base >>> 24 ≤ 1 ↔ base.toNat / 2 ^ 24 ≤ 1 := by
    rw [UInt32.le_iff_toNat_le, htop]
    rfl
  have hzero : base >>> 24 = 0 ↔ base.toNat / 2 ^ 24 = 0 := by
    rw [← UInt32.toNat_inj, htop]
    rfl
  rw [hone]
  split
  next htop =>
    rw [Ne, hzero] at htop
    omega
  next htop =>
    rw [not_not, hzero] at htop
    omega

/-- What was encoded is read again exactly if the base has no more than the lowest bit of its
last byte. -/
theorem encodeEntry_decodes_iff (m : Mem) (dst : Nat) (src : GdtEntry) (h : src.Plain) :
    descriptorAt (encodeEntry m dst src) dst = src.descriptor ↔ src.base >>> 24 ≤ 1 := by
  rw [descriptorAt_encodeEntry h, ← base_kept_iff]
  constructor
  · intro heq
    exact congrArg Descriptor.base heq
  · intro hbase
    rw [hbase]
    rfl

/-- A code segment that does not begin at 0. -/
def highCode : GdtEntry := ⟨0x01234567, 0x12345678, gdtType 1 0 1 1 0, gdtSize⟩

theorem encodeEntry_decodes_highCode :
    descriptorAt (encodeEntry (fun _ => 0) 0x1000 highCode) 0x1000 = highCode.descriptor :=
  (encodeEntry_decodes_iff (fun _ => 0) 0x1000 highCode ⟨by decide, by decide, by decide⟩).mpr
    (by decide)

/-- With base `0x02000000` the segment begins at `0x01000000`. -/
theorem encodeEntry_loses_base :
    GdtEntry.Plain ⟨0x02000000, 0xffff, 0x9a, 0x40⟩ ∧
      (descriptorAt (encodeEntry (fun _ => 0) 0x1000 ⟨0x02000000, 0xffff, 0x9a, 0x40⟩) 0x1000).base
        = 0x01000000 ∧
      (GdtEntry.descriptor ⟨0x02000000, 0xffff, 0x9a, 0x40⟩).base = 0x02000000 :=
  ⟨⟨by decide, by decide, by decide⟩, by decide +kernel, by decide⟩

/-- Each descriptor of the buffer is that of its entry. -/
theorem encode_decodes (m : Mem) (gdtBuffer : Nat) {table : List GdtEntry}
    (hlen : table.length * 8 ≤ 2 ^ 32)
    (hall : ∀ src ∈ table, src.Plain ∧ src.base >>> 24 ≤ 1) {i : Nat} (hi : i < table.length) :
    descriptorAt (encode m gdtBuffer table) (gdtBuffer + i * 8) =
      (table.getD i ⟨0, 0, 0, 0⟩).descriptor := by
  refine forUpto_inv (fun n m => ∀ i < n, descriptorAt m (gdtBuffer + i * 8) =
    (table.getD i ⟨0, 0, 0, 0⟩).descriptor) (fun i hi => absurd hi (Nat.not_lt_zero i)) ?_ i hi
  intro n hn m hm i hi
  rcases Nat.lt_succ_iff_lt_or_eq.mp hi with hlt | rfl
  · -- the entries before are as they were
    rw [← hm i hlt]
    refine descriptorAt_congr fun j hj => encodeEntry_keeps fun k hk heq => ?_
    unfold wrap at heq
    omega
  · have hmem : table.getD i ⟨0, 0, 0, 0⟩ ∈ table := by
      rw [List.getD_eq_getElem?_getD, List.getElem?_eq_getElem hn]
      exact List.getElem_mem hn
    obtain ⟨hplain, hbase⟩ := hall _ hmem
    rw [descriptorAt_encodeEntry hplain, (base_kept_iff _).mpr hbase]
    rfl

/-- The table has no base that is lost. -/
theorem gdt_base : ∀ src ∈ gdt, src.base = 0 := by decide

end Encode

end Microboot.Kern.Sys
