/-
  Kern/Fs/DirName.lean --- the names that find_dir_ent compares, kern/fs/fat.c.

  An entry of a directory has its name in 11 bytes: a base of 8 and an extension of
  3, both filled up with blanks.  `find_dir_ent` builds these bytes from a component
  of a path in a buffer of 12, `namebuf`, and compares it as a string with those of
  the entry, whatever the case of letters.

  Neither length is checked.  A base of more than 12 characters, or an extension of
  more than 4, leaves the buffer; one that fills the buffer to its end leaves no
  terminator, and then no entry has the name.  In between, a long base runs into
  the extension.
-/
import Microboot.Kern.Fs.FatOpen

set_option autoImplicit false

namespace Microboot.Kern.Fs

open Microboot.Foundation

/-! ## Writing into a buffer -/

section Overwrite

variable {buf src : List UInt8} {off i : Nat} {c : UInt8}

theorem length_overwrite (h : off + src.length ≤ buf.length) :
    (overwrite buf off src).length = buf.length := by
  simp only [overwrite, List.length_append, List.length_take, List.length_drop]
  omega

/-- What is written into the middle part of a buffer. -/
theorem overwrite_append (pre mid rest : List UInt8) (h : src.length ≤ mid.length) :
    overwrite (pre ++ (mid ++ rest)) pre.length src =
      pre ++ (src ++ mid.drop src.length ++ rest) := by
  rw [overwrite, List.take_left, ← List.drop_drop, List.drop_left,
    List.drop_append_of_le_length h]
  simp only [List.append_assoc]

/-- A byte of the buffer behind what is written. -/
theorem getElem?_overwrite_behind (hoff : off ≤ buf.length) (h : off + src.length ≤ i) :
    (overwrite buf off src)[i]? = buf[i]? := by
  have hlen : (buf.take off ++ src).length = off + src.length := by
    rw [List.length_append, List.length_take, Nat.min_eq_left hoff]
  rw [overwrite, List.getElem?_append_right (by omega), hlen, List.getElem?_drop]
  congr 1
  omega

/-- A byte that is written. -/
theorem getElem?_overwrite_inside (hoff : off ≤ buf.length) (hlo : off ≤ i)
    (hhi : i < off + src.length) : (overwrite buf off src)[i]? = src[i - off]? := by
  have hlen : (buf.take off).length = off := by rw [List.length_take, Nat.min_eq_left hoff]
  rw [overwrite, List.append_assoc, List.getElem?_append_right (by omega), hlen,
    List.getElem?_append_left (by omega)]

/-- A byte of the buffer in front of what is written. -/
theorem getElem?_overwrite_front (hoff : off ≤ buf.length) (h : i < off) :
    (overwrite buf off src)[i]? = buf[i]? := by
  rw [overwrite, List.append_assoc, List.getElem?_append_left
    (by rw [List.length_take]; omega), List.getElem?_take_of_lt h]

end Overwrite

/-- The part of a list in front of the first `a`. -/
theorem takeWhile_ne_append {a : UInt8} {pre : List UInt8} (h : a ∉ pre) (post : List UInt8) :
    (pre ++ a :: post).takeWhile (fun c => c ≠ a) = pre := by
  have hpre : ∀ c ∈ pre, decide (c ≠ a) = true := by
    intro c hc
    exact decide_eq_true fun heq => h (heq ▸ hc)
  rw [List.takeWhile_append_of_pos hpre, List.takeWhile_cons_of_neg (by simp), List.append_nil]

theorem dropWhile_ne_append {a : UInt8} {pre : List UInt8} (h : a ∉ pre) (post : List UInt8) :
    (pre ++ a :: post).dropWhile (fun c => c ≠ a) = a :: post := by
  have hpre : ∀ c ∈ pre, decide (c ≠ a) = true := by
    intro c hc
    exact decide_eq_true fun heq => h (heq ▸ hc)
  rw [List.dropWhile_append_of_pos hpre, List.dropWhile_cons_of_neg (by simp)]

/-! ## namebuf -/

/-- A buffer of 12 bytes that has no terminator in front of its last byte. -/
structure NameBytes (namebuf : List UInt8) : Prop where
  length : namebuf.length = 12
  front : ∀ i < 11, namebuf[i]? ≠ some 0

namespace NameBytes

variable {namebuf src : List UInt8} {off : Nat}

theorem blank : NameBytes (List.replicate 11 32 ++ [0]) := ⟨rfl, by decide⟩

/-- Characters that are written into the buffer are no terminators. -/
theorem overwrite (h : NameBytes namebuf) (hsrc : 0 ∉ src) (hfits : off + src.length ≤ 12) :
    NameBytes (Fs.overwrite namebuf off src) := by
  have hlen := h.length
  refine ⟨by rw [length_overwrite (by omega), hlen], fun i hi => ?_⟩
  by_cases hbehind : off + src.length ≤ i
  · rw [getElem?_overwrite_behind (by omega) hbehind]
    exact h.front i hi
  by_cases hfront : i < off
  · rw [getElem?_overwrite_front (by omega) hfront]
    exact h.front i hi
  · rw [getElem?_overwrite_inside (by omega) (by omega) (by omega)]
    exact fun hmem => hsrc (List.mem_of_getElem? hmem)

/-- The last byte stays what it is unless what is written reaches it. -/
theorem last_overwrite (h : NameBytes namebuf) (hsrc : 0 ∉ src) (hne : off < 12)
    (hfits : off + src.length ≤ 12) :
    (Fs.overwrite namebuf off src)[11]? = some 0 ↔
      off + src.length ≤ 11 ∧ namebuf[11]? = some 0 := by
  have hlen := h.length
  by_cases hbehind : off + src.length ≤ 11
  · rw [getElem?_overwrite_behind (by omega) hbehind]
    exact ⟨fun h0 => ⟨hbehind, h0⟩, fun h0 => h0.2⟩
  · rw [getElem?_overwrite_inside (by omega) (by omega) (by omega)]
    exact ⟨fun hmem => absurd (List.mem_of_getElem? hmem) hsrc, fun h0 => absurd h0.1 hbehind⟩

/-- The string in the buffer has 11 characters if the last byte is a terminator. -/
theorem bufStr_of_last (h : NameBytes namebuf) (hlast : namebuf[11]? = some 0) :
    bufStr namebuf = namebuf.take 11 := by
  have hsplit : namebuf = namebuf.take 11 ++ [0] := by
    have hlen := h.length
    rw [List.getElem?_eq_getElem (by omega), Option.some.injEq] at hlast
    rw [← hlast, ← List.take_succ_eq_append_getElem, List.take_of_length_le (by omega)]
  have hfront : ∀ c ∈ namebuf.take 11, (decide (c ≠ 0)) = true := by
    intro c hc
    obtain ⟨i, hi⟩ := List.mem_iff_getElem?.mp hc
    have hlt : i < 11 := by
      by_contra hge
      rw [List.getElem?_take_eq_none (by omega)] at hi
      cases hi
    rw [List.getElem?_take_of_lt hlt] at hi
    refine decide_eq_true fun h0 => h.front i hlt ?_
    rw [hi, h0]
  rw [bufStr, hsplit, List.takeWhile_append_of_pos hfront, List.take_left' (by
    rw [List.length_take, h.length]; rfl)]
  simp

/-- Without a terminator all of the buffer is the string. -/
theorem bufStr_of_not_last (h : NameBytes namebuf) (hlast : namebuf[11]? ≠ some 0) :
    bufStr namebuf = namebuf := by
  rw [bufStr, List.takeWhile_eq_self_iff]
  intro c hc
  obtain ⟨i, hi⟩ := List.mem_iff_getElem?.mp hc
  refine decide_eq_true fun h0 => ?_
  subst h0
  obtain ⟨hlt, -⟩ := List.getElem?_eq_some_iff.mp hi
  have hlen := h.length
  by_cases h11 : i = 11
  · exact hlast (h11 ▸ hi)
  · exact h.front i (by omega) hi

end NameBytes

section NameBuf

variable {name base ext namebuf : List UInt8}

/-- A component with a dot behind `base` gives a base and an extension. -/
theorem nameBuf_dotted (hbase : 46 ∉ base) :
    nameBuf (base ++ 46 :: ext) =
      if base.length ≤ 12 ∧ 8 + ext.length ≤ 12 then
        .ok (overwrite (overwrite (List.replicate 11 32 ++ [0]) 0 base) 8 ext)
      else .error .undefined := by
  have hext : (base ++ 46 :: ext).drop (base.length + 1) = ext := by
    rw [← List.drop_drop, List.drop_left, List.drop_one, List.tail_cons]
  simp only [nameBuf, strchr_append hbase, hext, List.take_left]

/-- A component without a dot is copied as it is. -/
theorem nameBuf_plain (hdot : 46 ∉ name) :
    nameBuf name =
      if name.length ≤ 12 then .ok (overwrite (List.replicate 11 32 ++ [0]) 0 name)
      else .error .undefined := by
  simp only [nameBuf, (strchr_eq_none_iff (by decide)).mpr hdot]

/-- A component has no dot, or there is a first one. -/
theorem dot_cases (name : List UInt8) :
    46 ∉ name ∨ ∃ base ext, name = base ++ 46 :: ext ∧ 46 ∉ base := by
  by_cases hdot : 46 ∈ name
  · obtain ⟨base, ext, hname, hbase⟩ := List.eq_append_cons_of_mem hdot
    exact .inr ⟨base, ext, hname, hbase⟩
  · exact .inl hdot

/-- What is in front of the first dot of a component. -/
def baseOf (name : List UInt8) : List UInt8 := name.takeWhile fun c => c ≠ 46

/-- What is behind the first dot of a component. -/
def extOf (name : List UInt8) : List UInt8 := (name.dropWhile fun c => c ≠ 46).drop 1

theorem baseOf_dotted (hbase : 46 ∉ base) : baseOf (base ++ 46 :: ext) = base :=
  takeWhile_ne_append hbase ext

theorem extOf_dotted (hbase : 46 ∉ base) : extOf (base ++ 46 :: ext) = ext := by
  rw [extOf, dropWhile_ne_append hbase, List.drop_one, List.tail_cons]

/-- Where `namebuf` ends with its terminator: the characters leave its last byte
alone. -/
def LeavesNul (name : List UInt8) : Prop :=
  if 46 ∈ name then (baseOf name).length ≤ 11 ∧ (extOf name).length ≤ 3 else name.length ≤ 11

/-- Where all characters are written into `namebuf`. -/
def FitsNameBuf (name : List UInt8) : Prop :=
  if 46 ∈ name then (baseOf name).length ≤ 12 ∧ (extOf name).length ≤ 4 else name.length ≤ 12

instance (name : List UInt8) : Decidable (LeavesNul name) := by
  unfold LeavesNul
  infer_instance

instance (name : List UInt8) : Decidable (FitsNameBuf name) := by
  unfold FitsNameBuf
  infer_instance

/-- `namebuf` is built if the characters fit. -/
theorem nameBuf_of_fits (h : FitsNameBuf name) : ∃ namebuf, nameBuf name = .ok namebuf := by
  rcases dot_cases name with hdot | ⟨base, ext, rfl, hbase⟩
  · rw [FitsNameBuf, if_neg hdot] at h
    exact ⟨_, by rw [nameBuf_plain hdot, if_pos h]⟩
  · rw [FitsNameBuf, if_pos (by simp), baseOf_dotted hbase, extOf_dotted hbase] at h
    exact ⟨_, by rw [nameBuf_dotted hbase, if_pos ⟨h.1, by omega⟩]⟩

/-- Otherwise a write leaves it. -/
theorem nameBuf_eq_error (h : ¬ FitsNameBuf name) : nameBuf name = .error .undefined := by
  rcases dot_cases name with hdot | ⟨base, ext, rfl, hbase⟩
  · rw [FitsNameBuf, if_neg hdot] at h
    rw [nameBuf_plain hdot, if_neg h]
  · rw [FitsNameBuf, if_pos (by simp), baseOf_dotted hbase, extOf_dotted hbase] at h
    rw [nameBuf_dotted hbase, if_neg fun hfits => h ⟨hfits.1, by omega⟩]

/-- What is built of a string, and when it ends with the terminator. -/
theorem nameBuf_spec (hname : 0 ∉ name) (h : nameBuf name = .ok namebuf) :
    NameBytes namebuf ∧ (namebuf[11]? = some 0 ↔ LeavesNul name) := by
  rcases dot_cases name with hdot | ⟨base, ext, rfl, hbase⟩
  · rw [nameBuf_plain hdot] at h
    rw [LeavesNul, if_neg hdot]
    split at h
    · rename_i hfits
      cases h
      have hblank := NameBytes.blank
      refine ⟨hblank.overwrite hname (by omega), ?_⟩
      rw [hblank.last_overwrite hname (by decide) (by omega)]
      simp
    · cases h
  · rw [nameBuf_dotted hbase] at h
    rw [LeavesNul, if_pos (by simp), baseOf_dotted hbase, extOf_dotted hbase]
    have hnul : 0 ∉ base ∧ 0 ∉ ext := by
      simp only [List.mem_append, List.mem_cons, not_or] at hname
      exact ⟨hname.1, hname.2.2⟩
    split at h
    · rename_i hfits
      cases h
      have hblank := NameBytes.blank
      have hfirst := hblank.overwrite hnul.1 (show 0 + base.length ≤ 12 by omega)
      refine ⟨hfirst.overwrite hnul.2 hfits.2, ?_⟩
      rw [hfirst.last_overwrite hnul.2 (by decide) hfits.2,
        hblank.last_overwrite hnul.1 (by decide) (by omega)]
      simp only [Nat.zero_add]
      constructor
      · exact fun h => ⟨h.2.1, by omega⟩
      · exact fun h => ⟨by omega, h.1, rfl⟩
    · cases h

end NameBuf

/-! ## The name of an entry -/

/-- `stricmp(namebuf, actual_namebuf) == 0` -/
def Bears (namebuf dir : List UInt8) : Prop :=
  stricmp (bufStr namebuf) (bufStr (dir.take 11 ++ [0])) = 0

instance (namebuf dir : List UInt8) : Decidable (Bears namebuf dir) :=
  inferInstanceAs (Decidable (_ = _))

section Bears

variable {namebuf dir : List UInt8}

theorem zero_notMem_bufStr (buf : List UInt8) : 0 ∉ bufStr buf := by
  intro h
  have := List.mem_takeWhile_imp h
  simp at this

/-- The string of a buffer that ends with a terminator: all in front of the first one. -/
theorem bufStr_append_zero (buf : List UInt8) : bufStr (buf ++ [0]) = bufStr buf := by
  induction buf with
  | nil => rfl
  | cons c buf ih =>
    by_cases hc : c = 0
    · rw [bufStr, bufStr, List.cons_append, List.takeWhile_cons_of_neg (by simp [hc]),
        List.takeWhile_cons_of_neg (by simp [hc])]
    · rw [bufStr, bufStr, List.cons_append, List.takeWhile_cons_of_pos (by simp [hc]),
        List.takeWhile_cons_of_pos (by simp [hc])]
      exact congrArg (c :: ·) ih

theorem bufStr_eq_self {buf : List UInt8} (h : 0 ∉ buf) : bufStr buf = buf := by
  rw [bufStr, List.takeWhile_eq_self_iff]
  exact fun c hc => decide_eq_true fun h0 => h (h0 ▸ hc)

theorem bears_iff_bufStr : Bears namebuf dir ↔
    (bufStr namebuf).map tolower = (bufStr (dir.take 11)).map tolower := by
  rw [Bears, stricmp_eq_zero_iff (zero_notMem_bufStr _) (zero_notMem_bufStr _),
    bufStr_append_zero]

/-- No entry has a name of 12 characters. -/
theorem NameBytes.not_bears (h : NameBytes namebuf) (hlast : namebuf[11]? ≠ some 0) :
    ¬ Bears namebuf dir := by
  intro hbears
  have hlen := congrArg List.length (bears_iff_bufStr.mp hbears)
  have hshort : (bufStr (dir.take 11)).length ≤ 11 :=
    Nat.le_trans (List.takeWhile_prefix _).length_le (List.length_take_le _ _)
  rw [List.length_map, List.length_map, h.bufStr_of_not_last hlast, h.length] at hlen
  omega

/-- A name of 11 characters is that of the entries with these bytes, whatever the case
of letters: an entry with a terminator in its name has fewer characters. -/
theorem NameBytes.bears_iff (h : NameBytes namebuf) (hlast : namebuf[11]? = some 0) :
    Bears namebuf dir ↔ (namebuf.take 11).map tolower = (dir.take 11).map tolower := by
  rw [bears_iff_bufStr, h.bufStr_of_last hlast]
  have hfront : 0 ∉ namebuf.take 11 := by
    rw [← h.bufStr_of_last hlast]
    exact zero_notMem_bufStr _
  have hlen : (namebuf.take 11).length = 11 := by rw [List.length_take, h.length]; rfl
  by_cases hnul : 0 ∈ dir.take 11
  · constructor
    · intro heq
      exfalso
      have hcut := congrArg List.length heq
      obtain ⟨pre, post, hsplit, hpre⟩ := List.eq_append_cons_of_mem hnul
      have htake : (dir.take 11).length ≤ 11 := List.length_take_le _ _
      rw [hsplit, List.length_append, List.length_cons] at htake
      rw [List.length_map, List.length_map, hlen, hsplit, bufStr,
        takeWhile_ne_append hpre] at hcut
      omega
    · intro heq
      exfalso
      have hmem : (0 : UInt8) ∈ (namebuf.take 11).map tolower := by
        rw [heq]
        exact List.mem_map.mpr ⟨0, hnul, by decide⟩
      obtain ⟨c, hc, hzero⟩ := List.mem_map.mp hmem
      exact hfront ((tolower_eq_zero_iff c).mp hzero ▸ hc)
  · rw [bufStr_eq_self hnul]

end Bears

end Microboot.Kern.Fs
