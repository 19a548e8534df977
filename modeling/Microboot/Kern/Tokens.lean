/-
  Kern/Tokens.lean --- splitting a line in place.

  kern/main.c (`process_command_string`) and kern/fs/fs.c (`fs_open`) split a
  buffer the same way: a first `strtok`, then `strtok(NULL, ..)` only to count
  the tokens, then a walk that recomputes the pointers by stepping over one
  terminator per token.  The two passes agree only when the terminators that
  `strtok` wrote are exactly one per token, which is what `Cut` records.
-/
import Microboot.Kern.Stdlib

set_option autoImplicit false

namespace Microboot.Kern

open Microboot.Foundation

/-- The delimiter string `" "`, with which both functions count. -/
def spaceDelim : List UInt8 := [32]

/-! ## The loops -/

/-- `while (strtok(NULL, delim) != NULL) n++;` -/
def countTokens (delim : List UInt8) : Nat → Mem → Nat → Nat → Option (Mem × Nat × Nat)
  | 0, _, _, _ => none
  | fuel + 1, m, saveptr, n => do
    let (m, tok, saveptr) ← strtokR m 0 delim saveptr
    if tok ≠ 0 then countTokens delim fuel m saveptr (n + 1) else return (m, saveptr, n)

/-- `for (i = 0; i < n; i++) { out[i] = tmp; tmp += strlen(tmp) + 1; }` -/
def walkStrings (m : Mem) : Nat → Nat → Option (List Nat)
  | 0, _ => some []
  | n + 1, tmp => do
    let len ← strlen m tmp
    let rest ← walkStrings m n (tmp + len + 1)
    return tmp :: rest

/-- What the two passes leave: the memory, `strtok`'s static pointer, the first
token (0 for `NULL`), the count of the first pass and the pointers of the
second. -/
structure Split where
  mem : Mem
  saveptr : Nat
  token : Nat
  count : Nat
  parts : List Nat

/-- Both passes over `buf`: the first token ends at a delimiter of `first`, the
others are counted with the delimiters `rest`. -/
def splitInPlace (first rest : List UInt8) (m : Mem) (buf saveptr : Nat) : Option Split := do
  let (m, token, saveptr) ← strtokR m buf first saveptr
  let (m, saveptr, n) ← countTokens rest addrSpace m saveptr 1
  let parts ← walkStrings m n token
  return { mem := m, saveptr := saveptr, token := token, count := n, parts := parts }

/-- The string a pointer of the split names, `none` for `NULL`. -/
def argString (m : Mem) (p : Nat) : Option (List UInt8) :=
  if p = 0 then none else cstr m p

theorem argString_eq {m : Mem} {p : Nat} {s : List UInt8} (h : StrAt m p s) (hp : p ≠ 0) :
    argString m p = some s := by
  rw [argString, if_neg hp, cstr_eq h]

/-! ## What the loops do -/

section Spec

variable (delim : List UInt8)

/-- Counting the tokens of a string cuts it into pieces, one behind the other,
touches nothing outside it, and counts its words. -/
theorem countTokens_spec : ∀ (s : List UInt8) (m : Mem) (p n fuel : Nat),
    StrAt m p s → p ≠ 0 → s.length < fuel →
    ∃ m' saveptr ps, countTokens delim fuel m p n =
        some (m', saveptr, n + (words (isDelim delim) s).length) ∧
      Cut (isDelim delim) s ps ∧ StrsAt m' p ps ∧
      ∀ x, x < p ∨ p + s.length < x → m' x = m x := by
  intro s
  induction s using wordInduction (isDelim delim) with
  | blank s hs =>
    intro m p n fuel h hp hfuel
    obtain ⟨fuel, rfl⟩ := Nat.exists_eq_add_one_of_ne_zero (by omega : fuel ≠ 0)
    have htok := strtokR_blank delim 0 p hp h hs
    refine ⟨m, p + s.length, [s], ?_, .blank hs, ⟨h, trivial⟩, fun _ _ => rfl⟩
    simp [countTokens, htok, words_of_blank hs]
  | last lead w hl hw =>
    intro m p n fuel h hp hfuel
    have hpos : 0 < w.length := List.length_pos_of_ne_nil hw.1
    rw [List.length_append] at hfuel
    -- one call for the word, one more that finds nothing
    obtain ⟨fuel, rfl⟩ : ∃ k, fuel = k + 2 := ⟨fuel - 2, by omega⟩
    have htok := strtokR_last delim 0 p hp h hl hw
    have hend : StrAt m (p + lead.length + w.length) [] :=
      StrAt.drop (v := []) (by simpa using h.drop)
    have hnone := strtokR_blank delim 0 (p + lead.length + w.length)
      (by rw [tokSource_null]; omega) hend (by simp [Blank])
    refine ⟨m, p + lead.length + w.length, [lead ++ w], ?_, .last hl hw, ⟨h, trivial⟩,
      fun _ _ => rfl⟩
    simp [countTokens, htok, hnone, hp, words_append_blank hl, words_of_isWord hw]
  | cons lead w d rest hl hw hd ih =>
    intro m p n fuel h hp hfuel
    have hfits := h.fits
    simp only [List.length_append, List.length_cons] at hfuel hfits
    obtain ⟨fuel, rfl⟩ := Nat.exists_eq_add_one_of_ne_zero (by omega : fuel ≠ 0)
    have htok := strtokR_cons delim 0 p hp h hl hw hd
    simp only [tokSource_null] at htok
    -- the delimiter after the word becomes a terminator
    rw [← List.append_assoc] at h
    obtain ⟨hpiece, hrest⟩ := h.cut
    simp only [List.length_append, ← Nat.add_assoc] at hpiece hrest
    obtain ⟨m', saveptr, ps, hcount, hcut, hstrs, hframe⟩ :=
      ih _ (p + lead.length + w.length + 1) (n + 1) fuel hrest (by omega) (by omega)
    refine ⟨m', saveptr, (lead ++ w) :: ps, ?_, .cons hl hw hd hcut, ⟨?_, ?_⟩, ?_⟩
    · simp [countTokens, htok, hp, hcount, words_append_blank hl, words_cons hw hd]
      omega
    · refine hpiece.congr fun x _ h2 => hframe x (Or.inl ?_)
      rw [List.length_append] at h2
      omega
    · simpa only [List.length_append, ← Nat.add_assoc] using hstrs
    · intro x hx
      simp only [List.length_append, List.length_cons] at hx
      rw [hframe x (by omega), Mem.store8_apply_of_ne _ _ (by omega) (by omega)]

/-- The walk names the strings that lie behind one another. -/
theorem walkStrings_spec {m : Mem} : ∀ (n : Nat) (ps : List (List UInt8)) (p : Nat),
    StrsAt m p ps → p ≠ 0 → n ≤ ps.length →
    ∃ parts, walkStrings m n p = some parts ∧
      parts.map (argString m) = (ps.take n).map some := by
  intro n
  induction n with
  | zero => intro ps p _ _ _; exact ⟨[], rfl, by simp⟩
  | succ n ih =>
    intro ps p h hp hn
    cases ps with
    | nil => simp at hn
    | cons s ps =>
      obtain ⟨hs, hps⟩ := h
      obtain ⟨parts, hwalk, hparts⟩ :=
        ih ps (p + s.length + 1) hps (by omega) (by simpa using hn)
      refine ⟨p :: parts, ?_, ?_⟩
      · simp [walkStrings, strlen_eq hs, hwalk]
      · simp [argString_eq hs hp, hparts]

end Spec

/-! ## The split as a whole -/

section Split

variable (first rest : List UInt8) {m : Mem} {buf : Nat} (saveptr : Nat)

/-- The pieces a split names, read back as strings. -/
def Split.args (r : Split) : List (Option (List UInt8)) := r.parts.map (argString r.mem)

/-- No token at all: one `NULL` part, and the memory is as it was.  The walk
runs `strlen` over address 0 and ends at the latest at the buffer's terminator. -/
theorem splitInPlace_blank {s : List UInt8} (h : StrAt m buf s) (hbuf : buf ≠ 0)
    (hs : Blank (isDelim first) s) :
    ∃ saveptr', splitInPlace first rest m buf saveptr =
      some { mem := m, saveptr := saveptr', token := 0, count := 1, parts := [0] } := by
  have htok := strtokR_blank first buf saveptr
    (by rwa [tokSource_of_ne hbuf]) (by rwa [tokSource_of_ne hbuf]) hs
  rw [tokSource_of_ne hbuf] at htok
  have hend : StrAt m (buf + s.length) [] := StrAt.drop (v := []) (by simpa using h)
  have hnone := strtokR_blank rest 0 (buf + s.length)
    (by rw [tokSource_null]; omega) hend (by simp [Blank])
  have hfits := h.fits
  obtain ⟨n, hn⟩ := scan_isSome (· == 0) m addrSpace 0 (buf + s.length)
    (Nat.zero_le _) (by unfold addrSpace; omega) (by simp [h.nul])
  refine ⟨buf + s.length, ?_⟩
  have hfuel : addrSpace = 4294967295 + 1 := rfl
  have hcount : countTokens rest addrSpace m (buf + s.length) 1 =
      some (m, buf + s.length, 1) := by
    rw [hfuel, countTokens]
    simp [hnone]
  simp [splitInPlace, htok, hcount, walkStrings, strlen, hn]

/-- A single token up to the end. -/
theorem splitInPlace_last {lead w : List UInt8} (h : StrAt m buf (lead ++ w)) (hbuf : buf ≠ 0)
    (hl : Blank (isDelim first) lead) (hw : IsWord (isDelim first) w) :
    ∃ r, splitInPlace first rest m buf saveptr = some r ∧
      r.count = 1 ∧ r.args = [some w] ∧ argString r.mem r.token = some w := by
  have htok := strtokR_last first buf saveptr
    (by rwa [tokSource_of_ne hbuf]) (by rwa [tokSource_of_ne hbuf]) hl hw
  rw [tokSource_of_ne hbuf] at htok
  have hend : StrAt m (buf + lead.length + w.length) [] :=
    StrAt.drop (v := []) (by simpa using h.drop)
  have hnone := strtokR_blank rest 0 (buf + lead.length + w.length)
    (by rw [tokSource_null]; omega) hend (by simp [Blank])
  have hfuel : addrSpace = 4294967295 + 1 := rfl
  have hcount : countTokens rest addrSpace m (buf + lead.length + w.length) 1 =
      some (m, buf + lead.length + w.length, 1) := by
    rw [hfuel, countTokens]
    simp [hnone]
  have harg := argString_eq h.drop (by omega)
  refine ⟨{ mem := m, saveptr := buf + lead.length + w.length, token := buf + lead.length,
            count := 1, parts := [buf + lead.length] }, ?_, rfl, ?_, ?_⟩
  · simp [splitInPlace, htok, hcount, walkStrings, strlen_eq h.drop]
  · simp [Split.args, harg]
  · exact harg

/-- A token and a rest: the parts are the token and as many pieces of the rest
as the rest has words. -/
theorem splitInPlace_cons {lead w tail : List UInt8} {d : UInt8}
    (h : StrAt m buf (lead ++ (w ++ d :: tail))) (hbuf : buf ≠ 0)
    (hl : Blank (isDelim first) lead) (hw : IsWord (isDelim first) w)
    (hd : isDelim first d = true) :
    ∃ r ps, splitInPlace first rest m buf saveptr = some r ∧ Cut (isDelim rest) tail ps ∧
      r.count = 1 + (words (isDelim rest) tail).length ∧
      r.args = some w :: (ps.take (words (isDelim rest) tail).length).map some ∧
      argString r.mem r.token = some w := by
  have htok := strtokR_cons first buf saveptr
    (by rwa [tokSource_of_ne hbuf]) (by rwa [tokSource_of_ne hbuf]) hl hw hd
  rw [tokSource_of_ne hbuf] at htok
  have hfits := h.fits
  simp only [List.length_append, List.length_cons] at hfits
  obtain ⟨hword, htail⟩ := h.drop.cut
  obtain ⟨m', saveptr', ps, hcount, hcut, hstrs, hframe⟩ :=
    countTokens_spec rest tail _ _ 1 addrSpace htail (by omega)
      (by unfold addrSpace; omega)
  have hword' : StrAt m' (buf + lead.length) w :=
    hword.congr fun x _ h2 => hframe x (Or.inl (by omega))
  have hall : StrsAt m' (buf + lead.length) (w :: ps) := ⟨hword', hstrs⟩
  obtain ⟨parts, hwalk, hparts⟩ := walkStrings_spec
    (1 + (words (isDelim rest) tail).length) (w :: ps) _ hall (by omega)
    (by have := hcut.length_le; simp; omega)
  have harg := argString_eq hword' (by omega)
  refine ⟨{ mem := m', saveptr := saveptr', token := buf + lead.length,
            count := 1 + (words (isDelim rest) tail).length, parts := parts }, ps,
    ?_, hcut, rfl, ?_, ?_⟩
  · simp [splitInPlace, htok, hcount, hwalk]
  · rw [Split.args, hparts, Nat.add_comm, List.take_succ_cons, List.map_cons]
  · exact harg

end Split

end Microboot.Kern
