/-
  Kern/Strtok.lean --- `strtok_r` access by access, kern/stdlib.c.

  The loops of `strtok_r` go through the string and through the delimiters at once:
  the first one starts over with the delimiters at each delimiter it finds, the
  second one does for each character.  Every access to the string is logged; the
  delimiters are a string of their own, which is not written.

  `strtokRLoops_eq` says that the loops do what `strtokR` does, within the string.
  From there on any number of calls is a matter of the words of the string: the
  tokens are where the words are.
-/
import Microboot.Foundation.Accesses
import Microboot.Kern.Stdlib

set_option autoImplicit false

namespace Microboot.Kern

open Microboot.Foundation

/-! ## The model -/

/-- `while ( *p && *str) { .. }`: where `str` is behind it. -/
def skipLoop (delim : List UInt8) : Nat → List UInt8 → Nat → DevM Logged Nat
  | 0, _, _ => fun _ => none
  | _ + 1, [], str => return str
  | fuel + 1, d :: p, str => do
    if (← readByte str) = 0 then return str
    else if (← readByte str) = d then skipLoop delim fuel delim (str + 1)
    else skipLoop delim fuel p str

/-- `while ( *p) { if ( **saveptr == *p++) .. }`: has a delimiter been found? -/
def findDelim : List UInt8 → Nat → DevM Logged Bool
  | [], _ => return false
  | d :: p, saveptr => do
    if (← readByte saveptr) = d then return true else findDelim p saveptr

/-- `while ( **saveptr) { .. }`: where `*saveptr` is when the token is returned. -/
def wordLoop (delim : List UInt8) : Nat → Nat → DevM Logged Nat
  | 0, _ => fun _ => none
  | fuel + 1, saveptr => do
    if (← readByte saveptr) = 0 then return saveptr
    else if (← findDelim delim saveptr) then do
      writeByte saveptr 0
      return saveptr + 1
    else wordLoop delim fuel (saveptr + 1)

/-- `strtok_r(str, delim, &saveptr)`: the token, 0 for `NULL`, and the new `saveptr`. -/
def strtokRLoops (str : Nat) (delim : List UInt8) (saveptr : Nat) : DevM Logged (Nat × Nat) :=
  if str = 0 ∧ saveptr = 0 then return (0, saveptr)
  else do
    let str := tokSource str saveptr
    let str ← skipLoop delim (addrSpace * (delim.length + 1)) delim str
    if (← readByte str) = 0 then return (0, str)
    else do
      let saveptr ← wordLoop delim addrSpace str
      return (str, saveptr)

/-- `strtok_r(str, delim, &saveptr)`, and then `strtok_r(NULL, delim, &saveptr)` again and
again: the tokens. -/
def strtokCalls (delim : List UInt8) : Nat → Nat → Nat → DevM Logged (List Nat)
  | 0, _, _ => return []
  | n + 1, str, saveptr => do
    let (token, saveptr) ← strtokRLoops str delim saveptr
    let tokens ← strtokCalls delim n 0 saveptr
    return token :: tokens

/-! ## The loops -/

section Loops

variable {delim p : List UInt8} {m : Mem} {str saveptr n k : Nat}

/-- A read from one address to another. -/
def ReadsIn (start stop : Nat) (e : Access) : Prop := ∃ a, e = .read a ∧ start ≤ a ∧ a ≤ stop

theorem ReadsIn.mono {start stop start' stop' : Nat} {e : Access} (h : ReadsIn start stop e)
    (hstart : start' ≤ start) (hstop : stop ≤ stop') : ReadsIn start' stop' e := by
  obtain ⟨a, rfl, h1, h2⟩ := h
  exact ⟨a, rfl, by omega, by omega⟩

/-- The first loop skips the delimiters.  It has looked at those of `done` when it looks
at those of `p`. -/
theorem skipLoop_leaves {fuel : Nat} {done : List UInt8}
    (hscan : scan (fun c => c == 0 || !isDelim delim c) m n str = some k)
    (hdelim : delim = done ++ p) (hdone : m.load8 str ∉ done)
    (hfuel : k * (delim.length + 1) + p.length < fuel) :
    Leaves (ReadsIn str (str + k)) (skipLoop delim fuel p str) m (str + k) m := by
  induction fuel generalizing p done str k n with
  | zero => exact absurd hfuel (Nat.not_lt_zero _)
  | succ fuel ih =>
    cases n with
    | zero => rw [scan] at hscan; cases hscan
    | succ n =>
      rw [scan] at hscan
      cases p with
      | nil =>
        have hnot : isDelim delim (m.load8 str) = false := by
          rw [List.append_nil] at hdelim
          simpa [isDelim, hdelim] using hdone
        rw [hnot, if_pos (by simp)] at hscan
        cases hscan
        exact .pure str
      | cons d p =>
        have hread : ReadsIn str (str + k) (.read str) := ⟨str, rfl, by omega, by omega⟩
        rw [skipLoop]
        refine .bind (.read hread) ?_
        by_cases hzero : m.load8 str = 0
        · rw [hzero, if_pos (by simp)] at hscan
          cases hscan
          rw [if_pos hzero]
          exact .pure str
        · rw [if_neg hzero]
          refine .bind (.read hread) ?_
          by_cases hd : m.load8 str = d
          · have hmem : isDelim delim (m.load8 str) = true := by simp [isDelim, hdelim, hd]
            rw [hmem, if_neg (by simp [hzero])] at hscan
            obtain ⟨k, hrest, rfl⟩ := Option.map_eq_some_iff.mp hscan
            rw [Nat.succ_mul, List.length_cons] at hfuel
            rw [if_pos hd, show str + (k + 1) = str + 1 + k by omega]
            refine (ih hrest (List.nil_append delim).symm List.not_mem_nil (by omega)).mono ?_
            exact fun e he => he.mono (by omega) (by omega)
          · rw [if_neg hd]
            have hscan' : scan (fun c => c == 0 || !isDelim delim c) m (n + 1) str = some k := by
              rwa [scan]
            refine ih hscan' (hdelim.trans (List.append_cons done d p)) ?_
              (by rw [List.length_cons] at hfuel; omega)
            simp [hdone, hd]

/-- The inner loop of the second one looks for a character among the delimiters. -/
theorem findDelim_leaves (p : List UInt8) (saveptr : Nat) :
    Leaves (ReadsIn saveptr saveptr) (findDelim p saveptr) m (isDelim p (m.load8 saveptr)) m := by
  induction p with
  | nil => exact .pure false
  | cons d p ih =>
    rw [findDelim]
    refine .bind (.read ⟨saveptr, rfl, Nat.le_refl _, Nat.le_refl _⟩) ?_
    by_cases hd : m.load8 saveptr = d
    · rw [if_pos hd, show isDelim (d :: p) (m.load8 saveptr) = true by simp [isDelim, hd]]
      exact .pure true
    · rw [if_neg hd, show isDelim (d :: p) (m.load8 saveptr) = isDelim p (m.load8 saveptr) by
        simp [isDelim, hd]]
      exact ih

/-- An access up to the end of a token, where only a delimiter is written. -/
def InToken (m : Mem) (start stop : Nat) (e : Access) : Prop :=
  ReadsIn start stop e ∨ e = .write stop ∧ m.load8 stop ≠ 0

theorem InToken.mono {start stop start' : Nat} {e : Access} (h : InToken m start stop e)
    (hstart : start' ≤ start) : InToken m start' stop e :=
  h.imp_left fun he => he.mono hstart (Nat.le_refl _)

/-- The second loop ends the token, at a delimiter or at the terminator. -/
theorem wordLoop_leaves {fuel : Nat}
    (hscan : scan (fun c => c == 0 || isDelim delim c) m n saveptr = some k) (hfuel : n ≤ fuel) :
    Leaves (InToken m saveptr (saveptr + k)) (wordLoop delim fuel saveptr) m
      (if m.load8 (saveptr + k) = 0 then saveptr + k else saveptr + k + 1)
      (if m.load8 (saveptr + k) = 0 then m else m.store8 (saveptr + k) 0) := by
  induction n generalizing saveptr k fuel with
  | zero => rw [scan] at hscan; cases hscan
  | succ n ih =>
    obtain ⟨fuel, rfl⟩ := Nat.exists_eq_add_one_of_ne_zero (by omega : fuel ≠ 0)
    rw [scan] at hscan
    rw [wordLoop]
    refine .bind (.read (Or.inl ⟨saveptr, rfl, by omega, by omega⟩)) ?_
    by_cases hzero : m.load8 saveptr = 0
    · rw [hzero, if_pos (by simp)] at hscan
      cases hscan
      rw [if_pos hzero, Nat.add_zero, if_pos hzero, if_pos hzero]
      exact .pure saveptr
    · rw [if_neg hzero]
      refine .bind ((findDelim_leaves delim saveptr).mono
        fun e he => Or.inl (he.mono (Nat.le_refl _) (Nat.le_add_right _ _))) ?_
      cases hd : isDelim delim (m.load8 saveptr) with
      | true =>
        rw [hd, if_pos (by simp)] at hscan
        cases hscan
        rw [if_pos rfl, Nat.add_zero, if_neg hzero, if_neg hzero]
        exact .bind (.write 0 (Or.inr ⟨rfl, hzero⟩)) (.pure _)
      | false =>
        rw [hd, if_neg (by simp [hzero])] at hscan
        obtain ⟨k, hrest, rfl⟩ := Option.map_eq_some_iff.mp hscan
        rw [if_neg Bool.false_ne_true, show saveptr + (k + 1) = saveptr + 1 + k by omega]
        exact (ih hrest (by omega)).mono fun e he => he.mono (by omega)

end Loops

/-! ## One call -/

section Call

variable {delim : List UInt8} {m : Mem} {str saveptr q k len : Nat}

/-- The first loop, on the string that the call works on. -/
theorem strtokRLoops_start (hsource : tokSource str saveptr = q) (hq : q ≠ 0) :
    strtokRLoops str delim saveptr = (do
      let str ← skipLoop delim (addrSpace * (delim.length + 1)) delim q
      if (← readByte str) = 0 then return (0, str)
      else do
        let saveptr ← wordLoop delim addrSpace str
        return (str, saveptr)) := by
  have hnull : ¬ (str = 0 ∧ saveptr = 0) := by
    rintro ⟨rfl, rfl⟩
    exact hq hsource.symm
  rw [strtokRLoops, if_neg hnull, hsource]

theorem skip_leaves (hskip : scan (fun c => c == 0 || !isDelim delim c) m addrSpace q = some k) :
    Leaves (ReadsIn q (q + k)) (skipLoop delim (addrSpace * (delim.length + 1)) delim q) m (q + k)
      m := by
  have hk : k < addrSpace := scan_lt hskip
  have hfuel : (k + 1) * (delim.length + 1) ≤ addrSpace * (delim.length + 1) :=
    Nat.mul_le_mul_right _ hk
  rw [Nat.succ_mul] at hfuel
  exact skipLoop_leaves hskip (List.nil_append delim).symm List.not_mem_nil (by omega)

/-- No token is left. -/
theorem strtokRLoops_none (hsource : tokSource str saveptr = q) (hq : q ≠ 0)
    (hskip : scan (fun c => c == 0 || !isDelim delim c) m addrSpace q = some k)
    (hend : m.load8 (q + k) = 0) :
    Leaves (ReadsIn q (q + k)) (strtokRLoops str delim saveptr) m (0, q + k) m := by
  rw [strtokRLoops_start hsource hq]
  refine .bind (skip_leaves hskip) (.bind (.read ⟨q + k, rfl, by omega, by omega⟩) ?_)
  rw [if_pos hend]
  exact .pure _

/-- A token is found and ended. -/
theorem strtokRLoops_token (hsource : tokSource str saveptr = q) (hq : q ≠ 0)
    (hskip : scan (fun c => c == 0 || !isDelim delim c) m addrSpace q = some k)
    (hstart : m.load8 (q + k) ≠ 0)
    (hword : scan (fun c => c == 0 || isDelim delim c) m addrSpace (q + k) = some len) :
    Leaves (InToken m q (q + k + len)) (strtokRLoops str delim saveptr) m
      (q + k, if m.load8 (q + k + len) = 0 then q + k + len else q + k + len + 1)
      (if m.load8 (q + k + len) = 0 then m else m.store8 (q + k + len) 0) := by
  rw [strtokRLoops_start hsource hq]
  refine .bind ((skip_leaves hskip).mono fun e he => Or.inl (he.mono (by omega) (by omega))) ?_
  refine .bind (.read (Or.inl ⟨q + k, rfl, by omega, by omega⟩)) ?_
  rw [if_neg hstart]
  exact .bind ((wordLoop_leaves hword (Nat.le_refl _)).mono fun e he => he.mono (by omega)) (.pure _)

/-- The loops do what `strtokR` does. -/
theorem strtokRLoops_strtokR {m' : Mem} {token saveptr' : Nat}
    (h : strtokR m str delim saveptr = some (m', token, saveptr')) :
    Leaves (fun _ => True) (strtokRLoops str delim saveptr) m (token, saveptr') m' := by
  by_cases hq : tokSource str saveptr = 0
  · have hnull : str = 0 ∧ saveptr = 0 := by
      unfold tokSource at hq
      split at hq
      next hstr => exact absurd hq hstr
      next hstr => exact ⟨not_not.mp hstr, hq⟩
    rw [strtokR, if_pos hq] at h
    cases h
    rw [strtokRLoops, if_pos hnull]
    exact .pure _
  · rw [strtokR, if_neg hq] at h
    obtain ⟨k, hskip, h⟩ := Option.bind_eq_some_iff.mp h
    by_cases hend : m.load8 (tokSource str saveptr + k) = 0
    · rw [if_pos hend] at h
      cases h
      exact (strtokRLoops_none rfl hq hskip hend).mono fun _ _ => trivial
    · rw [if_neg hend] at h
      obtain ⟨len, hword, h⟩ := Option.bind_eq_some_iff.mp h
      have hleaves := (strtokRLoops_token rfl hq hskip hend hword).mono fun _ _ => trivial
      by_cases hzero : m.load8 (tokSource str saveptr + k + len) = 0
      · rw [if_pos hzero] at h
        cases h
        rwa [if_pos hzero, if_pos hzero] at hleaves
      · rw [if_neg hzero] at h
        cases h
        rwa [if_neg hzero, if_neg hzero] at hleaves

variable {lead w rest s : List UInt8} {d : UInt8}

/-- Nothing but delimiters is left. -/
theorem strtokRLoops_blank (hsource : tokSource str saveptr = q) (hq : q ≠ 0) (h : StrAt m q s)
    (hs : Blank (isDelim delim) s) :
    Leaves (ReadsIn q (q + s.length)) (strtokRLoops str delim saveptr) m (0, q + s.length) m :=
  strtokRLoops_none hsource hq (scan_lead delim (s := []) (by simpa using h) hs (by simp)) h.nul

/-- The last token. -/
theorem strtokRLoops_last (hsource : tokSource str saveptr = q) (hq : q ≠ 0)
    (h : StrAt m q (lead ++ w)) (hl : Blank (isDelim delim) lead) (hw : IsWord (isDelim delim) w) :
    Leaves (ReadsIn q (q + lead.length + w.length)) (strtokRLoops str delim saveptr) m
      (q + lead.length, q + lead.length + w.length) m := by
  have hskip := scan_lead delim h hl (by rintro c t rfl; exact hw.2 c (by simp))
  have hword := scan_word delim (s := []) (by simpa using h.drop) hw.2 (by simp)
  have hend := h.drop.nul
  have hleaves := strtokRLoops_token hsource hq hskip
    (fun h0 => hw.1 (h.drop.load8_eq_zero.mp h0)) hword
  rw [if_pos hend, if_pos hend] at hleaves
  exact hleaves.mono fun e he => he.resolve_right fun hwrite => hwrite.2 hend

/-- A token with a delimiter behind it, which is overwritten. -/
theorem strtokRLoops_cons (hsource : tokSource str saveptr = q) (hq : q ≠ 0)
    (h : StrAt m q (lead ++ (w ++ d :: rest))) (hl : Blank (isDelim delim) lead)
    (hw : IsWord (isDelim delim) w) (hd : isDelim delim d = true) :
    Leaves (InToken m q (q + lead.length + w.length)) (strtokRLoops str delim saveptr) m
      (q + lead.length, q + lead.length + w.length + 1)
      (m.store8 (q + lead.length + w.length) 0) := by
  have hhead : ∀ c t, w ++ d :: rest = c :: t → isDelim delim c = false := by
    intro c t hct
    cases w with
    | nil => exact absurd rfl hw.1
    | cons c' w =>
      rw [List.cons_append, List.cons.injEq] at hct
      exact hct.1 ▸ hw.2 c' List.mem_cons_self
  have hskip := scan_lead delim h hl hhead
  have hword := scan_word delim h.drop hw.2 (by
    intro c t hct
    rw [List.cons.injEq] at hct
    exact hct.1 ▸ hd)
  have hbehind : m.load8 (q + lead.length + w.length) = d := h.drop.drop.seg.1
  have hend : m.load8 (q + lead.length + w.length) ≠ 0 := by
    rw [hbehind]
    rintro rfl
    exact h.nulFree (by simp)
  have hstart : m.load8 (q + lead.length) ≠ 0 := fun h0 => by
    have hnil := h.drop.load8_eq_zero.mp h0
    exact hw.1 (List.append_eq_nil_iff.mp hnil).1
  have hleaves := strtokRLoops_token hsource hq hskip hstart hword
  rwa [if_neg hend, if_neg hend] at hleaves

end Call

/-! ## Any number of calls -/

section Calls

variable {delim s : List UInt8} {m : Mem} {p q str saveptr : Nat}

/-- The token of a call: where the run of that number is, and `NULL` behind the last. -/
def tokenAt (rs : List (Nat × List UInt8)) (p i : Nat) : Nat :=
  match rs[i]? with
  | some run => p + run.1
  | none => 0

/-- An access of the calls on a string of this length at `p`: a byte of it or its terminator
is read, or the delimiter behind a run written. -/
def InCalls (rs : List (Nat × List UInt8)) (p length : Nat) (e : Access) : Prop :=
  ReadsIn p (p + length) e ∨
    ∃ run ∈ rs, e = .write (p + run.1 + run.2.length) ∧ run.1 + run.2.length < length

theorem map_tokenAt_nil (p n : Nat) :
    (List.range n).map (tokenAt [] p) = List.replicate n 0 := by
  refine List.eq_replicate_iff.mpr ⟨by simp, fun token htoken => ?_⟩
  obtain ⟨i, -, rfl⟩ := List.mem_map.mp htoken
  rfl

theorem map_tokenAt_cons (run : Nat × List UInt8) (k : Nat) (rs : List (Nat × List UInt8))
    (p n : Nat) : (List.range (n + 1)).map (tokenAt (run :: shift k rs) p) =
      (p + run.1) :: (List.range n).map (tokenAt rs (p + k)) := by
  rw [List.range_succ_eq_map, List.map_cons, List.map_map]
  refine congrArg₂ List.cons rfl (List.map_congr_left fun j _ => ?_)
  simp only [Function.comp_apply, tokenAt, Nat.succ_eq_add_one, List.getElem?_cons_succ, shift,
    List.getElem?_map]
  cases rs[j]? with
  | none => rfl
  | some run => exact (Nat.add_assoc p k run.1).symm

/-- At the end of a string all calls return `NULL`. -/
theorem strtokCalls_end (delim : List UInt8) (n : Nat) (hq : q ≠ 0) (h : StrAt m q []) :
    Leaves (ReadsIn q q) (strtokCalls delim n 0 q) m (List.replicate n 0) m := by
  induction n with
  | zero => exact .pure []
  | succ n ih =>
    rw [strtokCalls]
    exact .bind (strtokRLoops_blank (tokSource_null q) hq h (by simp [Blank])) (.bind ih (.pure _))

theorem runs_last {lead w : List UInt8} (hl : Blank (isDelim delim) lead)
    (hw : IsWord (isDelim delim) w) : runs (isDelim delim) (lead ++ w) =
      (lead.length, w) :: shift (lead.length + w.length) (runs (isDelim delim) []) := by
  rw [runs_append_blank hl, runs_of_isWord hw]
  rfl

theorem runs_first {lead w rest : List UInt8} {d : UInt8} (hl : Blank (isDelim delim) lead)
    (hw : IsWord (isDelim delim) w) (hd : isDelim delim d = true) :
    runs (isDelim delim) (lead ++ (w ++ d :: rest)) =
      (lead.length, w) :: shift (lead.length + w.length + 1) (runs (isDelim delim) rest) := by
  rw [runs_append_blank hl, runs_cons hw hd, shift, List.map_cons, ← shift, shift_shift]
  rfl

/-- Any number of calls: the tokens are where the words are, each is a string by then,
and nothing outside the string has been written. -/
theorem strtokCalls_spec (hsource : tokSource str saveptr = q) (hq : q ≠ 0) (h : StrAt m q s)
    (n : Nat) : ∃ m',
    Leaves (InCalls (runs (isDelim delim) s) q s.length) (strtokCalls delim n str saveptr) m
      ((List.range n).map (tokenAt (runs (isDelim delim) s) q)) m' ∧
    (∀ run ∈ (runs (isDelim delim) s).take n, StrAt m' (q + run.1) run.2) ∧
    ∀ x, x < q ∨ q + s.length < x → m' x = m x := by
  induction n generalizing m q str saveptr s with
  | zero => exact ⟨m, .pure [], by simp, fun _ _ => rfl⟩
  | succ n ih =>
    rw [strtokCalls]
    rcases word_cases (isDelim delim) s with hs | ⟨lead, w, hl, hw, rfl⟩ |
      ⟨lead, w, d, rest, hl, hw, hd, rfl⟩
    · -- no token, and the next call finds the end of the string
      have hend : StrAt m (q + s.length) [] := StrAt.drop (v := []) (by simpa using h)
      have hrest := strtokCalls_end delim n (by omega) hend
      refine ⟨m, ?_, by simp [runs_of_blank hs], fun _ _ => rfl⟩
      rw [runs_of_blank hs, map_tokenAt_nil]
      refine .bind ((strtokRLoops_blank hsource hq h hs).mono fun e he => Or.inl he)
        (.bind (hrest.mono fun e he => Or.inl ?_) (.pure _))
      exact he.mono (by omega) (Nat.le_refl _)
    · -- the last token
      have hlength : q + lead.length + w.length = q + (lead ++ w).length := by
        rw [List.length_append, Nat.add_assoc]
      have hend : StrAt m (q + lead.length + w.length) [] :=
        StrAt.drop (v := []) (by simpa using h.drop)
      have hrest := strtokCalls_end delim n (by omega) hend
      have hruns := runs_last hl hw
      refine ⟨m, ?_, fun run hrun => ?_, fun _ _ => rfl⟩
      · rw [hruns, map_tokenAt_cons, runs_of_blank (by simp [Blank]), map_tokenAt_nil]
        refine .bind ((strtokRLoops_last hsource hq h hl hw).mono fun e he => Or.inl ?_)
          (.bind (hrest.mono fun e he => Or.inl ?_) (.pure _))
        · exact hlength ▸ he
        · exact hlength ▸ he.mono (by omega) (Nat.le_refl _)
      · rw [hruns, runs_of_blank (by simp [Blank])] at hrun
        rw [List.mem_singleton.mp (List.mem_of_mem_take hrun)]
        exact h.drop
    · -- a token whose delimiter is overwritten
      have hfits := h.fits
      have hruns : runs (isDelim delim) (lead ++ (w ++ d :: rest)) = _ := runs_first hl hw hd
      have hcall := strtokRLoops_cons hsource hq h hl hw hd
      have hcut := h
      rw [← List.append_assoc] at hcut
      obtain ⟨hpiece, hbehind⟩ := hcut.cut
      rw [List.length_append, ← Nat.add_assoc] at hpiece hbehind
      obtain ⟨m', hrest, hstrings, hframe⟩ := ih (tokSource_null _) (by omega) hbehind
      simp only [List.length_append, List.length_cons] at hfits
      have hoffset : q + (lead.length + w.length + 1) = q + lead.length + w.length + 1 := by omega
      refine ⟨m', ?_, fun run hrun => ?_, fun x hx => ?_⟩
      · rw [hruns, map_tokenAt_cons, hoffset]
        refine .bind (hcall.mono fun e he => ?_) (.bind (hrest.mono fun e he => ?_) (.pure _))
        · rcases he with he | ⟨rfl, -⟩
          · exact Or.inl (he.mono (Nat.le_refl _) (by simp; omega))
          · refine Or.inr ⟨(lead.length, w), List.mem_cons_self, rfl, ?_⟩
            simp
        · rcases he with he | ⟨run, hrun, rfl, hlt⟩
          · exact Or.inl (he.mono (by omega) (by simp; omega))
          · refine Or.inr ⟨(lead.length + w.length + 1 + run.1, run.2), ?_, ?_, ?_⟩
            · exact List.mem_cons_of_mem _ (List.mem_map.mpr ⟨run, hrun, rfl⟩)
            · simp only [← Nat.add_assoc]
            · simp
              omega
      · rw [hruns, List.take_succ_cons, shift, ← List.map_take, List.mem_cons] at hrun
        rcases hrun with rfl | hrun
        · refine hpiece.drop.congr fun x _ hx => hframe x (Or.inl ?_)
          omega
        · obtain ⟨run, hmem, rfl⟩ := List.mem_map.mp hrun
          change StrAt m' (q + (lead.length + w.length + 1 + run.1)) run.2
          rw [← Nat.add_assoc, hoffset]
          exact hstrings run hmem
      · simp only [List.length_append, List.length_cons] at hx
        rw [hframe x (by omega), Mem.store8_apply_of_ne _ _ (by omega) (by omega)]

/-- From any string: `strtok_r`, called again and again, returns where the maximal runs of
other characters than delimiters are, in order, and then `NULL`.  Each is a string by
then.  The string and its terminator are read, the delimiters behind the runs are written,
and nothing else. -/
theorem strtokR_tokens (h : StrAt m p s) (hp : p ≠ 0) (delim : List UInt8) (saveptr n : Nat) :
    ∃ rs m', (∀ run, run ∈ rs ↔ RunAt (isDelim delim) s run) ∧
      rs.Pairwise (fun run run' => run.1 + run.2.length < run'.1) ∧
      Leaves (InCalls rs p s.length) (strtokCalls delim n p saveptr) m
        ((List.range n).map (tokenAt rs p)) m' ∧
      (∀ run ∈ rs.take n, StrAt m' (p + run.1) run.2) ∧
      ∀ x, x < p ∨ p + s.length < x → m' x = m x := by
  obtain ⟨m', hcalls, hstrings, hframe⟩ := strtokCalls_spec (tokSource_of_ne hp saveptr) hp h n
  exact ⟨_, m', fun _ => mem_runs_iff, runs_pairwise _ s, hcalls, hstrings, hframe⟩

/-- The string `"a, b"` with blanks and commas as delimiters. -/
theorem strtokR_tokens_two : ∃ rs m',
    (∀ run, run ∈ rs ↔ RunAt (isDelim [32, 44]) [97, 44, 32, 98] run) ∧
      rs.Pairwise (fun run run' => run.1 + run.2.length < run'.1) ∧
      Leaves (InCalls rs 100 4) (strtokCalls [32, 44] 3 100 0) (stringMem 100 [97, 44, 32, 98])
        ((List.range 3).map (tokenAt rs 100)) m' ∧
      (∀ run ∈ rs.take 3, StrAt m' (100 + run.1) run.2) ∧
      ∀ x, x < 100 ∨ 100 + 4 < x → m' x = stringMem 100 [97, 44, 32, 98] x :=
  strtokR_tokens (strAt_stringMem (by decide) (by decide)) (by decide) [32, 44] 0 3

example : runs (isDelim [32, 44]) [97, 44, 32, 98] = [(0, [97]), (3, [98])] := by decide

end Calls

end Microboot.Kern
