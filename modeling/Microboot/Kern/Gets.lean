/-
  Kern/Gets.lean --- reading a line, kern/stdlib.c.

  `gets` puts each character where the line ends and then looks at it.  A backspace
  takes the cursor back over itself and over the last character, and `continue` goes
  to the condition of the loop, which reads the character at the cursor and steps over
  it.  That character is the one in front of the erased one: on a line of one
  character, or of none, it is the byte in front of the buffer.

  `edit` is what a character does to a line.  As long as no backspace is typed on a
  line shorter than two characters the buffer has the edited line.
-/
import Microboot.Foundation.Accesses
import Microboot.Kern.Stdlib

set_option autoImplicit false

namespace Microboot.Kern

open Microboot.Foundation

/-! ## The model -/

/-- `putc( *str)`, if input is echoed: what is put out. -/
def echoChar (shouldEcho : Bool) (str : Nat) : DevM Logged (List UInt8) := do
  if shouldEcho then return [← readByte str] else return []

/-- A round of the loop of `gets`, for the character `c` that `getc` returns: `str` at the
condition of the loop, and what is put out. -/
def getsRound (start : Nat) (shouldEcho : Bool) (c : UInt8) (str : Nat) :
    DevM Logged (Nat × List UInt8) := do
  writeByte str c
  if (← readByte str) = 8 then
    if str > start then do
      let out ← echoChar shouldEcho str
      writeByte str 0
      writeByte (str - 1) 0
      return (str - 2, out)
    else if str = start then do
      writeByte str 0
      return (str - 1, [])
    else return (str, [])
  else do
    let out ← echoChar shouldEcho str
    return (str, out)

/-- `do { .. } while ( *str++ != '\n')`, for the characters that are typed: `str` behind the
loop, and what is put out.  Without another character `getc` does not return. -/
def getsLoop (start : Nat) (shouldEcho : Bool) :
    List UInt8 → Nat → List UInt8 → DevM Logged (Nat × List UInt8)
  | [], _, _ => fun _ => none
  | c :: typed, str, out => do
    let (str, echoed) ← getsRound start shouldEcho c str
    if (← readByte str) ≠ 10 then getsLoop start shouldEcho typed (str + 1) (out ++ echoed)
    else return (str + 1, out ++ echoed)

/-- `gets(str)`: what is put out. -/
def gets (shouldEcho : Bool) (typed : List UInt8) (str : Nat) : DevM Logged (List UInt8) := do
  let start := str
  let (str, out) ← getsLoop start shouldEcho typed str []
  writeByte (str - 1) 0
  return out

/-! ## The line -/

/-- What a character does to the line. -/
def edit (line : List UInt8) (c : UInt8) : List UInt8 :=
  if c = 8 then line.dropLast else line ++ [c]

/-- What the characters make of a line. -/
def edited (line cs : List UInt8) : List UInt8 := cs.foldl edit line

/-- `sizeof(cmdbuf)` -/
def lineSize : Nat := 256

/-- An access to the buffer. -/
def InBuffer (start : Nat) : Access → Prop
  | .read a => start ≤ a ∧ a < start + lineSize
  | .write a => start ≤ a ∧ a < start + lineSize

/-- `gets` accesses the buffer only, and leaves the line in it with a terminator. -/
def GetsLine (m : Mem) (start : Nat) (shouldEcho : Bool) (cs : List UInt8) : Prop :=
  ∃ out m', Leaves (InBuffer start) (gets shouldEcho (cs ++ [10]) start) m out m' ∧
    Seg m' start (edited [] cs) ∧ m'.load8 (start + (edited [] cs).length) = 0

/-! ## A round -/

section Round

variable {m : Mem} {start : Nat} {shouldEcho : Bool} {line cs : List UInt8} {c : UInt8}

/-- The line is in the buffer. -/
structure LineAt (m : Mem) (start : Nat) (line : List UInt8) : Prop where
  seg : Seg m start line
  noNewline : (10 : UInt8) ∉ line
  length_lt : line.length < lineSize

theorem echoChar_leaves {P : Access → Prop} {str : Nat} (h : P (.read str)) :
    Leaves P (echoChar shouldEcho str) m (if shouldEcho then [m.load8 str] else []) m := by
  cases shouldEcho with
  | true => exact .bind (.read h) (.pure _)
  | false => exact .pure []

/-- A character other than a backspace is put behind the line. -/
theorem getsRound_append (hc : c ≠ 8) (hlen : line.length < lineSize) :
    Leaves (InBuffer start) (getsRound start shouldEcho c (start + line.length)) m
      (start + line.length, if shouldEcho then [c] else []) (m.store8 (start + line.length) c) := by
  have hin : start ≤ start + line.length ∧ start + line.length < start + lineSize := by omega
  have hread := Mem.load8_store8_same m (start + line.length) c
  refine .bind (.write c hin) (.bind (.read hin) ?_)
  rw [hread, if_neg hc]
  refine .bind (echoChar_leaves hin) ?_
  rw [hread]
  exact .pure _

/-- A backspace on a line of two characters or more. -/
theorem getsRound_erase (hc : c = 8) (hlow : 2 ≤ line.length) (hlen : line.length < lineSize) :
    Leaves (InBuffer start) (getsRound start shouldEcho c (start + line.length)) m
      (start + line.length - 2, if shouldEcho then [8] else [])
      (((m.store8 (start + line.length) 8).store8 (start + line.length) 0).store8
        (start + line.length - 1) 0) := by
  subst hc
  have hin : start ≤ start + line.length ∧ start + line.length < start + lineSize := by omega
  have hin' : start ≤ start + line.length - 1 ∧ start + line.length - 1 < start + lineSize := by
    omega
  have hread := Mem.load8_store8_same m (start + line.length) 8
  refine .bind (.write 8 hin) (.bind (.read hin) ?_)
  rw [hread, if_pos rfl, if_pos (by omega)]
  refine .bind (echoChar_leaves hin) (.bind (.write 0 hin) (.bind (.write 0 hin') ?_))
  rw [hread]
  exact .pure _

/-- A backspace on a shorter line: the cursor is in front of the buffer. -/
theorem getsRound_short (hlow : line.length < 2) :
    ∃ out m', Leaves (fun _ => True) (getsRound start shouldEcho 8 (start + line.length)) m
      (start - 1, out) m' := by
  have hread := Mem.load8_store8_same m (start + line.length) 8
  by_cases hzero : line.length = 0
  · refine ⟨[], (m.store8 (start + line.length) 8).store8 (start + line.length) 0,
      .bind (.write 8 trivial) (.bind (.read trivial) ?_)⟩
    rw [hread, if_pos rfl, if_neg (by omega), if_pos (by omega)]
    refine .bind (.write 0 trivial) ?_
    rw [hzero]
    exact .pure _
  · refine ⟨if shouldEcho then [8] else [], ((m.store8 (start + line.length) 8).store8
      (start + line.length) 0).store8 (start + line.length - 1) 0,
      .bind (.write 8 trivial) (.bind (.read trivial) ?_)⟩
    rw [hread, if_pos rfl, if_pos (by omega), show start + line.length - 2 = start - 1 by omega]
    refine .bind (echoChar_leaves trivial) (.bind (.write 0 trivial) (.bind (.write 0 trivial) ?_))
    rw [hread]
    exact .pure _

/-- A character that can be taken: the buffer has the edited line, and the loop goes on
behind it. -/
theorem LineAt.round (shouldEcho : Bool) (h : LineAt m start line)
    (hfits : start + lineSize ≤ 2 ^ 32) (hc : c ≠ 10) (herase : c = 8 → 2 ≤ line.length)
    (hlen : (edit line c).length < lineSize) :
    ∃ str out m', Leaves (InBuffer start) (getsRound start shouldEcho c (start + line.length)) m
        (str, out) m' ∧
      LineAt m' start (edit line c) ∧ str + 1 = start + (edit line c).length ∧ start ≤ str ∧
      m'.load8 str ≠ 10 := by
  have hlt := h.length_lt
  unfold lineSize at hfits hlt
  unfold edit at hlen ⊢
  by_cases hback : c = 8
  · rw [if_pos hback] at hlen ⊢
    have hlow := herase hback
    refine ⟨_, _, _, getsRound_erase hback hlow h.length_lt, ?_⟩
    obtain ⟨front, a, b, rfl⟩ : ∃ front a b, line = front ++ [a] ++ [b] := by
      rcases List.eq_nil_or_concat line with rfl | ⟨line, b, rfl⟩
      · simp at hlow
      · rcases List.eq_nil_or_concat line with rfl | ⟨front, a, rfl⟩
        · simp at hlow
        · exact ⟨front, a, b, by simp⟩
    rw [List.dropLast_concat] at hlen ⊢
    simp only [List.length_append, List.length_singleton] at hlt hlen ⊢
    rw [show start + (front.length + 1 + 1) - 2 = start + front.length by omega,
      show start + (front.length + 1 + 1) - 1 = start + front.length + 1 by omega]
    -- the bytes in front of the erased character are as they were
    have hseg : Seg (((m.store8 (start + (front.length + 1 + 1)) 8).store8
        (start + (front.length + 1 + 1)) 0).store8 (start + front.length + 1) 0) start
        (front ++ [a]) := by
      refine (seg_append.mp h.seg).1.congr (by simp; omega) fun x _ h2 => ?_
      rw [List.length_append, List.length_singleton] at h2
      rw [Mem.store8_apply_of_ne _ _ (by omega) (by omega),
        Mem.store8_apply_of_ne _ _ (by omega) (by omega),
        Mem.store8_apply_of_ne _ _ (by omega) (by omega)]
    have hnew : (10 : UInt8) ∉ front ++ [a] := fun hmem =>
      h.noNewline (List.mem_append_left _ hmem)
    refine ⟨⟨hseg, hnew, by simpa using hlen⟩, by omega, by omega, ?_⟩
    intro hnewline
    have hlast := (seg_append.mp hseg).2.1
    rw [hnewline] at hlast
    exact hnew (by simp [hlast])
  · rw [if_neg hback] at hlen ⊢
    have hat : start + line.length < 2 ^ 32 := by omega
    refine ⟨_, _, _, getsRound_append hback h.length_lt, ⟨seg_append.mpr ⟨?_, ?_, trivial⟩, ?_, hlen⟩,
      ?_, by omega, ?_⟩
    · refine h.seg.congr (by omega) fun x _ h2 => Mem.store8_apply_of_ne m c hat (by omega)
    · exact Mem.load8_store8_same m _ c
    · simp [h.noNewline, hc.symm]
    · rw [List.length_append, List.length_singleton, Nat.add_assoc]
    · rw [Mem.load8_store8_same]
      exact hc

end Round

/-! ## The line that is typed -/

section Typed

variable {m : Mem} {start : Nat} {shouldEcho : Bool} {line cs out : List UInt8}

/-- The line never has more than 255 characters, from a line on. -/
def Short (line cs : List UInt8) : Prop :=
  ∀ typed, typed <+: cs → (edited line typed).length < lineSize

/-- Every backspace finds two characters or more, from a line on. -/
def Erases (line cs : List UInt8) : Prop :=
  ∀ typed, typed ++ [8] <+: cs → 2 ≤ (edited line typed).length

theorem Short.tail {c : UInt8} (h : Short line (c :: cs)) :
    (edit line c).length < lineSize ∧ Short (edit line c) cs :=
  ⟨h [c] (by simp), fun typed htyped => h (c :: typed) (List.cons_prefix_cons.mpr ⟨rfl, htyped⟩)⟩

theorem erases_cons {c : UInt8} :
    Erases line (c :: cs) ↔ (c = 8 → 2 ≤ line.length) ∧ Erases (edit line c) cs := by
  constructor
  · intro h
    refine ⟨?_, fun typed htyped => h (c :: typed) (List.cons_prefix_cons.mpr ⟨rfl, htyped⟩)⟩
    rintro rfl
    exact h [] (by simp)
  · rintro ⟨hfirst, hrest⟩ typed htyped
    cases typed with
    | nil =>
      rw [List.nil_append, List.cons_prefix_cons] at htyped
      exact hfirst htyped.1.symm
    | cons d typed =>
      rw [List.cons_append, List.cons_prefix_cons] at htyped
      obtain ⟨rfl, htyped⟩ := htyped
      exact hrest typed htyped

/-- The newline ends the loop behind the line. -/
theorem getsLoop_newline (hlt : line.length < lineSize) :
    Leaves (InBuffer start) (getsLoop start shouldEcho [10] (start + line.length) out) m
      (start + line.length + 1, out ++ if shouldEcho then [10] else [])
      (m.store8 (start + line.length) 10) := by
  refine .bind (getsRound_append (by decide) hlt) (.bind (.read ⟨by omega, by omega⟩) ?_)
  rw [Mem.load8_store8_same, if_neg (fun hne => hne rfl)]
  exact .pure _

/-- As long as every backspace finds two characters the loop makes the line. -/
theorem getsLoop_line (out : List UInt8) (h : LineAt m start line)
    (hfits : start + lineSize ≤ 2 ^ 32) (hnewline : 10 ∉ cs) (hshort : Short line cs)
    (herases : Erases line cs) :
    ∃ out' m', Leaves (InBuffer start)
        (getsLoop start shouldEcho (cs ++ [10]) (start + line.length) out) m
        (start + (edited line cs).length + 1, out') m' ∧
      Seg m' start (edited line cs) ∧ (edited line cs).length < lineSize := by
  induction cs generalizing m line out with
  | nil =>
    have hlt := h.length_lt
    refine ⟨_, _, getsLoop_newline hlt, h.seg.congr (by omega) fun x _ hx => ?_, hlt⟩
    unfold lineSize at hfits hlt
    exact Mem.store8_apply_of_ne m 10 (by omega) (by omega)
  | cons c cs ih =>
    rw [List.mem_cons, not_or] at hnewline
    rw [erases_cons] at herases
    obtain ⟨hlen, hrest⟩ := hshort.tail
    obtain ⟨str, echoed, m₁, hround, hline, hstr, hge, hnext⟩ :=
      h.round shouldEcho hfits (Ne.symm hnewline.1) herases.1 hlen
    obtain ⟨out', m', hloop, hresult⟩ := ih (out ++ echoed) hline hnewline.2 hrest herases.2
    refine ⟨out', m', .bind hround (.bind (.read ⟨hge, by omega⟩) ?_), hresult⟩
    rw [if_pos hnext, hstr]
    exact hloop

theorem appends_echoChar (str : Nat) : Appends (echoChar shouldEcho str) := by
  cases shouldEcho with
  | true => exact .bind (.read str) fun _ => .pure _
  | false => exact .pure []

theorem appends_getsRound (c : UInt8) (str : Nat) : Appends (getsRound start shouldEcho c str) := by
  refine .bind (.write str c) fun _ => .bind (.read str) fun first => ?_
  split
  · split
    · exact .bind (appends_echoChar str) fun _ => .bind (.write str 0) fun _ =>
        .bind (.write (str - 1) 0) fun _ => .pure _
    · split
      · exact .bind (.write str 0) fun _ => .pure _
      · exact .pure _
  · exact .bind (appends_echoChar str) fun _ => .pure _

theorem appends_getsLoop (typed : List UInt8) (str : Nat) :
    Appends (getsLoop start shouldEcho typed str out) := by
  induction typed generalizing str out with
  | nil => exact .fail
  | cons c typed ih =>
    refine .bind (appends_getsRound c str) fun round => .bind (.read _) fun last => ?_
    split
    · exact ih _
    · exact .pure _

/-- A backspace that does not find two characters has the byte in front of the buffer read. -/
theorem getsLoop_strays (h : LineAt m start line) (hfits : start + lineSize ≤ 2 ^ 32)
    (hnewline : 10 ∉ cs) (hshort : Short line cs) (herases : ¬ Erases line cs) {log : List Access}
    {result : Nat × List UInt8} {w : Logged}
    (hrun : getsLoop start shouldEcho (cs ++ [10]) (start + line.length) out ⟨m, log⟩ =
      some (result, w)) : Access.read (start - 1) ∈ w.log := by
  induction cs generalizing m line out log with
  | nil =>
    refine absurd (fun typed htyped => ?_) herases
    exact absurd htyped.length_le (by simp)
  | cons c cs ih =>
    rw [List.mem_cons, not_or] at hnewline
    rw [erases_cons] at herases
    obtain ⟨hlen, hrest⟩ := hshort.tail
    rw [List.cons_append, getsLoop] at hrun
    by_cases hfirst : c = 8 → 2 ≤ line.length
    · obtain ⟨str, echoed, m₁, hround, hline, hstr, -, hnext⟩ :=
        h.round shouldEcho hfits (Ne.symm hnewline.1) hfirst hlen
      obtain ⟨new, hfirstRun, -⟩ := hround log
      rw [bind_run hfirstRun] at hrun
      dsimp only at hrun
      rw [readByte_bind, if_pos hnext, hstr] at hrun
      exact ih hline hnewline.2 hrest (fun h => herases ⟨hfirst, h⟩) hrun
    · obtain ⟨rfl, hlow⟩ : c = 8 ∧ line.length < 2 := by
        push Not at hfirst
        exact hfirst
      obtain ⟨echoed, m₁, hround⟩ := getsRound_short (m := m) hlow
      obtain ⟨new, hfirstRun, -⟩ := hround log
      rw [bind_run hfirstRun] at hrun
      dsimp only at hrun
      rw [readByte_bind] at hrun
      refine (?_ : Appends _) _ _ _ hrun _ (List.mem_append_right _ (List.mem_singleton_self _))
      split
      · exact appends_getsLoop _ _
      · exact .pure _

/-- `gets` reads every line whose backspaces find two characters or more, and no other. -/
theorem getsLine_iff (hstart : start ≠ 0) (hfits : start + lineSize ≤ 2 ^ 32) (hnewline : 10 ∉ cs)
    (hshort : Short [] cs) : GetsLine m start shouldEcho cs ↔ Erases [] cs := by
  have hempty : LineAt m start [] := ⟨trivial, List.not_mem_nil, by decide⟩
  constructor
  · rintro ⟨out, m', hleaves, -⟩
    obtain ⟨new, hrun, hin⟩ := hleaves []
    by_contra herases
    obtain ⟨⟨result, w⟩, hloop, hrest⟩ := Option.bind_eq_some_iff.mp hrun
    have hstray := getsLoop_strays hempty hfits hnewline hshort herases hloop
    have hmem := Appends.bind (.write (result.1 - 1) 0) (fun _ => .pure result.2) w out _ hrest
      _ hstray
    have hge := (hin _ hmem).1
    omega
  · intro herases
    obtain ⟨out, m', hloop, hseg, hlt⟩ :=
      getsLoop_line [] hempty hfits hnewline hshort herases
    have hend : start + (edited [] cs).length + 1 - 1 = start + (edited [] cs).length := by omega
    refine ⟨out, m'.store8 (start + (edited [] cs).length) 0, .bind hloop ?_,
      hseg.congr (by omega) fun x _ hx => ?_, Mem.load8_store8_same _ _ _⟩
    · dsimp only
      rw [hend]
      exact .bind (.write 0 ⟨by omega, by omega⟩) (.pure out)
    · exact Mem.store8_apply_of_ne m' 0 (by unfold lineSize at hfits hlt; omega) (by omega)

/-- `getsLine_iff` at `"ab\b"`. -/
theorem getsLine_iff_erased :
    GetsLine (fun _ => 0) 4096 true [97, 98, 8] ↔ Erases [] [97, 98, 8] := by
  refine getsLine_iff (by decide) (by decide) (by decide) fun typed htyped => ?_
  have hprefixes : ∀ typed ∈ [97, 98, 8].inits, (edited [] typed).length < lineSize := by decide
  exact hprefixes typed ((List.mem_inits typed _).mpr htyped)

/-- A backspace on the empty line, with a newline in front of the buffer: `gets` returns at
once and writes there. -/
theorem gets_backspace : ∃ w : Logged,
    gets true [8, 10] 4096 ⟨fun a => if a = 4095 then 10 else 0, []⟩ = some ([], w) ∧
      w.log = [.write 4096, .read 4096, .write 4096, .read 4095, .write 4095] ∧
      w.mem 4095 = 0 ∧
      ¬ GetsLine (fun a => if a = 4095 then 10 else 0) 4096 true [8] := by
  obtain ⟨w, hgets, hlog, hzero⟩ : ∃ w : Logged,
      gets true [8, 10] 4096 ⟨fun a => if a = 4095 then 10 else 0, []⟩ = some ([], w) ∧
        w.log = [.write 4096, .read 4096, .write 4096, .read 4095, .write 4095] ∧
        w.mem 4095 = 0 := ⟨_, rfl, rfl, rfl⟩
  refine ⟨w, hgets, hlog, hzero, ?_⟩
  rintro ⟨out, m', hleaves, -⟩
  obtain ⟨new, hrun, hin⟩ := hleaves []
  have hnew : w.log = new :=
    congrArg (fun run => run.2.log) (Option.some.inj (hgets.symm.trans hrun))
  have hstray := hin (.write 4095) (by rw [← hnew, hlog]; simp)
  exact absurd hstray.1 (by decide)

end Typed

end Microboot.Kern
