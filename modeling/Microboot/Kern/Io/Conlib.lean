/-
  Kern/Io/Conlib.lean --- kern/io/conlib.c, a box around a text.

  `cl_box` prints its content between two borders, in rows whose text is `width - 4`
  characters wide.  One counter, `left`, ends the text of a row and then pads it, and
  only the loop over it reads on in the content.

  Where `left` starts at zero or below, no round of the outer loop reads anything, and
  the box of any content but the empty one is never finished.  Where a line fills its
  last row up, the newline behind it is only found by the next row, which stays blank.
-/
import Microboot.Foundation.Lines
import Microboot.Kern.Io.Console

set_option autoImplicit false

namespace Microboot.Kern.Io

open Microboot.Foundation

/-! ## conlib.c -/

/-- `cl_repeat(c, n)`: what it prints. -/
def clRepeat (c : UInt8) (n : Int32) : List UInt8 :=
  forUpto n.toNatClampNeg (fun _ out => out ++ [c]) []

/-- The loop over the main text of a row: what it prints, what it leaves of `content`, and the
last value of `left`. -/
def clBoxText (left : Int32) : List UInt8 → List UInt8 × List UInt8 × Int32
  | [] => ([], [], left)
  | c :: content =>
    if 0 < left then
      -- a newline is eaten, and the rest of the row is padding
      if c = newline then ([], content, left)
      else
        let (text, rest, left) := clBoxText (left - 1) content
        (c :: text, rest, left)
    else ([], c :: content, left)

/-- A round of the loop of `cl_box`: what it prints, and what it leaves of `content`. -/
def clBoxRow (vEdge : UInt8) (nrTextchr : Int32) (content : List UInt8) :
    List UInt8 × List UInt8 :=
  let (text, rest, left) := clBoxText nrTextchr content
  ([vEdge, space] ++ text ++ clRepeat space left ++ [space, vEdge, newline], rest)

/-- The loop of `cl_box`, in at most `fuel` rounds: what it prints, or `none` where it is still
running then. -/
def clBoxRows (vEdge : UInt8) (nrTextchr : Int32) : Nat → List UInt8 → Option (List UInt8)
  | _, [] => some []
  | 0, _ :: _ => none
  | fuel + 1, c :: content =>
    let (row, rest) := clBoxRow vEdge nrTextchr (c :: content)
    (clBoxRows vEdge nrTextchr fuel rest).map (row ++ ·)

/-- The border above and below the rows, its newline with it. -/
def clBoxBorder (corner hEdge : UInt8) (nrTextchr : Int32) : List UInt8 :=
  [corner] ++ clRepeat hEdge (nrTextchr + 2) ++ [corner, newline]

/-- `cl_box(corner, v_edge, h_edge, width, content, flags)`, which does not read its flags.  The
content is what stands in front of its zero byte, and `width - 4` wraps as the machine's does. -/
def clBox (fuel : Nat) (corner vEdge hEdge : UInt8) (width : Int32) (content : List UInt8) :
    Option (List UInt8) :=
  let nrTextchr := width - 4
  (clBoxRows vEdge nrTextchr fuel content).map fun rows =>
    clBoxBorder corner hEdge nrTextchr ++ rows ++ clBoxBorder corner hEdge nrTextchr

/-! ## The counter -/

section Counter

variable {left n : Int32}

theorem pos_iff_toNatClampNeg : 0 < left ↔ 0 < left.toNatClampNeg := by
  rw [Int32.lt_iff_toInt_lt, Int32.toNatClampNeg, Int32.toInt_zero]
  omega

theorem toNatClampNeg_pred (h : 0 < left) : (left - 1).toNatClampNeg = left.toNatClampNeg - 1 := by
  rw [Int32.lt_iff_toInt_lt, Int32.toInt_zero] at h
  have hle := Int32.toInt_lt left
  have hone : (1 : Int32).toInt = 1 := rfl
  rw [Int32.toNatClampNeg, Int32.toNatClampNeg, Int32.toInt_sub, hone,
    Int.bmod_eq_of_le (by omega) (by omega)]
  omega

theorem clRepeat_eq (c : UInt8) (n : Int32) :
    clRepeat c n = List.replicate n.toNatClampNeg c := by
  refine forUpto_inv (fun i out => out = List.replicate i c) rfl fun i _ out hout => ?_
  rw [hout, ← List.replicate_succ']

end Counter

/-! ## A row -/

section Row

variable {vEdge : UInt8} {left : Int32} {n : Nat} {line rest : List UInt8}

/-- A row of a box around `area`. -/
def boxRow (vEdge : UInt8) (n : Nat) (area : List UInt8) : List UInt8 :=
  [vEdge, space] ++ area ++ List.replicate (n - area.length) space ++ [space, vEdge]

theorem boxRow_length {area : List UInt8} (h : area.length ≤ n) :
    (boxRow vEdge n area).length = n + 4 := by
  simp only [boxRow, List.length_append, List.length_cons, List.length_nil,
    List.length_replicate]
  omega

/-- Rows, each with its newline. -/
def unrows (rows : List (List UInt8)) : List UInt8 :=
  rows.flatMap (· ++ [newline])

theorem unrows_cons (row : List UInt8) (rows : List (List UInt8)) :
    unrows (row :: rows) = row ++ [newline] ++ unrows rows := rfl

theorem unrows_append (rows rows' : List (List UInt8)) :
    unrows (rows ++ rows') = unrows rows ++ unrows rows' := List.flatMap_append

/-- A line that fits is printed, and its length taken from the counter. -/
theorem clBoxText_append (hline : ∀ c ∈ line, c ≠ newline)
    (hle : line.length ≤ left.toNatClampNeg) (content : List UInt8) :
    ∃ left', left'.toNatClampNeg = left.toNatClampNeg - line.length ∧
      clBoxText left (line ++ content) =
        (line ++ (clBoxText left' content).1, (clBoxText left' content).2) := by
  induction line generalizing left with
  | nil => exact ⟨left, rfl, rfl⟩
  | cons c line ih =>
    rw [List.length_cons] at hle
    have hpos : 0 < left := pos_iff_toNatClampNeg.mpr (by omega)
    have hpred := toNatClampNeg_pred hpos
    have hrest : ∀ x ∈ line, x ≠ newline := fun x hx => hline x (List.mem_cons_of_mem c hx)
    have hle' : line.length ≤ (left - 1).toNatClampNeg := by omega
    obtain ⟨left', hleft, htext⟩ := ih hrest hle'
    refine ⟨left', by rw [List.length_cons]; omega, ?_⟩
    rw [List.cons_append, clBoxText, if_pos hpos, if_neg (hline c List.mem_cons_self), htext]
    rfl

/-- A row whose text ends behind `line`. -/
theorem clBoxRow_of_stop {content : List UInt8} (hline : ∀ c ∈ line, c ≠ newline)
    (hle : line.length ≤ left.toNatClampNeg)
    (hstop : ∀ left' : Int32, left'.toNatClampNeg = left.toNatClampNeg - line.length →
      clBoxText left' content = ([], rest, left')) :
    clBoxRow vEdge left (line ++ content) =
      (boxRow vEdge left.toNatClampNeg line ++ [newline], rest) := by
  obtain ⟨left', hleft, htext⟩ := clBoxText_append hline hle content
  rw [clBoxRow, htext, hstop left' hleft]
  simp only [clRepeat_eq, hleft, boxRow, List.append_assoc, List.cons_append, List.nil_append]

/-- The newline is in the row. -/
theorem clBoxRow_ended (hline : ∀ c ∈ line, c ≠ newline)
    (hlt : line.length < left.toNatClampNeg) :
    clBoxRow vEdge left (line ++ newline :: rest) =
      (boxRow vEdge left.toNatClampNeg line ++ [newline], rest) := by
  refine clBoxRow_of_stop hline (Nat.le_of_lt hlt) fun left' hleft => ?_
  rw [clBoxText, if_pos (pos_iff_toNatClampNeg.mpr (by omega)), if_pos rfl]

/-- The row is full, whatever is behind it. -/
theorem clBoxRow_full (hline : ∀ c ∈ line, c ≠ newline)
    (hlen : line.length = left.toNatClampNeg) :
    clBoxRow vEdge left (line ++ rest) =
      (boxRow vEdge left.toNatClampNeg line ++ [newline], rest) := by
  refine clBoxRow_of_stop hline (Nat.le_of_eq hlen) fun left' hleft => ?_
  cases rest with
  | nil => rfl
  | cons c rest => rw [clBoxText, if_neg (by rw [pos_iff_toNatClampNeg]; omega)]

/-- The content ends in the row. -/
theorem clBoxRow_last (hline : ∀ c ∈ line, c ≠ newline)
    (hle : line.length ≤ left.toNatClampNeg) :
    clBoxRow vEdge left line = (boxRow vEdge left.toNatClampNeg line ++ [newline], []) := by
  have h : clBoxRow vEdge left (line ++ []) =
      (boxRow vEdge left.toNatClampNeg line ++ [newline], []) :=
    clBoxRow_of_stop hline hle fun _ _ => rfl
  rwa [List.append_nil] at h

end Row

/-! ## The rounds -/

section Rounds

variable {vEdge : UInt8} {nrTextchr : Int32}

theorem clBoxText_rest_le (content : List UInt8) (left : Int32) :
    (clBoxText left content).2.1.length ≤ content.length := by
  induction content generalizing left with
  | nil => exact Nat.le_refl 0
  | cons c content ih =>
    rw [clBoxText]
    split_ifs
    · exact Nat.le_succ _
    · exact Nat.le_succ_of_le (ih (left - 1))
    · exact Nat.le_refl _

/-- A round reads on, where there is a counter to start from. -/
theorem clBoxRow_rest_lt (vEdge : UInt8) (hpos : 0 < nrTextchr) (c : UInt8) (content : List UInt8) :
    (clBoxRow vEdge nrTextchr (c :: content)).2.length ≤ content.length := by
  rw [clBoxRow, clBoxText, if_pos hpos]
  split_ifs
  · exact Nat.le_refl _
  · exact clBoxText_rest_le content (nrTextchr - 1)

/-- A round reads nothing, where there is none. -/
theorem clBoxRow_rest_eq (hpos : ¬ 0 < nrTextchr) (c : UInt8) (content : List UInt8) :
    (clBoxRow vEdge nrTextchr (c :: content)).2 = c :: content := by
  rw [clBoxRow, clBoxText, if_neg hpos]

theorem clBoxRows_succ {content : List UInt8} (hcontent : content ≠ []) (fuel : Nat) :
    clBoxRows vEdge nrTextchr (fuel + 1) content =
      (clBoxRows vEdge nrTextchr fuel (clBoxRow vEdge nrTextchr content).2).map
        ((clBoxRow vEdge nrTextchr content).1 ++ ·) := by
  cases content with
  | nil => exact absurd rfl hcontent
  | cons c content => rfl

/-- As many rounds as the content has characters are enough. -/
theorem clBoxRows_of_pos (vEdge : UInt8) (hpos : 0 < nrTextchr) {fuel : Nat} {content : List UInt8}
    (hfuel : content.length ≤ fuel) :
    ∃ rows, clBoxRows vEdge nrTextchr fuel content = some rows := by
  induction fuel generalizing content with
  | zero =>
    rw [List.length_eq_zero_iff.mp (Nat.le_zero.mp hfuel)]
    exact ⟨[], rfl⟩
  | succ fuel ih =>
    cases content with
    | nil => exact ⟨[], rfl⟩
    | cons c content =>
      have hrest := clBoxRow_rest_lt vEdge hpos c content
      obtain ⟨rows, hrows⟩ := ih (Nat.le_trans hrest (Nat.le_of_succ_le_succ hfuel))
      exact ⟨_, by rw [clBoxRows_succ (List.cons_ne_nil c content), hrows]; rfl⟩

/-- No number of rounds is enough. -/
theorem clBoxRows_of_not_pos (hpos : ¬ 0 < nrTextchr) {content : List UInt8}
    (hcontent : content ≠ []) (fuel : Nat) : clBoxRows vEdge nrTextchr fuel content = none := by
  obtain ⟨c, content, rfl⟩ := List.exists_cons_of_ne_nil hcontent
  induction fuel with
  | zero => rfl
  | succ fuel ih =>
    rw [clBoxRows_succ hcontent, clBoxRow_rest_eq hpos, ih]
    rfl

/-- More rounds change nothing behind the last one. -/
theorem clBoxRows_of_le {fuel fuel' : Nat} {content rows : List UInt8} (hle : fuel ≤ fuel')
    (h : clBoxRows vEdge nrTextchr fuel content = some rows) :
    clBoxRows vEdge nrTextchr fuel' content = some rows := by
  induction fuel generalizing content rows fuel' with
  | zero =>
    cases content with
    | nil => rwa [clBoxRows] at h ⊢
    | cons c content => cases h
  | succ fuel ih =>
    obtain ⟨fuel', rfl⟩ :=
      Nat.exists_eq_add_of_le' (Nat.le_trans (Nat.succ_le_succ fuel.zero_le) hle)
    by_cases hne : content = []
    · rwa [hne, clBoxRows] at h ⊢
    rw [clBoxRows_succ hne] at h
    obtain ⟨rest, hrest, hrows⟩ := Option.map_eq_some_iff.mp h
    rw [clBoxRows_succ hne, ih (Nat.le_of_succ_le_succ hle) hrest, Option.map_some, hrows]

theorem clBox_of_pos (corner vEdge hEdge : UInt8) {width : Int32} (content : List UInt8)
    (hpos : 0 < width - 4) :
    ∃ fuel out, clBox fuel corner vEdge hEdge width content = some out := by
  obtain ⟨rows, hrows⟩ := clBoxRows_of_pos vEdge hpos (Nat.le_refl content.length)
  exact ⟨content.length, _, by rw [clBox, hrows]; rfl⟩

/-- A box is finished if its content is empty or a row has room for a character: a width from 5
on, or one so far below zero that `width - 4` wraps. -/
theorem clBox_terminates_iff (corner vEdge hEdge : UInt8) (width : Int32) (content : List UInt8) :
    (∃ fuel out, clBox fuel corner vEdge hEdge width content = some out) ↔
      content = [] ∨ 0 < width - 4 := by
  constructor
  · rintro ⟨fuel, out, h⟩
    by_contra hnot
    rw [not_or] at hnot
    rw [clBox, clBoxRows_of_not_pos hnot.2 hnot.1] at h
    cases h
  · rintro (rfl | hpos)
    · exact ⟨0, _, rfl⟩
    · exact clBox_of_pos corner vEdge hEdge content hpos

/-- A box of width 4 has no room for a character. -/
theorem clBox_four_runs_on : ¬ ∃ fuel out, clBox fuel 43 124 45 4 [97] = some out := by
  rintro ⟨fuel, out, h⟩
  rw [clBox, clBoxRows_of_not_pos (by decide) (List.cons_ne_nil 97 [])] at h
  cases h

end Rounds

/-! ## The layout -/

section Layout

variable {corner vEdge hEdge : UInt8} {width nrTextchr : Int32} {n : Nat}
  {line content : List UInt8}

/-- The end of a line. -/
def isNewline (c : UInt8) : Bool := c == newline

theorem ne_newline_of_isNewline (h : ∀ c ∈ line, isNewline c = false) :
    ∀ c ∈ line, c ≠ newline := fun c hc => ne_of_beq_false (h c hc)

/-- The text areas of an ended line: its parts, or a blank one for an empty line. -/
def lineAreas (n : Nat) (line : List UInt8) : List (List UInt8) :=
  if line = [] then [[]] else chunks n line

/-- The text areas of a content: those of its ended lines, and the parts of what is behind them. -/
def areas (n : Nat) (content : List UInt8) : List (List UInt8) :=
  (endedLines isNewline content).flatMap (lineAreas n) ++ chunks n (lastLine isNewline content)

/-- The border of a box. -/
def border (corner hEdge : UInt8) (n : Nat) : List UInt8 :=
  [corner] ++ List.replicate (n + 2) hEdge ++ [corner]

/-- The rows of a box around `areas`. -/
def framed (corner vEdge hEdge : UInt8) (n : Nat) (areas : List (List UInt8)) :
    List (List UInt8) :=
  [border corner hEdge n] ++ areas.map (boxRow vEdge n) ++ [border corner hEdge n]

/-- The rows of a box. -/
def boxRows (corner vEdge hEdge : UInt8) (n : Nat) (content : List UInt8) : List (List UInt8) :=
  framed corner vEdge hEdge n (areas n content)

/-- What is printed for a box: its rows, all of them `width` characters wide. -/
def LaysOut (corner vEdge hEdge : UInt8) (width : Int32) (content out : List UInt8) : Prop :=
  out = unrows (boxRows corner vEdge hEdge (width.toNatClampNeg - 4) content) ∧
    ∀ row ∈ boxRows corner vEdge hEdge (width.toNatClampNeg - 4) content,
      row.length = width.toNatClampNeg

/-- The text areas that are printed of an ended line: a blank one follows a line that fills its
last row, as it is one for the empty line. -/
def printedAreas (n : Nat) (line : List UInt8) : List (List UInt8) :=
  chunks n line ++ if n ∣ line.length then [[]] else []

theorem printedAreas_short (h : line.length < n) : printedAreas n line = [line] := by
  cases line with
  | nil =>
    rw [printedAreas, chunks_nil h, List.length_nil, if_pos (Nat.dvd_zero n), List.nil_append]
  | cons c line =>
    have hdvd : ¬ n ∣ (c :: line).length := Nat.not_dvd_of_pos_of_lt (Nat.succ_pos _) h
    rw [printedAreas, chunks_of_le (List.cons_ne_nil c line) (Nat.le_of_lt h), if_neg hdvd,
      List.append_nil]

theorem printedAreas_long (hn : 0 < n) (h : n ≤ line.length) :
    printedAreas n line = line.take n :: printedAreas n (line.drop n) := by
  have hne : line ≠ [] := List.ne_nil_of_length_pos (Nat.lt_of_lt_of_le hn h)
  have hdvd : n ∣ line.length ↔ n ∣ (line.drop n).length := by
    rw [List.length_drop, Nat.dvd_sub_iff_left h (Nat.dvd_refl n)]
  rw [printedAreas, chunks_cons hn hne, printedAreas, List.cons_append]
  simp only [hdvd]

/-- The rows around `areas`, as they are printed. -/
def areaRows (vEdge : UInt8) (n : Nat) (areas : List (List UInt8)) : List UInt8 :=
  unrows (areas.map (boxRow vEdge n))

theorem areaRows_cons (area : List UInt8) (areas : List (List UInt8)) :
    areaRows vEdge n (area :: areas) = boxRow vEdge n area ++ [newline] ++ areaRows vEdge n areas :=
  rfl

theorem areaRows_singleton (area : List UInt8) :
    areaRows vEdge n [area] = boxRow vEdge n area ++ [newline] := List.append_nil _

theorem areaRows_append (areas areas' : List (List UInt8)) :
    areaRows vEdge n (areas ++ areas') = areaRows vEdge n areas ++ areaRows vEdge n areas' := by
  rw [areaRows, List.map_append, unrows, List.flatMap_append]
  rfl

/-- The first row of a line that fills it. -/
theorem clBoxRows_full (vEdge : UInt8) (hn : 0 < nrTextchr.toNatClampNeg)
    (hline : ∀ c ∈ line, c ≠ newline) (hlong : nrTextchr.toNatClampNeg ≤ line.length)
    (fuel : Nat) (tail : List UInt8) :
    clBoxRows vEdge nrTextchr (fuel + 1) (line ++ tail) =
      (clBoxRows vEdge nrTextchr fuel (line.drop nrTextchr.toNatClampNeg ++ tail)).map
        (boxRow vEdge nrTextchr.toNatClampNeg (line.take nrTextchr.toNatClampNeg) ++ [newline]
          ++ ·) := by
  have hne : line ≠ [] := List.ne_nil_of_length_pos (Nat.lt_of_lt_of_le hn hlong)
  have hrow : clBoxRow vEdge nrTextchr (line.take nrTextchr.toNatClampNeg ++
        (line.drop nrTextchr.toNatClampNeg ++ tail)) =
      (boxRow vEdge nrTextchr.toNatClampNeg (line.take nrTextchr.toNatClampNeg) ++ [newline],
        line.drop nrTextchr.toNatClampNeg ++ tail) :=
    clBoxRow_full (fun c hc => hline c (List.mem_of_mem_take hc)) (List.length_take_of_le hlong)
  rw [← List.append_assoc, List.take_append_drop] at hrow
  rw [clBoxRows_succ (List.append_ne_nil_of_left_ne_nil hne tail), hrow]

/-- The rows of a last line. -/
theorem clBoxRows_last (hn : 0 < nrTextchr.toNatClampNeg) {fuel : Nat} :
    ∀ {line : List UInt8}, (∀ c ∈ line, c ≠ newline) → line.length ≤ fuel →
      clBoxRows vEdge nrTextchr fuel line = some (areaRows vEdge nrTextchr.toNatClampNeg
        (chunks nrTextchr.toNatClampNeg line)) := by
  induction fuel with
  | zero =>
    intro line _ hfuel
    rw [List.length_eq_zero_iff.mp (Nat.le_zero.mp hfuel), chunks_nil hn]
    rfl
  | succ fuel ih =>
    intro line hline hfuel
    by_cases hne : line = []
    · rw [hne, chunks_nil hn]
      rfl
    rcases Nat.lt_or_ge nrTextchr.toNatClampNeg line.length with hlong | hshort
    · -- a full row, and the rest of the line behind it
      have hrow := clBoxRows_full vEdge hn hline (Nat.le_of_lt hlong) fuel []
      rw [List.append_nil, List.append_nil] at hrow
      rw [hrow, ih (fun c hc => hline c (List.mem_of_mem_drop hc))
        (by rw [List.length_drop]; omega), chunks_cons hn hne]
      rfl
    · rw [clBoxRows_succ hne, clBoxRow_last hline hshort, chunks_of_le hne hshort, clBoxRows]
      rfl

/-- The rows of an ended line, in front of those of the rest. -/
theorem clBoxRows_ended (hn : 0 < nrTextchr.toNatClampNeg) {rest : List UInt8}
    {rows : List UInt8}
    (hrest : ∀ fuel, rest.length ≤ fuel → clBoxRows vEdge nrTextchr fuel rest = some rows)
    {fuel : Nat} :
    ∀ {line : List UInt8}, (∀ c ∈ line, c ≠ newline) → (line ++ newline :: rest).length ≤ fuel →
      clBoxRows vEdge nrTextchr fuel (line ++ newline :: rest) =
        some (areaRows vEdge nrTextchr.toNatClampNeg
          (printedAreas nrTextchr.toNatClampNeg line) ++ rows) := by
  induction fuel with
  | zero =>
    intro line _ hfuel
    simp at hfuel
  | succ fuel ih =>
    intro line hline hfuel
    rw [List.length_append, List.length_cons] at hfuel
    rcases Nat.lt_or_ge line.length nrTextchr.toNatClampNeg with hshort | hlong
    · rw [clBoxRows_succ (List.append_ne_nil_of_right_ne_nil line (List.cons_ne_nil _ _)),
        clBoxRow_ended hline hshort, hrest fuel (by omega), printedAreas_short hshort,
        areaRows_singleton]
      rfl
    · rw [clBoxRows_full vEdge hn hline hlong, ih (fun c hc => hline c (List.mem_of_mem_drop hc))
        (by rw [List.length_append, List.length_cons, List.length_drop]; omega),
        printedAreas_long hn hlong, areaRows_cons, List.append_assoc]
      rfl

/-- The rows that are printed of a content. -/
theorem clBoxRows_eq (hn : 0 < nrTextchr.toNatClampNeg) (content : List UInt8) :
    ∀ fuel, content.length ≤ fuel → clBoxRows vEdge nrTextchr fuel content =
      some (areaRows vEdge nrTextchr.toNatClampNeg
        ((endedLines isNewline content).flatMap (printedAreas nrTextchr.toNatClampNeg) ++
          chunks nrTextchr.toNatClampNeg (lastLine isNewline content))) := by
  induction content using lineInduction isNewline with
  | last line hline =>
    intro fuel hfuel
    rw [clBoxRows_last hn (ne_newline_of_isNewline hline) hfuel, endedLines_of_not hline,
      lastLine_of_not hline]
    rfl
  | ended line d rest hline hd ih =>
    intro fuel hfuel
    rw [beq_iff_eq.mp hd] at hfuel ⊢
    rw [clBoxRows_ended hn ih (ne_newline_of_isNewline hline) hfuel, endedLines_append hline rfl,
      lastLine_append hline rfl, List.flatMap_cons, List.append_assoc, ← areaRows_append]

/-- The text areas that are printed of a content. -/
def allPrinted (n : Nat) (content : List UInt8) : List (List UInt8) :=
  (endedLines isNewline content).flatMap (printedAreas n) ++
    chunks n (lastLine isNewline content)

theorem nrTextchr_of_width (hwidth : 5 ≤ width) :
    0 < (width - 4).toNatClampNeg ∧ (width - 4).toNatClampNeg + 4 = width.toNatClampNeg ∧
      (width - 4 + 2).toNatClampNeg = (width - 4).toNatClampNeg + 2 := by
  rw [Int32.le_iff_toInt_le] at hwidth
  have hlt := Int32.toInt_lt width
  have htwo : (2 : Int32).toInt = 2 := rfl
  have hfour : (4 : Int32).toInt = 4 := rfl
  have hfive : (5 : Int32).toInt = 5 := rfl
  rw [hfive] at hwidth
  have hsub : (width - 4).toInt = width.toInt - 4 := by
    rw [Int32.toInt_sub, hfour, Int.bmod_eq_of_le (by omega) (by omega)]
  have hadd : (width - 4 + 2).toInt = width.toInt - 4 + 2 := by
    rw [Int32.toInt_add, hsub, htwo, Int.bmod_eq_of_le (by omega) (by omega)]
  simp only [Int32.toNatClampNeg, hsub, hadd]
  omega

theorem clBoxBorder_eq (h : (nrTextchr + 2).toNatClampNeg = n + 2) :
    clBoxBorder corner hEdge nrTextchr = border corner hEdge n ++ [newline] := by
  rw [clBoxBorder, clRepeat_eq, h, border, List.append_assoc _ [corner] [newline]]
  rfl

/-- What is printed for a box whose rows have room for a character. -/
theorem clBox_eq (hwidth : 5 ≤ width) {fuel : Nat} {out : List UInt8}
    (h : clBox fuel corner vEdge hEdge width content = some out) :
    out = unrows (framed corner vEdge hEdge (width - 4).toNatClampNeg
      (allPrinted (width - 4).toNatClampNeg content)) := by
  obtain ⟨hn, -, hadd⟩ := nrTextchr_of_width hwidth
  obtain ⟨rows, hrows, rfl⟩ := Option.map_eq_some_iff.mp h
  have hall := clBoxRows_of_le (Nat.le_max_left fuel content.length) hrows
  rw [clBoxRows_eq hn content _ (Nat.le_max_right fuel content.length)] at hall
  cases hall
  rw [clBoxBorder_eq hadd, framed, unrows_append, unrows_append, areaRows, allPrinted]
  simp only [unrows, List.flatMap_cons, List.flatMap_nil, List.append_nil]

/-- The areas of a content fit, if those of its ended lines do. -/
theorem length_le_of_mem_lines {f : List UInt8 → List (List UInt8)}
    (hf : ∀ line, ∀ area ∈ f line, area.length ≤ n) {lines : List (List UInt8)}
    {area : List UInt8} (h : area ∈ lines.flatMap f ++ chunks n line) : area.length ≤ n := by
  obtain h | h := List.mem_append.mp h
  · obtain ⟨line, -, h⟩ := List.mem_flatMap.mp h
    exact hf line area h
  · exact length_le_of_mem_chunks h

theorem length_le_of_mem_lineAreas (line : List UInt8) :
    ∀ area ∈ lineAreas n line, area.length ≤ n := by
  intro area h
  rw [lineAreas] at h
  split_ifs at h
  · rw [List.mem_singleton.mp h]
    exact Nat.zero_le n
  · exact length_le_of_mem_chunks h

theorem length_le_of_mem_printedAreas (line : List UInt8) :
    ∀ area ∈ printedAreas n line, area.length ≤ n := by
  intro area h
  obtain h | h := List.mem_append.mp h
  · exact length_le_of_mem_chunks h
  · split_ifs at h
    · rw [List.mem_singleton.mp h]
      exact Nat.zero_le n
    · cases h

/-- Around areas that fit, every row has the width of the box. -/
theorem length_of_mem_framed {all : List (List UInt8)} (hall : ∀ area ∈ all, area.length ≤ n)
    {row : List UInt8} (h : row ∈ framed corner vEdge hEdge n all) : row.length = n + 4 := by
  have hborder : (border corner hEdge n).length = n + 4 := by
    simp only [border, List.length_append, List.length_cons, List.length_nil,
      List.length_replicate]
    omega
  obtain h | h := List.mem_append.mp h
  · obtain h | h := List.mem_append.mp h
    · rw [List.mem_singleton.mp h, hborder]
    · obtain ⟨area, harea, rfl⟩ := List.mem_map.mp h
      exact boxRow_length (hall area harea)
  · rw [List.mem_singleton.mp h, hborder]

theorem unrows_length {rows : List (List UInt8)} {w : Nat} (h : ∀ row ∈ rows, row.length = w) :
    (unrows rows).length = rows.length * (w + 1) := by
  induction rows with
  | nil => exact (Nat.zero_mul _).symm
  | cons row rows ih =>
    have hrest := ih fun r hr => h r (List.mem_cons_of_mem row hr)
    rw [unrows_cons, List.length_append, hrest, List.length_append, h row List.mem_cons_self,
      List.length_cons, List.length_nil, List.length_cons, Nat.succ_mul, Nat.add_comm]

/-- Boxes that print alike have as many rows. -/
theorem length_of_framed_eq {all all' : List (List UInt8)} (hall : ∀ area ∈ all, area.length ≤ n)
    (hall' : ∀ area ∈ all', area.length ≤ n)
    (h : unrows (framed corner vEdge hEdge n all) = unrows (framed corner vEdge hEdge n all')) :
    all.length = all'.length := by
  have hlen := congrArg List.length h
  rw [unrows_length fun _ hrow => length_of_mem_framed hall hrow,
    unrows_length fun _ hrow => length_of_mem_framed hall' hrow] at hlen
  have hrows := Nat.mul_right_cancel (Nat.succ_pos (n + 4)) hlen
  simpa [framed] using hrows

/-- An ended line whose last row is full. -/
def FillsUp (n : Nat) (line : List UInt8) : Prop :=
  line ≠ [] ∧ n ∣ line.length

instance (n : Nat) (line : List UInt8) : Decidable (FillsUp n line) :=
  inferInstanceAs (Decidable (_ ∧ _))

theorem printedAreas_of_not (hn : 0 < n) (h : ¬ FillsUp n line) :
    printedAreas n line = lineAreas n line := by
  cases line with
  | nil => exact printedAreas_short hn
  | cons c line =>
    have hdvd : ¬ n ∣ (c :: line).length := fun hdvd => h ⟨List.cons_ne_nil c line, hdvd⟩
    rw [printedAreas, lineAreas, if_neg hdvd, if_neg (List.cons_ne_nil c line), List.append_nil]

/-- One row too many for each line that fills up. -/
theorem length_printed (hn : 0 < n) (lines : List (List UInt8)) :
    (lines.flatMap (printedAreas n)).length =
      (lines.flatMap (lineAreas n)).length + lines.countP (FillsUp n ·) := by
  induction lines with
  | nil => rfl
  | cons line lines ih =>
    have hline : (printedAreas n line).length =
        (lineAreas n line).length + if FillsUp n line then 1 else 0 := by
      split_ifs with hfills
      · rw [printedAreas, if_pos hfills.2, lineAreas, if_neg hfills.1, List.length_append,
          List.length_singleton]
      · rw [printedAreas_of_not hn hfills, Nat.add_zero]
    simp only [List.flatMap_cons, List.length_append, List.countP_cons, hline, ih,
      decide_eq_true_eq]
    omega

/-- A box is laid out as its text says if no ended line but an empty one fills its last row. -/
theorem clBox_laysOut_iff (corner vEdge hEdge : UInt8) (width : Int32) (content : List UInt8)
    (hwidth : 5 ≤ width) :
    (∃ fuel out, clBox fuel corner vEdge hEdge width content = some out ∧
        LaysOut corner vEdge hEdge width content out) ↔
      ∀ line ∈ endedLines isNewline content, ¬ FillsUp (width.toNatClampNeg - 4) line := by
  obtain ⟨hn, hsub, -⟩ := nrTextchr_of_width hwidth
  have hn4 : width.toNatClampNeg - 4 = (width - 4).toNatClampNeg := by omega
  have hareas : ∀ area ∈ areas (width - 4).toNatClampNeg content,
      area.length ≤ (width - 4).toNatClampNeg :=
    fun _ h => length_le_of_mem_lines length_le_of_mem_lineAreas h
  have hprinted : ∀ area ∈ allPrinted (width - 4).toNatClampNeg content,
      area.length ≤ (width - 4).toNatClampNeg :=
    fun _ h => length_le_of_mem_lines length_le_of_mem_printedAreas h
  rw [hn4]
  constructor
  · rintro ⟨fuel, out, hout, hrows, -⟩
    rw [clBox_eq hwidth hout, hn4] at hrows
    have hcount := length_of_framed_eq hprinted hareas hrows
    rw [allPrinted, areas, List.length_append, List.length_append, length_printed hn] at hcount
    have hzero : (endedLines isNewline content).countP
        (FillsUp (width - 4).toNatClampNeg ·) = 0 := by omega
    simpa using List.countP_eq_zero.mp hzero
  · intro hlines
    obtain ⟨fuel, out, hout⟩ :=
      clBox_of_pos corner vEdge hEdge content (pos_iff_toNatClampNeg.mpr hn)
    refine ⟨fuel, out, hout, ?_, fun row hrow => ?_⟩
    · have hall : allPrinted (width - 4).toNatClampNeg content =
          areas (width - 4).toNatClampNeg content := by
        rw [allPrinted, areas]
        congr 1
        exact List.flatMap_congr fun line hline => printedAreas_of_not hn (hlines line hline)
      rw [clBox_eq hwidth hout, hall, boxRows, hn4]
    · rw [boxRows, hn4] at hrow
      rw [length_of_mem_framed hareas hrow, hsub]

/-- A box of width 8 around a line of three characters, and one without an end. -/
theorem clBox_laysOut_abc :
    ∃ fuel out, clBox fuel 43 124 45 8 [97, 98, 99, 10, 97, 98, 99, 100] = some out ∧
      LaysOut 43 124 45 8 [97, 98, 99, 10, 97, 98, 99, 100] out :=
  (clBox_laysOut_iff 43 124 45 8 [97, 98, 99, 10, 97, 98, 99, 100] (by decide)).mpr
    (by decide +kernel)

/-- In a box of width 8, a blank row follows a line of four characters. -/
theorem clBox_blank_row :
    ¬ ∃ fuel out, clBox fuel 43 124 45 8 [97, 98, 99, 100, 10] = some out ∧
      LaysOut 43 124 45 8 [97, 98, 99, 100, 10] out := by
  rintro ⟨fuel, out, hout, hrows, -⟩
  rw [clBox_eq (by decide) hout] at hrows
  exact absurd (congrArg List.length hrows) (by decide +kernel)

end Layout

end Microboot.Kern.Io
