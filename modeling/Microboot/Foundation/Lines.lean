/-
  Foundation/Lines.lean --- the lines of a text, and the parts of a line.

  A text is cut behind every separator: `endedLines` are the lines that a separator
  ends, and `lastLine` is what is left behind the last of them.  A list has the shape
  of one line, or of a line, its separator and a rest (`lineInduction`).

  `chunks n l` are the successive parts of `n` elements of a list, the last of them
  with what is left.
-/
import Mathlib.Data.List.Basic

set_option autoImplicit false

namespace Microboot.Foundation

variable {α : Type}

/-! ## Lines -/

/-- The lines that a separator ends. -/
def endedLines (sep : α → Bool) : List α → List (List α)
  | [] => []
  | c :: s =>
    if sep c then [] :: endedLines sep s
    else match endedLines sep s with
      | [] => []
      | line :: lines => (c :: line) :: lines

/-- What is behind the last separator. -/
def lastLine (sep : α → Bool) : List α → List α
  | [] => []
  | c :: s => if sep c ∨ endedLines sep s ≠ [] then lastLine sep s else c :: lastLine sep s

section Lines

variable {sep : α → Bool} {line rest : List α} {d : α}

theorem endedLines_of_not (h : ∀ c ∈ line, sep c = false) : endedLines sep line = [] := by
  induction line with
  | nil => rfl
  | cons c line ih =>
    rw [endedLines, if_neg (by simp [h c List.mem_cons_self]),
      ih fun x hx => h x (List.mem_cons_of_mem c hx)]

theorem lastLine_of_not (h : ∀ c ∈ line, sep c = false) : lastLine sep line = line := by
  induction line with
  | nil => rfl
  | cons c line ih =>
    have hline : ∀ x ∈ line, sep x = false := fun x hx => h x (List.mem_cons_of_mem c hx)
    rw [lastLine, if_neg (by simp [h c List.mem_cons_self, endedLines_of_not hline]), ih hline]

/-- The first line. -/
theorem endedLines_append (h : ∀ c ∈ line, sep c = false) (hd : sep d = true) :
    endedLines sep (line ++ d :: rest) = line :: endedLines sep rest := by
  induction line with
  | nil => exact if_pos hd
  | cons c line ih =>
    rw [List.cons_append, endedLines, if_neg (by simp [h c List.mem_cons_self]),
      ih fun x hx => h x (List.mem_cons_of_mem c hx)]

theorem lastLine_append (h : ∀ c ∈ line, sep c = false) (hd : sep d = true) :
    lastLine sep (line ++ d :: rest) = lastLine sep rest := by
  induction line with
  | nil => exact if_pos (.inl hd)
  | cons c line ih =>
    have hline : ∀ x ∈ line, sep x = false := fun x hx => h x (List.mem_cons_of_mem c hx)
    rw [List.cons_append, lastLine, if_pos (.inr (by simp [endedLines_append hline hd])), ih hline]

/-- Induction over the lines of a list. -/
theorem lineInduction (sep : α → Bool) {motive : List α → Prop}
    (last : ∀ line, (∀ c ∈ line, sep c = false) → motive line)
    (ended : ∀ line d rest, (∀ c ∈ line, sep c = false) → sep d = true → motive rest →
      motive (line ++ d :: rest)) (s : List α) : motive s := by
  suffices h : ∀ front, (∀ c ∈ front, sep c = false) → motive (front ++ s) from
    h [] fun c hc => by cases hc
  induction s with
  | nil =>
    intro front hfront
    rw [List.append_nil]
    exact last front hfront
  | cons c s ih =>
    intro front hfront
    cases hc : sep c with
    | true => exact ended front c s hfront hc (ih [] fun x hx => by cases hx)
    | false =>
      have := ih (front ++ [c]) fun x hx => by
        rcases List.mem_append.mp hx with hx | hx
        · exact hfront x hx
        · rw [List.mem_singleton.mp hx, hc]
      rwa [List.append_assoc] at this

end Lines

/-! ## Chunks -/

/-- The successive parts of `n` elements. -/
def chunks (n : Nat) (l : List α) : List (List α) :=
  (List.range ((l.length + (n - 1)) / n)).map fun k => (l.drop (k * n)).take n

section Chunks

variable {n : Nat} {l : List α}

theorem length_le_of_mem_chunks {part : List α} (h : part ∈ chunks n l) : part.length ≤ n := by
  obtain ⟨k, -, rfl⟩ := List.mem_map.mp h
  exact List.length_take_le n _

theorem chunks_nil (hn : 0 < n) : chunks n ([] : List α) = [] := by
  rw [chunks, List.length_nil, Nat.zero_add, Nat.div_eq_of_lt (by omega)]
  rfl

/-- The first part, and those of the rest. -/
theorem chunks_cons (hn : 0 < n) (hl : l ≠ []) : chunks n l = l.take n :: chunks n (l.drop n) := by
  have hpos : 0 < l.length := List.length_pos_iff.mpr hl
  have hcount : (l.length + (n - 1)) / n = ((l.drop n).length + (n - 1)) / n + 1 := by
    rw [List.length_drop]
    rcases Nat.lt_or_ge l.length n with hlt | hge
    · rw [Nat.sub_eq_zero_of_le (Nat.le_of_lt hlt), Nat.zero_add,
        Nat.div_eq_of_lt (by omega : n - 1 < n),
        ← Nat.sub_add_cancel (by omega : n ≤ l.length + (n - 1)), Nat.add_div_right _ hn,
        Nat.div_eq_of_lt (by omega)]
    · rw [← Nat.add_div_right _ hn]
      congr 1
      omega
  rw [chunks, hcount, List.range_succ_eq_map, List.map_cons, List.map_map, Nat.zero_mul,
    List.drop_zero, chunks]
  congr 1
  refine List.map_congr_left fun k _ => ?_
  rw [Function.comp, List.drop_drop, Nat.succ_mul, Nat.add_comm]

theorem chunks_of_le (hl : l ≠ []) (h : l.length ≤ n) : chunks n l = [l] := by
  have hpos : 0 < l.length := List.length_pos_iff.mpr hl
  have hn : 0 < n := by omega
  rw [chunks_cons hn hl, List.take_of_length_le h, List.drop_eq_nil_of_le h, chunks_nil hn]

end Chunks

end Microboot.Foundation
