/-
  Foundation/Terminal.lean --- screens and terminals.

  A `Screen` is `w` by `h` cells with a cursor; it scrolls up when the cursor
  would leave the last row, and cannot step back from the first cell.  A
  `Terminal` writes the same keys on a page without end and keeps every row ever
  written; a window of `h` rows follows the cursor down.  `window_keys`: a screen
  that never steps back from its first cell shows the terminal's window.

  Cells are functions of a column and a row, and hold values of any type with a
  blank.
-/
import Mathlib.Data.List.Basic

set_option autoImplicit false

namespace Microboot.Foundation

/-- What a character does to a terminal. -/
inductive Key (α : Type) where
  /-- Write `c` at the cursor and advance. -/
  | put (c : α)
  /-- Go to the start of the next row. -/
  | newLine
  /-- Step back one cell, and blank it. -/
  | back
  /-- Go to the start of the row. -/
  | carriage

/-- The contents of a page, by column and row. -/
abbrev Cells (α : Type) : Type := Int → Int → α

/-- The cell `(x, y)` lies on a grid of `w` columns and `h` rows. -/
def InGrid (w h x y : Int) : Prop := (0 ≤ x ∧ x < w) ∧ 0 ≤ y ∧ y < h

instance (w h x y : Int) : Decidable (InGrid w h x y) :=
  inferInstanceAs (Decidable ((0 ≤ x ∧ x < w) ∧ 0 ≤ y ∧ y < h))

namespace Cells

variable {α : Type}

/-- The page with `c` at `(x, y)`. -/
def write (s : Cells α) (x y : Int) (c : α) : Cells α :=
  fun x' y' => if x' = x ∧ y' = y then c else s x' y'

/-- The page moved up by one row, with a blank row `h - 1`. -/
def scrollUp (blank : α) (h : Int) (s : Cells α) : Cells α :=
  fun x y => if y = h - 1 then blank else s x (y + 1)

@[simp] theorem write_same (s : Cells α) (x y : Int) (c : α) : s.write x y c x y = c := by
  simp [write]

theorem write_of_ne {s : Cells α} {x y x' y' : Int} {c : α} (h : ¬ (x' = x ∧ y' = y)) :
    s.write x y c x' y' = s x' y' := if_neg h

end Cells

/-! ## Screens -/

/-- A screen: its cells, and the cell the cursor is in. -/
structure Screen (α : Type) where
  cells : Cells α
  col : Int
  row : Int

namespace Screen

variable {α : Type} (blank : α) (w h : Int)

/-- An empty screen with the cursor in its first cell. -/
def empty : Screen α := { cells := fun _ _ => blank, col := 0, row := 0 }

/-- The cursor goes to the start of the next row; in the last row, the screen
scrolls instead. -/
def nextRow (s : Screen α) : Screen α :=
  if s.row + 1 < h then { s with col := 0, row := s.row + 1 }
  else { s with cells := s.cells.scrollUp blank h, col := 0 }

/-- A screen takes a key; `none` if it cannot step back. -/
def key (s : Screen α) : Key α → Option (Screen α)
  | .put c =>
    let s := { s with cells := s.cells.write s.col s.row c }
    some (if s.col + 1 < w then { s with col := s.col + 1 } else s.nextRow blank h)
  | .newLine => some (s.nextRow blank h)
  | .back =>
    if 0 < s.col then
      some { s with cells := s.cells.write (s.col - 1) s.row blank, col := s.col - 1 }
    else if 0 < s.row then
      some { cells := s.cells.write (w - 1) (s.row - 1) blank, col := w - 1, row := s.row - 1 }
    else none
  | .carriage => some { s with col := 0 }

/-- A screen takes keys one after the other. -/
def keys (s : Screen α) (ks : List (Key α)) : Option (Screen α) := ks.foldlM (key blank w h) s

/-- The cursor is on the screen. -/
def CursorOn (s : Screen α) : Prop := InGrid w h s.col s.row

variable {blank : α} {w h : Int} {s s' : Screen α}

theorem nextRow_cursorOn (hw : 1 ≤ w) (hs : CursorOn w h s) :
    CursorOn w h (s.nextRow blank h) := by
  unfold CursorOn InGrid at *
  unfold nextRow
  split
  · exact ⟨by simp; omega, by simp; omega⟩
  · exact ⟨by simp; omega, hs.2⟩

/-- Every key leaves the cursor on the screen. -/
theorem key_cursorOn (hw : 1 ≤ w) (hs : CursorOn w h s) {k : Key α}
    (hk : s.key blank w h k = some s') : CursorOn w h s' := by
  cases k with
  | put c =>
    simp only [key, Option.some.injEq] at hk
    subst hk
    split
    · unfold CursorOn InGrid at *
      exact ⟨by simp; omega, hs.2⟩
    · exact nextRow_cursorOn hw hs
  | newLine =>
    cases hk
    exact nextRow_cursorOn hw hs
  | back =>
    unfold CursorOn InGrid at *
    simp only [key] at hk
    split at hk
    · cases hk
      exact ⟨by simp; omega, hs.2⟩
    · split at hk
      · cases hk
        exact ⟨by simp; omega, by simp; omega⟩
      · cases hk
  | carriage =>
    cases hk
    unfold CursorOn InGrid at *
    exact ⟨by simp; omega, hs.2⟩

theorem cells_nextRow {P : α → Prop} (hblank : P blank) (hs : ∀ x y, P (s.cells x y)) :
    ∀ x y, P ((s.nextRow blank h).cells x y) := by
  intro x y
  unfold nextRow
  split
  · exact hs x y
  · simp only [Cells.scrollUp]
    split
    · exact hblank
    · exact hs x (y + 1)

/-- What is on a screen was on it before, was put there by the key, or is blank. -/
theorem cells_key {P : α → Prop} (hblank : P blank) (hs : ∀ x y, P (s.cells x y)) {k : Key α}
    (hput : ∀ c, k = .put c → P c) (hk : s.key blank w h k = some s') :
    ∀ x y, P (s'.cells x y) := by
  have hwrite : ∀ {c : α}, P c → ∀ a b x y, P (s.cells.write a b c x y) := by
    intro c hc a b x y
    unfold Cells.write
    split
    · exact hc
    · exact hs x y
  cases k with
  | put c =>
    have hcells := hwrite (hput c rfl) s.col s.row
    simp only [key, Option.some.injEq] at hk
    subst hk
    split
    · exact hcells
    · exact cells_nextRow hblank hcells
  | newLine =>
    cases hk
    exact cells_nextRow hblank hs
  | back =>
    simp only [key] at hk
    split at hk
    · cases hk
      exact hwrite hblank _ _
    · split at hk
      · cases hk
        exact hwrite hblank _ _
      · cases hk
  | carriage =>
    cases hk
    exact hs

/-- What is on a screen after a run of keys is blank, or one of the keys put it
there. -/
theorem cells_keys {P : α → Prop} (hblank : P blank) {ks : List (Key α)}
    (hs : ∀ x y, P (s.cells x y)) (hput : ∀ c, Key.put c ∈ ks → P c)
    (hks : s.keys blank w h ks = some s') : ∀ x y, P (s'.cells x y) := by
  induction ks generalizing s with
  | nil =>
    cases hks
    exact hs
  | cons k ks ih =>
    rw [keys, List.foldlM_cons] at hks
    cases hk : s.key blank w h k with
    | none =>
      rw [hk] at hks
      cases hks
    | some s₁ =>
      rw [hk] at hks
      refine ih (cells_key hblank hs (fun c hc => hput c ?_) hk)
        (fun c hc => hput c (List.mem_cons_of_mem k hc)) hks
      exact List.mem_cons.2 (.inl hc.symm)

end Screen

/-! ## Terminals -/

/-- A terminal with unbounded scrollback: everything ever written, the cell the
cursor is in, and the first row of the window. -/
structure Terminal (α : Type) where
  cells : Cells α
  col : Int
  row : Int
  top : Int

namespace Terminal

variable {α : Type} (blank : α) (w h : Int)

/-- A terminal on which nothing was written. -/
def empty : Terminal α := { cells := fun _ _ => blank, col := 0, row := 0, top := 0 }

/-- The window moves down one row if the cursor left its bottom. -/
def follow (t : Terminal α) : Terminal α :=
  if t.row < t.top + h then t else { t with top := t.top + 1 }

/-- A terminal takes a key: a character is written at the cursor, which wraps at
column `w`; stepping back from the start of a row leads to the end of the row
above. -/
def key (t : Terminal α) : Key α → Terminal α
  | .put c =>
    let t := { t with cells := t.cells.write t.col t.row c }
    if t.col + 1 < w then { t with col := t.col + 1 }
    else ({ t with col := 0, row := t.row + 1 } : Terminal α).follow h
  | .newLine => ({ t with col := 0, row := t.row + 1 } : Terminal α).follow h
  | .back =>
    let (x, y) := if 0 < t.col then (t.col - 1, t.row) else (w - 1, t.row - 1)
    { t with cells := t.cells.write x y blank, col := x, row := y }
  | .carriage => { t with col := 0 }

/-- A terminal takes keys one after the other. -/
def keys (t : Terminal α) (ks : List (Key α)) : Terminal α := ks.foldl (key blank w h) t

/-- What the terminal shows: the rows from `top` on, and where the cursor is in
them. -/
def window (t : Terminal α) : Screen α :=
  { cells := fun x y => t.cells x (t.top + y), col := t.col, row := t.row - t.top }

/-- The cursor is in the window, and the page below the window is blank. -/
structure Framed (t : Terminal α) : Prop where
  cursor : Screen.CursorOn w h t.window
  blankBelow : ∀ x y, t.top + h ≤ y → t.cells x y = blank

variable {blank : α} {w h : Int} {t : Terminal α}

theorem framed_empty (hw : 1 ≤ w) (hh : 1 ≤ h) : Framed blank w h (empty blank) where
  cursor := by
    unfold Screen.CursorOn InGrid
    simp only [window, empty]
    omega
  blankBelow _ _ _ := rfl

theorem window_write (x y : Int) (c : α) :
    ({ t with cells := t.cells.write x y c } : Terminal α).window.cells =
      t.window.cells.write x (y - t.top) c := by
  funext x' y'
  have hiff : t.top + y' = y ↔ y' = y - t.top := by omega
  simp [window, Cells.write, hiff]

/-- Writing in a row of the window leaves the page below it blank. -/
theorem blankBelow_write (ht : Framed blank w h t) {x y : Int} (hy : y < t.top + h) (c : α) :
    ∀ x' y', t.top + h ≤ y' → t.cells.write x y c x' y' = blank := by
  intro x' y' hy'
  rw [Cells.write_of_ne (by omega)]
  exact ht.blankBelow x' y' hy'

/-- Going to the next row, the window is what a screen shows that does so. -/
theorem window_follow (hw : 1 ≤ w) (ht : Framed blank w h t) :
    (({ t with col := 0, row := t.row + 1 } : Terminal α).follow h).window =
        t.window.nextRow blank h ∧
      Framed blank w h (({ t with col := 0, row := t.row + 1 } : Terminal α).follow h) := by
  have hrow := ht.cursor.2
  simp only [window] at hrow
  unfold follow Screen.nextRow
  by_cases hin : t.row + 1 < t.top + h
  · have hin' : t.window.row + 1 < h := by simp only [window]; omega
    rw [if_pos hin, if_pos hin']
    refine ⟨?_, ⟨⟨by simp [window]; omega, by simp only [window]; omega⟩, ht.blankBelow⟩⟩
    simp only [window, Screen.mk.injEq, true_and]
    omega
  · have hin' : ¬ t.window.row + 1 < h := by simp only [window]; omega
    rw [if_neg hin, if_neg hin']
    refine ⟨?_, ⟨⟨by simp [window]; omega, by simp only [window]; omega⟩, fun x y hy => ?_⟩⟩
    · simp only [window, Screen.mk.injEq, true_and]
      refine ⟨?_, by omega⟩
      funext x y
      unfold Cells.scrollUp
      split
      next hy => exact ht.blankBelow x _ (by omega)
      next => rw [Int.add_assoc, Int.add_comm 1 y]
    · exact ht.blankBelow x y (by simp only at hy; omega)

/-- One key: unless it steps back from the first cell of the window, the window
is what a screen shows that takes it. -/
theorem window_key (hw : 1 ≤ w) (ht : Framed blank w h t) {k : Key α} {s : Screen α}
    (hk : t.window.key blank w h k = some s) :
    (t.key blank w h k).window = s ∧ Framed blank w h (t.key blank w h k) := by
  have hcol := ht.cursor.1
  have hrow := ht.cursor.2
  simp only [window] at hcol hrow
  cases k with
  | put c =>
    simp only [Screen.key, Option.some.injEq] at hk
    have hframed : Framed blank w h { t with cells := t.cells.write t.col t.row c } :=
      ⟨ht.cursor, blankBelow_write ht (by omega) c⟩
    have hwindow : ({ t with cells := t.cells.write t.col t.row c } : Terminal α).window =
        { t.window with cells := t.window.cells.write t.window.col t.window.row c } := by
      simp only [window, Screen.mk.injEq, and_true]
      exact window_write t.col t.row c
    subst hk
    simp only [key]
    by_cases hin : t.col + 1 < w
    · rw [if_pos hin, if_pos (show t.window.col + 1 < w from hin)]
      refine ⟨?_, ⟨⟨by simp only [window]; omega, by simp only [window]; omega⟩,
        hframed.blankBelow⟩⟩
      simp only [window, Screen.mk.injEq, and_true]
      exact congrArg Screen.cells hwindow
    · rw [if_neg hin, if_neg (show ¬ t.window.col + 1 < w from hin), ← hwindow]
      exact window_follow hw hframed
  | newLine =>
    cases hk
    exact window_follow hw ht
  | back =>
    simp only [Screen.key] at hk
    simp only [key]
    split at hk
    next hpos =>
      have hpos : 0 < t.col := hpos
      cases hk
      rw [if_pos hpos]
      refine ⟨?_, ⟨⟨by simp only [window]; omega, by simp only [window]; omega⟩,
        blankBelow_write ht (by omega) blank⟩⟩
      simp only [window, Screen.mk.injEq, and_true]
      exact window_write (t.col - 1) t.row blank
    next hpos =>
      have hpos : ¬ 0 < t.col := hpos
      split at hk
      next hup =>
        have hup : 0 < t.row - t.top := hup
        cases hk
        rw [if_neg hpos]
        refine ⟨?_, ⟨⟨by simp only [window]; omega, by simp only [window]; omega⟩,
          blankBelow_write ht (by omega) blank⟩⟩
        simp only [window, Screen.mk.injEq, true_and]
        refine ⟨?_, by omega⟩
        have := window_write (t := t) (w - 1) (t.row - 1) blank
        rw [show t.row - 1 - t.top = t.row - t.top - 1 by omega] at this
        exact this
      next => cases hk
  | carriage =>
    cases hk
    exact ⟨rfl, ⟨by simp only [window, key]; omega, by simp only [window, key]; omega⟩,
      ht.blankBelow⟩

/-- The window moves down by one row, which is blank, or not at all. -/
theorem top_key (ht : Framed blank w h t) (k : Key α) :
    (t.key blank w h k).top = t.top ∨ (t.key blank w h k).top = t.top + 1 ∧
      ∀ x, (t.key blank w h k).cells x (t.top + h) = blank := by
  have hrow := ht.cursor.2
  simp only [window] at hrow
  cases k with
  | put c =>
    simp only [key, follow]
    split
    · exact .inl rfl
    · split
      · exact .inl rfl
      · exact .inr ⟨rfl, fun x => blankBelow_write ht (by omega) c x _ (Int.le_refl _)⟩
  | newLine =>
    simp only [key, follow]
    split
    · exact .inl rfl
    · exact .inr ⟨rfl, fun x => ht.blankBelow x _ (Int.le_refl _)⟩
  | back => exact .inl rfl
  | carriage => exact .inl rfl

/-- A screen that takes keys shows the window of the terminal that takes them. -/
theorem window_keys (hw : 1 ≤ w) {ks : List (Key α)} (ht : Framed blank w h t)
    {s : Screen α} (hs : t.window.keys blank w h ks = some s) :
    (t.keys blank w h ks).window = s ∧ Framed blank w h (t.keys blank w h ks) := by
  induction ks generalizing t with
  | nil =>
    cases hs
    exact ⟨rfl, ht⟩
  | cons k ks ih =>
    rw [Screen.keys, List.foldlM_cons] at hs
    cases hk : t.window.key blank w h k with
    | none =>
      rw [hk] at hs
      cases hs
    | some s₁ =>
      rw [hk] at hs
      obtain ⟨hwindow, hframed⟩ := window_key hw ht hk
      exact ih hframed (by rw [hwindow]; exact hs)

end Terminal

end Microboot.Foundation
