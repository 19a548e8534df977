/-
  Kern/Io/Putc.lean --- what console_putc does over any driver.

  `Lawful` says what console.c relies on: each operation of the driver returns
  when it is called for cells of the grid, and has the effect its comment in
  console.h promises on the characters shown, `R` relating the driver's state to
  them.  A driver may show the cursor beside the characters, or paint it into the
  cell it is in; `R` also names the cell with the painted cursor, and a driver
  that paints need not show the right character in a cell the cursor left unless
  that character is a space.

  `consolePuts_mirrors` is the simulation: over a lawful driver the console does
  what a `Screen` does, and fails exactly where the screen cannot step back.
-/
import Microboot.Foundation.Run
import Microboot.Foundation.Terminal
import Microboot.Kern.Io.Console

set_option autoImplicit false

namespace Microboot.Kern.Io

open Microboot.Foundation

/-! ## Characters as keys -/

/-- What `console_putc` takes the character `c` for. -/
def keyOf (c : UInt8) : Foundation.Key UInt8 :=
  if c = newline then .newLine
  else if c = backspace then .back
  else if c = carriageReturn then .carriage
  else .put c

/-- No backspace arrives while the cursor is in the first cell. -/
abbrev EraseSafe {π : Type} (ops : ConsoleOps π) : Console π → List UInt8 → Prop :=
  AllSteps (consolePutc ops) fun con c => c = backspace → ¬ (con.xPos = 0 ∧ con.yPos = 0)

/-- The fault of `console_erase` in the first cell. -/
def eraseFault : Fault := .assert "Zero con->y_pos on erase"

/-! ## Drivers -/

/-- The cell of a painted cursor, once `(x, y)` is drawn over. -/
def drawnOver (x y : Int) (k : Option (Int × Int)) : Option (Int × Int) :=
  if k = some (x, y) then none else k

theorem drawnOver_none (x y : Int) : drawnOver x y none = none := rfl

theorem drawnOver_same (x y : Int) : drawnOver x y (some (x, y)) = none := if_pos rfl

/-- A painted cursor that is left was left elsewhere. -/
theorem drawnOver_eq_some {x y : Int} {k : Option (Int × Int)} {c : Int × Int}
    (h : drawnOver x y k = some c) : k = some c ∧ c ≠ (x, y) := by
  unfold drawnOver at h
  split at h
  · cases h
  · next hne =>
    refine ⟨h, ?_⟩
    rintro rfl
    exact hne h

theorem drawnOver_ne (x y : Int) (k : Option (Int × Int)) : drawnOver x y k ≠ some (x, y) :=
  fun h => (drawnOver_eq_some h).2 rfl

/-- The cells drawn since the calls `old` are on the grid. -/
def PutsInGrid (w h : Int) (old puts : List (Int × Int)) : Prop :=
  ∃ new, puts = new ++ old ∧ ∀ c ∈ new, InGrid w h c.1 c.2

theorem PutsInGrid.refl {w h : Int} (old : List (Int × Int)) : PutsInGrid w h old old :=
  ⟨[], rfl, fun _ hc => (nomatch hc)⟩

theorem PutsInGrid.cons {w h x y : Int} {old puts : List (Int × Int)}
    (hputs : PutsInGrid w h old puts) (hin : InGrid w h x y) :
    PutsInGrid w h old ((x, y) :: puts) := by
  obtain ⟨new, rfl, hnew⟩ := hputs
  refine ⟨(x, y) :: new, rfl, fun c hc => ?_⟩
  rcases List.mem_cons.1 hc with rfl | hc
  · exact hin
  · exact hnew c hc

/-- Leaving the painted cell for `(x, y)` leaves a space behind. -/
def LeavesSpace (s : Cells UInt8) (k : Option (Int × Int)) (x y : Int) : Prop :=
  ∀ a b, k = some (a, b) → ¬ (a = x ∧ b = y) → s a b = space

/-- How a driver draws.  `R p s k`: in state `p` it shows the characters `s`, but
for the cell `k` the cursor is painted in. -/
structure Draws {π : Type} (putXy : Console π → Int → Int → UInt8 → Except Fault π)
    (invalidate : Console π → Int → Int → Int → Int → Except Fault π) (w h : Int)
    (R : π → Cells UInt8 → Option (Int × Int) → Prop) : Prop where
  put : ∀ (con : Console π) {s k} {x y : Int} (c : UInt8), con.width = w → con.height = h →
    InGrid w h x y → R con.priv s k →
    ∃ p, putXy con x y c = .ok p ∧ R p (s.write x y c) (drawnOver x y k)
  flush : ∀ (con : Console π) {s k} (x y a b : Int), R con.priv s k →
    ∃ p, invalidate con x y a b = .ok p ∧ R p s k
  onGrid : ∀ {p s} {a b : Int}, R p s (some (a, b)) → InGrid w h a b
  congr : ∀ {p s s' k}, (∀ x y, InGrid w h x y → s x y = s' x y) → R p s k → R p s' k

/-- What console.c relies on.  The conditions under `painted` are those of a driver
that paints the cursor. -/
structure Lawful {π : Type} (ops : ConsoleOps π) (w h : Int) (painted : Prop)
    (R : π → Cells UInt8 → Option (Int × Int) → Prop) : Prop
    extends Draws ops.putXy ops.invalidate w h R where
  setCursor : ∀ (con : Console π) {s k} {x y : Int}, con.width = w → con.height = h →
    InGrid w h x y → (painted → LeavesSpace s k x y) → R con.priv s k →
    ∃ p, ops.setCursor con x y = .ok p ∧ R p s (some (x, y))
  scroll : ∀ (con : Console π) {s k}, con.width = w → con.height = h →
    con.yPos = h - 1 → (∀ a b, k = some (a, b) → b = h - 1) → (painted → k = none ∨ h = 1) →
    R con.priv s k → ∃ p, ops.scroll con = .ok p ∧ R p (s.scrollUp space h) none

/-- The console `con` is where the screen `s` is, and shows what it shows. -/
structure Mirrors {π : Type} (w h : Int) (R : π → Cells UInt8 → Option (Int × Int) → Prop)
    (con : Console π) (s : Screen UInt8) (k : Option (Int × Int)) : Prop where
  width : con.width = w
  height : con.height = h
  col : con.xPos = s.col
  row : con.yPos = s.row
  shows : R con.priv s.cells k

/-- The cursor is painted in its own cell, if at all. -/
def Settled (s : Screen UInt8) (k : Option (Int × Int)) : Prop :=
  k = none ∨ k = some (s.col, s.row)

/-- A key that a painting driver handles: the cursor leaves a space behind, and
no painted cursor scrolls up. -/
def Quiet (h : Int) (s : Screen UInt8) : Foundation.Key UInt8 → Prop
  | .put _ => True
  | .newLine => if s.row + 1 < h then s.cells s.col s.row = space else h = 1
  | .back => s.cells s.col s.row = space
  | .carriage => s.col = 0 ∨ s.cells s.col s.row = space

/-- Every key of a run is handled. -/
def QuietRun (w h : Int) : Screen UInt8 → List UInt8 → Prop
  | _, [] => True
  | s, c :: cs => Quiet h s (keyOf c) ∧
    ∀ s', s.key space w h (keyOf c) = some s' → QuietRun w h s' cs

/-! ## One row -/

/-- Behind the first `x` rounds of `console_clear_row`: the first `x` cells of the
row show a space, and there is no painted cursor in them. -/
def RowBlankUpto {π : Type} (w h : Int) (R : π → Cells UInt8 → Option (Int × Int) → Prop)
    (row : Int) (s : Cells UInt8) (k : Option (Int × Int)) (x : Nat) (p : π) : Prop :=
  ∃ s' k', R p s' k' ∧
    (∀ a b : Int, InGrid w h a b → s' a b = if b = row ∧ a < x then space else s a b) ∧
    ∀ a b : Int, k' = some (a, b) → k = some (a, b) ∧ ¬ (b = row ∧ a < x)

/-- `console_clear_row` puts a space in each cell of the row. -/
theorem consoleClearRow_shows {π : Type} {putXy : Console π → Int → Int → UInt8 → Except Fault π}
    {invalidate : Console π → Int → Int → Int → Int → Except Fault π} {w h : Int}
    {R : π → Cells UInt8 → Option (Int × Int) → Prop} (D : Draws putXy invalidate w h R)
    (con : Console π) (row : Int) (hwidth : con.width = w) (hheight : con.height = h)
    (hrow : 0 ≤ row ∧ row < h) {s : Cells UInt8} {k : Option (Int × Int)}
    (hR : R con.priv s k) :
    ∃ p k', consoleClearRow putXy invalidate con row = .ok p ∧
      R p (fun x y => if y = row then space else s x y) k' ∧
      ∀ a b, k' = some (a, b) → k = some (a, b) ∧ b ≠ row := by
  have hstart : RowBlankUpto w h R row s k 0 con.priv := by
    refine ⟨s, k, hR, fun a b hin => ?_, fun a b hk => ⟨hk, fun hlt => ?_⟩⟩
    · rw [if_neg fun hlt => ?_]
      unfold InGrid at hin
      omega
    · subst hk
      have := D.onGrid hR
      unfold InGrid at this
      omega
  have hcell : ∀ x, x < con.width.toNat → ∀ p, RowBlankUpto w h R row s k x p →
      ∃ p', putXy { con with priv := p } x row space = .ok p' ∧
        RowBlankUpto w h R row s k (x + 1) p' := by
    rintro x hx p ⟨s', k', hR', hcells, hk'⟩
    obtain ⟨p', hp', hR'⟩ := D.put { con with priv := p } (x := x) (y := row) space hwidth
      hheight ⟨⟨by omega, by omega⟩, hrow⟩ hR'
    refine ⟨p', hp', _, _, hR', fun a b hin => ?_, fun a b hk => ?_⟩
    · by_cases hsame : a = x ∧ b = row
      · obtain ⟨rfl, rfl⟩ := hsame
        rw [Cells.write_same, if_pos ⟨rfl, by omega⟩]
      · rw [Cells.write_of_ne hsame, hcells a b hin]
        by_cases hlt : b = row ∧ a < x
        · rw [if_pos hlt, if_pos (by omega)]
        · rw [if_neg hlt, if_neg (by omega)]
    · obtain ⟨hk, hne⟩ := drawnOver_eq_some hk
      obtain ⟨hk, hlt⟩ := hk' a b hk
      refine ⟨hk, fun hle => hne ?_⟩
      rw [Prod.mk.injEq]
      omega
  obtain ⟨p, hp, s', k', hR', hcells, hk'⟩ := forUptoM_ok (RowBlankUpto w h R row s k) hstart hcell
  obtain ⟨p', hp', hR'⟩ := D.flush { con with priv := p } row 0 con.width 1 hR'
  refine ⟨p', k', ?_, D.congr (fun a b hin => ?_) hR', fun a b hk => ⟨(hk' a b hk).1, ?_⟩⟩
  · rw [consoleClearRow, hp]
    exact hp'
  · rw [hcells a b hin]
    unfold InGrid at hin
    by_cases hb : b = row
    · rw [if_pos hb, if_pos ⟨hb, by omega⟩]
    · rw [if_neg hb, if_neg fun h => hb h.1]
  · subst hk
    have hin := D.onGrid hR'
    have := (hk' a b rfl).2
    unfold InGrid at hin
    omega

/-- A cursor that is drawn in the row is gone. -/
theorem consoleClearRow_overCursor {π : Type}
    {putXy : Console π → Int → Int → UInt8 → Except Fault π}
    {invalidate : Console π → Int → Int → Int → Int → Except Fault π} {w h : Int}
    {R : π → Cells UInt8 → Option (Int × Int) → Prop} (D : Draws putXy invalidate w h R)
    (con : Console π) (row : Int) (hwidth : con.width = w) (hheight : con.height = h)
    (hrow : 0 ≤ row ∧ row < h) {s : Cells UInt8} {k : Option (Int × Int)}
    (hk : ∀ a b, k = some (a, b) → b = row) (hR : R con.priv s k) :
    ∃ p, consoleClearRow putXy invalidate con row = .ok p ∧
      R p (fun x y => if y = row then space else s x y) none := by
  obtain ⟨p, k', hok, hR', hk'⟩ := consoleClearRow_shows D con row hwidth hheight hrow hR
  cases k' with
  | none => exact ⟨p, hok, hR'⟩
  | some q =>
    obtain ⟨hkq, hne⟩ := hk' q.1 q.2 rfl
    exact absurd (hk q.1 q.2 hkq) hne

/-! ## One character -/

section Step

variable {π : Type} {ops : ConsoleOps π} {w h : Int} {painted : Prop}
  {R : π → Cells UInt8 → Option (Int × Int) → Prop} {con : Console π} {s : Screen UInt8}
  {k : Option (Int × Int)}

theorem LeavesSpace.none (s : Cells UInt8) (x y : Int) : LeavesSpace s none x y := by
  intro a b hk
  cases hk

/-- A settled cursor leaves a space behind if it does not move or stands on one. -/
theorem Settled.leavesSpace (hk : Settled s k) {cells : Cells UInt8} {x y : Int}
    (hspace : (s.col = x ∧ s.row = y) ∨ cells s.col s.row = space) :
    LeavesSpace cells k x y := by
  intro a b hab hne
  rcases hk with rfl | rfl
  · cases hab
  · cases hab
    rcases hspace with hsame | hspace
    · exact absurd hsame hne
    · exact hspace

/-- Drawing over the cursor's cell, there is no painted cursor left. -/
theorem Settled.drawnOver (hk : Settled s k) : drawnOver s.col s.row k = none := by
  rcases hk with rfl | rfl
  · exact drawnOver_none s.col s.row
  · exact drawnOver_same s.col s.row

variable (con s) in
theorem consoleShowCursor_mirrors (L : Lawful ops w h painted R) (hm : Mirrors w h R con s k)
    (hs : s.CursorOn w h) (hleave : painted → LeavesSpace s.cells k s.col s.row) :
    ∃ con', consoleShowCursor ops con = .ok con' ∧
      Mirrors w h R con' s (some (s.col, s.row)) := by
  have hin : InGrid w h con.xPos con.yPos := by rw [hm.col, hm.row]; exact hs
  obtain ⟨p, hp, hR⟩ := L.setCursor con hm.width hm.height hin
    (by rw [hm.col, hm.row]; exact hleave) hm.shows
  refine ⟨{ con with priv := p }, by rw [consoleShowCursor, hp]; rfl, ?_⟩
  exact ⟨hm.width, hm.height, hm.col, hm.row, by rw [← hm.col, ← hm.row]; exact hR⟩

/-- A character put at the cursor. -/
theorem consoleDraw_shows (L : Lawful ops w h painted R) (con : Console π)
    (hwidth : con.width = w) (hheight : con.height = h) {cells : Cells UInt8}
    {k : Option (Int × Int)} (c : UInt8) (hin : InGrid w h con.xPos con.yPos)
    (hR : R con.priv cells k) :
    ∃ p, consoleDraw ops con c = .ok { con with priv := p } ∧
      R p (cells.write con.xPos con.yPos c) (drawnOver con.xPos con.yPos k) := by
  obtain ⟨p, hp, hR⟩ := L.put con c hwidth hheight hin hR
  obtain ⟨p', hp', hR⟩ := L.flush { con with priv := p } con.xPos con.yPos 1 1 hR
  refine ⟨p', ?_, hR⟩
  rw [consoleDraw, hp]
  simp only [Console.after_ok, bind, Except.bind]
  rw [hp']
  rfl

variable (con s) in
/-- The end of a row, wherever in it the cursor is. -/
theorem consoleNextRow_mirrors (L : Lawful ops w h painted R) (hwidth : con.width = w)
    (hheight : con.height = h) (hrow : con.yPos = s.row) (hs : s.row < h)
    (hR : R con.priv s.cells k) (hk : ∀ a b, k = some (a, b) → b = s.row)
    (hquiet : painted → ¬ s.row + 1 < h → k = none ∨ h = 1) :
    ∃ con' k', consoleNextRow ops con = .ok con' ∧ Mirrors w h R con' (s.nextRow space h) k' ∧
      (k' = none ∨ s.row + 1 < h ∧ k' = k) := by
  unfold consoleNextRow Screen.nextRow
  by_cases hlast : s.row + 1 < h
  · rw [if_neg (by simp only; omega), if_pos hlast]
    exact ⟨_, k, rfl, ⟨hwidth, hheight, rfl, by simp only; omega, hR⟩, .inr ⟨hlast, rfl⟩⟩
  · rw [if_pos (by simp only; omega), if_neg hlast]
    obtain ⟨p, hp, hR⟩ := L.scroll
      { con with xPos := 0, yPos := con.yPos + 1 - 1 } hwidth hheight
      (by simp only; omega) (fun a b hab => by rw [hk a b hab]; omega)
      (fun hpaint => hquiet hpaint hlast) hR
    obtain ⟨p', hp', hR⟩ := L.flush
      { con with xPos := 0, yPos := con.yPos + 1 - 1, priv := p } 0 0 con.width con.height hR
    refine ⟨{ con with xPos := 0, yPos := con.yPos + 1 - 1, priv := p' }, none, ?_, ?_, .inl rfl⟩
    · simp only [hp, Console.after_ok, bind, Except.bind]
      rw [hp']
      rfl
    · exact ⟨hwidth, hheight, rfl, by simp only; omega, hR⟩

/-- A step back: the console asserts that there is a cell to step back to. -/
theorem consoleErase_mirrors (L : Lawful ops w h painted R) (hm : Mirrors w h R con s k)
    (hs : s.CursorOn w h) :
    (s.key space w h .back = none ∧ con.xPos = 0 ∧ con.yPos = 0 ∧
        consoleErase ops con = .error eraseFault) ∨
      ∃ s' con', s.key space w h .back = some s' ∧ ¬ (con.xPos = 0 ∧ con.yPos = 0) ∧
        consoleErase ops con = .ok con' ∧
        Mirrors w h R con' s' (drawnOver s'.col s'.row k) ∧
        (s'.cells = s.cells.write s'.col s'.row space) := by
  have hcol := hs.1
  have hrow := hs.2
  have hx := hm.col
  have hy := hm.row
  simp only [Screen.key]
  unfold consoleErase
  by_cases hpos : 0 < s.col
  · right
    obtain ⟨p, hp, hR⟩ := consoleDraw_shows L { con with xPos := con.xPos - 1 } hm.width
      hm.height space ⟨⟨by simp only; omega, by simp only; omega⟩, by simp only; omega,
      by simp only; omega⟩ hm.shows
    rw [if_pos hpos, if_pos (show 0 < con.xPos by omega)]
    refine ⟨_, { con with xPos := con.xPos - 1, priv := p }, rfl, by omega, hp, ?_, rfl⟩
    simp only [hx, hy] at hR
    exact ⟨hm.width, hm.height, by simp only [hx], hy, hR⟩
  · have hzero : con.xPos = 0 := by omega
    rw [if_neg hpos, if_neg (show ¬ 0 < con.xPos by omega), require_of _ hzero]
    by_cases hup : 0 < s.row
    · right
      obtain ⟨p, hp, hR⟩ := consoleDraw_shows L
        { con with xPos := con.width - 1, yPos := con.yPos - 1 } hm.width hm.height space
        ⟨⟨by simp only [hm.width]; omega, by simp only [hm.width]; omega⟩, by simp only; omega,
          by simp only; omega⟩ hm.shows
      rw [if_pos hup, require_of _ (show 0 < con.yPos by omega)]
      refine ⟨_, { con with xPos := con.width - 1, yPos := con.yPos - 1, priv := p }, rfl,
        by omega, hp, ?_, rfl⟩
      simp only [hm.width, hy] at hR
      exact ⟨hm.width, hm.height, by simp only [hm.width], by simp only [hy], hR⟩
    · left
      rw [if_neg hup]
      refine ⟨rfl, hzero, by omega, ?_⟩
      rw [require, if_neg (show ¬ 0 < con.yPos by omega)]
      rfl

/-- A character at the cursor, which then steps on. -/
theorem consolePutChar_mirrors (L : Lawful ops w h painted R) (hw : 1 ≤ w)
    (hm : Mirrors w h R con s k) (hs : s.CursorOn w h) (hk : Settled s k) (c : UInt8) :
    ∃ s' con', s.key space w h (.put c) = some s' ∧
      (do
        let con ← consoleDraw ops con c
        let con := { con with xPos := con.xPos + 1 }
        let con ← if con.xPos ≥ con.width then consoleNextRow ops con else pure con
        consoleShowCursor ops con) = .ok con' ∧
      Mirrors w h R con' s' (some (s'.col, s'.row)) := by
  have hin : InGrid w h con.xPos con.yPos := by rw [hm.col, hm.row]; exact hs
  obtain ⟨p', hdraw, hR⟩ := consoleDraw_shows L con hm.width hm.height c hin hm.shows
  rw [hm.col, hm.row, hk.drawnOver] at hR
  have hcols := hs.1
  have hx := hm.col
  rw [hdraw]
  simp only [bind, Except.bind]
  by_cases hfit : s.col + 1 < w
  · rw [if_neg (by simp only [hm.width]; omega)]
    obtain ⟨con₂, hshow, hm₂⟩ := consoleShowCursor_mirrors
      { con with xPos := con.xPos + 1, priv := p' }
      { cells := s.cells.write s.col s.row c, col := s.col + 1, row := s.row } L
      ⟨hm.width, hm.height, by simp only; omega, hm.row, hR⟩
      ⟨⟨by simp only; omega, hfit⟩, hs.2⟩ fun _ => LeavesSpace.none _ _ _
    exact ⟨_, con₂, by simp only [Screen.key]; rw [if_pos hfit], hshow, hm₂⟩
  · rw [if_pos (by simp only [hm.width]; omega)]
    obtain ⟨con₁, k₁, hnext, hm₁, hk₁⟩ := consoleNextRow_mirrors
      { con with xPos := con.xPos + 1, priv := p' }
      { cells := s.cells.write s.col s.row c, col := s.col, row := s.row } L
      hm.width hm.height hm.row hs.2.2 hR (fun a b hab => by cases hab)
      fun _ _ => .inl rfl
    have hk₁ : k₁ = none := by
      rcases hk₁ with h | ⟨-, h⟩ <;> exact h
    subst hk₁
    obtain ⟨con₂, hshow, hm₂⟩ := consoleShowCursor_mirrors _ _ L hm₁
      (Screen.nextRow_cursorOn hw hs) fun _ => LeavesSpace.none _ _ _
    refine ⟨_, con₂, by simp only [Screen.key]; rw [if_neg hfit], ?_, hm₂⟩
    rw [hnext]
    exact hshow

/-- One character: the console does what the screen does with its key, and fails
where the screen cannot step back. -/
theorem consolePutc_mirrors (L : Lawful ops w h painted R) (hw : 1 ≤ w)
    (hm : Mirrors w h R con s k) (hs : s.CursorOn w h) (hk : Settled s k) (c : UInt8)
    (hquiet : painted → Quiet h s (keyOf c)) :
    (s.key space w h (keyOf c) = none ∧ c = backspace ∧ (con.xPos = 0 ∧ con.yPos = 0) ∧
        consolePutc ops con c = .error eraseFault) ∨
      ∃ s' con', s.key space w h (keyOf c) = some s' ∧
        (c = backspace → ¬ (con.xPos = 0 ∧ con.yPos = 0)) ∧
        consolePutc ops con c = .ok con' ∧ Mirrors w h R con' s' (some (s'.col, s'.row)) := by
  have hrow : ∀ a b, k = some (a, b) → b = s.row := by
    intro a b hab
    rcases hk with rfl | rfl
    · cases hab
    · cases hab
      rfl
  unfold keyOf at hquiet ⊢
  unfold consolePutc
  by_cases hnl : c = newline
  · -- '\n'
    right
    rw [if_pos hnl] at hquiet ⊢
    rw [if_pos hnl]
    obtain ⟨con₁, k₁, hnext, hm₁, hk₁⟩ := consoleNextRow_mirrors con s L hm.width hm.height hm.row
      hs.2.2 hm.shows hrow fun hpaint hlast => by
        have := hquiet hpaint
        rw [Quiet, if_neg hlast] at this
        exact .inr this
    obtain ⟨con₂, hshow, hm₂⟩ := consoleShowCursor_mirrors _ _ L hm₁
      (Screen.nextRow_cursorOn hw hs) fun hpaint => by
        rcases hk₁ with rfl | ⟨hlast, rfl⟩
        · exact LeavesSpace.none _ _ _
        · have hspace := hquiet hpaint
          rw [Quiet, if_pos hlast] at hspace
          refine hk.leavesSpace (.inr ?_)
          rw [Screen.nextRow, if_pos hlast]
          exact hspace
    refine ⟨s.nextRow space h, con₂, rfl, ?_, by rw [hnext]; exact hshow, hm₂⟩
    rintro rfl
    exact absurd hnl (by decide)
  · rw [if_neg hnl] at hquiet ⊢
    rw [if_neg hnl]
    by_cases hbs : c = backspace
    · -- '\b'
      rw [if_pos hbs] at hquiet ⊢
      rw [if_pos hbs]
      rcases consoleErase_mirrors L hm hs with ⟨hnone, hx, hy, herr⟩ | ⟨s₁, con₁, hkey, hne,
        hok, hm₁, hcells⟩
      · left
        exact ⟨hnone, hbs, ⟨hx, hy⟩, by rw [herr]; rfl⟩
      · right
        obtain ⟨con₂, hshow, hm₂⟩ := consoleShowCursor_mirrors _ _ L hm₁
          (Screen.key_cursorOn hw hs hkey) fun hpaint => by
            intro a b hab hmoved
            have hab := (drawnOver_eq_some hab).1
            have hspace := hk.leavesSpace (x := s₁.col) (y := s₁.row) (.inr (hquiet hpaint))
            rw [hcells, Cells.write_of_ne hmoved]
            exact hspace a b hab hmoved
        exact ⟨s₁, con₂, hkey, fun _ => hne, by rw [hok]; exact hshow, hm₂⟩
    · rw [if_neg hbs] at hquiet ⊢
      rw [if_neg hbs]
      right
      by_cases hcr : c = carriageReturn
      · -- '\r'
        rw [if_pos hcr] at hquiet ⊢
        rw [if_pos hcr]
        have hm₁ : Mirrors w h R { con with xPos := 0 } { s with col := 0 } k :=
          ⟨hm.width, hm.height, rfl, hm.row, hm.shows⟩
        have hs₁ : ({ s with col := 0 } : Screen UInt8).CursorOn w h :=
          ⟨⟨Int.le_refl 0, by simp only; omega⟩, hs.2⟩
        obtain ⟨con₂, hshow, hm₂⟩ := consoleShowCursor_mirrors _ _ L hm₁ hs₁ fun hpaint =>
          hk.leavesSpace ((hquiet hpaint).imp (fun h0 => ⟨h0, rfl⟩) id)
        exact ⟨{ s with col := 0 }, con₂, rfl, fun h => absurd h hbs, hshow, hm₂⟩
      · -- any other character
        rw [if_neg hcr] at hquiet ⊢
        rw [if_neg hcr]
        obtain ⟨s', con', hkey, hok, hm'⟩ := consolePutChar_mirrors L hw hm hs hk c
        exact ⟨s', con', hkey, fun h => absurd h hbs, hok, hm'⟩

end Step

/-! ## Runs -/

section Runs

variable {π : Type} {ops : ConsoleOps π} {w h : Int} {painted : Prop}
  {R R' : π → Cells UInt8 → Option (Int × Int) → Prop}

/-- A run of characters: the console does what the screen does with their keys,
and fails where the screen cannot step back. -/
theorem consolePuts_mirrors (L : Lawful ops w h painted R) (hw : 1 ≤ w) (cs : List UInt8)
    {con : Console π} {s : Screen UInt8} {k : Option (Int × Int)}
    (hm : Mirrors w h R con s k) (hs : s.CursorOn w h) (hk : Settled s k)
    (hquiet : painted → QuietRun w h s cs) :
    (¬ EraseSafe ops con cs ∧ s.keys space w h (cs.map keyOf) = none ∧
        consolePuts ops con cs = .error eraseFault) ∨
      ∃ s' con' k', EraseSafe ops con cs ∧ s.keys space w h (cs.map keyOf) = some s' ∧
        consolePuts ops con cs = .ok con' ∧ Mirrors w h R con' s' k' ∧ s'.CursorOn w h ∧
        Settled s' k' := by
  induction cs generalizing con s k with
  | nil => exact .inr ⟨s, con, k, trivial, rfl, rfl, hm, hs, hk⟩
  | cons c cs ih =>
    rw [EraseSafe, AllSteps, consolePuts, List.foldlM_cons, List.map_cons, Screen.keys,
      List.foldlM_cons]
    rcases consolePutc_mirrors L hw hm hs hk c fun hpaint => (hquiet hpaint).1 with
      ⟨hnone, hbs, horigin, herr⟩ | ⟨s₁, con₁, hkey, hne, hok, hm₁⟩
    · left
      exact ⟨fun hsafe => hsafe.1 hbs horigin, by rw [hnone]; rfl, by rw [herr]; rfl⟩
    · rw [hok, hkey]
      rcases ih hm₁ (Screen.key_cursorOn hw hs hkey) (.inr rfl)
        fun hpaint => (hquiet hpaint).2 s₁ hkey with ⟨hnot, hfail⟩ | ⟨s', con', k', hsafe, hrest⟩
      · exact .inl ⟨fun hsafe => hnot hsafe.2, hfail⟩
      · exact .inr ⟨s', con', k', ⟨hne, hsafe⟩, hrest⟩

/-- In front of cell `(x, y)` of `console_clear`: the cells before it, row by row,
show a space, and there is no painted cursor in them. -/
def BlankUpto {π : Type} (w h : Int) (R : π → Cells UInt8 → Option (Int × Int) → Prop)
    (y x : Nat) (p : π) : Prop :=
  ∃ s k, R p s k ∧ ∀ a b : Int, InGrid w h a b → (b < y ∨ b = y ∧ a < x) →
    s a b = space ∧ k ≠ some (a, b)

/-- Putting a space in every cell, whatever they showed. -/
theorem consoleBlank_shows (D : Draws ops.putXy ops.invalidate w h R) (con : Console π)
    (hwidth : con.width = w) (hheight : con.height = h) {s : Cells UInt8}
    {k : Option (Int × Int)} (hR : R con.priv s k) :
    ∃ p, consoleBlank ops con = .ok p ∧ R p (fun _ _ => space) none := by
  have hstart : BlankUpto w h R 0 0 con.priv :=
    ⟨s, k, hR, fun a b hin hlt => by unfold InGrid at hin; omega⟩
  have hcell : ∀ y x, y < con.height.toNat → x < con.width.toNat → ∀ p, BlankUpto w h R y x p →
      ∃ p', ops.putXy { con with priv := p } x y space = .ok p' ∧
        BlankUpto w h R y (x + 1) p' := by
    rintro y x hy hx p ⟨s', k', hR', hdone⟩
    obtain ⟨p', hp', hR'⟩ := D.put { con with priv := p } (x := x) (y := y) space hwidth
      hheight ⟨⟨by omega, by omega⟩, by omega, by omega⟩ hR'
    refine ⟨p', hp', _, _, hR', fun a b hin hlt => ?_⟩
    by_cases hsame : a = x ∧ b = y
    · obtain ⟨rfl, rfl⟩ := hsame
      exact ⟨Cells.write_same s' x y space, drawnOver_ne x y k'⟩
    · obtain ⟨hspace, hne⟩ := hdone a b hin (by omega)
      exact ⟨by rw [Cells.write_of_ne hsame]; exact hspace,
        fun hk => hne (drawnOver_eq_some hk).1⟩
  have hrow : ∀ y, y < con.height.toNat → ∀ p, BlankUpto w h R y con.width.toNat p →
      BlankUpto w h R (y + 1) 0 p := by
    rintro y hy p ⟨s', k', hR', hdone⟩
    refine ⟨s', k', hR', fun a b hin hlt => hdone a b hin ?_⟩
    unfold InGrid at hin
    omega
  obtain ⟨p, hp, s', k', hR', hdone⟩ := forUptoM_grid_ok (BlankUpto w h R) hstart hcell hrow
  have hdone : ∀ a b, InGrid w h a b → s' a b = space ∧ k' ≠ some (a, b) := fun a b hin =>
    hdone a b hin (by unfold InGrid at hin; omega)
  have hk' : k' = none := by
    cases k' with
    | none => rfl
    | some c => exact absurd rfl (hdone c.1 c.2 (D.onGrid hR')).2
  subst hk'
  exact ⟨p, hp, D.congr (fun a b hin => (hdone a b hin).1) hR'⟩

/-- A cleared console shows an empty screen.  `R` is what the driver keeps while
the cells are blanked, `R'` what its own `clear` establishes. -/
theorem consoleClear_mirrors (D : Draws ops.putXy ops.invalidate w h R)
    (D' : Draws ops.putXy ops.invalidate w h R') (con : Console π) (hwidth : con.width = w)
    (hheight : con.height = h) {s : Cells UInt8} {k : Option (Int × Int)} (hR : R con.priv s k)
    (hclear : ∀ con' : Console π, R con'.priv (fun _ _ => space) none →
      ∃ p, ops.clear con' = .ok p ∧ R' p (fun _ _ => space) none) :
    ∃ con', consoleClear ops con = .ok con' ∧ Mirrors w h R' con' (Screen.empty space) none := by
  obtain ⟨p, hp, hR⟩ := consoleBlank_shows D con hwidth hheight hR
  obtain ⟨p', hp', hR'⟩ := hclear { con with priv := p } hR
  obtain ⟨p'', hp'', hR'⟩ := D'.flush { con with priv := p' } 0 0 con.width con.height hR'
  refine ⟨{ con with priv := p'', xPos := 0, yPos := 0 }, ?_, ⟨hwidth, hheight, rfl, rfl, hR'⟩⟩
  rw [consoleClear, hp]
  simp only [Console.after_ok, bind, Except.bind]
  rw [hp']
  simp only [Console.after_ok]
  rw [hp'']
  rfl

end Runs

end Microboot.Kern.Io
