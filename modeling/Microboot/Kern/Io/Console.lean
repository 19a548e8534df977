/-
  Kern/Io/Console.lean --- kern/io/console.c, the console every driver shares.

  A console is a grid of cells with a cursor, and a table of operations that the
  driver supplies.  `console_putc` and its helpers only move the cursor and call
  that table.  An operation reads the whole console and returns the driver's new
  private state: no driver moves the cursor or changes the grid in an operation.
-/
import Microboot.Foundation.Loop
import Microboot.Kern.Stdlib

set_option autoImplicit false

namespace Microboot.Kern.Io

open Microboot.Foundation

/-! ## `console_t` -/

/-- `console_t` without its operations, with a driver's private state `π`. -/
structure Console (π : Type) where
  xPos : Int
  yPos : Int
  width : Int
  height : Int
  priv : π

/-- The operations of a `console_t`. -/
structure ConsoleOps (π : Type) where
  /-- Put a character at an x and y position. -/
  putXy : Console π → Int → Int → UInt8 → Except Fault π
  /-- Set the position of the console cursor. -/
  setCursor : Console π → Int → Int → Except Fault π
  /-- Scroll the console up one row. -/
  scroll : Console π → Except Fault π
  /-- Set the colour that characters put after this call are drawn in. -/
  setColour : Console π → UInt16 → Except Fault π
  /-- Flush a rectangle of cells (x, y, width, height) to the display. -/
  invalidate : Console π → Int → Int → Int → Int → Except Fault π
  /-- Called before `invalidate` on a clear. -/
  clear : Console π → Except Fault π

/-- `' '`. -/
def space : UInt8 := 32

/-- `'\n'`. -/
def newline : UInt8 := 10

/-- `'\b'`. -/
def backspace : UInt8 := 8

/-- `'\r'`. -/
def carriageReturn : UInt8 := 13

namespace Console

variable {π : Type}

/-- The console after an operation that returned `r`. -/
def after (con : Console π) (r : Except Fault π) : Except Fault (Console π) :=
  r.map fun p => { con with priv := p }

@[simp] theorem after_ok (con : Console π) (p : π) :
    con.after (.ok p) = .ok { con with priv := p } := rfl

@[simp] theorem after_error (con : Console π) (e : Fault) :
    con.after (.error e) = .error e := rfl

theorem after_eq_ok {con con' : Console π} {r : Except Fault π} (h : con.after r = .ok con') :
    ∃ p, r = .ok p ∧ con' = { con with priv := p } := by
  cases r with
  | error e => cases h
  | ok p =>
    cases h
    exact ⟨p, rfl, rfl⟩

end Console

/-! ## console.c -/

section Functions

variable {π : Type}

/-- `console_clear_row(con, row)`, given the two operations it calls: a driver's
`scroll` calls it in turn.  The rectangle it invalidates has `row` for its column. -/
def consoleClearRow (putXy : Console π → Int → Int → UInt8 → Except Fault π)
    (invalidate : Console π → Int → Int → Int → Int → Except Fault π) (con : Console π)
    (row : Int) : Except Fault π := do
  let priv ← forUptoM con.width.toNat
    (fun x priv => putXy { con with priv := priv } x row space) con.priv
  invalidate { con with priv := priv } row 0 con.width 1

variable (ops : ConsoleOps π)

/-- A character put at the cursor: `con->put_xy(con, con->x_pos, con->y_pos, c)` and
`con->invalidate(con, con->x_pos, con->y_pos, 1, 1)`. -/
def consoleDraw (con : Console π) (c : UInt8) : Except Fault (Console π) := do
  let con ← con.after (ops.putXy con con.xPos con.yPos c)
  con.after (ops.invalidate con con.xPos con.yPos 1 1)

/-- `console_erase(con)`. -/
def consoleErase (con : Console π) : Except Fault (Console π) :=
  if 0 < con.xPos then
    consoleDraw ops { con with xPos := con.xPos - 1 } space
  else do
    require (con.xPos = 0) "Negative con->x_pos"
    require (0 < con.yPos) "Zero con->y_pos on erase"
    consoleDraw ops { con with yPos := con.yPos - 1, xPos := con.width - 1 } space

/-- The end of a row in `console_putc`: the cursor goes to the start of the next
row, and the console scrolls if that row is below the last one. -/
def consoleNextRow (con : Console π) : Except Fault (Console π) := do
  let con := { con with xPos := 0, yPos := con.yPos + 1 }
  if con.yPos ≥ con.height then
    let con := { con with yPos := con.yPos - 1 }
    let con ← con.after (ops.scroll con)
    con.after (ops.invalidate con 0 0 con.width con.height)
  else
    return con

/-- `con->set_cursor(con, con->x_pos, con->y_pos)`. -/
def consoleShowCursor (con : Console π) : Except Fault (Console π) :=
  con.after (ops.setCursor con con.xPos con.yPos)

/-- `console_putc(con, c)`. -/
def consolePutc (con : Console π) (c : UInt8) : Except Fault (Console π) := do
  if c = newline then
    let con ← consoleNextRow ops con
    consoleShowCursor ops con
  else if c = backspace then
    let con ← consoleErase ops con
    consoleShowCursor ops con
  else if c = carriageReturn then
    consoleShowCursor ops { con with xPos := 0 }
  else
    let con ← consoleDraw ops con c
    let con := { con with xPos := con.xPos + 1 }
    let con ← if con.xPos ≥ con.width then consoleNextRow ops con else pure con
    consoleShowCursor ops con

/-- The characters of `cs`, one `console_putc` after the other. -/
def consolePuts (con : Console π) (cs : List UInt8) : Except Fault (Console π) :=
  cs.foldlM (consolePutc ops) con

/-- `console_pad(con, n)`. -/
def consolePad (con : Console π) (n : Nat) : Except Fault (Console π) :=
  consolePuts ops con (List.replicate n space)

/-- The loop of `console_clear` that puts a space in every cell. -/
def consoleBlank (con : Console π) : Except Fault π :=
  forUptoM con.height.toNat
    (fun y => forUptoM con.width.toNat
      (fun x priv => ops.putXy { con with priv := priv } x y space)) con.priv

/-- `console_clear(con)`. -/
def consoleClear (con : Console π) : Except Fault (Console π) := do
  let con ← con.after (consoleBlank ops con)
  let con ← con.after (ops.clear con)
  let con ← con.after (ops.invalidate con 0 0 con.width con.height)
  return { con with xPos := 0, yPos := 0 }

/-- `console_colour(con, colour)`. -/
def consoleColour (con : Console π) (colour : UInt16) : Except Fault (Console π) :=
  con.after (ops.setColour con colour)

end Functions

end Microboot.Kern.Io
