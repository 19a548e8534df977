/-
  Kern/Io/Vga.lean --- kern/io/vga.c, the text mode console.

  The text buffer is row-major, one 16-bit entry a cell: the character in the low
  byte and its colour in the high byte.  The cursor is the display hardware's own
  and covers no character.  `vga_scroll` copies every row from the one below it,
  the last one from beyond the screen, and then clears the last row.

  `vgaPuts_window` shows that the console is a terminal: what is in the buffer is
  the window of a terminal with unbounded scrollback.
-/
import Microboot.Kern.Io.Putc

set_option autoImplicit false

namespace Microboot.Kern.Io

open Microboot.Foundation

/-! ## `struct vga_state` -/

/-- `struct vga_state`, the cursor registers of the display, and the cells
`vga_put_xy` was called for so far (latest first), which the code does not keep. -/
structure VgaState where
  colour : UInt16
  vgaBuffer : Int → UInt16
  cursorLow : UInt8
  cursorHigh : UInt8
  puts : List (Int × Int)

/-- `vga_entry(c, colour)`. -/
def vgaEntry (c colour : UInt8) : UInt16 := c.toUInt16 ||| (colour.toUInt16 <<< 8)

/-- `vga_colour(fg, bg)`. -/
def vgaColour (fg bg : UInt8) : UInt8 := fg ||| (bg <<< 4)

/-- The character of an entry. -/
def entryChar (entry : UInt16) : UInt8 := entry.toUInt8

theorem entryChar_vgaEntry (c colour : UInt8) : entryChar (vgaEntry c colour) = c := by
  apply UInt8.toBitVec_inj.1
  ext i hi
  simp [entryChar, vgaEntry]

/-! ## The operations -/

/-- `vga_set_cursor(con, x, y)`: the cell's number goes to the two registers. -/
def vgaSetCursor (con : Console VgaState) (x y : Int) : Except Fault VgaState :=
  let pos := UInt16.ofInt (y * con.width + x)
  .ok { con.priv with
    cursorLow := (pos &&& 0xff).toUInt8, cursorHigh := ((pos >>> 8) &&& 0xff).toUInt8 }

/-- `vga_put_xy(con, x, y, c)`. -/
def vgaPutXy (con : Console VgaState) (x y : Int) (c : UInt8) : Except Fault VgaState := do
  require (x ≤ con.width ∧ y ≤ con.height) "Out of bounds for screen"
  return { con.priv with
    vgaBuffer := fun i =>
      if i = y * con.width + x then vgaEntry c con.priv.colour.toUInt8 else con.priv.vgaBuffer i
    puts := (x, y) :: con.priv.puts }

/-- `vga_null`. -/
def vgaNull (con : Console VgaState) : Except Fault VgaState := .ok con.priv

/-- The loop of `vga_scroll` over the rows and columns of the buffer. -/
def vgaCopyRows (width height : Nat) (vgaBuffer : Int → UInt16) : Int → UInt16 :=
  forUpto height (fun y => forUpto width (fun x buffer i =>
    if i = y * width + x then buffer ((y + 1) * width + x) else buffer i)) vgaBuffer

/-- The state behind that loop. -/
def vgaMoveUp (con : Console VgaState) : VgaState :=
  { con.priv with vgaBuffer := vgaCopyRows con.width.toNat con.height.toNat con.priv.vgaBuffer }

/-- `vga_scroll(con)`. -/
def vgaScroll (con : Console VgaState) : Except Fault VgaState :=
  consoleClearRow vgaPutXy (fun con _ _ _ _ => vgaNull con)
    { con with priv := vgaMoveUp con } con.yPos

/-- `vga_set_colour(con, colour)`. -/
def vgaSetColour (con : Console VgaState) (colour : UInt16) : Except Fault VgaState :=
  .ok { con.priv with colour := colour }

/-- The operations of the VGA console. -/
def vgaOps : ConsoleOps VgaState where
  putXy := vgaPutXy
  setCursor := vgaSetCursor
  scroll := vgaScroll
  setColour := vgaSetColour
  invalidate con _ _ _ _ := vgaNull con
  clear := vgaNull

/-- `vga_init(colour)`, given what the buffer and the cursor registers hold. -/
def vgaInit (colour : UInt16) (state : VgaState) : Except Fault (Console VgaState) :=
  consoleClear vgaOps
    { xPos := 0, yPos := 0, width := 80, height := 25, priv := { state with colour := colour } }

/-! ## What is on the screen -/

/-- The character in a cell of a buffer of rows of `w` cells. -/
def vgaChar (p : VgaState) (w x y : Int) : UInt8 := entryChar (p.vgaBuffer (y * w + x))

/-- The buffer holds the characters `s`; every cell drawn since the calls `old` was
on the screen. -/
structure VgaShows (w h : Int) (old : List (Int × Int)) (p : VgaState) (s : Cells UInt8)
    (k : Option (Int × Int)) : Prop where
  cells : ∀ x y, InGrid w h x y → vgaChar p w x y = s x y
  cursor : ∀ a b, k = some (a, b) → InGrid w h a b
  puts : PutsInGrid w h old p.puts

section Spec

variable {w h : Int} {old : List (Int × Int)} {con : Console VgaState}

/-- Each cell of the screen has an entry of its own. -/
theorem cellIndex_inj {x y x' y' : Int} (hin : InGrid w h x y) (hin' : InGrid w h x' y')
    (heq : y * w + x = y' * w + x') : x = x' ∧ y = y' := by
  have hx := hin.1
  have hx' := hin'.1
  have hy : y = y' := by
    rcases Int.lt_trichotomy y y' with hlt | rfl | hlt
    · have hle : (y + 1) * w ≤ y' * w := Int.mul_le_mul_of_nonneg_right hlt (by omega)
      rw [Int.add_mul] at hle
      omega
    · rfl
    · have hle : (y' + 1) * w ≤ y * w := Int.mul_le_mul_of_nonneg_right hlt (by omega)
      rw [Int.add_mul] at hle
      omega
  subst hy
  exact ⟨by omega, rfl⟩

theorem vgaPutXy_shows {s : Cells UInt8} {k : Option (Int × Int)} {x y : Int} (c : UInt8)
    (hwidth : con.width = w) (hheight : con.height = h) (hin : InGrid w h x y)
    (hR : VgaShows w h old con.priv s k) :
    ∃ p, vgaPutXy con x y c = .ok p ∧ VgaShows w h old p (s.write x y c) (drawnOver x y k) := by
  have hx := hin.1
  have hy := hin.2
  rw [vgaPutXy, require_of _ ⟨by omega, by omega⟩]
  refine ⟨_, rfl, ⟨fun a b hab => ?_, fun a b hk => ?_, hR.puts.cons hin⟩⟩
  · simp only [vgaChar, hwidth]
    unfold Cells.write
    by_cases hsame : a = x ∧ b = y
    · obtain ⟨rfl, rfl⟩ := hsame
      rw [if_pos rfl, if_pos ⟨rfl, rfl⟩, entryChar_vgaEntry]
    · rw [if_neg fun heq => hsame (cellIndex_inj hab hin heq), if_neg hsame]
      exact hR.cells a b hab
  · exact hR.cursor a b (drawnOver_eq_some hk).1

/-- `vga_put_xy` and `vga_null` draw. -/
theorem vga_draws : Draws vgaPutXy (fun con _ _ _ _ => vgaNull con) w h (VgaShows w h old) where
  put _ _ _ _ _ c hwidth hheight hin hR := vgaPutXy_shows c hwidth hheight hin hR
  flush con _ _ _ _ _ _ hR := ⟨con.priv, rfl, hR⟩
  onGrid hR := hR.cursor _ _ rfl
  congr hcells hR := ⟨fun x y hin => by rw [hR.cells x y hin, hcells x y hin], hR.cursor, hR.puts⟩

/-- Behind the first `y` rows and `x` cells of the copy, the entries so far are
those one row further on. -/
def CopiedUpto (width : Nat) (buffer : Int → UInt16) (y x : Nat) (b : Int → UInt16) : Prop :=
  ∀ i, b i = if 0 ≤ i ∧ i < (y : Int) * width + x then buffer (i + width) else buffer i

/-- Copying entry by entry in ascending order moves the whole buffer up a row. -/
theorem vgaCopyRows_apply (width height : Nat) (buffer : Int → UInt16) (i : Int) :
    vgaCopyRows width height buffer i =
      if 0 ≤ i ∧ i < (height : Int) * width then buffer (i + width) else buffer i := by
  have hstart : CopiedUpto width buffer 0 0 buffer := by
    intro i
    rw [if_neg]
    rw [Int.ofNat_zero, Int.zero_mul]
    omega
  have hcell : ∀ y x, y < height → x < width → ∀ b, CopiedUpto width buffer y x b →
      CopiedUpto width buffer y (x + 1) fun i =>
        if i = y * width + x then b ((y + 1) * width + x) else b i := by
    intro y x _ _ b hb i
    have hpos : (0 : Int) ≤ (y : Int) * width := Int.mul_nonneg (by omega) (by omega)
    have hnext : ((y : Int) + 1) * width + x = (y * width + x) + width := by
      rw [Int.add_mul]
      omega
    beta_reduce
    by_cases hi : i = (y : Int) * width + x
    · -- the entry copied lies behind the ones copied so far
      rw [if_pos hi, hnext, hb, if_neg (by omega), if_pos (by omega), hi]
    · rw [if_neg hi, hb]
      by_cases hlt : 0 ≤ i ∧ i < (y : Int) * width + x
      · rw [if_pos hlt, if_pos (by omega)]
      · rw [if_neg hlt, if_neg (by omega)]
  have hrow : ∀ y, y < height → ∀ b, CopiedUpto width buffer y width b →
      CopiedUpto width buffer (y + 1) 0 b := by
    intro y _ b hb i
    have hnext : ((y + 1 : Nat) : Int) * width + (0 : Nat) = (y : Int) * width + width := by
      rw [Int.natCast_add, Int.add_mul]
      omega
    rw [hb, hnext]
  have hall := forUpto_grid_inv (CopiedUpto width buffer) hstart hcell hrow i
  rw [Int.ofNat_zero, Int.add_zero] at hall
  exact hall

/-- `vga_scroll` in the last row scrolls the screen: the copy brings up every row
but the last, into which it copies what lies behind the screen; the row clear
overwrites that. -/
theorem vgaScroll_shows {s : Cells UInt8} {k : Option (Int × Int)} (hh : 1 ≤ h)
    (hwidth : con.width = w) (hheight : con.height = h) (hrow : con.yPos = h - 1)
    (hR : VgaShows w h old con.priv s k) :
    ∃ p, vgaScroll con = .ok p ∧ VgaShows w h old p (s.scrollUp space h) none := by
  have hcopied : ∀ a b, InGrid w h a b → b ≠ h - 1 →
      vgaChar (vgaMoveUp con) w a b = s a (b + 1) := by
    intro a b hin hb
    have ha := hin.1
    have hb' := hin.2
    have hw' : (con.width.toNat : Int) = w := by omega
    have hh' : (con.height.toNat : Int) = h := by omega
    have hpos : (0 : Int) ≤ b * w := Int.mul_nonneg (by omega) (by omega)
    have hlast : (b + 1) * w ≤ h * w := Int.mul_le_mul_of_nonneg_right (by omega) (by omega)
    rw [Int.add_mul] at hlast
    have hidx : b * w + a + w = (b + 1) * w + a := by
      rw [Int.add_mul]
      omega
    calc vgaChar (vgaMoveUp con) w a b
        = entryChar (vgaCopyRows con.width.toNat con.height.toNat con.priv.vgaBuffer
            (b * w + a)) := rfl
      _ = vgaChar con.priv w a (b + 1) := by
        rw [vgaCopyRows_apply, hw', hh', if_pos ⟨by omega, by omega⟩, hidx, vgaChar]
      _ = s a (b + 1) := hR.cells a (b + 1) ⟨ha, by omega, by omega⟩
  obtain ⟨p, hp, hR'⟩ := consoleClearRow_overCursor vga_draws { con with priv := vgaMoveUp con }
    con.yPos (s := fun a b => vgaChar (vgaMoveUp con) w a b) (k := none) hwidth hheight
    ⟨by omega, by omega⟩ nofun ⟨fun _ _ _ => rfl, fun _ _ hk => (nomatch hk), hR.puts⟩
  refine ⟨p, hp, vga_draws.congr (fun a b hin => ?_) hR'⟩
  rw [Cells.scrollUp, hrow]
  by_cases hb : b = h - 1
  · rw [if_pos hb, if_pos hb]
  · rw [if_neg hb, if_neg hb]
    exact hcopied a b hin hb

/-- The VGA driver is lawful; it does not paint its cursor. -/
theorem vgaOps_lawful (hh : 1 ≤ h) : Lawful vgaOps w h False (VgaShows w h old) where
  toDraws := vga_draws
  setCursor _ _ _ x y _ _ hin _ hR :=
    ⟨_, rfl, ⟨hR.cells, fun a b hk => by cases hk; exact hin, hR.puts⟩⟩
  scroll _ _ _ hwidth hheight hrow _ _ hR := vgaScroll_shows hh hwidth hheight hrow hR

/-- A cleared VGA console shows an empty screen. -/
theorem vgaClear_mirrors (con : Console VgaState) :
    ∃ con', consoleClear vgaOps con = .ok con' ∧
      Mirrors con.width con.height (VgaShows con.width con.height con.priv.puts) con'
        (Screen.empty space) none :=
  consoleClear_mirrors (s := fun x y => vgaChar con.priv con.width x y) (k := none)
    vga_draws vga_draws con rfl rfl
    ⟨fun _ _ _ => rfl, fun _ _ hk => (nomatch hk), .refl _⟩
    fun con' hR => ⟨con'.priv, rfl, hR⟩

end Spec

/-! ## The console is a terminal -/

/-- The terminal that took the characters `cs`. -/
def terminalOf (w h : Int) (cs : List UInt8) : Terminal UInt8 :=
  (Terminal.empty space).keys space w h (cs.map keyOf)

/-- The console shows the terminal's window, and has its cursor; the rows that the
window has not reached are blank. -/
structure ShowsWindow (con : Console VgaState) (t : Terminal UInt8) : Prop where
  chars : ∀ x y, InGrid con.width con.height x y →
    vgaChar con.priv con.width x y = t.cells x (t.top + y)
  col : con.xPos = t.col
  row : con.yPos = t.row - t.top
  below : ∀ x y, t.top + con.height ≤ y → t.cells x y = space

/-- A row that is scrolled in is blank. -/
def ScrollsInBlank (con : Console VgaState) (cs : List UInt8) : Prop :=
  ∀ front c, cs = front ++ [c] →
    (terminalOf con.width con.height cs).top ≠ (terminalOf con.width con.height front).top →
    ∀ x, 0 ≤ x → x < con.width → vgaChar con.priv con.width x (con.height - 1) = space

theorem terminalOf_snoc (w h : Int) (cs : List UInt8) (c : UInt8) :
    terminalOf w h (cs ++ [c]) = (terminalOf w h cs).key space w h (keyOf c) := by
  simp [terminalOf, Terminal.keys]

/-- What a screen shows after the characters `cs` is the terminal's window. -/
theorem terminalOf_window {w h : Int} (hw : 1 ≤ w) (hh : 1 ≤ h) {cs : List UInt8}
    {s : Screen UInt8} (hs : (Screen.empty space).keys space w h (cs.map keyOf) = some s) :
    (terminalOf w h cs).window = s ∧ (terminalOf w h cs).Framed space w h :=
  Terminal.window_keys hw (Terminal.framed_empty hw hh) hs

/-- On a cleared VGA console of any size, unless a backspace arrives in the first
cell, every run of characters shows what a terminal with unbounded scrollback
shows in its window. -/
theorem vgaPuts_window (con : Console VgaState) (hw : 1 ≤ con.width) (hh : 1 ≤ con.height) :
    ∃ con₀, consoleClear vgaOps con = .ok con₀ ∧
      ∀ cs, EraseSafe vgaOps con₀ cs →
        ∃ con', consolePuts vgaOps con₀ cs = .ok con' ∧
          con'.width = con.width ∧ con'.height = con.height ∧
          ShowsWindow con' (terminalOf con.width con.height cs) ∧ ScrollsInBlank con' cs := by
  obtain ⟨con₀, hclear, hm₀⟩ := vgaClear_mirrors con
  refine ⟨con₀, hclear, fun cs hsafe => ?_⟩
  have hon : (Screen.empty space).CursorOn con.width con.height :=
    ⟨⟨Int.le_refl 0, by simp only [Screen.empty]; omega⟩, Int.le_refl 0,
      by simp only [Screen.empty]; omega⟩
  rcases consolePuts_mirrors (vgaOps_lawful hh) hw cs hm₀ hon (.inl rfl)
    fun hpaint => hpaint.elim with ⟨hnot, -⟩ | ⟨s, con', k, -, hs, hok, hm, -, -⟩
  · exact absurd hsafe hnot
  obtain ⟨rfl, hframed⟩ := terminalOf_window hw hh hs
  have hshows : ShowsWindow con' (terminalOf con.width con.height cs) :=
    { chars := fun x y hin => by
        rw [hm.width] at hin ⊢
        rw [hm.height] at hin
        exact hm.shows.cells x y hin
      col := hm.col
      row := hm.row
      below := fun x y hy => hframed.blankBelow x y (by rw [hm.height] at hy; exact hy) }
  refine ⟨con', hok, hm.width, hm.height, hshows, ?_⟩
  rintro front c rfl htop x hx hxw
  rw [hm.width, hm.height] at htop
  rw [hm.width] at hxw
  -- the screen took the characters in front of the last one
  obtain ⟨s, hfront⟩ : ∃ s, (Screen.empty space).keys space con.width con.height
      (front.map keyOf) = some s := by
    rw [List.map_append, Screen.keys, List.foldlM_append] at hs
    cases hfront : (front.map keyOf).foldlM (Screen.key space con.width con.height)
      (Screen.empty space) with
    | none =>
      rw [hfront] at hs
      cases hs
    | some s => exact ⟨s, hfront⟩
  have hframed := (terminalOf_window hw hh hfront).2
  rw [terminalOf_snoc] at htop hshows
  rcases Terminal.top_key hframed (keyOf c) with hsame | ⟨hdown, hblank⟩
  · exact absurd hsame htop
  · have hlast : (terminalOf con.width con.height front).top + 1 + (con.height - 1) =
        (terminalOf con.width con.height front).top + con.height := by omega
    rw [hshows.chars x _ ⟨⟨hx, by rw [hm.width]; exact hxw⟩, by rw [hm.height]; omega,
      by omega⟩, hdown, hm.height, hlast, hblank x]

/-- A VGA console of three columns and two rows, full of `A`s. -/
def smallVga : Console VgaState where
  xPos := 2
  yPos := 1
  width := 3
  height := 2
  priv :=
    { colour := 0x1f, vgaBuffer := fun _ => 0x1f41, cursorLow := 0, cursorHigh := 0, puts := [] }

/-- `"abc\rd\ne\b\bf"`: two wraps, a scroll, and a step back over the end of a row. -/
def smallText : List UInt8 := [97, 98, 99, 13, 100, 10, 101, 8, 8, 102]

theorem vgaPuts_window_threeByTwo :
    ∃ con₀ con', consoleClear vgaOps smallVga = .ok con₀ ∧
      consolePuts vgaOps con₀ smallText = .ok con' ∧
      ShowsWindow con' (terminalOf 3 2 smallText) ∧ (terminalOf 3 2 smallText).top = 1 := by
  obtain ⟨con₀, hclear, hall⟩ := vgaPuts_window smallVga (by decide) (by decide)
  have hsafe : EraseSafe vgaOps con₀ smallText := by
    have hrun : (match consoleClear vgaOps smallVga with
        | .ok con => decide (EraseSafe vgaOps con smallText)
        | .error _ => false) = true := by decide
    rw [hclear] at hrun
    exact of_decide_eq_true hrun
  obtain ⟨con', hok, -, -, hshows, -⟩ := hall smallText hsafe
  exact ⟨con₀, con', hclear, hok, hshows, by decide⟩

end Microboot.Kern.Io
