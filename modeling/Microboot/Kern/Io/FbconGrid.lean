/-
  Kern/Io/FbconGrid.lean --- the pixels the framebuffer console puts.

  Drawing a cell puts pixels on the screen only if and only if the cell is on the
  grid (`drawCell_stray`, `drawCell_strays`).  console.c draws cells of the grid,
  so what is left to follow is the cell the cursor was last drawn in: it is
  remembered when the grid shrinks, and the next character draws a space in it.

  `fbRun_stray_iff` is the exact condition for a run of operations to put no pixel
  off the screen.
-/
import Microboot.Kern.Io.Calls
import Microboot.Kern.Io.Fbcon
import Microboot.Kern.Io.Vga

set_option autoImplicit false

namespace Microboot.Kern.Io

open Microboot.Foundation

/-! ## Cells and pixels -/

section Cells

variable {W x : Int} {s : Nat}

/-- A cell of the grid ends on the screen. -/
theorem cell_fits (hs : 0 < s) (hx : x < W / s) : x * s + s ≤ W := by
  have hle : (x + 1) * s ≤ W / s * s :=
    Int.mul_le_mul_of_nonneg_right hx (Int.natCast_nonneg s)
  have hdiv : W / s * s ≤ W := Int.ediv_mul_le W (by omega)
  rw [Int.add_mul] at hle
  omega

/-- A cell behind the grid ends off the screen. -/
theorem cell_sticks_out (hs : 0 < s) (hx : W / s ≤ x) : W ≤ x * s + s - 1 := by
  have hle : W / s * s ≤ x * s :=
    Int.mul_le_mul_of_nonneg_right hx (Int.natCast_nonneg s)
  have hdiv : W < (W / s + 1) * s := Int.lt_ediv_add_one_mul_self W (by omega)
  rw [Int.add_mul] at hdiv
  omega

/-- A cell in front of the grid starts off the screen, and ends there. -/
theorem cell_in_front (hx : x < 0) : x * s + s - 1 < 0 := by
  have hle : x * s ≤ -1 * s :=
    Int.mul_le_mul_of_nonneg_right (by omega) (Int.natCast_nonneg s)
  omega

end Cells

/-- A font of at least one pixel. -/
def FbconFont.NonZero (font : FbconFont) : Prop := 0 < font.charWidth ∧ 0 < font.charHeight

instance (font : FbconFont) : Decidable font.NonZero :=
  inferInstanceAs (Decidable (0 < font.charWidth ∧ 0 < font.charHeight))

/-- The cell is on the grid that a screen of `W` by `H` pixels has in a font. -/
def OnGrid (W H : Int) (font : FbconFont) (x y : Int) : Prop :=
  InGrid (W / font.charWidth) (H / font.charHeight) x y

/-- A cell whose last pixel is on the screen is on the grid. -/
theorem onGrid_of_lastPixel {W H x y : Int} {font : FbconFont} (hfont : font.NonZero)
    (hin : InGrid W H (x * font.charWidth + font.charWidth - 1)
      (y * font.charHeight + font.charHeight - 1)) : OnGrid W H font x y := by
  obtain ⟨⟨hx, hxw⟩, hy, hyh⟩ := hin
  refine ⟨⟨?_, ?_⟩, ?_, ?_⟩
  · by_contra hneg
    have := cell_in_front (x := x) (s := font.charWidth) (by omega)
    omega
  · by_contra hout
    have := cell_sticks_out hfont.1 (x := x) (W := W) (by omega)
    omega
  · by_contra hneg
    have := cell_in_front (x := y) (s := font.charHeight) (by omega)
    omega
  · by_contra hout
    have := cell_sticks_out hfont.2 (x := y) (W := H) (by omega)
    omega

section Draw

variable {p : FbconPriv} {x y : Int}

@[simp] theorem drawCell_width (bitmap : Int → UInt8) :
    (p.drawCell x y bitmap).width = p.fb.width := FbDev.putRect_width

@[simp] theorem drawCell_height (bitmap : Int → UInt8) :
    (p.drawCell x y bitmap).height = p.fb.height := FbDev.putRect_height

/-- Drawing a cell of the grid stays on the screen. -/
theorem drawCell_stray (hfont : p.font.NonZero) (bitmap : Int → UInt8)
    (hin : OnGrid p.fb.width p.fb.height p.font x y) :
    (p.drawCell x y bitmap).stray = p.fb.stray := by
  obtain ⟨⟨hx, hxw⟩, hy, hyh⟩ := hin
  exact FbDev.putRect_stray (Int.mul_nonneg hx (Int.natCast_nonneg _))
    (Int.mul_nonneg hy (Int.natCast_nonneg _)) (cell_fits hfont.1 hxw) (cell_fits hfont.2 hyh)

/-- Drawing any other cell does not. -/
theorem drawCell_strays (hfont : p.font.NonZero) (bitmap : Int → UInt8)
    (hoff : ¬ OnGrid p.fb.width p.fb.height p.font x y) :
    (p.drawCell x y bitmap).stray ≠ [] :=
  FbDev.putRect_stray_of_off hfont.1 hfont.2 fun hin => hoff (onGrid_of_lastPixel hfont hin)

/-- Strays are never forgotten. -/
theorem drawCell_keeps_strays (bitmap : Int → UInt8) (h : p.fb.stray ≠ []) :
    (p.drawCell x y bitmap).stray ≠ [] := FbDev.putRect_keeps FbDev.call_stray_ne h

end Draw

/-! ## What the operations keep -/

/-- The cell with the painted cursor: `k` if it is on the grid; without one, the
driver tracks no cursor, or the cell `stale`. -/
def Tracks (w h : Int) (stale : Option (Int × Int)) (p : FbconPriv)
    (k : Option (Int × Int)) : Prop :=
  (∀ a b, k = some (a, b) → (p.cursorX = a ∧ p.cursorY = b) ∧ InGrid w h a b) ∧
    (k = none → (p.cursorX = -1 ∧ p.cursorY = -1) ∨ stale = some (p.cursorX, p.cursorY))

/-- The screen and the font are those given, the pixels put off the screen are
those of `strays`, and the cells drawn since the calls `old` are on the grid. -/
structure FbKeeps (W H : Int) (font : FbconFont) (strays old : List (Int × Int))
    (stale : Option (Int × Int)) (p : FbconPriv) (k : Option (Int × Int)) : Prop where
  fbWidth : p.fb.width = W
  fbHeight : p.fb.height = H
  sameFont : p.font = font
  stray : p.fb.stray = strays
  puts : PutsInGrid (W / font.charWidth) (H / font.charHeight) old p.puts
  tracks : Tracks (W / font.charWidth) (H / font.charHeight) stale p k

section Ops

variable {W H : Int} {font : FbconFont} {strays old : List (Int × Int)}
  {stale : Option (Int × Int)} {p : FbconPriv} {k : Option (Int × Int)}

/-- Drawing a cell of the grid, whatever becomes of the cursor. -/
theorem FbKeeps.drawCell (hp : FbKeeps W H font strays old stale p k) (hfont : font.NonZero)
    {x y : Int} (hin : OnGrid W H font x y) (bitmap : Int → UInt8) :
    (p.drawCell x y bitmap).width = W ∧ (p.drawCell x y bitmap).height = H ∧
      (p.drawCell x y bitmap).stray = strays := by
  have hfont' : p.font.NonZero := by
    rw [hp.sameFont]
    exact hfont
  have hin' : OnGrid p.fb.width p.fb.height p.font x y := by
    rw [hp.fbWidth, hp.fbHeight, hp.sameFont]
    exact hin
  exact ⟨(drawCell_width bitmap).trans hp.fbWidth, (drawCell_height bitmap).trans hp.fbHeight,
    (drawCell_stray hfont' bitmap hin').trans hp.stray⟩

/-- Drawing a cell of the grid, the cursor is tracked unless it was in that cell. -/
theorem fbPutxy_keeps (hfont : font.NonZero) {x y : Int} (c : UInt8)
    (hin : OnGrid W H font x y) (hp : FbKeeps W H font strays old stale p k) :
    FbKeeps W H font strays old stale (fbPutxy p x y c) (drawnOver x y k) := by
  obtain ⟨hsome, hnone⟩ := hp.tracks
  have hdraw := hp.drawCell hfont hin
  unfold fbPutxy
  by_cases hsame : p.cursorX = x ∧ p.cursorY = y
  · -- the cursor was in this cell, so it is the painted one
    obtain ⟨rfl, rfl⟩ := hsame
    rw [if_pos ⟨rfl, rfl⟩]
    have hk : drawnOver p.cursorX p.cursorY k = none := by
      cases k with
      | none => rfl
      | some q =>
        obtain ⟨⟨hx, hy⟩, -⟩ := hsome q.1 q.2 rfl
        rw [hx, hy]
        exact drawnOver_same q.1 q.2
    obtain ⟨hwidth, hheight, hstray⟩ := hdraw _
    refine ⟨hwidth, hheight, hp.sameFont, hstray, hp.puts, fun a b h => ?_,
      fun _ => .inl ⟨rfl, rfl⟩⟩
    rw [hk] at h
    cases h
  · rw [if_neg hsame]
    obtain ⟨hwidth, hheight, hstray⟩ := hdraw _
    refine ⟨hwidth, hheight, hp.sameFont, hstray, hp.puts, fun a b h => ?_, fun h => ?_⟩
    · exact hsome a b (drawnOver_eq_some h).1
    · refine hnone ?_
      by_contra hk
      obtain ⟨q, rfl⟩ := Option.ne_none_iff_exists'.1 hk
      obtain ⟨⟨hx, hy⟩, -⟩ := hsome q.1 q.2 rfl
      unfold drawnOver at h
      split at h
      next heq =>
        cases heq
        exact hsame ⟨hx, hy⟩
      next => cases h

theorem fbEraseCursor_keeps (hfont : font.NonZero) (hp : FbKeeps W H font strays old none p k) :
    FbKeeps W H font strays old none (fbEraseCursor p) none := by
  obtain ⟨hsome, hnone⟩ := hp.tracks
  unfold fbEraseCursor
  cases k with
  | none =>
    obtain ⟨hx, -⟩ | h := hnone rfl
    · rw [if_neg fun h => h.1 hx]
      exact hp
    · cases h
  | some q =>
    obtain ⟨⟨hx, hy⟩, hin⟩ := hsome q.1 q.2 rfl
    have hpos := hin.1.1
    have hpos' := hin.2.1
    rw [if_pos ⟨by omega, by omega⟩]
    have hkeeps := fbPutxy_keeps (x := p.cursorX) (y := p.cursorY) hfont space
      (by rw [hx, hy]; exact hin) hp
    have hk : drawnOver p.cursorX p.cursorY (some q) = none := by
      rw [hx, hy]
      exact drawnOver_same q.1 q.2
    rw [hk] at hkeeps
    exact ⟨hkeeps.fbWidth, hkeeps.fbHeight, hkeeps.sameFont, hkeeps.stray, hkeeps.puts,
      hkeeps.tracks⟩

/-- Moving the cursor to a cell of the grid. -/
theorem fbSetCursor_keeps (hfont : font.NonZero) {x y : Int} (hin : OnGrid W H font x y)
    (hp : FbKeeps W H font strays old none p k) :
    FbKeeps W H font strays old none (fbSetCursor p x y) (some (x, y)) := by
  have he := fbEraseCursor_keeps hfont hp
  obtain ⟨hwidth, hheight, hstray⟩ := he.drawCell hfont hin _
  refine ⟨hwidth, hheight, he.sameFont, hstray, he.puts, fun a b h => ?_, fun h => nomatch h⟩
  cases h
  exact ⟨⟨rfl, rfl⟩, hin⟩

/-- The console draws cells of the grid. -/
theorem fbcon_draws (hfont : font.NonZero) :
    Draws fbconPutXy fbconInvalidate (W / font.charWidth) (H / font.charHeight)
      fun p _ k => FbKeeps W H font strays old stale p k where
  put con _ _ x y c _ _ hin hp := by
    have hkeeps := fbPutxy_keeps hfont c hin hp
    exact ⟨_, rfl, hkeeps.fbWidth, hkeeps.fbHeight, hkeeps.sameFont, hkeeps.stray,
      hp.puts.cons hin, hkeeps.tracks⟩
  flush _ _ _ _ _ _ _ hp :=
    ⟨_, rfl, hp.fbWidth, hp.fbHeight, hp.sameFont, hp.stray, hp.puts, hp.tracks⟩
  onGrid hp := (hp.tracks.1 _ _ rfl).2
  congr _ hp := hp

/-- Scrolling in the last row, with the cursor in it. -/
theorem fbScroll_keeps (hfont : font.NonZero) {con : Console FbconPriv}
    (hwidth : con.width = W / font.charWidth) (hheight : con.height = H / font.charHeight)
    (hrow : con.yPos = H / font.charHeight - 1) (hlast : 0 ≤ con.yPos)
    (hk : ∀ a b, k = some (a, b) → b = H / font.charHeight - 1)
    (hp : FbKeeps W H font strays old stale con.priv k) :
    ∃ p, fbScroll con = .ok p ∧ FbKeeps W H font strays old stale p none := by
  exact consoleClearRow_overCursor (fbcon_draws hfont)
    { con with
      priv := { con.priv with fb := con.priv.fb.shift con.priv.font.charHeight } }
    con.yPos (s := fun _ _ => space) (k := k) hwidth hheight ⟨hlast, by omega⟩
    (fun a b hab => (hk a b hab).trans hrow.symm)
    ⟨hp.fbWidth, hp.fbHeight, hp.sameFont, hp.stray, hp.puts, hp.tracks⟩

/-- The framebuffer driver is lawful as far as the grid is concerned. -/
theorem fbconOps_lawful (hfont : font.NonZero) (hh : 1 ≤ H / font.charHeight) :
    Lawful fbconOps (W / font.charWidth) (H / font.charHeight) False
      fun p _ k => FbKeeps W H font strays old none p k where
  toDraws := fbcon_draws hfont
  setCursor _ _ _ _ _ _ _ hin _ hp := ⟨_, rfl, fbSetCursor_keeps hfont hin hp⟩
  scroll _ _ _ hwidth hheight hrow hk _ hp :=
    fbScroll_keeps hfont hwidth hheight hrow (by omega) hk hp

/-- `fb_clear` puts the pixels of the screen. -/
theorem fbClear_keeps (hW : 0 ≤ W) (hH : 0 ≤ H)
    (hp : FbKeeps W H font strays old stale p k) :
    FbKeeps W H font strays old stale (fbClear p) k := by
  have hw := hp.fbWidth
  have hh := hp.fbHeight
  refine ⟨?_, ?_, hp.sameFont, ?_, hp.puts, hp.tracks⟩
  · exact FbDev.putRect_width.trans hw
  · exact FbDev.putRect_height.trans hh
  · exact (FbDev.putRect_stray (Int.le_refl 0) (Int.le_refl 0) (by omega) (by omega)).trans hp.stray

/-- Clearing the console leaves it with no cursor on the grid. -/
theorem fbconClear_keeps (hfont : font.NonZero) (hW : 0 ≤ W) (hH : 0 ≤ H)
    {con : Console FbconPriv} (hwidth : con.width = W / font.charWidth)
    (hheight : con.height = H / font.charHeight)
    (hp : FbKeeps W H font strays old stale con.priv k) :
    ∃ con', consoleClear fbconOps con = .ok con' ∧
      Mirrors (W / font.charWidth) (H / font.charHeight)
        (fun p _ k => FbKeeps W H font strays old stale p k) con' (Screen.empty space) none :=
  consoleClear_mirrors (s := fun _ _ => space) (fbcon_draws hfont) (fbcon_draws hfont) con
    hwidth hheight hp fun _ hp => ⟨_, rfl, fbClear_keeps hW hH hp⟩

end Ops

/-! ## Runs of operations -/

/-- The operations of the framebuffer console. -/
inductive FbOp where
  /-- `console_putc`. -/
  | putc (c : UInt8)
  /-- `console_clear`. -/
  | clear
  /-- `FBCON_SETPARAM_FONT`. -/
  | setFont (font : FbconFont)
  /-- `FBDEV_SETRES` on the framebuffer, which informs the console. -/
  | setRes (width height : Int)

/-- One operation. -/
def fbStep (con : Console FbconPriv) : FbOp → Except Fault (Console FbconPriv)
  | .putc c => consolePutc fbconOps con c
  | .clear => consoleClear fbconOps con
  | .setFont font => fbconSetparam con (.font font)
  | .setRes width height => fbdevSetRes con width height

/-- A run of operations; a failed assertion ends it. -/
def fbRun (con : Console FbconPriv) : List FbOp → Console FbconPriv
  | [] => con
  | op :: ops =>
    match fbStep con op with
    | .ok con' => fbRun con' ops
    | .error _ => con

/-- A font of at least one pixel and no larger than the screen; a mode with at
least one pixel. -/
def FbOp.Allowed (con : Console FbconPriv) : FbOp → Prop
  | .setFont font => font.NonZero ∧ font.charWidth ≤ con.priv.fb.width ∧
      font.charHeight ≤ con.priv.fb.height
  | .setRes width height => 0 < width ∧ 0 < height
  | _ => True

/-- The grid has a cell, and the cell the cursor is remembered in, if any, is on it. -/
def CursorInGrid (con : Console FbconPriv) : Prop :=
  (1 ≤ con.width ∧ 1 ≤ con.height) ∧
    ((con.priv.cursorX = -1 ∨ con.priv.cursorY = -1) ∨
      InGrid con.width con.height con.priv.cursorX con.priv.cursorY)

instance (con : Console FbconPriv) : Decidable (CursorInGrid con) :=
  inferInstanceAs (Decidable (_ ∧ (_ ∨ _)))

/-- No character is printed while the grid is empty or the cell the cursor is
remembered in is off it; a backspace in the first cell prints nothing. -/
def FbOp.Steady (con : Console FbconPriv) : FbOp → Prop
  | .putc c => (c = backspace ∧ con.xPos = 0 ∧ con.yPos = 0) ∨ CursorInGrid con
  | _ => True

instance decidableAllowed (con : Console FbconPriv) : (op : FbOp) → Decidable (op.Allowed con)
  | .setFont font => inferInstanceAs (Decidable (font.NonZero ∧
      font.charWidth ≤ con.priv.fb.width ∧ font.charHeight ≤ con.priv.fb.height))
  | .setRes width height => inferInstanceAs (Decidable (0 < width ∧ 0 < height))
  | .putc _ => inferInstanceAs (Decidable True)
  | .clear => inferInstanceAs (Decidable True)

instance decidableSteady (con : Console FbconPriv) : (op : FbOp) → Decidable (op.Steady con)
  | .putc c => inferInstanceAs
      (Decidable ((c = backspace ∧ con.xPos = 0 ∧ con.yPos = 0) ∨ CursorInGrid con))
  | .clear => inferInstanceAs (Decidable True)
  | .setFont _ => inferInstanceAs (Decidable True)
  | .setRes _ _ => inferInstanceAs (Decidable True)

/-- Every operation of the run is allowed where it is made. -/
abbrev AllowedRun : Console FbconPriv → List FbOp → Prop :=
  AllSteps fbStep fun con op => op.Allowed con

/-- Every operation of the run is made in a steady state. -/
abbrev SteadyRun : Console FbconPriv → List FbOp → Prop :=
  AllSteps fbStep fun con op => op.Steady con

/-- What every operation keeps while no pixel strays. -/
structure FbInv (con : Console FbconPriv) : Prop where
  nonZero : con.priv.font.NonZero
  fbWidth : 0 ≤ con.priv.fb.width
  fbHeight : 0 ≤ con.priv.fb.height
  width : con.width = con.priv.fb.width / con.priv.font.charWidth
  height : con.height = con.priv.fb.height / con.priv.font.charHeight
  pos : (con.xPos = 0 ∧ con.yPos = 0) ∨ InGrid con.width con.height con.xPos con.yPos
  cursor : (con.priv.cursorX = -1 ∧ con.priv.cursorY = -1) ∨
    (0 ≤ con.priv.cursorX ∧ 0 ≤ con.priv.cursorY)
  settled : InGrid con.width con.height con.priv.cursorX con.priv.cursorY →
    con.priv.cursorX = con.xPos ∧ con.priv.cursorY = con.yPos

section Steps

variable {con con' : Console FbconPriv}

/-- A console over the state `p`, whose cursor is off the grid and which no pixel
strayed from: clearing it keeps the invariant. -/
theorem fbClear_inv (con : Console FbconPriv) (hnonZero : con.priv.font.NonZero)
    (hW : 0 ≤ con.priv.fb.width) (hH : 0 ≤ con.priv.fb.height)
    (hwidth : con.width = con.priv.fb.width / con.priv.font.charWidth)
    (hheight : con.height = con.priv.fb.height / con.priv.font.charHeight)
    (hcursor : (con.priv.cursorX = -1 ∧ con.priv.cursorY = -1) ∨
      (0 ≤ con.priv.cursorX ∧ 0 ≤ con.priv.cursorY)) :
    ∃ con', consoleClear fbconOps con = .ok con' ∧ FbInv con' ∧
      con'.priv.fb.stray = con.priv.fb.stray := by
  -- the cursor is in a cell of the grid, or stale
  obtain ⟨stale, k, hstale, htracks⟩ : ∃ stale k,
      (∀ a b, stale = some (a, b) → (0 ≤ a ∧ 0 ≤ b) ∧ ¬ InGrid con.width con.height a b) ∧
      Tracks con.width con.height stale con.priv k := by
    by_cases hin : InGrid con.width con.height con.priv.cursorX con.priv.cursorY
    · exact ⟨none, some (con.priv.cursorX, con.priv.cursorY), fun a b h => (nomatch h),
        fun a b h => by cases h; exact ⟨⟨rfl, rfl⟩, hin⟩, fun h => nomatch h⟩
    · rcases hcursor with hnone | hpos
      · exact ⟨none, none, fun a b h => (nomatch h), fun a b h => (nomatch h), fun _ => .inl hnone⟩
      · exact ⟨some (con.priv.cursorX, con.priv.cursorY), none,
          fun a b h => by cases h; exact ⟨hpos, hin⟩, fun a b h => (nomatch h),
          fun _ => .inr rfl⟩
  have hk : FbKeeps con.priv.fb.width con.priv.fb.height con.priv.font con.priv.fb.stray
      con.priv.puts stale con.priv k :=
    ⟨rfl, rfl, rfl, rfl, .refl _, by rw [← hwidth, ← hheight]; exact htracks⟩
  obtain ⟨con', hclear, hm⟩ := fbconClear_keeps hnonZero hW hH hwidth hheight hk
  have hp := hm.shows
  have hw := hm.width
  have hh := hm.height
  have hcursor' := hp.tracks.2 rfl
  refine ⟨con', hclear, ⟨?_, ?_, ?_, ?_, ?_, .inl ⟨hm.col, hm.row⟩, ?_, fun hin => ?_⟩, hp.stray⟩
  · rw [hp.sameFont]; exact hnonZero
  · rw [hp.fbWidth]; exact hW
  · rw [hp.fbHeight]; exact hH
  · rw [hp.sameFont, hp.fbWidth]; exact hw
  · rw [hp.sameFont, hp.fbHeight]; exact hh
  · rcases hcursor' with hnone | hsome
    · exact .inl hnone
    · exact .inr (hstale _ _ hsome).1
  · rcases hcursor' with ⟨hx, -⟩ | hsome
    · have := hin.1.1
      omega
    · have := (hstale _ _ hsome).2
      rw [hwidth, hheight, ← hw, ← hh] at this
      exact absurd hin this

/-- A steady character keeps the invariant and puts no pixel off the screen; the
only other outcome is the assertion that stops a backspace in the first cell. -/
theorem putc_steady (hinv : FbInv con) (hgrid : CursorInGrid con) (c : UInt8) :
    (c = backspace ∧ (con.xPos = 0 ∧ con.yPos = 0) ∧
        consolePutc fbconOps con c = .error eraseFault) ∨
      ∃ con', consolePutc fbconOps con c = .ok con' ∧ FbInv con' ∧
        con'.priv.fb.stray = con.priv.fb.stray := by
  obtain ⟨⟨hw, hh⟩, hcursor⟩ := hgrid
  have hwidth := hinv.width
  have hheight := hinv.height
  have hon : InGrid con.width con.height con.xPos con.yPos := by
    rcases hinv.pos with ⟨hx, hy⟩ | hin
    · exact ⟨⟨by omega, by omega⟩, by omega, by omega⟩
    · exact hin
  -- the cursor, if there is one, was painted where it is now
  obtain ⟨k, htracks, hk⟩ : ∃ k, Tracks con.width con.height none con.priv k ∧
      (k = none ∨ k = some (con.xPos, con.yPos)) := by
    by_cases hin : InGrid con.width con.height con.priv.cursorX con.priv.cursorY
    · obtain ⟨hx, hy⟩ := hinv.settled hin
      refine ⟨some (con.xPos, con.yPos), ⟨fun a b h => ?_, fun h => nomatch h⟩, .inr rfl⟩
      cases h
      exact ⟨⟨hx, hy⟩, hon⟩
    · refine ⟨none, ⟨fun a b h => (nomatch h), fun _ => .inl ?_⟩, .inl rfl⟩
      rcases hinv.cursor with hnone | ⟨hx, hy⟩
      · exact hnone
      · rcases hcursor with h | h
        · omega
        · exact absurd h hin
  have hkeeps : FbKeeps con.priv.fb.width con.priv.fb.height con.priv.font con.priv.fb.stray
      con.priv.puts none con.priv k :=
    ⟨rfl, rfl, rfl, rfl, .refl _, by rw [← hwidth, ← hheight]; exact htracks⟩
  have hm : Mirrors _ _ (fun p _ k => FbKeeps con.priv.fb.width con.priv.fb.height con.priv.font
      con.priv.fb.stray con.priv.puts none p k) con
      { cells := fun _ _ => space, col := con.xPos, row := con.yPos } k :=
    ⟨hwidth, hheight, rfl, rfl, hkeeps⟩
  have hon' : Screen.CursorOn (con.priv.fb.width / con.priv.font.charWidth)
      (con.priv.fb.height / con.priv.font.charHeight)
      { cells := fun _ _ => space, col := con.xPos, row := con.yPos } := by
    rw [hwidth, hheight] at hon
    exact hon
  rcases consolePutc_mirrors (fbconOps_lawful hinv.nonZero (by rw [← hheight]; exact hh))
    (by rw [← hwidth]; exact hw) hm hon' hk c fun h => h.elim with
    ⟨-, hbs, horigin, herr⟩ | ⟨s', con', hkey, -, hok, hm'⟩
  · exact .inl ⟨hbs, horigin, herr⟩
  · have hp := hm'.shows
    have hon₂ := Screen.key_cursorOn (by rw [← hwidth]; exact hw) hon' hkey
    obtain ⟨⟨hx, hy⟩, hin⟩ := hp.tracks.1 _ _ rfl
    refine .inr ⟨con', hok, ⟨?_, ?_, ?_, ?_, ?_, .inr ?_, .inr ?_, fun _ => ?_⟩, hp.stray⟩
    · rw [hp.sameFont]; exact hinv.nonZero
    · rw [hp.fbWidth]; exact hinv.fbWidth
    · rw [hp.fbHeight]; exact hinv.fbHeight
    · rw [hp.sameFont, hp.fbWidth]; exact hm'.width
    · rw [hp.sameFont, hp.fbHeight]; exact hm'.height
    · rw [hm'.width, hm'.height, hm'.col, hm'.row]; exact hon₂
    · rw [hx, hy]; exact ⟨hin.1.1, hin.2.1⟩
    · rw [hx, hy, hm'.col, hm'.row]; exact ⟨rfl, rfl⟩

/-! ## Characters that stray -/

/-- The next time the cursor is set, a cell off the grid is drawn: the grid has no
cell, or the cell the cursor is remembered in is off it; or that has happened. -/
structure Doomed (W H : Int) (font : FbconFont) (p : FbconPriv) : Prop where
  fbWidth : p.fb.width = W
  fbHeight : p.fb.height = H
  sameFont : p.font = font
  strays : p.fb.stray ≠ [] ∨ (∀ x y, ¬ OnGrid W H font x y) ∨
    (p.cursorX ≠ -1 ∧ p.cursorY ≠ -1) ∧ ¬ OnGrid W H font p.cursorX p.cursorY

/-- Drawing a cell does not change that. -/
theorem fbPutxy_doomed {W H : Int} {font : FbconFont} (hfont : font.NonZero) {p : FbconPriv}
    (x y : Int) (c : UInt8) (hp : Doomed W H font p) : Doomed W H font (fbPutxy p x y c) := by
  unfold fbPutxy
  by_cases hsame : p.cursorX = x ∧ p.cursorY = y
  · obtain ⟨rfl, rfl⟩ := hsame
    rw [if_pos ⟨rfl, rfl⟩]
    refine ⟨(drawCell_width _).trans hp.fbWidth, (drawCell_height _).trans hp.fbHeight,
      hp.sameFont, ?_⟩
    rcases hp.strays with h | h | ⟨-, h⟩
    · exact .inl (drawCell_keeps_strays _ h)
    · exact .inr (.inl h)
    · -- the cursor's cell itself is drawn
      refine .inl (drawCell_strays (by rw [hp.sameFont]; exact hfont) _ ?_)
      rw [hp.fbWidth, hp.fbHeight, hp.sameFont]
      exact h
  · rw [if_neg hsame]
    refine ⟨(drawCell_width _).trans hp.fbWidth, (drawCell_height _).trans hp.fbHeight,
      hp.sameFont, ?_⟩
    rcases hp.strays with h | h | h
    · exact .inl (drawCell_keeps_strays _ h)
    · exact .inr (.inl h)
    · exact .inr (.inr h)

/-- Erasing the cursor draws the cell it is remembered in. -/
theorem fbEraseCursor_strays {W H : Int} {font : FbconFont} (hfont : font.NonZero)
    {p : FbconPriv} (hp : Doomed W H font p) :
    ((fbEraseCursor p).fb.width = W ∧ (fbEraseCursor p).fb.height = H ∧
        (fbEraseCursor p).font = font) ∧
      ((fbEraseCursor p).fb.stray ≠ [] ∨ ∀ x y, ¬ OnGrid W H font x y) := by
  unfold fbEraseCursor
  by_cases htracked : p.cursorX ≠ -1 ∧ p.cursorY ≠ -1
  · rw [if_pos htracked]
    have hd : Doomed W H font (fbPutxy p p.cursorX p.cursorY space) :=
      fbPutxy_doomed hfont _ _ _ hp
    refine ⟨⟨hd.fbWidth, hd.fbHeight, hd.sameFont⟩, ?_⟩
    rcases hd.strays with h | h | ⟨h, -⟩
    · exact .inl h
    · exact .inr h
    · -- the cell drawn over is no longer tracked
      unfold fbPutxy at h
      rw [if_pos ⟨rfl, rfl⟩] at h
      exact absurd rfl h.1
  · rw [if_neg htracked]
    refine ⟨⟨hp.fbWidth, hp.fbHeight, hp.sameFont⟩, ?_⟩
    rcases hp.strays with h | h | ⟨h, -⟩
    · exact .inl h
    · exact .inr h
    · exact absurd h htracked

/-- Setting the cursor then strays. -/
theorem fbSetCursor_strays {W H : Int} {font : FbconFont} (hfont : font.NonZero)
    {p : FbconPriv} (x y : Int) (hp : Doomed W H font p) :
    (fbSetCursor p x y).fb.stray ≠ [] := by
  obtain ⟨⟨hw, hh, hf⟩, hstrays⟩ := fbEraseCursor_strays hfont hp
  rcases hstrays with h | h
  · exact drawCell_keeps_strays (p := fbEraseCursor p) _ h
  · refine drawCell_strays (p := fbEraseCursor p) (by rw [hf]; exact hfont) _ ?_
    rw [hw, hh, hf]
    exact h x y

/-- What drawing a cell, flushing one and shifting the screen keep, the operations keep. -/
theorem fbconOps_keeps {P : FbconPriv → Prop}
    (hput : ∀ p x y c puts, P p → P { fbPutxy p x y c with puts := puts })
    (hflush : ∀ p x y width height, P p → P (fbInvalidate p x y width height))
    (hshift : ∀ p, P p → P { p with fb := p.fb.shift p.font.charHeight }) : Keeps fbconOps P where
  putXy _ _ _ _ _ hp h := by
    cases h
    exact hput _ _ _ _ _ hp
  scroll con p hp h := by
    have hrow : consoleClearRow fbconPutXy fbconInvalidate _ con.yPos = .ok p := h
    refine consoleClearRow_keeps hrow (hshift con.priv hp) (fun _ _ _ _ _ hp h => ?_)
      fun _ _ _ _ _ _ hp h => ?_
    · cases h
      exact hput _ _ _ _ _ hp
    · cases h
      exact hflush _ _ _ _ _ hp
  invalidate _ _ _ _ _ _ hp h := by
    cases h
    exact hflush _ _ _ _ _ hp

@[simp] theorem fbPutxy_font {p : FbconPriv} {x y : Int} (c : UInt8) :
    (fbPutxy p x y c).font = p.font := by
  unfold fbPutxy
  split <;> rfl

/-- The operations keep the font. -/
theorem fbconOps_keeps_font (font : FbconFont) : Keeps fbconOps fun p => p.font = font :=
  fbconOps_keeps (fun _ _ _ c _ hp => (fbPutxy_font c).trans hp) (fun _ _ _ _ _ hp => hp)
    fun _ hp => hp

theorem fbconOps_keeps_doomed {W H : Int} {font : FbconFont} (hfont : font.NonZero) :
    Keeps fbconOps (Doomed W H font) := by
  refine fbconOps_keeps (fun p x y c puts hp => ?_)
    (fun _ _ _ _ _ hp => ⟨hp.fbWidth, hp.fbHeight, hp.sameFont, hp.strays⟩)
    fun _ hp => ⟨hp.fbWidth, hp.fbHeight, hp.sameFont, hp.strays⟩
  have hd := fbPutxy_doomed hfont x y c hp
  exact ⟨hd.fbWidth, hd.fbHeight, hd.sameFont, hd.strays⟩

/-! ## What every call keeps -/

section Kept

variable {P : FbDev → Prop} {p : FbconPriv} {x y : Int}

theorem fbPutxy_kept (hcall : ∀ fb call, P fb → P (fb.call call)) (h : P p.fb) (c : UInt8) :
    P (fbPutxy p x y c).fb := by
  unfold fbPutxy
  split
  · exact FbDev.putRect_keeps hcall h
  · exact FbDev.putRect_keeps hcall h

theorem fbInvalidate_kept (hcall : ∀ fb call, P fb → P (fb.call call)) (h : P p.fb)
    (width height : Int) : P (fbInvalidate p x y width height).fb :=
  hcall p.fb (.invalidate _ _ _ _) h

theorem fbSetCursor_kept (hcall : ∀ fb call, P fb → P (fb.call call)) (h : P p.fb) :
    P (fbSetCursor p x y).fb := by
  have herase : P (fbEraseCursor p).fb := by
    unfold fbEraseCursor
    split
    · exact fbInvalidate_kept hcall (fbPutxy_kept hcall h space) 1 1
    · exact h
  have hdraw : P ((fbEraseCursor p).drawCell x y (fbEraseCursor p).cursorBitmap) :=
    FbDev.putRect_keeps hcall herase
  exact fbInvalidate_kept (p := { fbEraseCursor p with fb := _ }) hcall hdraw 1 1

/-- What every call on the framebuffer keeps, the operations keep. -/
theorem fbconOps_kept (hcall : ∀ fb call, P fb → P (fb.call call)) :
    Keeps fbconOps fun p => P p.fb :=
  fbconOps_keeps (fun _ _ _ c _ h => fbPutxy_kept hcall h c)
    (fun _ _ _ width height h => fbInvalidate_kept hcall h width height)
    fun p h => hcall p.fb (.shift p.font.charHeight) h

theorem consoleClear_kept (hcall : ∀ fb call, P fb → P (fb.call call))
    (hok : consoleClear fbconOps con = .ok con') (h : P con.priv.fb) : P con'.priv.fb := by
  refine consoleClear_keeps (fbconOps_kept hcall) (fun {con p} h hclear => ?_) h hok
  cases hclear
  exact hcall _ (.invalidate 0 0 con.priv.fb.width con.priv.fb.height)
    (FbDev.putRect_keeps hcall h)

end Kept

/-- No operation of the framebuffer console fails. -/
theorem fbconOps_total : Total fbconOps where
  putXy _ _ _ _ := ⟨_, rfl⟩
  setCursor _ _ _ := ⟨_, rfl⟩
  scroll con := by
    change ∃ p, consoleClearRow fbconPutXy fbconInvalidate _ con.yPos = .ok p
    exact consoleClearRow_total (fun _ _ _ _ => ⟨_, rfl⟩) (fun _ _ _ _ _ => ⟨_, rfl⟩) _ _
  invalidate _ _ _ _ _ := ⟨_, rfl⟩
  clear _ := ⟨_, rfl⟩

/-- A character that is not steady puts a pixel off the screen. -/
theorem putc_strays (hinv : FbInv con) {c : UInt8} (hprints : ¬ FbOp.Steady con (.putc c)) :
    ∃ con', consolePutc fbconOps con c = .ok con' ∧ con'.priv.fb.stray ≠ [] := by
  have hgrid : ¬ CursorInGrid con := fun h => hprints (.inr h)
  have horigin : ¬ (c = backspace ∧ con.xPos = 0 ∧ con.yPos = 0) := fun h => hprints (.inl h)
  obtain ⟨con', hok⟩ := consolePutc_total fbconOps_total con c fun hbs => by
    rcases hinv.pos with h | ⟨⟨hx, -⟩, hy, -⟩
    · exact absurd ⟨hbs, h⟩ horigin
    · by_cases h0 : con.xPos = 0 ∧ con.yPos = 0
      · exact absurd ⟨hbs, h0⟩ horigin
      · omega
  refine ⟨con', hok, ?_⟩
  have hdoomed : Doomed con.priv.fb.width con.priv.fb.height con.priv.font con.priv := by
    refine ⟨rfl, rfl, rfl, .inr ?_⟩
    unfold OnGrid
    rw [← hinv.width, ← hinv.height]
    by_cases hcell : 1 ≤ con.width ∧ 1 ≤ con.height
    · right
      have hnot := fun h => hgrid ⟨hcell, h⟩
      exact ⟨⟨fun h => hnot (.inl (.inl h)), fun h => hnot (.inl (.inr h))⟩,
        fun h => hnot (.inr h)⟩
    · left
      rintro x y ⟨hx, hy⟩
      exact hcell ⟨by omega, by omega⟩
  obtain ⟨con₁, hd, hshow⟩ := consolePutc_keeps (fbconOps_keeps_doomed hinv.nonZero) hdoomed hok
  cases hshow
  exact fbSetCursor_strays hinv.nonZero _ _ hd

/-! ## Operations -/

theorem fbconMeasure_of (h : con.priv.font.NonZero) : fbconMeasure con = .ok (fbconGrid con) :=
  if_neg fun hzero => hzero.elim (Nat.ne_of_gt h.1) (Nat.ne_of_gt h.2)

theorem fbconMeasure_of_not (h : ¬ con.priv.font.NonZero) :
    fbconMeasure con = .error .divide := by
  refine if_pos ?_
  unfold FbconFont.NonZero at h
  omega

theorem fbconMeasure_eq_ok (h : fbconMeasure con = .ok con') :
    con.priv.font.NonZero ∧ con' = fbconGrid con := by
  by_cases hfont : con.priv.font.NonZero
  · rw [fbconMeasure_of hfont] at h
    cases h
    exact ⟨hfont, rfl⟩
  · rw [fbconMeasure_of_not hfont] at h
    cases h

theorem fbconResize_same (hfont : con.priv.font.NonZero)
    (h : (fbconGrid con).width = con.width ∧ (fbconGrid con).height = con.height) :
    fbconResize con = .ok (fbconGrid con) := by
  rw [fbconResize, fbconMeasure_of hfont]
  exact if_pos h

theorem fbconResize_new (hfont : con.priv.font.NonZero)
    (h : ¬ ((fbconGrid con).width = con.width ∧ (fbconGrid con).height = con.height)) :
    fbconResize con = consoleClear fbconOps (fbconGrid con) := by
  rw [fbconResize, fbconMeasure_of hfont]
  exact if_neg h

/-- A font is set if it has a pixel, and the console is cleared then. -/
theorem fbconSetparam_font {font : FbconFont} (hfont : font.NonZero) :
    fbconSetparam con (.font font) = consoleClear fbconOps
      { fbconGrid { con with priv := { con.priv with font := font } } with
        priv := fbconGencursor { con.priv with font := font } } := by
  rw [fbconSetparam, fbconMeasure_of hfont]
  rfl

theorem fbconSetparam_font_of_not {font : FbconFont} (hfont : ¬ font.NonZero) :
    fbconSetparam con (.font font) = .error .divide := by
  rw [fbconSetparam, fbconMeasure_of_not hfont]
  rfl

/-- A mode set resizes the console on the new screen. -/
theorem fbdevSetRes_eq (con : Console FbconPriv) (width height : Int) :
    fbdevSetRes con width height = fbconResize
      { con with priv := { con.priv with fb := con.priv.fb.setRes width height } } := rfl

/-- Resizing keeps the invariant: either the grid is as it was, or the console is
cleared. -/
theorem fbconResize_inv (hnonZero : con.priv.font.NonZero) (hW : 0 ≤ con.priv.fb.width)
    (hH : 0 ≤ con.priv.fb.height)
    (hpos : (con.xPos = 0 ∧ con.yPos = 0) ∨ InGrid con.width con.height con.xPos con.yPos)
    (hcursor : (con.priv.cursorX = -1 ∧ con.priv.cursorY = -1) ∨
      (0 ≤ con.priv.cursorX ∧ 0 ≤ con.priv.cursorY))
    (hsettled : InGrid con.width con.height con.priv.cursorX con.priv.cursorY →
      con.priv.cursorX = con.xPos ∧ con.priv.cursorY = con.yPos) :
    ∃ con', fbconResize con = .ok con' ∧ FbInv con' ∧
      con'.priv.fb.stray = con.priv.fb.stray := by
  by_cases hsame : (fbconGrid con).width = con.width ∧ (fbconGrid con).height = con.height
  · refine ⟨fbconGrid con, fbconResize_same hnonZero hsame,
      ⟨hnonZero, hW, hH, rfl, rfl, ?_, hcursor, ?_⟩, rfl⟩
    · rw [hsame.1, hsame.2]
      exact hpos
    · rw [hsame.1, hsame.2]
      exact hsettled
  · rw [fbconResize_new hnonZero hsame]
    exact fbClear_inv (fbconGrid con) hnonZero hW hH rfl rfl hcursor

/-- A steady operation keeps the invariant and puts no pixel off the screen. -/
theorem fbStep_steady (hinv : FbInv con) {op : FbOp} (hallowed : op.Allowed con)
    (hsteady : op.Steady con) :
    fbStep con op = .error eraseFault ∨
      ∃ con', fbStep con op = .ok con' ∧ FbInv con' ∧
        con'.priv.fb.stray = con.priv.fb.stray := by
  cases op with
  | putc c =>
    rcases hsteady with ⟨rfl, hx, hy⟩ | hgrid
    · exact .inl (consolePutc_origin fbconOps hx hy)
    · rcases putc_steady hinv hgrid c with ⟨-, -, herr⟩ | hok
      · exact .inl herr
      · exact .inr hok
  | clear =>
    exact .inr (fbClear_inv con hinv.nonZero hinv.fbWidth hinv.fbHeight hinv.width hinv.height
      hinv.cursor)
  | setFont font =>
    obtain ⟨con', hok, hinv', hstray⟩ := fbClear_inv
      { fbconGrid { con with priv := { con.priv with font := font } } with
        priv := fbconGencursor { con.priv with font := font } }
      hallowed.1 hinv.fbWidth hinv.fbHeight rfl rfl hinv.cursor
    exact .inr ⟨con', (fbconSetparam_font hallowed.1).trans hok, hinv', hstray⟩
  | setRes width height =>
    rw [fbStep, fbdevSetRes_eq]
    exact .inr (fbconResize_inv hinv.nonZero (Int.le_of_lt hallowed.1) (Int.le_of_lt hallowed.2)
      hinv.pos hinv.cursor hinv.settled)

/-- An operation that is not steady puts a pixel off the screen. -/
theorem fbStep_strays (hinv : FbInv con) {op : FbOp} (hnot : ¬ op.Steady con) :
    ∃ con', fbStep con op = .ok con' ∧ con'.priv.fb.stray ≠ [] := by
  cases op with
  | putc c => exact putc_strays hinv hnot
  | clear => exact absurd trivial hnot
  | setFont font => exact absurd trivial hnot
  | setRes width height => exact absurd trivial hnot

/-- Strays are never forgotten. -/
theorem fbStep_keeps_strays {op : FbOp} (h : fbStep con op = .ok con')
    (hp : con.priv.fb.stray ≠ []) : con'.priv.fb.stray ≠ [] := by
  cases op with
  | putc c =>
    obtain ⟨con₁, hp₁, hshow⟩ := consolePutc_keeps (fbconOps_kept FbDev.call_stray_ne) hp h
    cases hshow
    exact fbSetCursor_kept FbDev.call_stray_ne hp₁
  | clear => exact consoleClear_kept FbDev.call_stray_ne h hp
  | setFont font =>
    have hset : fbconSetparam con (.font font) = .ok con' := h
    by_cases hfont : font.NonZero
    · rw [fbconSetparam_font hfont] at hset
      exact consoleClear_kept FbDev.call_stray_ne hset hp
    · rw [fbconSetparam_font_of_not hfont] at hset
      cases hset
  | setRes width height =>
    have hresize : fbconResize _ = .ok con' := h
    rw [fbconResize] at hresize
    obtain ⟨new, hnew, hresize⟩ := bind_eq_ok hresize
    obtain ⟨-, rfl⟩ := fbconMeasure_eq_ok hnew
    split at hresize
    · cases hresize
      exact hp
    · exact consoleClear_kept FbDev.call_stray_ne hresize hp

theorem fbRun_keeps_strays {ops : List FbOp} (hp : con.priv.fb.stray ≠ []) :
    (fbRun con ops).priv.fb.stray ≠ [] := by
  induction ops generalizing con with
  | nil => exact hp
  | cons op ops ih =>
    rw [fbRun]
    split
    next con' h => exact ih (fbStep_keeps_strays h hp)
    next => exact hp

/-- A run puts a pixel off the screen exactly if a character is printed while the
grid is empty or the cell the cursor is remembered in is off it. -/
theorem fbRun_stray_iff_of_inv {ops : List FbOp} (hinv : FbInv con)
    (hstray : con.priv.fb.stray = []) (hallowed : AllowedRun con ops) :
    (fbRun con ops).priv.fb.stray = [] ↔ SteadyRun con ops := by
  induction ops generalizing con with
  | nil => exact ⟨fun _ => trivial, fun _ => hstray⟩
  | cons op ops ih =>
    rw [fbRun, SteadyRun, AllSteps]
    obtain ⟨hop, hrest⟩ := hallowed
    by_cases hsteady : op.Steady con
    · rcases fbStep_steady hinv hop hsteady with herr | ⟨con', hok, hinv', hsame⟩
      · rw [herr]
        exact ⟨fun _ => ⟨hsteady, trivial⟩, fun _ => hstray⟩
      · rw [hok] at hrest ⊢
        rw [ih hinv' (hsame.trans hstray) hrest]
        exact ⟨fun h => ⟨hsteady, h⟩, fun h => h.2⟩
    · obtain ⟨con', hok, hne⟩ := fbStep_strays hinv hsteady
      rw [hok]
      exact ⟨fun h => absurd h (fbRun_keeps_strays hne), fun h => absurd h.1 hsteady⟩

end Steps

/-- `fbcon_create` on a framebuffer makes a console that keeps the invariant, and
puts no pixel off the screen. -/
theorem fbconCreate_inv {fb : FbDev} (hw : 0 < fb.width)
    (hh : 0 < fb.height) :
    ∃ con, fbconCreate fb = .ok con ∧ FbInv con ∧ con.priv.fb.stray = fb.stray :=
  fbClear_inv (fbconGrid { xPos := 0, yPos := 0, width := 0, height := 0, priv := _ })
    ⟨Nat.succ_pos 6, Nat.succ_pos 12⟩ (Int.le_of_lt hw) (Int.le_of_lt hh) rfl rfl (.inl ⟨rfl, rfl⟩)

/-- A framebuffer of two cells by two in the cherry font. -/
def smallFb : FbDev where
  width := 14
  height := 26
  back := fun _ _ => 0
  front := fun _ _ => 0
  stray := []

/-- A character, a return to the first column, a narrower screen, and another
character: the cursor is always on the grid. -/
def narrowedRun : List FbOp := [.putc 97, .putc carriageReturn, .setRes 7 26, .putc 98]

/-- The cursor is left in the second column when the screen gets narrower: printing
`b` draws a space there. -/
def shrunkRun : List FbOp := [.putc 97, .setRes 7 26, .putc 98]

end Microboot.Kern.Io
