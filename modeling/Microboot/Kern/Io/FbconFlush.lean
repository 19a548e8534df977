/-
  Kern/Io/FbconFlush.lean --- what of the framebuffer console is on the display.

  Everything is drawn into the back buffer, and shown by an `invalidate` of its own.  In
  front of each call of console.c the two buffers agree on all of the text, and each call
  is followed by a flush of what it drew; what is dirty in between is a set of pixels.

  `console_clear_row` is the exception: it has the row for the column of its rectangle.
  In the first row that is no matter, and scrolling flushes the whole grid afterwards, but
  in every other row the rectangle is not on the screen.
-/
import Microboot.Kern.Io.FbconGrid
import Microboot.Kern.Io.VesaShows

set_option autoImplicit false

namespace Microboot.Kern.Io

open Microboot.Foundation

/-! ## The calls of the operations -/

namespace FbDev

variable {fb : FbDev} {x y : Int} {width height : Nat} {colour : Nat → Nat → UInt32}
  {call : FbCall}

@[simp] theorem putRect_front : (fb.putRect x y width height colour).front = fb.front :=
  forUpto_grid_inv (fun _ _ (fb' : FbDev) => fb'.front = fb.front) rfl (fun _ _ _ _ _ ht => ht)
    fun _ _ _ ht => ht

/-- The calls of a rectangle put its pixels. -/
theorem putRect_calls (h : call ∈ (fb.putRect x y width height colour).calls) :
    call ∈ fb.calls ∨ ∃ i j : Nat, (i < width ∧ j < height) ∧
      call = .putPixel (x + i) (y + j) (colour i j) := by
  refine forUpto_grid_inv (fun _ _ (fb' : FbDev) => ∀ call ∈ fb'.calls, call ∈ fb.calls ∨
    ∃ i j : Nat, (i < width ∧ j < height) ∧ call = .putPixel (x + i) (y + j) (colour i j))
    (fun _ h => .inl h) (fun j i hj hi t ht call hcall => ?_) (fun _ _ _ ht => ht) call h
  obtain hcall | hcall := List.mem_cons.mp hcall
  · exact .inr ⟨i, j, ⟨hi, hj⟩, hcall⟩
  · exact ht call hcall

end FbDev

/-! ## Clean pixels -/

/-- The pixel is in a cell of the grid. -/
def OnText (W H : Int) (font : FbconFont) (px py : Int) : Prop :=
  InGrid (W / font.charWidth * font.charWidth) (H / font.charHeight * font.charHeight) px py

theorem OnText.onScreen {W H px py : Int} {font : FbconFont} (hfont : font.NonZero)
    (h : OnText W H font px py) : InGrid W H px py := by
  obtain ⟨⟨hx, hxw⟩, hy, hyh⟩ := h
  have hcols := Int.ediv_mul_le W (b := font.charWidth)
    (Int.natCast_ne_zero.mpr (Nat.ne_of_gt hfont.1))
  have hrows := Int.ediv_mul_le H (b := font.charHeight)
    (Int.natCast_ne_zero.mpr (Nat.ne_of_gt hfont.2))
  exact ⟨⟨hx, by omega⟩, hy, by omega⟩

/-- The pixel is in a rectangle of cells. -/
def InCells (font : FbconFont) (x y width height px py : Int) : Prop :=
  (x * font.charWidth ≤ px ∧ px < x * font.charWidth + width * font.charWidth) ∧
    y * font.charHeight ≤ py ∧ py < y * font.charHeight + height * font.charHeight

/-- A cell of the first row. -/
theorem InCells.inRow {font : FbconFont} {x width px py : Int} (h : InCells font x 0 1 1 px py)
    (hx : 0 ≤ x) (hlt : x + 1 ≤ width) : InCells font 0 0 width 1 px py := by
  obtain ⟨⟨hleft, hright⟩, hrow⟩ := h
  have hcw := Int.natCast_nonneg font.charWidth
  have hstart : 0 ≤ x * font.charWidth := Int.mul_nonneg hx hcw
  have hend : (x + 1) * font.charWidth ≤ width * font.charWidth :=
    Int.mul_le_mul_of_nonneg_right hlt hcw
  rw [Int.add_mul] at hend
  exact ⟨⟨by omega, by omega⟩, hrow⟩

/-- Every call so far stayed on the screen, and the text that is not dirty is on the
display. -/
structure FbClean (W H : Int) (font : FbconFont) (dirty : Int → Int → Prop) (p : FbconPriv) :
    Prop where
  fbWidth : p.fb.width = W
  fbHeight : p.fb.height = H
  sameFont : p.font = font
  inside : ∀ call ∈ p.fb.calls, call.Inside W H
  clean : ∀ px py, OnText W H font px py → ¬ dirty px py → p.fb.front px py = p.fb.back px py
  cursor : (p.cursorX = -1 ∨ p.cursorY = -1) ∨ OnGrid W H font p.cursorX p.cursorY

/-- Cells of the grid end on the screen. -/
theorem cells_fit {W x width : Int} {s : Nat} (hs : 0 < s) (hle : x + width ≤ W / s) :
    x * s + width * s ≤ W := by
  have hcells : (x + width) * s ≤ W / s * s :=
    Int.mul_le_mul_of_nonneg_right hle (Int.natCast_nonneg s)
  have hdiv : W / s * s ≤ W := Int.ediv_mul_le W (by omega)
  rw [Int.add_mul] at hcells
  omega

section Clean

variable {W H : Int} {font : FbconFont} {dirty dirty' : Int → Int → Prop} {p : FbconPriv}
  {x y width height : Int}

theorem FbClean.mono (h : FbClean W H font dirty p)
    (hdirty : ∀ px py, dirty px py → dirty' px py) : FbClean W H font dirty' p :=
  { h with clean := fun px py htext hnot => h.clean px py htext fun hd => hnot (hdirty px py hd) }

/-- Drawing a cell makes its pixels dirty. -/
theorem FbClean.drawCell (hfont : font.NonZero) (h : FbClean W H font dirty p)
    (hin : OnGrid W H font x y) (hcell : ∀ px py, InCells font x y 1 1 px py → dirty px py)
    (bitmap : Int → UInt8) : FbClean W H font dirty { p with fb := p.drawCell x y bitmap } := by
  obtain ⟨rfl, rfl, rfl, hinside, hclean, hcursor⟩ := h
  obtain ⟨⟨hx, hxw⟩, hy, hyh⟩ := hin
  have hright := cell_fits hfont.1 hxw
  have hbelow := cell_fits hfont.2 hyh
  have hleft := Int.mul_nonneg hx (Int.natCast_nonneg p.font.charWidth)
  have habove := Int.mul_nonneg hy (Int.natCast_nonneg p.font.charHeight)
  refine ⟨drawCell_width _, drawCell_height _, rfl, fun call hcall => ?_,
    fun px py htext hnot => ?_, hcursor⟩
  · obtain hcall | ⟨i, j, ⟨hi, hj⟩, rfl⟩ := FbDev.putRect_calls hcall
    · exact hinside call hcall
    · exact ⟨⟨by omega, by omega⟩, by omega, by omega⟩
  · have hoff : (p.drawCell x y bitmap).back px py = p.fb.back px py := by
      refine FbDev.putRect_back_of_off ?_
      by_contra hin
      exact hnot (hcell px py ⟨⟨by omega, by omega⟩, by omega, by omega⟩)
    have hfront : (p.drawCell x y bitmap).front = p.fb.front := FbDev.putRect_front
    exact (congrFun (congrFun hfront px) py).trans ((hclean px py htext hnot).trans hoff.symm)

/-- Flushing cells of the grid makes them clean. -/
theorem FbClean.invalidate (hfont : font.NonZero) (h : FbClean W H font dirty p)
    (hcols : 0 ≤ x ∧ 0 ≤ width ∧ x + width ≤ W / font.charWidth)
    (hrows : 0 ≤ y ∧ 0 ≤ height ∧ y + height ≤ H / font.charHeight)
    (hdirty : ∀ px py, OnText W H font px py → dirty px py →
      InCells font x y width height px py ∨ dirty' px py) :
    FbClean W H font dirty' (fbInvalidate p x y width height) := by
  obtain ⟨rfl, rfl, rfl, hinside, hclean, hcursor⟩ := h
  refine ⟨rfl, rfl, rfl, List.forall_mem_cons.mpr ⟨?_, hinside⟩, fun px py htext hnot => ?_,
    hcursor⟩
  · have hcw := Int.natCast_nonneg p.font.charWidth
    have hch := Int.natCast_nonneg p.font.charHeight
    exact ⟨⟨Int.mul_nonneg hcols.1 hcw, Int.mul_nonneg hcols.2.1 hcw,
        cells_fit hfont.1 hcols.2.2⟩,
      Int.mul_nonneg hrows.1 hch, Int.mul_nonneg hrows.2.1 hch, cells_fit hfont.2 hrows.2.2⟩
  · by_cases hin : InCells p.font x y width height px py
    · exact if_pos hin
    · have hclean' := hclean px py htext fun hd => (hdirty px py htext hd).elim hin hnot
      exact (if_neg hin).trans hclean'

/-- Shifting the screen makes all of it dirty. -/
theorem FbClean.shift (hfont : font.NonZero) (h : FbClean W H font dirty p) :
    FbClean W H font (fun _ _ => True) { p with fb := p.fb.shift p.font.charHeight } := by
  obtain ⟨hw, hh, rfl, hinside, -, hcursor⟩ := h
  exact ⟨hw, hh, rfl, List.forall_mem_cons.mpr ⟨Int.ofNat_lt.mpr hfont.2, hinside⟩,
    fun _ _ _ hnot => absurd trivial hnot, hcursor⟩

theorem FbClean.putxy (hfont : font.NonZero) (h : FbClean W H font dirty p)
    (hin : OnGrid W H font x y) (hcell : ∀ px py, InCells font x y 1 1 px py → dirty px py)
    (c : UInt8) : FbClean W H font dirty (fbPutxy p x y c) := by
  unfold fbPutxy
  by_cases hsame : p.cursorX = x ∧ p.cursorY = y
  · rw [if_pos hsame]
    have hnone : FbClean W H font dirty { p with cursorX := -1, cursorY := -1 } :=
      { h with cursor := .inl (.inl rfl) }
    exact hnone.drawCell hfont hin hcell _
  · rw [if_neg hsame]
    exact h.drawCell hfont hin hcell _

/-- A cell that is drawn and flushed. -/
theorem FbClean.flushCell (hfont : font.NonZero) (hin : OnGrid W H font x y)
    (h : FbClean W H font (fun px py => InCells font x y 1 1 px py) p) :
    FbClean W H font (fun _ _ => False) (fbInvalidate p x y 1 1) := by
  obtain ⟨⟨hx, hxw⟩, hy, hyh⟩ := hin
  exact h.invalidate hfont ⟨hx, by omega, by omega⟩ ⟨hy, by omega, by omega⟩
    fun _ _ _ hd => .inl hd

/-- `fb_set_cursor` draws and flushes the cell the cursor was in, and the one it is in now. -/
theorem FbClean.setCursor (hfont : font.NonZero) (h : FbClean W H font (fun _ _ => False) p)
    (hin : OnGrid W H font x y) :
    FbClean W H font (fun _ _ => False) (fbSetCursor p x y) := by
  have herase : FbClean W H font (fun _ _ => False) (fbEraseCursor p) := by
    unfold fbEraseCursor
    split_ifs with htracked
    · have hcell : OnGrid W H font p.cursorX p.cursorY :=
        h.cursor.resolve_left fun hnone => hnone.elim htracked.1 htracked.2
      exact .flushCell hfont hcell
        ((h.mono fun _ _ hd => hd.elim).putxy hfont hcell (fun _ _ hd => hd) space)
    · exact h
  have hdraw := FbClean.flushCell hfont hin
    ((herase.mono fun _ _ hd => hd.elim).drawCell hfont hin (fun _ _ hd => hd)
      (fbEraseCursor p).cursorBitmap)
  exact { hdraw with cursor := .inr hin }

/-- `fb_clear` draws and flushes the screen. -/
theorem FbClean.clear (hW : 0 ≤ W) (hH : 0 ≤ H) (hfont : font.NonZero)
    (h : FbClean W H font dirty p) : FbClean W H font (fun _ _ => False) (fbClear p) := by
  obtain ⟨rfl, rfl, rfl, hinside, -, hcursor⟩ := h
  refine ⟨FbDev.putRect_width, FbDev.putRect_height, rfl,
    List.forall_mem_cons.mpr ⟨by simp only [FbCall.Inside]; omega, fun call hcall => ?_⟩,
    fun px py htext _ => if_pos ?_, hcursor⟩
  · obtain hcall | ⟨i, j, ⟨hi, hj⟩, rfl⟩ := FbDev.putRect_calls hcall
    · exact hinside call hcall
    · exact ⟨⟨by omega, by omega⟩, by omega, by omega⟩
  · obtain ⟨⟨hx, hxw⟩, hy, hyh⟩ := htext.onScreen hfont
    exact ⟨⟨hx, by omega⟩, hy, by omega⟩

end Clean

/-! ## The operations of the console -/

/-- The console in front of an operation. -/
structure FlushInv (W H : Int) (font : FbconFont) (con : Console FbconPriv) : Prop where
  width : con.width = W / font.charWidth
  height : con.height = H / font.charHeight
  pos : (con.xPos = 0 ∧ con.yPos = 0) ∨ InGrid con.width con.height con.xPos con.yPos
  clean : FbClean W H font (fun _ _ => False) con.priv

section Console

variable {W H : Int} {font : FbconFont} {dirty : Int → Int → Prop} {con : Console FbconPriv}

/-- A cell of the grid that is put and flushed. -/
theorem consoleDraw_clean (con : Console FbconPriv) (hfont : font.NonZero)
    (hwidth : con.width = W / font.charWidth) (hheight : con.height = H / font.charHeight)
    (hin : InGrid con.width con.height con.xPos con.yPos)
    (h : FbClean W H font (fun _ _ => False) con.priv) (c : UInt8) :
    ∃ p, consoleDraw fbconOps con c = .ok { con with priv := p } ∧
      FbClean W H font (fun _ _ => False) p := by
  rw [hwidth, hheight] at hin
  have hput := (h.mono fun _ _ hd => hd.elim).putxy hfont hin (fun _ _ hd => hd) c
  exact ⟨_, rfl, FbClean.flushCell hfont hin { hput with }⟩

/-- `console_erase` flushes the cell it steps back to, if there is one. -/
theorem consoleErase_clean (hfont : font.NonZero) (h : FlushInv W H font con) :
    ((con.xPos = 0 ∧ con.yPos = 0) ∧ consoleErase fbconOps con = .error eraseFault) ∨
      ∃ con', consoleErase fbconOps con = .ok con' ∧ FlushInv W H font con' ∧
        InGrid con'.width con'.height con'.xPos con'.yPos := by
  rw [consoleErase]
  by_cases hx : 0 < con.xPos
  · obtain ⟨⟨hx0, hxw⟩, hy, hyh⟩ := h.pos.resolve_left (by omega)
    have hin : InGrid con.width con.height (con.xPos - 1) con.yPos := ⟨by omega, hy, hyh⟩
    obtain ⟨p, hdraw, hp⟩ := consoleDraw_clean { con with xPos := con.xPos - 1 } hfont h.width
      h.height hin h.clean space
    rw [if_pos hx, hdraw]
    exact .inr ⟨_, rfl, ⟨h.width, h.height, .inr hin, hp⟩, hin⟩
  rw [if_neg hx]
  by_cases hy : 0 < con.yPos
  · obtain ⟨⟨hx0, hxw⟩, hy0, hyh⟩ := h.pos.resolve_left (by omega)
    have hin : InGrid con.width con.height (con.width - 1) (con.yPos - 1) :=
      ⟨by omega, by omega, by omega⟩
    obtain ⟨p, hdraw, hp⟩ := consoleDraw_clean
      { con with yPos := con.yPos - 1, xPos := con.width - 1 } hfont h.width h.height hin h.clean
      space
    rw [require_of _ (by omega), require_of _ hy, ok_bind, ok_bind, hdraw]
    exact .inr ⟨_, rfl, ⟨h.width, h.height, .inr hin, hp⟩, hin⟩
  · -- the assertion on the row fails
    have horigin : con.xPos = 0 ∧ con.yPos = 0 := by
      rcases h.pos with h | ⟨⟨hx0, -⟩, hy0, -⟩
      · exact h
      · omega
    rw [require_of _ horigin.1, require, if_neg hy]
    exact .inl ⟨horigin, rfl⟩

/-- Clearing the first row flushes it. -/
theorem consoleClearRow_clean (con : Console FbconPriv) (hfont : font.NonZero)
    (hwidth : con.width = W / font.charWidth) (hheight : con.height = H / font.charHeight)
    (hw : 0 ≤ con.width) (hh : 1 ≤ con.height) (h : FbClean W H font dirty con.priv)
    (hrow : ∀ px py, InCells font 0 0 con.width 1 px py → dirty px py)
    (hdirty : ∀ px py, OnText W H font px py → dirty px py →
      InCells font 0 0 con.width 1 px py) :
    ∃ p, consoleClearRow fbconPutXy fbconInvalidate con 0 = .ok p ∧
      FbClean W H font (fun _ _ => False) p := by
  obtain ⟨p, hputs, hp⟩ := forUptoM_ok (n := con.width.toNat) (s := con.priv)
    (f := fun x priv => fbconPutXy { con with priv := priv } x 0 space)
    (fun _ p => FbClean W H font dirty p) h fun x hx t ht => by
      have hin : OnGrid W H font x 0 := by
        unfold OnGrid
        rw [← hwidth, ← hheight]
        exact ⟨⟨by omega, by omega⟩, by omega, by omega⟩
      have hcell : ∀ px py, InCells font x 0 1 1 px py → dirty px py :=
        fun px py hcell => hrow px py (hcell.inRow (Int.natCast_nonneg x) (by omega))
      exact ⟨_, rfl, { ht.putxy hfont hin hcell space with }⟩
  rw [consoleClearRow, hputs]
  refine ⟨_, rfl, hp.invalidate hfont ⟨Int.le_refl 0, hw, ?_⟩ ⟨Int.le_refl 0, by decide, ?_⟩
    fun px py htext hd => .inl (hdirty px py htext hd)⟩
  · rw [Int.zero_add]
    exact Int.le_of_eq hwidth
  · rw [← hheight]
    exact hh

/-- Moving on to the next row: with one row on the screen, scrolling clears the first one. -/
theorem consoleNextRow_clean (con : Console FbconPriv) (hfont : font.NonZero)
    (hwidth : con.width = W / font.charWidth) (hheight : con.height = H / font.charHeight)
    (hw : 1 ≤ con.width) (hy : 0 ≤ con.yPos ∧ con.yPos < con.height)
    (hscroll : con.height ≤ con.yPos + 1 → con.height = 1)
    (h : FbClean W H font (fun _ _ => False) con.priv) :
    ∃ con', consoleNextRow fbconOps con = .ok con' ∧ FlushInv W H font con' ∧
      InGrid con'.width con'.height con'.xPos con'.yPos := by
  by_cases hlast : con.height ≤ con.yPos + 1
  · have hone := hscroll hlast
    have hzero : con.yPos + 1 - 1 = 0 := by omega
    -- the row is all of the text
    have hcover : ∀ px py, OnText W H font px py → True →
        InCells font 0 0 con.width 1 px py := by
      rintro px py ⟨⟨hx0, hxw⟩, hy0, hyh⟩ -
      rw [← hwidth] at hxw
      rw [← hheight, hone] at hyh
      exact ⟨⟨by omega, by omega⟩, by omega, by omega⟩
    obtain ⟨p, hrow, hp⟩ := consoleClearRow_clean
      { con with
        xPos := 0
        yPos := 0
        priv := { con.priv with fb := con.priv.fb.shift con.priv.font.charHeight } }
      hfont hwidth hheight (Int.le_of_lt hw) (Int.le_of_eq hone.symm) (h.shift hfont)
      (fun _ _ _ => trivial) hcover
    have hin : InGrid con.width con.height 0 0 := ⟨⟨by omega, by omega⟩, by omega, by omega⟩
    have hflush : FbClean W H font (fun _ _ => False) (fbInvalidate p 0 0 con.width con.height) :=
      hp.invalidate hfont ⟨by omega, by omega, by omega⟩ ⟨by omega, by omega, by omega⟩
        fun _ _ _ hd => hd.elim
    refine ⟨{ con with
      xPos := 0
      yPos := 0
      priv := fbInvalidate p 0 0 con.width con.height }, ?_,
      ⟨hwidth, hheight, .inr hin, hflush⟩, hin⟩
    simp only [consoleNextRow]
    have hscrolled : fbconOps.scroll { con with xPos := 0, yPos := 0 } = .ok p := hrow
    rw [if_pos hlast, hzero, hscrolled]
    rfl
  · have hin : InGrid con.width con.height 0 (con.yPos + 1) :=
      ⟨⟨by omega, by omega⟩, by omega, by omega⟩
    refine ⟨{ con with xPos := 0, yPos := con.yPos + 1 }, ?_, ⟨hwidth, hheight, .inr hin, h⟩, hin⟩
    simp only [consoleNextRow]
    rw [if_neg hlast]
    rfl

/-- Showing the cursor flushes it. -/
theorem consoleShowCursor_clean (hfont : font.NonZero) (h : FlushInv W H font con)
    (hin : InGrid con.width con.height con.xPos con.yPos) :
    ∃ con', consoleShowCursor fbconOps con = .ok con' ∧ FlushInv W H font con' := by
  have hcell : OnGrid W H font con.xPos con.yPos := by
    unfold OnGrid
    rw [← h.width, ← h.height]
    exact hin
  exact ⟨_, rfl, h.width, h.height, .inr hin, h.clean.setCursor hfont hcell⟩

/-- `console_clear` flushes the screen, whatever was dirty. -/
theorem consoleClear_clean (hfont : font.NonZero) (hW : 0 ≤ W) (hH : 0 ≤ H)
    (hwidth : con.width = W / font.charWidth) (hheight : con.height = H / font.charHeight)
    (h : FbClean W H font dirty con.priv) :
    ∃ con', consoleClear fbconOps con = .ok con' ∧ FlushInv W H font con' := by
  have hw : 0 ≤ con.width := by
    rw [hwidth]
    exact Int.ediv_nonneg hW (Int.natCast_nonneg _)
  have hh : 0 ≤ con.height := by
    rw [hheight]
    exact Int.ediv_nonneg hH (Int.natCast_nonneg _)
  obtain ⟨p, hblank, hp⟩ := forUptoM_grid_ok (s := con.priv) (h := con.height.toNat)
    (w := con.width.toNat)
    (f := fun y x priv => fbconPutXy { con with priv := priv } x y space)
    (fun _ _ p => FbClean W H font (fun _ _ => True) p) (h.mono fun _ _ _ => trivial)
    (fun y x hy hx t ht => by
      have hin : OnGrid W H font x y := by
        unfold OnGrid
        rw [← hwidth, ← hheight]
        exact ⟨⟨by omega, by omega⟩, by omega, by omega⟩
      exact ⟨_, rfl, { ht.putxy hfont hin (fun _ _ _ => trivial) space with }⟩)
    fun _ _ _ ht => ht
  have hflush : FbClean W H font (fun _ _ => False)
      (fbInvalidate (fbClear p) 0 0 con.width con.height) :=
    (hp.clear hW hH hfont).invalidate hfont ⟨by omega, by omega, by omega⟩
      ⟨by omega, by omega, by omega⟩ fun _ _ _ hd => hd.elim
  have hblank' : consoleBlank fbconOps con = .ok p := hblank
  refine ⟨{ con with
    xPos := 0
    yPos := 0
    priv := fbInvalidate (fbClear p) 0 0 con.width con.height }, ?_,
    ⟨hwidth, hheight, .inl ⟨rfl, rfl⟩, hflush⟩⟩
  rw [consoleClear, hblank']
  rfl

end Console

/-! ## Operations -/

/-- The operations. -/
inductive FlushOp where
  /-- `console_putc`. -/
  | putc (c : UInt8)
  /-- `console_erase`. -/
  | erase
  /-- `console_clear`. -/
  | clear
  /-- `console_clear_row`. -/
  | clearRow (row : Int)

/-- One operation. -/
def flushStep (con : Console FbconPriv) : FlushOp → Except Fault (Console FbconPriv)
  | .putc c => consolePutc fbconOps con c
  | .erase => consoleErase fbconOps con
  | .clear => consoleClear fbconOps con
  | .clearRow row => con.after (consoleClearRow fbconPutXy fbconInvalidate con row)

/-- The row is on the screen. -/
def FlushOp.Allowed (con : Console FbconPriv) : FlushOp → Prop
  | .clearRow row => 0 ≤ row ∧ row < con.height
  | _ => True

/-- The character goes on to a row below the last one. -/
def Scrolls (con : Console FbconPriv) (c : UInt8) : Prop :=
  (c = newline ∨ (c ≠ backspace ∧ c ≠ carriageReturn) ∧ con.width ≤ con.xPos + 1) ∧
    con.height ≤ con.yPos + 1

instance (con : Console FbconPriv) (c : UInt8) : Decidable (Scrolls con c) :=
  inferInstanceAs (Decidable (_ ∧ _))

/-- No row is cleared but the first one, neither by itself nor by scrolling, and a character
has a cell to go to; a backspace in the first cell goes nowhere. -/
def FlushOp.Safe (con : Console FbconPriv) : FlushOp → Prop
  | .putc c => (c = backspace ∧ con.xPos = 0 ∧ con.yPos = 0) ∨
    (1 ≤ con.width ∧ 1 ≤ con.height) ∧ (Scrolls con c → con.height = 1)
  | .clearRow row => row = 0
  | _ => True

instance decidableFlushAllowed (con : Console FbconPriv) :
    (op : FlushOp) → Decidable (op.Allowed con)
  | .clearRow row => inferInstanceAs (Decidable (0 ≤ row ∧ row < con.height))
  | .putc _ => inferInstanceAs (Decidable True)
  | .erase => inferInstanceAs (Decidable True)
  | .clear => inferInstanceAs (Decidable True)

instance decidableFlushSafe (con : Console FbconPriv) : (op : FlushOp) → Decidable (op.Safe con)
  | .putc c => inferInstanceAs (Decidable ((c = backspace ∧ con.xPos = 0 ∧ con.yPos = 0) ∨
      (1 ≤ con.width ∧ 1 ≤ con.height) ∧ (Scrolls con c → con.height = 1)))
  | .clearRow row => inferInstanceAs (Decidable (row = 0))
  | .erase => inferInstanceAs (Decidable True)
  | .clear => inferInstanceAs (Decidable True)

section Steps

variable {W H : Int} {font : FbconFont} {con con' : Console FbconPriv}

/-- A safe character is flushed. -/
theorem putc_clean (hfont : font.NonZero) (h : FlushInv W H font con) {c : UInt8}
    (hsafe : FlushOp.Safe con (.putc c)) :
    consolePutc fbconOps con c = .error eraseFault ∨
      ∃ con', consolePutc fbconOps con c = .ok con' ∧ FlushInv W H font con' := by
  rcases hsafe with ⟨rfl, hx, hy⟩ | ⟨⟨hw, hh⟩, hscroll⟩
  · exact .inl (consolePutc_origin fbconOps hx hy)
  have hin : InGrid con.width con.height con.xPos con.yPos := by
    rcases h.pos with ⟨hx, hy⟩ | hin
    · exact ⟨⟨by omega, by omega⟩, by omega, by omega⟩
    · exact hin
  rw [consolePutc]
  by_cases hnl : c = newline
  · obtain ⟨con₁, hnext, hinv, hin₁⟩ := consoleNextRow_clean con hfont h.width h.height hw hin.2
      (fun hlast => hscroll ⟨.inl hnl, hlast⟩) h.clean
    rw [if_pos hnl, hnext]
    exact .inr (consoleShowCursor_clean hfont hinv hin₁)
  rw [if_neg hnl]
  by_cases hbs : c = backspace
  · rw [if_pos hbs]
    obtain ⟨-, herr⟩ | ⟨con₁, hok, hinv, hin₁⟩ := consoleErase_clean hfont h
    · rw [herr]
      exact .inl rfl
    · rw [hok]
      exact .inr (consoleShowCursor_clean hfont hinv hin₁)
  rw [if_neg hbs]
  by_cases hcr : c = carriageReturn
  · have hin₀ : InGrid con.width con.height 0 con.yPos := ⟨⟨Int.le_refl 0, by omega⟩, hin.2⟩
    have hinv : FlushInv W H font { con with xPos := 0 } :=
      ⟨h.width, h.height, .inr hin₀, h.clean⟩
    rw [if_pos hcr]
    exact .inr (consoleShowCursor_clean hfont hinv hin₀)
  rw [if_neg hcr]
  obtain ⟨p, hdraw, hp⟩ := consoleDraw_clean con hfont h.width h.height hin h.clean c
  rw [hdraw, ok_bind]
  by_cases hend : con.width ≤ con.xPos + 1
  · obtain ⟨con₂, hnext, hinv, hin₂⟩ := consoleNextRow_clean
      { con with priv := p, xPos := con.xPos + 1 } hfont h.width h.height hw hin.2
      (fun hlast => hscroll ⟨.inr ⟨⟨hbs, hcr⟩, hend⟩, hlast⟩) hp
    simp only [if_pos hend, hnext, ok_bind]
    exact .inr (consoleShowCursor_clean hfont hinv hin₂)
  · have hx := hin.1.1
    have hin₁ : InGrid con.width con.height (con.xPos + 1) con.yPos :=
      ⟨⟨by omega, by omega⟩, hin.2⟩
    have hinv : FlushInv W H font { con with priv := p, xPos := con.xPos + 1 } :=
      ⟨h.width, h.height, .inr hin₁, hp⟩
    simp only [if_neg hend]
    exact .inr (consoleShowCursor_clean hfont hinv hin₁)

/-- A safe operation leaves nothing dirty. -/
theorem flushStep_clean (hfont : font.NonZero) (hW : 0 ≤ W) (hH : 0 ≤ H)
    (h : FlushInv W H font con) {op : FlushOp} (hallowed : op.Allowed con) (hsafe : op.Safe con) :
    flushStep con op = .error eraseFault ∨
      ∃ con', flushStep con op = .ok con' ∧ FlushInv W H font con' := by
  cases op with
  | putc c => exact putc_clean hfont h hsafe
  | erase =>
    obtain ⟨-, herr⟩ | ⟨con', hok, hinv, -⟩ := consoleErase_clean hfont h
    · exact .inl herr
    · exact .inr ⟨con', hok, hinv⟩
  | clear => exact .inr (consoleClear_clean hfont hW hH h.width h.height h.clean)
  | clearRow row =>
    obtain rfl : row = 0 := hsafe
    obtain ⟨hrow, hlt⟩ := hallowed
    have hw : 0 ≤ con.width := by
      rw [h.width]
      exact Int.ediv_nonneg hW (Int.natCast_nonneg _)
    obtain ⟨p, hok, hp⟩ := consoleClearRow_clean con hfont h.width h.height hw hlt
      (h.clean.mono fun _ _ hd => hd.elim) (fun _ _ hin => hin) fun _ _ _ hin => hin
    refine .inr ⟨{ con with priv := p }, ?_, h.width, h.height, h.pos, hp⟩
    rw [flushStep, hok]
    rfl

/-! ## What every call keeps -/

variable {P : FbDev → Prop} {p : FbconPriv} {x y : Int}

/-- What every call on the device keeps, every operation of the console does. -/
theorem flushStep_kept (hcall : ∀ fb call, P fb → P (fb.call call)) {op : FlushOp}
    (hok : flushStep con op = .ok con') (h : P con.priv.fb) : P con'.priv.fb := by
  have hops := fbconOps_kept hcall
  cases op with
  | putc c =>
    obtain ⟨con₁, h₁, hshow⟩ := consolePutc_keeps hops h hok
    cases hshow
    exact fbSetCursor_kept hcall h₁
  | erase => exact consoleErase_keeps hops con h hok
  | clear => exact consoleClear_kept hcall hok h
  | clearRow row =>
    obtain ⟨p, hrow, rfl⟩ := Console.after_eq_ok hok
    refine consoleClearRow_keeps (P := fun p => P p.fb) hrow h
      (fun con x y c p h hput => hops.putXy con h hput) fun con x y a b p h hflush => ?_
    exact hops.invalidate con h hflush

/-! ## Operations that are not safe -/

/-- A rectangle was flushed that is not on the screen. -/
def FlushedOff (W H : Int) (fb : FbDev) : Prop :=
  ∃ x y width height, FbCall.invalidate x y width height ∈ fb.calls ∧
    ¬ FbCall.Inside W H (.invalidate x y width height)

/-- No call takes that back. -/
theorem FlushedOff.call {fb : FbDev} (h : FlushedOff W H fb) (call : FbCall) :
    FlushedOff W H (fb.call call) := by
  obtain ⟨x, y, width, height, hmem, hout⟩ := h
  refine ⟨x, y, width, height, ?_, hout⟩
  rw [FbDev.call_calls]
  exact List.mem_cons_of_mem _ hmem

/-- With no cell on the grid, the cursor is flushed off the screen. -/
theorem fbSetCursor_off (hfont : font.NonZero) (hsame : p.font = font)
    (hnone : ¬ OnGrid W H font x y) : FlushedOff W H (fbSetCursor p x y).fb := by
  have herase : (fbEraseCursor p).font = font := by
    unfold fbEraseCursor
    split
    · exact (fbPutxy_font space).trans hsame
    · exact hsame
  refine ⟨x * (fbEraseCursor p).font.charWidth, y * (fbEraseCursor p).font.charHeight, _, _,
    List.mem_cons_self, fun hin => hnone (onGrid_of_lastPixel hfont ?_)⟩
  rw [herase] at hin
  obtain ⟨⟨hx, -, hxw⟩, hy, -, hyh⟩ := hin
  have hcw := hfont.1
  have hch := hfont.2
  exact ⟨⟨by omega, by omega⟩, by omega, by omega⟩

/-- The row for the column: behind the first row that is off the screen. -/
theorem consoleClearRow_off {row : Int} (hfont : con.priv.font.NonZero)
    (hwidth : con.width = W / con.priv.font.charWidth) (hrow : 1 ≤ row)
    (hok : consoleClearRow fbconPutXy fbconInvalidate con row = .ok p) : FlushedOff W H p.fb := by
  obtain ⟨p₁, hputs, hflush⟩ := bind_eq_ok hok
  have hsame : p₁.font = con.priv.font :=
    forUptoM_inv (fun p : FbconPriv => p.font = con.priv.font) rfl
      (fun x p p' h hput => by cases hput; exact (fbPutxy_font space).trans h) hputs
  cases hflush
  refine ⟨row * p₁.font.charWidth, 0 * p₁.font.charHeight, con.width * p₁.font.charWidth, _,
    List.mem_cons_self, fun hin => ?_⟩
  obtain ⟨⟨-, -, hend⟩, -⟩ := hin
  rw [hsame, hwidth] at hend
  have hcw := hfont.1
  have hbehind := Int.lt_ediv_add_one_mul_self W (b := con.priv.font.charWidth) (by omega)
  have hcells : 1 * (con.priv.font.charWidth : Int) ≤ row * con.priv.font.charWidth :=
    Int.mul_le_mul_of_nonneg_right hrow (Int.natCast_nonneg _)
  rw [Int.add_mul] at hbehind
  omega

/-- Scrolling with more than one row clears the last one. -/
theorem consoleNextRow_off (con : Console FbconPriv) (hfont : con.priv.font.NonZero)
    (hwidth : con.width = W / con.priv.font.charWidth) (hrow : 1 ≤ con.yPos)
    (hlast : con.height ≤ con.yPos + 1) (hok : consoleNextRow fbconOps con = .ok con') :
    FlushedOff W H con'.priv.fb := by
  simp only [consoleNextRow] at hok
  rw [if_pos hlast] at hok
  obtain ⟨con₁, hscroll, hflush⟩ := bind_eq_ok hok
  obtain ⟨p₁, hclear, rfl⟩ := Console.after_eq_ok hscroll
  cases hflush
  have hrow' : 1 ≤ con.yPos + 1 - 1 := by omega
  refine (consoleClearRow_off ?_ ?_ hrow' hclear).call (.invalidate _ _ _ _)
  · exact hfont
  · exact hwidth

/-- A character that is not safe flushes a rectangle off the screen. -/
theorem putc_off (hfont : font.NonZero) (h : FlushInv W H font con) {c : UInt8}
    (hnot : ¬ FlushOp.Safe con (.putc c)) (hok : consolePutc fbconOps con c = .ok con') :
    FlushedOff W H con'.priv.fb := by
  have hcall : ∀ fb call, FlushedOff W H fb → FlushedOff W H (fb.call call) :=
    fun _ call hoff => hoff.call call
  by_cases hcell : 1 ≤ con.width ∧ 1 ≤ con.height
  · -- the console scrolls in the last of two rows or more
    obtain ⟨⟨hkey, hlast⟩, hone⟩ : Scrolls con c ∧ con.height ≠ 1 := by
      by_contra hnone
      exact hnot (.inr ⟨hcell, fun hs => by_contra fun hone => hnone ⟨hs, hone⟩⟩)
    have hrow : 1 ≤ con.yPos := by omega
    have hin := h.pos.resolve_left (by omega)
    have hsame := h.clean.sameFont
    rw [consolePutc] at hok
    by_cases hnl : c = newline
    · rw [if_pos hnl] at hok
      obtain ⟨con₁, hnext, hshow⟩ := bind_eq_ok hok
      cases hshow
      refine fbSetCursor_kept hcall (consoleNextRow_off con ?_ ?_ hrow hlast hnext)
      · rwa [hsame]
      · rw [hsame]
        exact h.width
    · obtain ⟨⟨hbs, hcr⟩, hend⟩ := hkey.resolve_left hnl
      obtain ⟨p, hdraw, hp⟩ := consoleDraw_clean con hfont h.width h.height hin h.clean c
      rw [if_neg hnl, if_neg hbs, if_neg hcr, hdraw, ok_bind] at hok
      simp only [if_pos hend] at hok
      obtain ⟨con₁, hnext, hshow⟩ := bind_eq_ok hok
      cases hshow
      refine fbSetCursor_kept hcall
        (consoleNextRow_off { con with priv := p, xPos := con.xPos + 1 } ?_ ?_ hrow hlast hnext)
      · dsimp only
        rwa [hp.sameFont]
      · dsimp only
        rw [hp.sameFont]
        exact h.width
  · -- there is no cell for the cursor
    obtain ⟨con₁, hp, hshow⟩ :=
      consolePutc_keeps (fbconOps_keeps_font font) h.clean.sameFont hok
    cases hshow
    refine fbSetCursor_off hfont hp fun hon => hcell ?_
    unfold OnGrid at hon
    rw [← h.width, ← h.height] at hon
    obtain ⟨hx, hy⟩ := hon
    exact ⟨by omega, by omega⟩

/-- So does any other operation that is not safe. -/
theorem flushStep_off (hfont : font.NonZero) (h : FlushInv W H font con) {op : FlushOp}
    (hallowed : op.Allowed con) (hnot : ¬ op.Safe con) (hok : flushStep con op = .ok con') :
    FlushedOff W H con'.priv.fb := by
  cases op with
  | putc c => exact putc_off hfont h hnot hok
  | erase => exact absurd trivial hnot
  | clear => exact absurd trivial hnot
  | clearRow row =>
    obtain ⟨p, hclear, rfl⟩ := Console.after_eq_ok hok
    have hne : row ≠ 0 := hnot
    have hsame := h.clean.sameFont
    refine consoleClearRow_off ?_ ?_ (by have := hallowed.1; omega) hclear
    · rwa [hsame]
    · rw [hsame]
      exact h.width

end Steps

/-! ## Runs -/

/-- A framebuffer console whose font is changed before anything is written. -/
def fbconStart (fb : FbDev) (fonts : List FbconFont) : Except Fault (Console FbconPriv) := do
  let con ← fbconCreate fb
  fonts.foldlM (fun con font => fbconSetparam con (.font font)) con

/-- No rectangle was flushed off the screen, and after all calls on the driver the text is on
the display as it is in the back buffer. -/
def OnDisplay (device : VesaPriv) (m₀ : Mem) (con : Console FbconPriv) : Prop :=
  ¬ FlushedOff device.width device.height con.priv.fb ∧
    ∃ m log, vesaCalls device con.priv.fb.calls ⟨m₀, []⟩ = some ((), ⟨m, log⟩) ∧
      ∀ x y : Nat, InGrid (con.width * con.priv.font.charWidth)
          (con.height * con.priv.font.charHeight) x y →
        device.pixel m device.framebuffer x y = device.pixel m device.backbuffer x y

/-- A console nothing was written on. -/
structure Unwritten (device : VesaPriv) (m₀ : Mem) (con : Console FbconPriv) : Prop where
  nonZero : con.priv.font.NonZero
  inv : FlushInv device.width device.height con.priv.font con
  hidden : con.priv.cursorX = -1 ∨ con.priv.cursorY = -1
  replayed : Replayed device m₀ con.priv.fb

section Runs

variable {device : VesaPriv} {m₀ : Mem} {con con' : Console FbconPriv}

/-- `console_clear` shows no cursor. -/
theorem consoleClear_hidden (h : con.priv.cursorX = -1 ∨ con.priv.cursorY = -1)
    (hok : consoleClear fbconOps con = .ok con') :
    con'.priv.cursorX = -1 ∨ con'.priv.cursorY = -1 := by
  have hkeeps : Keeps fbconOps fun p => p.cursorX = -1 ∨ p.cursorY = -1 := by
    refine fbconOps_keeps (fun p x y c _ hp => ?_) (fun _ _ _ _ _ hp => hp) fun _ hp => hp
    simp only [fbPutxy]
    split
    · exact .inl rfl
    · exact hp
  refine consoleClear_keeps hkeeps (fun {con p} hp hclear => ?_) h hok
  cases hclear
  exact hp

/-- The grid of a new font, when it is cleared. -/
theorem unwritten_of_clear (con : Console FbconPriv) (h : device.TrueColour)
    (hfont : con.priv.font.NonZero)
    (hwidth : con.width = con.priv.fb.width / con.priv.font.charWidth)
    (hheight : con.height = con.priv.fb.height / con.priv.font.charHeight)
    (hcursor : con.priv.cursorX = -1 ∨ con.priv.cursorY = -1)
    (hinside : ∀ call ∈ con.priv.fb.calls, call.Inside device.width device.height)
    (hr : Replayed device m₀ con.priv.fb) :
    ∃ con', consoleClear fbconOps con = .ok con' ∧ Unwritten device m₀ con' := by
  have hclean : FbClean device.width device.height con.priv.font (fun _ _ => True) con.priv :=
    ⟨hr.width, hr.height, rfl, hinside, fun _ _ _ hnot => absurd trivial hnot, .inl hcursor⟩
  rw [hr.width] at hwidth
  rw [hr.height] at hheight
  obtain ⟨con', hok, hinv⟩ := consoleClear_clean hfont (Int.natCast_nonneg _)
    (Int.natCast_nonneg _) hwidth hheight hclean
  have hsame := hinv.clean.sameFont
  refine ⟨con', hok, ?_, ?_, consoleClear_hidden hcursor hok,
    consoleClear_kept (fun _ call hfb => hfb.call h call) hok hr⟩
  · rwa [hsame]
  · rwa [hsame]

theorem fbconStart_unwritten (h : device.TrueColour) (m₀ : Mem) {fonts : List FbconFont}
    (hfonts : ∀ font ∈ fonts, font.NonZero) :
    ∃ con, fbconStart (fbOf device m₀) fonts = .ok con ∧ Unwritten device m₀ con := by
  obtain ⟨con, hcreate, hstart⟩ : ∃ con, fbconCreate (fbOf device m₀) = .ok con ∧
      Unwritten device m₀ con :=
    unwritten_of_clear (fbconGrid { xPos := 0, yPos := 0, width := 0, height := 0, priv := _ }) h
      ⟨Nat.succ_pos 6, Nat.succ_pos 12⟩ rfl rfl (.inl rfl) (fun _ hcall => nomatch hcall)
      (replayed_fbOf device m₀)
  obtain ⟨con', hrun, hlast⟩ : ∃ con',
      fonts.foldlM (fun con font => fbconSetparam con (.font font)) con = .ok con' ∧
        Unwritten device m₀ con' :=
    foldlM_ok (fun _ con => Unwritten device m₀ con) hstart fun _ font con hmem hcon => by
      rw [fbconSetparam_font (hfonts font hmem)]
      exact unwritten_of_clear _ h (hfonts font hmem) rfl rfl hcon.hidden hcon.inv.clean.inside
        hcon.replayed
  refine ⟨con', ?_, hlast⟩
  rw [fbconStart, hcreate]
  exact hrun

/-- What nothing dirty means in memory. -/
theorem FlushInv.onDisplay {font : FbconFont} (hfont : font.NonZero)
    (h : FlushInv device.width device.height font con) (hr : Replayed device m₀ con.priv.fb) :
    OnDisplay device m₀ con := by
  have hinside := h.clean.inside
  refine ⟨fun ⟨x, y, width, height, hmem, hout⟩ => hout (hinside _ hmem), ?_⟩
  obtain ⟨m, log, hcalls, hs⟩ := hr.shows hinside
  refine ⟨m, log, hcalls, fun x y hin => ?_⟩
  rw [h.width, h.height, h.clean.sameFont] at hin
  obtain ⟨⟨-, hx⟩, -, hy⟩ := OnText.onScreen hfont hin
  calc device.pixel m device.framebuffer x y
      = con.priv.fb.front x y := (hs.front x y (Int.ofNat_lt.mp hx) (Int.ofNat_lt.mp hy)).symm
    _ = con.priv.fb.back x y := h.clean.clean x y hin fun hd => hd
    _ = device.pixel m device.backbuffer x y :=
      hs.back x y (Int.ofNat_lt.mp hx) (Int.ofNat_lt.mp hy)

/-- In a state that a run of operations reaches, all of the text is on the display and no
rectangle was flushed off the screen exactly if no row but the first was cleared and each
character had a cell. -/
theorem consoleRun_onDisplay_iff (device : VesaPriv) (h : device.TrueColour) (m₀ : Mem)
    (fonts : List FbconFont) (hfonts : ∀ font ∈ fonts, font.NonZero) :
    ∃ con, fbconStart (fbOf device m₀) fonts = .ok con ∧
      ∀ ops con', AllSteps flushStep (fun con op => op.Allowed con) con ops →
        ops.foldlM flushStep con = .ok con' →
          (OnDisplay device m₀ con' ↔ AllSteps flushStep (fun con op => op.Safe con) con ops) := by
  obtain ⟨con, hstart, hnew⟩ := fbconStart_unwritten h m₀ hfonts
  refine ⟨con, hstart, fun ops con' hallowed hrun => ?_⟩
  have hfont := hnew.nonZero
  have hreplayed : ∀ fb call, Replayed device m₀ fb → Replayed device m₀ (fb.call call) :=
    fun _ call hfb => hfb.call h call
  have hoff : ∀ fb call, FlushedOff device.width device.height fb →
      FlushedOff device.width device.height (fb.call call) := fun _ call hfb => hfb.call call
  have hclean : ∀ s op s', (FlushInv device.width device.height con.priv.font s ∧
      Replayed device m₀ s.priv.fb) → op.Allowed s → op.Safe s → flushStep s op = .ok s' →
        FlushInv device.width device.height con.priv.font s' ∧ Replayed device m₀ s'.priv.fb := by
    rintro s op s' ⟨hinv, hr⟩ hop hsafe hok
    refine ⟨?_, flushStep_kept hreplayed hok hr⟩
    obtain herr | ⟨s₁, hok', hinv'⟩ := flushStep_clean hfont (Int.natCast_nonneg _)
      (Int.natCast_nonneg _) hinv hop hsafe
    · rw [herr] at hok
      cases hok
    · rw [hok'] at hok
      cases hok
      exact hinv'
  obtain ⟨hsafe, hinv, hr⟩ | ⟨hnot, hbad⟩ := AllSteps.good_or_bad _
    (fun con' => FlushedOff device.width device.height con'.priv.fb) hclean
    (fun s op s' hgood hop hnot hok => flushStep_off hfont hgood.1 hop hnot hok)
    (fun s op s' hbad hok => flushStep_kept hoff hok hbad) ⟨hnew.inv, hnew.replayed⟩ hallowed hrun
  · exact ⟨fun _ => hsafe, fun _ => hinv.onDisplay hfont hr⟩
  · exact ⟨fun hdisplay => absurd hbad hdisplay.1, fun hsafe => absurd hsafe hnot⟩

/-- A screen of two cells by two in the cherry font. -/
def pocketScreen : VesaPriv := ⟨14, 26, 32, 4, 56, 0xfd000000, 0x200000⟩

/-- Both cells of the first row, a backspace from the second row, and the first row cleared. -/
def quietRun : List FlushOp := [.putc 97, .putc 98, .putc backspace, .clearRow 0]

theorem consoleRun_onDisplay_quiet :
    ∃ con, fbconStart (fbOf pocketScreen fun _ => 0) [] = .ok con ∧
      ∃ con', quietRun.foldlM flushStep con = .ok con' ∧
        OnDisplay pocketScreen (fun _ => 0) con' := by
  obtain ⟨con, hstart, hiff⟩ := consoleRun_onDisplay_iff pocketScreen
    ⟨⟨rfl, by decide, by decide, by decide, by decide⟩, ⟨by decide, by decide⟩, rfl, rfl⟩
    (fun _ => 0) [] (by decide)
  obtain ⟨con₁, hstart', hallowed, hsafe, con', hrun, -⟩ : ∃ con,
      fbconStart (fbOf pocketScreen fun _ => 0) [] = .ok con ∧
        AllSteps flushStep (fun con op => op.Allowed con) con quietRun ∧
        AllSteps flushStep (fun con op => op.Safe con) con quietRun ∧
        ∃ con', quietRun.foldlM flushStep con = .ok con' ∧ True := by
    decide +kernel
  rw [hstart] at hstart'
  cases hstart'
  exact ⟨con, hstart, con', hrun, (hiff quietRun con' hallowed hrun).mpr hsafe⟩

/-- The second row is cleared: the rectangle starts in the second column of the first row, and
ends behind the screen. -/
theorem clearRow_leaves_display :
    ∃ con, fbconStart (fbOf pocketScreen fun _ => 0) [] = .ok con ∧
      AllSteps flushStep (fun con op => op.Allowed con) con [.clearRow 1] ∧
      ∃ con', [FlushOp.clearRow 1].foldlM flushStep con = .ok con' ∧
        ¬ OnDisplay pocketScreen (fun _ => 0) con' := by
  obtain ⟨con, hstart, hallowed, con', hrun, hmem⟩ : ∃ con,
      fbconStart (fbOf pocketScreen fun _ => 0) [] = .ok con ∧
        AllSteps flushStep (fun con op => op.Allowed con) con [.clearRow 1] ∧
        ∃ con', [FlushOp.clearRow 1].foldlM flushStep con = .ok con' ∧
          FbCall.invalidate 7 0 14 13 ∈ con'.priv.fb.calls := by
    decide +kernel
  exact ⟨con, hstart, hallowed, con', hrun, fun hdisplay =>
    hdisplay.1 ⟨7, 0, 14, 13, hmem, by decide⟩⟩

end Runs

end Microboot.Kern.Io
