/-
  Kern/Io/FbconShows.lean --- what the framebuffer console shows.

  A cell shows a bitmap if its pixels are the bitmap's, in the colours of the
  console.  `FbShows` relates the pixels of the grid to characters, but for the
  cell the cursor is painted in.  Erasing the cursor draws a space in its cell,
  and scrolling moves the painted cursor along: the driver is lawful only if the
  cursor leaves a space behind and does not scroll (`fbconOps_shows`).
-/
import Microboot.Kern.Io.FbconGrid

set_option autoImplicit false

namespace Microboot.Kern.Io

open Microboot.Foundation

/-! ## Cells -/

/-- The pixels of a cell are those of a bitmap, in the colours of the console. -/
def FbconPriv.CellIs (p : FbconPriv) (x y : Int) (bitmap : Int → UInt8) : Prop :=
  ∀ i, i < p.font.charWidth → ∀ j, j < p.font.charHeight →
    p.fb.back (x * p.font.charWidth + i) (y * p.font.charHeight + j) =
      if bitmapBit bitmap p.font.charWidthBytes i j then p.fgColour else p.bgColour

instance (p : FbconPriv) (x y : Int) (bitmap : Int → UInt8) : Decidable (p.CellIs x y bitmap) :=
  inferInstanceAs (Decidable (∀ i, i < p.font.charWidth → ∀ j, j < p.font.charHeight → _))

/-- The glyph of the space has no pixel set. -/
def FbconFont.BlankSpace (font : FbconFont) : Prop :=
  ∀ i, i < font.charWidth → ∀ j, j < font.charHeight →
    bitmapBit (font.glyph space) font.charWidthBytes i j = false

instance (font : FbconFont) : Decidable font.BlankSpace :=
  inferInstanceAs (Decidable (∀ i, i < font.charWidth → ∀ j, j < font.charHeight → _))

/-- Pixels of different cells are apart. -/
theorem cells_apart {x x' : Int} {s i : Nat} (hne : x' ≠ x) (hi : i < s) :
    x' * s + i < x * s ∨ x * s + s ≤ x' * s + i := by
  rcases Int.lt_or_gt_of_ne hne with hlt | hlt
  · have hle : (x' + 1) * s ≤ x * s :=
      Int.mul_le_mul_of_nonneg_right hlt (Int.natCast_nonneg s)
    rw [Int.add_mul] at hle
    omega
  · have hle : (x + 1) * s ≤ x' * s :=
      Int.mul_le_mul_of_nonneg_right hlt (Int.natCast_nonneg s)
    rw [Int.add_mul] at hle
    omega

section Draw

variable {p : FbconPriv} {x y x' y' : Int}

/-- A cell that is drawn shows the bitmap. -/
theorem drawCell_is (p : FbconPriv) (x y : Int) (bitmap : Int → UInt8) :
    FbconPriv.CellIs { p with fb := p.drawCell x y bitmap } x y bitmap :=
  fun _ hi _ hj => FbDev.putRect_back hi hj

/-- The pixels of the other cells stay. -/
theorem drawCell_back_of_ne {bitmap : Int → UInt8} (hne : ¬ (x' = x ∧ y' = y)) {i j : Nat}
    (hi : i < p.font.charWidth) (hj : j < p.font.charHeight) :
    (p.drawCell x y bitmap).back (x' * p.font.charWidth + i) (y' * p.font.charHeight + j) =
      p.fb.back (x' * p.font.charWidth + i) (y' * p.font.charHeight + j) := by
  refine FbDev.putRect_back_of_off ?_
  by_cases hx : x' = x
  · have := cells_apart (fun hy : y' = y => hne ⟨hx, hy⟩) hj
    omega
  · have := cells_apart hx hi
    omega

/-- What the other cells show stays. -/
theorem cellIs_drawCell_iff {bitmap other : Int → UInt8} (hne : ¬ (x' = x ∧ y' = y)) :
    FbconPriv.CellIs { p with fb := p.drawCell x y bitmap } x' y' other ↔
      p.CellIs x' y' other := by
  constructor
  · intro h i hi j hj
    rw [← h i hi j hj]
    exact (drawCell_back_of_ne hne hi hj).symm
  · intro h i hi j hj
    rw [← h i hi j hj]
    exact drawCell_back_of_ne hne hi hj

end Draw

/-! ## The grid -/

/-- The console keeps to its grid, and shows the characters `s` in its colours, but
for the cell with the painted cursor; in a garbled row, a cell whose character is
NUL shows anything. -/
structure FbShows (W H : Int) (font : FbconFont) (fg bg : UInt32) (cursor : Int → UInt8)
    (strays old : List (Int × Int)) (garbled : Int → Prop) (p : FbconPriv) (s : Cells UInt8)
    (k : Option (Int × Int)) : Prop where
  keeps : FbKeeps W H font strays old none p k
  fgColour : p.fgColour = fg
  bgColour : p.bgColour = bg
  cursorBitmap : p.cursorBitmap = cursor
  cells : ∀ x y, OnGrid W H font x y → k ≠ some (x, y) → (garbled y → s x y ≠ 0) →
    p.CellIs x y (font.glyph (s x y))

section Ops

variable {W H : Int} {font : FbconFont} {fg bg : UInt32} {cursor : Int → UInt8}
  {strays old : List (Int × Int)} {garbled : Int → Prop} {p : FbconPriv} {s : Cells UInt8}
  {k : Option (Int × Int)}

theorem fbPutxy_shows (hfont : font.NonZero) {x y : Int} (c : UInt8)
    (hin : OnGrid W H font x y) (hp : FbShows W H font fg bg cursor strays old garbled p s k) :
    FbShows W H font fg bg cursor strays old garbled (fbPutxy p x y c) (s.write x y c)
      (drawnOver x y k) := by
  have hkeeps := fbPutxy_keeps hfont c hin hp.keeps
  -- the cell is drawn whether or not the cursor was tracked in it
  have hdraw : ∀ x' y' bitmap, (fbPutxy p x y c).CellIs x' y' bitmap ↔
      FbconPriv.CellIs { p with fb := p.drawCell x y (p.font.glyph c) } x' y' bitmap := by
    intro x' y' bitmap
    unfold fbPutxy
    split <;> exact Iff.rfl
  have hcolours : (fbPutxy p x y c).fgColour = p.fgColour ∧
      (fbPutxy p x y c).bgColour = p.bgColour ∧
      (fbPutxy p x y c).cursorBitmap = p.cursorBitmap := by
    unfold fbPutxy
    split <;> exact ⟨rfl, rfl, rfl⟩
  refine ⟨hkeeps, hcolours.1.trans hp.fgColour, hcolours.2.1.trans hp.bgColour,
    hcolours.2.2.trans hp.cursorBitmap, fun x' y' hin' hk hs => (hdraw x' y' _).2 ?_⟩
  by_cases hsame : x' = x ∧ y' = y
  · obtain ⟨rfl, rfl⟩ := hsame
    rw [Cells.write_same, ← hp.keeps.sameFont]
    exact drawCell_is p x' y' _
  · rw [Cells.write_of_ne hsame] at hs ⊢
    refine (cellIs_drawCell_iff hsame).2 (hp.cells x' y' hin' (fun hk' => hk ?_) hs)
    rw [drawnOver, if_neg, hk']
    rintro rfl
    cases hk'
    exact hsame ⟨rfl, rfl⟩

/-- The console draws characters. -/
theorem fbcon_draws_shows (hfont : font.NonZero) :
    Draws fbconPutXy fbconInvalidate (W / font.charWidth) (H / font.charHeight)
      (FbShows W H font fg bg cursor strays old garbled) where
  put con _ _ x y c hwidth hheight hin hp := by
    have hs := fbPutxy_shows hfont c hin hp
    obtain ⟨q, hq, hkeeps⟩ := (fbcon_draws hfont).put con (s := fun _ _ => space) c hwidth
      hheight hin hp.keeps
    cases hq
    exact ⟨_, rfl, hkeeps, hs.fgColour, hs.bgColour, hs.cursorBitmap, hs.cells⟩
  flush _ _ _ _ _ _ _ hp := by
    have hk := hp.keeps
    exact ⟨_, rfl, ⟨hk.fbWidth, hk.fbHeight, hk.sameFont, hk.stray, hk.puts, hk.tracks⟩,
      hp.fgColour, hp.bgColour, hp.cursorBitmap, hp.cells⟩
  onGrid hp := (hp.keeps.tracks.1 _ _ rfl).2
  congr hs hp := ⟨hp.keeps, hp.fgColour, hp.bgColour, hp.cursorBitmap,
    fun x y hin hk hg => by
      rw [← hs x y hin] at hg ⊢
      exact hp.cells x y hin hk hg⟩

/-- A space is drawn where the cursor was: the cells show `s` if the cursor stood on
a space, but for the cell `(x, y)`. -/
theorem fbEraseCursor_shows (hfont : font.NonZero) {x y : Int} (hleave : LeavesSpace s k x y)
    (hp : FbShows W H font fg bg cursor strays old (fun _ => False) p s k) :
    (FbKeeps W H font strays old none (fbEraseCursor p) none ∧
        (fbEraseCursor p).fgColour = fg ∧ (fbEraseCursor p).bgColour = bg ∧
        (fbEraseCursor p).cursorBitmap = cursor) ∧
      ∀ x' y', OnGrid W H font x' y' → ¬ (x' = x ∧ y' = y) →
        (fbEraseCursor p).CellIs x' y' (font.glyph (s x' y')) := by
  have hkeeps := fbEraseCursor_keeps hfont hp.keeps
  obtain ⟨hsome, hnone⟩ := hp.keeps.tracks
  cases k with
  | none =>
    have hsame : fbEraseCursor p = p := by
      obtain ⟨hx, -⟩ | h := hnone rfl
      · exact if_neg fun h => h.1 hx
      · cases h
    rw [hsame] at hkeeps ⊢
    exact ⟨⟨hkeeps, hp.fgColour, hp.bgColour, hp.cursorBitmap⟩,
      fun x' y' hin _ => hp.cells x' y' hin (fun h => nomatch h) fun h => h.elim⟩
  | some q =>
    obtain ⟨⟨hx, hy⟩, hin⟩ := hsome q.1 q.2 rfl
    have hpos := hin.1.1
    have hpos' := hin.2.1
    have herase : fbEraseCursor p =
        fbInvalidate (fbPutxy p q.1 q.2 space) q.1 q.2 1 1 := by
      unfold fbEraseCursor
      rw [if_pos ⟨by omega, by omega⟩, hx, hy]
    have hdrawn := fbPutxy_shows hfont space hin hp
    rw [herase] at hkeeps ⊢
    refine ⟨⟨hkeeps, hdrawn.fgColour, hdrawn.bgColour, hdrawn.cursorBitmap⟩,
      fun x' y' hin' hne => ?_⟩
    have hcell := hdrawn.cells x' y' hin' (by rw [drawnOver_same]; exact fun h => nomatch h)
      fun h => h.elim
    by_cases hsame : x' = q.1 ∧ y' = q.2
    · obtain ⟨rfl, rfl⟩ := hsame
      rw [Cells.write_same] at hcell
      rw [hleave q.1 q.2 rfl hne]
      exact hcell
    · rw [Cells.write_of_ne hsame] at hcell
      exact hcell

/-- The cursor is painted into its new cell. -/
theorem fbSetCursor_shows (hfont : font.NonZero) {x y : Int} (hin : OnGrid W H font x y)
    (hleave : LeavesSpace s k x y)
    (hp : FbShows W H font fg bg cursor strays old (fun _ => False) p s k) :
    FbShows W H font fg bg cursor strays old (fun _ => False) (fbSetCursor p x y) s
      (some (x, y)) := by
  obtain ⟨⟨hkeeps, hfg, hbg, hcursor⟩, hcells⟩ := fbEraseCursor_shows hfont hleave hp
  refine ⟨fbSetCursor_keeps hfont hin hp.keeps, hfg, hbg, hcursor, fun x' y' hin' hk _ => ?_⟩
  have hne : ¬ (x' = x ∧ y' = y) := by
    rintro ⟨rfl, rfl⟩
    exact hk rfl
  exact (cellIs_drawCell_iff (p := fbEraseCursor p) hne).2 (hcells x' y' hin' hne)

/-- A cell that has one below it shows, behind the shift, what that one showed. -/
theorem shift_cellIs (hfont : p.font.NonZero) {x y : Int} {bitmap : Int → UInt8}
    (hin : OnGrid p.fb.width p.fb.height p.font x (y + 1)) (hy : 0 ≤ y)
    (h : p.CellIs x (y + 1) bitmap) :
    FbconPriv.CellIs { p with fb := p.fb.shift p.font.charHeight } x y bitmap := by
  intro i hi j hj
  have hjh : j < p.font.charHeight := hj
  have hfits := cell_fits hfont.2 hin.2.2
  have hnext : (y + 1) * (p.font.charHeight : Int) + j =
      y * p.font.charHeight + j + p.font.charHeight := by
    rw [Int.add_mul]
    omega
  have hpos : 0 ≤ y * (p.font.charHeight : Int) := Int.mul_nonneg hy (Int.natCast_nonneg _)
  rw [← h i hi j hj, hnext]
  refine (FbDev.shift_back p.fb (Int.natCast_nonneg _) _ _).trans (if_pos ⟨?_, ?_⟩)
  · change 0 ≤ y * (p.font.charHeight : Int) + j
    omega
  · change y * (p.font.charHeight : Int) + j < p.fb.height - p.font.charHeight
    omega

/-- Scrolling in the last row, with no cursor painted, or in the only row there is:
the shift brings up the rows but the last, which the row clear draws. -/
theorem fbScroll_shows (hfont : font.NonZero) {con : Console FbconPriv}
    (hwidth : con.width = W / font.charWidth) (hheight : con.height = H / font.charHeight)
    (hrow : con.yPos = H / font.charHeight - 1) (hlast : 0 ≤ con.yPos)
    (hk : ∀ a b, k = some (a, b) → b = H / font.charHeight - 1)
    (hquiet : k = none ∨ H / font.charHeight = 1)
    (hp : FbShows W H font fg bg cursor strays old (fun _ => False) con.priv s k) :
    ∃ p, fbScroll con = .ok p ∧ FbShows W H font fg bg cursor strays old (fun _ => False) p
      (s.scrollUp space (H / font.charHeight)) none := by
  have hkp := hp.keeps
  have hf := hkp.sameFont
  -- behind the shift, the last row is garbled
  have hshift : FbShows W H font fg bg cursor strays old (fun y => y = con.yPos)
      { con.priv with fb := con.priv.fb.shift con.priv.font.charHeight }
      (fun x y => if y = con.yPos then 0 else s x (y + 1)) k := by
    refine ⟨⟨hkp.fbWidth, hkp.fbHeight, hf, hkp.stray, hkp.puts, hkp.tracks⟩, hp.fgColour,
      hp.bgColour, hp.cursorBitmap, fun x y hin hkxy hg => ?_⟩
    have hy := hin.2
    have hne : y ≠ con.yPos := fun h => by simp [h] at hg
    rw [if_neg hne]
    have hnone : k = none := by
      rcases hquiet with h | h
      · exact h
      · omega
    have hbelow : OnGrid W H font x (y + 1) := ⟨hin.1, by omega, by omega⟩
    refine shift_cellIs (by rw [hf]; exact hfont)
      (by rw [hkp.fbWidth, hkp.fbHeight, hf]; exact hbelow) hy.1
      (hp.cells x (y + 1) hbelow (by rw [hnone]; exact fun h => nomatch h) fun h => h.elim)
  obtain ⟨p, hok, hshows⟩ := consoleClearRow_overCursor (fbcon_draws_shows hfont)
    { con with priv := { con.priv with fb := con.priv.fb.shift con.priv.font.charHeight } }
    con.yPos hwidth hheight ⟨hlast, by omega⟩ (fun a b hab => (hk a b hab).trans hrow.symm) hshift
  refine ⟨p, hok, hshows.keeps, hshows.fgColour, hshows.bgColour, hshows.cursorBitmap,
    fun x y hin hkxy _ => ?_⟩
  have hcell := hshows.cells x y hin hkxy fun hy => by
    simp only [if_pos hy]
    decide
  rw [Cells.scrollUp, ← hrow]
  by_cases hy : y = con.yPos
  · simp only [if_pos hy] at hcell ⊢
    exact hcell
  · simp only [if_neg hy] at hcell ⊢
    exact hcell

/-- A driver that paints its cursor, the framebuffer console is lawful. -/
theorem fbconOps_shows (hfont : font.NonZero) (hh : 1 ≤ H / font.charHeight) :
    Lawful fbconOps (W / font.charWidth) (H / font.charHeight) True
      (FbShows W H font fg bg cursor strays old fun _ => False) where
  toDraws := fbcon_draws_shows hfont
  setCursor _ _ _ _ _ _ _ hin hleave hp :=
    ⟨_, rfl, fbSetCursor_shows hfont hin (hleave trivial) hp⟩
  scroll _ _ _ hwidth hheight hrow hk hquiet hp :=
    fbScroll_shows hfont hwidth hheight hrow (by omega) hk (hquiet trivial) hp

/-- `fb_clear` leaves the background colour in every cell, which is a blank space. -/
theorem fbClear_shows (hfont : font.NonZero) (hblank : font.BlankSpace) (hW : 0 ≤ W)
    (hH : 0 ≤ H) (hp : FbKeeps W H font strays old none p none) :
    FbShows W H font p.fgColour p.bgColour p.cursorBitmap strays old (fun _ => False)
      (fbClear p) (fun _ _ => space) none := by
  have hw := hp.fbWidth
  have hh := hp.fbHeight
  have hf := hp.sameFont
  refine ⟨fbClear_keeps hW hH hp, rfl, rfl, rfl, fun x y hin _ _ i hi j hj => ?_⟩
  have hi : i < font.charWidth := by rw [← hf]; exact hi
  have hj : j < font.charHeight := by rw [← hf]; exact hj
  have hx := cell_fits hfont.1 hin.1.2
  have hy := cell_fits hfont.2 hin.2.2
  have hx0 : 0 ≤ x * (font.charWidth : Int) := Int.mul_nonneg hin.1.1 (Int.natCast_nonneg _)
  have hy0 : 0 ≤ y * (font.charHeight : Int) := Int.mul_nonneg hin.2.1 (Int.natCast_nonneg _)
  -- the pixel by its place on the screen
  obtain ⟨a, ha⟩ : ∃ a : Nat, x * (font.charWidth : Int) + i = 0 + a :=
    ⟨(x * (font.charWidth : Int) + i).toNat, by omega⟩
  obtain ⟨b, hb⟩ : ∃ b : Nat, y * (font.charHeight : Int) + j = 0 + b :=
    ⟨(y * (font.charHeight : Int) + j).toNat, by omega⟩
  change (p.fb.putRect 0 0 p.fb.width.toNat p.fb.height.toNat fun _ _ => p.bgColour).back
    (x * (p.font.charWidth : Int) + i) (y * (p.font.charHeight : Int) + j) = _
  rw [hf, ha, hb, FbDev.putRect_back (by omega) (by omega)]
  change _ = if bitmapBit (font.glyph space) p.font.charWidthBytes i j = true then _ else _
  rw [hf, hblank i hi j hj]
  rfl

/-- A cleared console shows an empty screen, whatever it showed before. -/
theorem fbconClear_shows (hfont : font.NonZero) (hblank : font.BlankSpace) (hW : 0 ≤ W)
    (hH : 0 ≤ H) {con : Console FbconPriv} (hwidth : con.width = W / font.charWidth)
    (hheight : con.height = H / font.charHeight)
    (hp : FbKeeps W H font strays old none con.priv k) :
    ∃ con', consoleClear fbconOps con = .ok con' ∧
      Mirrors (W / font.charWidth) (H / font.charHeight)
        (FbShows W H font con.priv.fgColour con.priv.bgColour con.priv.cursorBitmap strays old
          fun _ => False) con' (Screen.empty space) none := by
  -- the cells are blanked with every row garbled: nothing is known of what they showed
  have hgarbled : FbShows W H font con.priv.fgColour con.priv.bgColour con.priv.cursorBitmap
      strays old (fun _ => True) con.priv (fun _ _ => 0) k :=
    ⟨hp, rfl, rfl, rfl, fun _ _ _ _ hs => absurd rfl (hs trivial)⟩
  refine consoleClear_mirrors (fbcon_draws_shows hfont) (fbcon_draws_shows hfont) con hwidth
    hheight hgarbled fun con' hp' => ⟨fbClear con'.priv, rfl, ?_⟩
  rw [← hp'.fgColour, ← hp'.bgColour, ← hp'.cursorBitmap]
  exact fbClear_shows hfont hblank hW hH hp'.keeps

end Ops

end Microboot.Kern.Io
