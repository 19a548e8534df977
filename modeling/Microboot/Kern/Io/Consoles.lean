/-
  Kern/Io/Consoles.lean --- the two consoles side by side.

  On a cleared console, of either driver, console.c keeps the cursor on the grid
  and puts characters in cells of the grid only; the one thing that stops it is a
  backspace in the first cell (`consoles_stayOnGrid`).

  Where the VGA console has its cursor beside the characters, the framebuffer
  console paints it into its cell.  The two show the same characters as long as
  the cursor leaves a space behind, and no painted cursor scrolls
  (`consoles_agree`).
-/
import Microboot.Kern.Io.FbconShows
import Microboot.Kern.Io.Vga

set_option autoImplicit false

namespace Microboot.Kern.Io

open Microboot.Foundation

/-! ## Cells of the grid -/

/-- The console clears.  Behind that, a run of characters returns unless a backspace
arrives in the first cell, which fails the assertion of `console_erase`; when it
returns, the cursor is on the grid, and so is every cell a character was put in. -/
def StaysOnGrid {π : Type} (ops : ConsoleOps π) (puts : π → List (Int × Int))
    (con : Console π) : Prop :=
  ∃ con₀, consoleClear ops con = .ok con₀ ∧ ∀ cs,
    (EraseSafe ops con₀ cs → ∃ con', consolePuts ops con₀ cs = .ok con' ∧
      InGrid con.width con.height con'.xPos con'.yPos ∧
      PutsInGrid con.width con.height (puts con.priv) (puts con'.priv)) ∧
    (¬ EraseSafe ops con₀ cs → consolePuts ops con₀ cs = .error eraseFault)

/-- The first cell of an empty screen is on it. -/
theorem empty_cursorOn {w h : Int} (hw : 1 ≤ w) (hh : 1 ≤ h) :
    (Screen.empty space).CursorOn w h :=
  ⟨⟨Int.le_refl 0, by simp only [Screen.empty]; omega⟩, Int.le_refl 0,
    by simp only [Screen.empty]; omega⟩

/-- A lawful driver stays on the grid. -/
theorem Lawful.staysOnGrid {π : Type} {ops : ConsoleOps π} {con con₀ : Console π}
    {R : π → Cells UInt8 → Option (Int × Int) → Prop} {puts : π → List (Int × Int)}
    (L : Lawful ops con.width con.height False R) (hw : 1 ≤ con.width) (hh : 1 ≤ con.height)
    (hclear : consoleClear ops con = .ok con₀)
    (hm : Mirrors con.width con.height R con₀ (Screen.empty space) none)
    (hputs : ∀ p s k, R p s k → PutsInGrid con.width con.height (puts con.priv) (puts p)) :
    StaysOnGrid ops puts con := by
  refine ⟨con₀, hclear, fun cs => ?_⟩
  rcases consolePuts_mirrors L hw cs hm (empty_cursorOn hw hh) (.inl rfl) fun h => h.elim with
    ⟨hnot, -, herr⟩ | ⟨s, con', k, hsafe, -, hok, hm', hon, -⟩
  · exact ⟨fun hsafe => absurd hsafe hnot, fun _ => herr⟩
  · refine ⟨fun _ => ⟨con', hok, ?_, hputs _ _ _ hm'.shows⟩, fun hnot => absurd hsafe hnot⟩
    rw [hm'.col, hm'.row]
    exact hon

/-- The cells that characters were put in, and the one the cursor is in, are on the
grid. -/
structure FbPutsOnGrid (w h : Int) (old : List (Int × Int)) (p : FbconPriv)
    (k : Option (Int × Int)) : Prop where
  puts : PutsInGrid w h old p.puts
  cursor : ∀ a b, k = some (a, b) → InGrid w h a b

section FbPuts

variable {w h : Int} {old : List (Int × Int)}

theorem fbPutxy_puts (p : FbconPriv) (x y : Int) (c : UInt8) :
    (fbPutxy p x y c).puts = p.puts := by
  unfold fbPutxy
  split <;> rfl

theorem fbSetCursor_puts (p : FbconPriv) (x y : Int) : (fbSetCursor p x y).puts = p.puts := by
  change (fbEraseCursor p).puts = p.puts
  unfold fbEraseCursor
  split
  · exact fbPutxy_puts p p.cursorX p.cursorY space
  · rfl

theorem fbcon_draws_onGrid : Draws fbconPutXy fbconInvalidate w h
    fun p _ k => FbPutsOnGrid w h old p k where
  put _ _ _ _ _ _ _ _ hin hp :=
    ⟨_, rfl, hp.puts.cons hin, fun a b hk => hp.cursor a b (drawnOver_eq_some hk).1⟩
  flush _ _ _ _ _ _ _ hp := ⟨_, rfl, hp.puts, hp.cursor⟩
  onGrid hp := hp.cursor _ _ rfl
  congr _ hp := hp

/-- As far as the cells given to `put_xy` go, the framebuffer driver is lawful on any
screen and in any font. -/
theorem fbconOps_onGrid (hh : 1 ≤ h) :
    Lawful fbconOps w h False fun p _ k => FbPutsOnGrid w h old p k where
  toDraws := fbcon_draws_onGrid
  setCursor con _ _ x y _ _ hin _ hp := by
    refine ⟨_, rfl, ?_, fun a b hk => ?_⟩
    · rw [fbSetCursor_puts]
      exact hp.puts
    · cases hk
      exact hin
  scroll con _ k hwidth hheight hrow hk _ hp := by
    obtain ⟨p, k', hok, hputs, -⟩ := consoleClearRow_shows fbcon_draws_onGrid
      { con with priv := { con.priv with fb := con.priv.fb.shift con.priv.font.charHeight } }
      con.yPos (s := fun _ _ => space) (k := none) hwidth hheight ⟨by omega, by omega⟩
      ⟨hp.puts, fun a b hk => nomatch hk⟩
    exact ⟨p, hok, hputs.puts, fun a b hk => nomatch hk⟩

end FbPuts

/-- On a cleared console of any size, both drivers stay on the grid. -/
theorem consoles_stayOnGrid :
    (∀ v : Console VgaState, 1 ≤ v.width → 1 ≤ v.height →
      StaysOnGrid vgaOps VgaState.puts v) ∧
    ∀ f : Console FbconPriv, 1 ≤ f.width → 1 ≤ f.height →
      StaysOnGrid fbconOps FbconPriv.puts f := by
  constructor
  · intro v hw hh
    obtain ⟨v₀, hclear, hm⟩ := vgaClear_mirrors v
    exact (vgaOps_lawful hh).staysOnGrid hw hh hclear hm fun _ _ _ hR => hR.puts
  · intro f hw hh
    have D : Draws fbconOps.putXy fbconOps.invalidate f.width f.height
        fun p _ k => FbPutsOnGrid f.width f.height f.priv.puts p k := fbcon_draws_onGrid
    obtain ⟨f₀, hclear, hm⟩ := consoleClear_mirrors (s := fun _ _ => space) (k := none) D D f
      rfl rfl ⟨.refl _, fun a b hk => nomatch hk⟩
      fun con' hp => ⟨fbClear con'.priv, rfl, hp.puts, hp.cursor⟩
    exact (fbconOps_onGrid hh).staysOnGrid hw hh hclear hm fun _ _ _ hR => hR.puts

/-- A framebuffer of three cells by two in the cherry font. -/
def threeByTwoFb : FbDev := { smallFb with width := 21 }

theorem consoles_stayOnGrid_threeByTwo :
    (∃ v₀ v', consoleClear vgaOps smallVga = .ok v₀ ∧ consolePuts vgaOps v₀ smallText = .ok v' ∧
      InGrid 3 2 v'.xPos v'.yPos ∧ PutsInGrid 3 2 [] v'.priv.puts) ∧
    ∃ f, fbconCreate threeByTwoFb = .ok f ∧ StaysOnGrid fbconOps FbconPriv.puts f := by
  constructor
  · obtain ⟨v₀, hclear, hall⟩ := consoles_stayOnGrid.1 smallVga (by decide) (by decide)
    obtain ⟨v₁, hclear₁, hsafe⟩ : ∃ v, consoleClear vgaOps smallVga = .ok v ∧
        EraseSafe vgaOps v smallText := by decide +kernel
    rw [hclear] at hclear₁
    cases hclear₁
    obtain ⟨v', hok, hin, hputs⟩ := (hall smallText).1 hsafe
    exact ⟨v₀, v', hclear, hok, hin, hputs⟩
  · obtain ⟨f, hcreate, hw, hh⟩ : ∃ f, fbconCreate threeByTwoFb = .ok f ∧
        1 ≤ f.width ∧ 1 ≤ f.height := by decide +kernel
    exact ⟨f, hcreate, consoles_stayOnGrid.2 f hw hh⟩

/-- A backspace on a cleared console fails an assertion. -/
theorem backspace_on_cleared_console :
    ∃ v₀, consoleClear vgaOps smallVga = .ok v₀ ∧
      consolePuts vgaOps v₀ [backspace] = .error (.assert "Zero con->y_pos on erase") := by
  obtain ⟨v₀, hclear, hm⟩ := vgaClear_mirrors smallVga
  refine ⟨v₀, hclear, ?_⟩
  rw [consolePuts, List.foldlM_cons, consolePutc_origin vgaOps hm.col hm.row]
  rfl

/-! ## What the consoles show -/

/-- The character in the cell the cursor is in. -/
def vgaUnderCursor (v : Console VgaState) : UInt8 := vgaChar v.priv v.width v.xPos v.yPos

/-- The cursor leaves its cell by this character with a space in it, and does not
leave it by scrolling up. -/
def LeavesQuietly (v : Console VgaState) (c : UInt8) : Prop :=
  (c = newline → if v.yPos + 1 < v.height then vgaUnderCursor v = space else v.height = 1) ∧
    (c = backspace → vgaUnderCursor v = space) ∧
    (c = carriageReturn → v.xPos = 0 ∨ vgaUnderCursor v = space)

instance (v : Console VgaState) (c : UInt8) : Decidable (LeavesQuietly v c) :=
  inferInstanceAs (Decidable (_ ∧ _ ∧ _))

/-- Every character of the run leaves its cell quietly. -/
abbrev QuietPuts : Console VgaState → List UInt8 → Prop :=
  AllSteps (consolePutc vgaOps) LeavesQuietly

/-- The glyph of `c` and the cursor are the same pixels in the colours of the
console. -/
def LooksLikeCursor (p : FbconPriv) (c : UInt8) : Prop :=
  ∀ i, i < p.font.charWidth → ∀ j, j < p.font.charHeight →
    (if bitmapBit (p.font.glyph c) p.font.charWidthBytes i j then p.fgColour else p.bgColour) =
      if bitmapBit p.cursorBitmap p.font.charWidthBytes i j then p.fgColour else p.bgColour

instance (p : FbconPriv) (c : UInt8) : Decidable (LooksLikeCursor p c) :=
  inferInstanceAs (Decidable (∀ i, i < p.font.charWidth → ∀ j, j < p.font.charHeight → _))

/-- The two consoles have their cursors in the same cell, and in all the others the
framebuffer console shows the character in the VGA console's buffer, and no cursor. -/
structure Agree (v : Console VgaState) (f : Console FbconPriv) : Prop where
  col : f.xPos = v.xPos
  row : f.yPos = v.yPos
  cells : ∀ x y, InGrid v.width v.height x y → ¬ (x = v.xPos ∧ y = v.yPos) →
    f.priv.CellIs x y (f.priv.font.glyph (vgaChar v.priv v.width x y))
  hidden : ∀ x y, InGrid v.width v.height x y → ¬ (x = v.xPos ∧ y = v.yPos) →
    ¬ f.priv.CellIs x y f.priv.cursorBitmap

/-- A cell with a cursor and a glyph in it: they look alike. -/
theorem looksLikeCursor_of_cellIs {p : FbconPriv} {x y : Int} {c : UInt8}
    (hglyph : p.CellIs x y (p.font.glyph c)) (hcursor : p.CellIs x y p.cursorBitmap) :
    LooksLikeCursor p c := by
  intro i hi j hj
  rw [← hglyph i hi j hj, hcursor i hi j hj]

/-- What the character does to the VGA console, its key does to the screen. -/
theorem LeavesQuietly.quiet {w h : Int} {old : List (Int × Int)} {v : Console VgaState}
    {s : Screen UInt8} {k : Option (Int × Int)} {c : UInt8}
    (hm : Mirrors w h (VgaShows w h old) v s k) (hs : s.CursorOn w h)
    (hc : LeavesQuietly v c) : Quiet h s (keyOf c) := by
  obtain ⟨hnl, hbs, hcr⟩ := hc
  have hunder : vgaUnderCursor v = s.cells s.col s.row := by
    rw [vgaUnderCursor, hm.width, hm.col, hm.row]
    exact hm.shows.cells s.col s.row hs
  rw [hunder] at hnl hbs hcr
  rw [hm.row, hm.height] at hnl
  rw [hm.col] at hcr
  unfold keyOf
  split
  next h => exact hnl h
  next =>
    split
    next h => exact hbs h
    next =>
      split
      next h => exact hcr h
      next => trivial

/-- A quiet run of the VGA console is one of the screen. -/
theorem quietRun_of_quietPuts {w h : Int} {old : List (Int × Int)} (hw : 1 ≤ w) (hh : 1 ≤ h)
    (cs : List UInt8) {v : Console VgaState} {s : Screen UInt8} {k : Option (Int × Int)}
    (hm : Mirrors w h (VgaShows w h old) v s k) (hs : s.CursorOn w h) (hk : Settled s k)
    (hcs : QuietPuts v cs) : QuietRun w h s cs := by
  induction cs generalizing v s k with
  | nil => trivial
  | cons c cs ih =>
    obtain ⟨hc, hrest⟩ := hcs
    refine ⟨hc.quiet hm hs, fun s' hkey => ?_⟩
    rcases consolePutc_mirrors (vgaOps_lawful hh) hw hm hs hk c fun hpaint => hpaint.elim with
      ⟨hnone, -⟩ | ⟨s₁, v₁, hkey₁, -, hok, hm₁⟩
    · rw [hkey] at hnone
      cases hnone
    · rw [hkey] at hkey₁
      cases hkey₁
      rw [hok] at hrest
      exact ih hm₁ (Screen.key_cursorOn hw hs hkey) (.inr rfl) hrest

/-- Behind the same keys, a quiet run on both consoles, they agree. -/
theorem agree_of_mirrors {w h W H : Int} {font : FbconFont} {fg bg : UInt32}
    {cursor : Int → UInt8} {strays old old' : List (Int × Int)} {v : Console VgaState}
    {f : Console FbconPriv} {s : Screen UInt8} {k k' : Option (Int × Int)}
    (hwidth : w = W / font.charWidth) (hheight : h = H / font.charHeight)
    (hmv : Mirrors w h (VgaShows w h old) v s k)
    (hmf : Mirrors w h (FbShows W H font fg bg cursor strays old' fun _ => False) f s k')
    (hk' : Settled s k') (hlooks : ∀ x y, ¬ LooksLikeCursor f.priv (s.cells x y)) :
    Agree v f := by
  have hcell : ∀ x y, InGrid v.width v.height x y → ¬ (x = v.xPos ∧ y = v.yPos) →
      vgaChar v.priv v.width x y = s.cells x y ∧
        f.priv.CellIs x y (f.priv.font.glyph (s.cells x y)) := by
    intro x y hin hne
    rw [hmv.width, hmv.height] at hin
    refine ⟨by rw [hmv.width]; exact hmv.shows.cells x y hin, ?_⟩
    rw [hmf.shows.keeps.sameFont]
    refine hmf.shows.cells x y (by rw [OnGrid, ← hwidth, ← hheight]; exact hin) (fun hk => ?_)
      fun h => h.elim
    rw [hmv.col, hmv.row] at hne
    rcases hk' with hnone | hcur
    · rw [hnone] at hk
      cases hk
    · rw [hcur] at hk
      cases hk
      exact hne ⟨rfl, rfl⟩
  exact
    { col := by rw [hmf.col, hmv.col]
      row := by rw [hmf.row, hmv.row]
      cells := fun x y hin hne => by
        obtain ⟨hchar, his⟩ := hcell x y hin hne
        rw [hchar]
        exact his
      hidden := fun x y hin hne hcursor =>
        hlooks x y (looksLikeCursor_of_cellIs (hcell x y hin hne).2 hcursor) }

/-- A framebuffer console that keeps to its grid tracks a cursor in it, or none. -/
theorem FbInv.keeps {f : Console FbconPriv} (hinv : FbInv f) (hcursor : CursorInGrid f) :
    ∃ k, FbKeeps f.priv.fb.width f.priv.fb.height f.priv.font f.priv.fb.stray f.priv.puts none
      f.priv k := by
  have hsize := And.intro hinv.width hinv.height
  by_cases hin : InGrid f.width f.height f.priv.cursorX f.priv.cursorY
  · refine ⟨some (f.priv.cursorX, f.priv.cursorY), rfl, rfl, rfl, rfl, .refl _, fun a b hk => ?_,
      fun hk => nomatch hk⟩
    cases hk
    rw [← hsize.1, ← hsize.2]
    exact ⟨⟨rfl, rfl⟩, hin⟩
  · refine ⟨none, rfl, rfl, rfl, rfl, .refl _, fun a b hk => (nomatch hk), fun _ => .inl ?_⟩
    rcases hinv.cursor with hnone | hpos
    · exact hnone
    · rcases hcursor.2 with h | h
      · omega
      · exact absurd h hin

/-- What is shown behind the characters `cs` is a space or one of them. -/
theorem keys_shown {w h : Int} {cs : List UInt8} {s : Screen UInt8} {P : UInt8 → Prop}
    (hP : ∀ c ∈ space :: cs, keyOf c = .put c → P c)
    (hs : (Screen.empty space).keys space w h (cs.map keyOf) = some s) :
    ∀ x y, P (s.cells x y) := by
  have hspace : P space := hP space (List.mem_cons_self ..) rfl
  refine Screen.cells_keys hspace (fun _ _ => hspace) (fun c hc => ?_) hs
  obtain ⟨d, hd, hput⟩ := List.mem_map.1 hc
  have hsame : d = c := by
    unfold keyOf at hput
    split at hput
    · cases hput
    · split at hput
      · cases hput
      · split at hput
        · cases hput
        · exact Foundation.Key.put.inj hput
  subst hsame
  exact hP d (List.mem_cons_of_mem _ hd) hput

/-! ## The cherry font -/

/-- No printable character of the cherry font has the pixel that the cursor has in its
first row. -/
theorem cherryFont_printable {c : UInt8} (hlow : 32 ≤ c.toNat) (hhigh : c.toNat < 127) :
    bitmapBit (cherryFont.glyph c) cherryFont.charWidthBytes 1 0 = false := by
  have hall : ∀ n < 127, 32 ≤ n →
      bitmapBit (cherryFont.glyph (UInt8.ofNat n)) cherryFont.charWidthBytes 1 0 = false := by
    decide +kernel
  rw [← UInt8.ofNat_toNat (x := c)]
  exact hall c.toNat hhigh hlow

/-- The cursor in that font. -/
def cherryCursor : Int → UInt8 :=
  forUpto cherryFont.charHeight
    (fun i bmp k => if k = i * cherryFont.charWidthBytes then 0x40 else bmp k) fun _ => 0

/-- The console that `fbcon_create` makes is empty, in the cherry font. -/
theorem fbconCreate_shows {fb : FbDev} (hw : 0 < fb.width) (hh : 0 < fb.height) :
    ∃ f, fbconCreate fb = .ok f ∧
      Mirrors (fb.width / cherryFont.charWidth) (fb.height / cherryFont.charHeight)
        (FbShows fb.width fb.height cherryFont (baseColourMap.getD 15 0) (baseColourMap.getD 1 0)
          cherryCursor fb.stray [] fun _ => False) f (Screen.empty space) none :=
  fbconClear_shows (k := none) ⟨Nat.succ_pos 6, Nat.succ_pos 12⟩ (by decide +kernel)
    (Int.le_of_lt hw) (Int.le_of_lt hh) rfl rfl
    ⟨rfl, rfl, rfl, rfl, .refl _, fun _ _ h => (nomatch h), fun _ => .inl ⟨rfl, rfl⟩⟩

/-- No printable character looks like the cursor of that console. -/
theorem fbconCreate_hidesNone {fb : FbDev} (hw : 0 < fb.width) (hh : 0 < fb.height)
    {f : Console FbconPriv} (hcreate : fbconCreate fb = .ok f) {c : UInt8}
    (hlow : 32 ≤ c.toNat) (hhigh : c.toNat < 127) : ¬ LooksLikeCursor f.priv c := by
  obtain ⟨f₁, hcreate₁, hm⟩ := fbconCreate_shows hw hh
  rw [hcreate] at hcreate₁
  cases hcreate₁
  have hp := hm.shows
  intro hlooks
  have hpixel := hlooks 1 (by rw [hp.keeps.sameFont]; decide) 0
    (by rw [hp.keeps.sameFont]; decide)
  rw [hp.keeps.sameFont, hp.fgColour, hp.bgColour, hp.cursorBitmap,
    cherryFont_printable hlow hhigh] at hpixel
  exact absurd hpixel (by decide)

/-! ## The two consoles -/

/-- On cleared consoles of the same grid, with a space that is blank and no character
that looks like the cursor: as long as the cursor leaves its cells quietly, and no
backspace arrives in the first cell, both consoles return, and agree. -/
theorem consoles_agree (v : Console VgaState) (f : Console FbconPriv) (hw : 1 ≤ v.width)
    (hh : 1 ≤ v.height) (hwidth : f.width = v.width) (hheight : f.height = v.height)
    (hinv : FbInv f) (hcursor : CursorInGrid f) (hblank : f.priv.font.BlankSpace) :
    ∃ v₀ f₀, consoleClear vgaOps v = .ok v₀ ∧ consoleClear fbconOps f = .ok f₀ ∧
      ∀ cs, EraseSafe vgaOps v₀ cs → QuietPuts v₀ cs →
        (∀ c ∈ space :: cs, keyOf c = .put c → ¬ LooksLikeCursor f.priv c) →
        ∃ v' f', consolePuts vgaOps v₀ cs = .ok v' ∧ consolePuts fbconOps f₀ cs = .ok f' ∧
          Agree v' f' := by
  have hgrid : v.width = f.priv.fb.width / f.priv.font.charWidth ∧
      v.height = f.priv.fb.height / f.priv.font.charHeight :=
    ⟨by rw [← hwidth, hinv.width], by rw [← hheight, hinv.height]⟩
  obtain ⟨v₀, hclear, hmv⟩ := vgaClear_mirrors v
  obtain ⟨k, hkeeps⟩ := hinv.keeps hcursor
  obtain ⟨f₀, hclear', hmf⟩ := fbconClear_shows hinv.nonZero hblank hinv.fbWidth hinv.fbHeight
    hinv.width hinv.height hkeeps
  rw [← hgrid.1, ← hgrid.2] at hmf
  have L : Lawful fbconOps v.width v.height True
      (FbShows f.priv.fb.width f.priv.fb.height f.priv.font f.priv.fgColour f.priv.bgColour
        f.priv.cursorBitmap f.priv.fb.stray f.priv.puts fun _ => False) := by
    rw [hgrid.1, hgrid.2]
    exact fbconOps_shows hinv.nonZero (by rw [← hgrid.2]; exact hh)
  refine ⟨v₀, f₀, hclear, hclear', fun cs hsafe hquiet hlooks => ?_⟩
  have hon := empty_cursorOn hw hh
  have hquiet' := quietRun_of_quietPuts hw hh cs hmv hon (.inl rfl) hquiet
  rcases consolePuts_mirrors (vgaOps_lawful hh) hw cs hmv hon (.inl rfl) fun h => h.elim with
    ⟨hnot, -⟩ | ⟨s, v', kv, -, hkeys, hok, hmv', -, -⟩
  · exact absurd hsafe hnot
  rcases consolePuts_mirrors L hw cs hmf hon (.inl rfl) fun _ => hquiet' with
    ⟨-, hnone, -⟩ | ⟨s', f', kf, -, hkeys', hok', hmf', -, hset⟩
  · rw [hkeys] at hnone
    cases hnone
  · rw [hkeys] at hkeys'
    cases hkeys'
    have hp := hmf'.shows
    refine ⟨v', f', hok, hok', agree_of_mirrors hgrid.1 hgrid.2 hmv' hmf' hset fun x y => ?_⟩
    have hnot : ¬ LooksLikeCursor f.priv (s.cells x y) := keys_shown hlooks hkeys x y
    unfold LooksLikeCursor at hnot ⊢
    rw [hp.keeps.sameFont, hp.fgColour, hp.bgColour, hp.cursorBitmap]
    exact hnot

/-- `"ab\b\bc\ndefg"`: steps back and a new row from cells with a space, and a wrap
in the last row. -/
def quietText : List UInt8 := [97, 98, 8, 8, 99, 10, 100, 101, 102, 103]

theorem consoles_agree_threeByTwo :
    ∃ f v₀ f₀ v' f', fbconCreate threeByTwoFb = .ok f ∧ consoleClear vgaOps smallVga = .ok v₀ ∧
      consoleClear fbconOps f = .ok f₀ ∧ consolePuts vgaOps v₀ quietText = .ok v' ∧
      consolePuts fbconOps f₀ quietText = .ok f' ∧ Agree v' f' := by
  have hw : 0 < threeByTwoFb.width := by decide
  have hh : 0 < threeByTwoFb.height := by decide
  obtain ⟨f, hcreate, hinv, -⟩ := fbconCreate_inv hw hh
  obtain ⟨f₁, hcreate₁, ⟨hwidth, hheight⟩, hcursor, hblank⟩ :
      ∃ f, fbconCreate threeByTwoFb = .ok f ∧ (f.width = 3 ∧ f.height = 2) ∧ CursorInGrid f ∧
        f.priv.font.BlankSpace := by decide +kernel
  rw [hcreate] at hcreate₁
  cases hcreate₁
  obtain ⟨v₀, f₀, hclear, hclear', hall⟩ := consoles_agree smallVga f (by decide) (by decide)
    hwidth hheight hinv hcursor hblank
  obtain ⟨v₁, hclear₁, hsafe, hquiet⟩ : ∃ v, consoleClear vgaOps smallVga = .ok v ∧
      EraseSafe vgaOps v quietText ∧ QuietPuts v quietText := by decide +kernel
  rw [hclear] at hclear₁
  cases hclear₁
  have htext : ∀ c ∈ space :: quietText, (32 ≤ c.toNat ∧ c.toNat < 127) ∨
      c = newline ∨ c = backspace := by decide +kernel
  obtain ⟨v', f', hok, hok', hagree⟩ := hall quietText hsafe hquiet fun c hc hput => by
    rcases htext c hc with ⟨hlow, hhigh⟩ | rfl | rfl
    · exact fbconCreate_hidesNone hw hh hcreate hlow hhigh
    · cases hput
    · cases hput
  exact ⟨f, v₀, f₀, v', f', hcreate, hclear, hclear', hok, hok', hagree⟩

/-- `"a\r\n"`: the cursor goes back to the `a`, and leaves it for the next row. -/
def overA : List UInt8 := [97, carriageReturn, newline]

/-- The framebuffer console draws a space over the `a`. -/
theorem carriageReturn_erases :
    ∃ v₀ v' f₀ f', consoleClear vgaOps smallVga = .ok v₀ ∧ fbconCreate threeByTwoFb = .ok f₀ ∧
      (f₀.width = v₀.width ∧ f₀.height = v₀.height) ∧ EraseSafe vgaOps v₀ overA ∧
      consolePuts vgaOps v₀ overA = .ok v' ∧ consolePuts fbconOps f₀ overA = .ok f' ∧
      ¬ Agree v' f' := by
  obtain ⟨v₀, hclear, ⟨hvw, hvh⟩, hsafe, v', hok, hchar, hrow, hgrid⟩ :
      ∃ v₀, consoleClear vgaOps smallVga = .ok v₀ ∧ (v₀.width = 3 ∧ v₀.height = 2) ∧
        EraseSafe vgaOps v₀ overA ∧ ∃ v', consolePuts vgaOps v₀ overA = .ok v' ∧
          vgaChar v'.priv v'.width 0 0 = 97 ∧ v'.yPos = 1 ∧
          InGrid v'.width v'.height 0 0 := by decide +kernel
  obtain ⟨f₀, hcreate, ⟨hfw, hfh⟩, f', hok', hnot⟩ :
      ∃ f₀, fbconCreate threeByTwoFb = .ok f₀ ∧ (f₀.width = 3 ∧ f₀.height = 2) ∧
        ∃ f', consolePuts fbconOps f₀ overA = .ok f' ∧
          ¬ f'.priv.CellIs 0 0 (f'.priv.font.glyph 97) := by decide +kernel
  refine ⟨v₀, v', f₀, f', hclear, hcreate, ⟨by rw [hfw, hvw], by rw [hfh, hvh]⟩, hsafe, hok, hok',
    fun hagree => hnot ?_⟩
  have hcell := hagree.cells 0 0 hgrid (by omega)
  rw [hchar] at hcell
  exact hcell

end Microboot.Kern.Io
