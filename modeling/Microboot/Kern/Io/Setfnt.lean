/-
  Kern/Io/Setfnt.lean --- a font from a file, `setfnt` of kern/main.c.

  The first two bytes of the file are taken for the size of the font and the rest, behind
  two more, for its glyphs, however long the file is.  Only a file without a byte is
  rejected.  `fbcon_setparam` divides by the two bytes.
-/
import Microboot.Kern.Io.FbconGrid

set_option autoImplicit false

namespace Microboot.Kern.Io

open Microboot.Foundation

/-! ## The font of a file -/

/-- A byte at the buffer that `fs_read_full` returns; around the content, memory has `behind`. -/
def fileByte (content : List UInt8) (behind : Int → UInt8) (i : Int) : UInt8 :=
  if 0 ≤ i ∧ i < content.length then content.getD i.toNat 0 else behind i

/-- The font that `setfnt` makes of the buffer. -/
def fileFont (content : List UInt8) (behind : Int → UInt8) : FbconFont :=
  let charWidth := (fileByte content behind 0).toNat
  { charWidth := charWidth
    charHeight := (fileByte content behind 1).toNat
    charWidthBytes := charWidth / 8 + if charWidth % 8 ≠ 0 then 1 else 0
    -- skip over header
    data := fun i => fileByte content behind (4 + i) }

/-- `setfnt(argc, argv)`, behind `fs_read_full`: what is printed, and the console. -/
def setfntContent (con : Console FbconPriv) (content : List UInt8) (behind : Int → UInt8) :
    Except Fault (Option String × Console FbconPriv) :=
  if content.length = 0 then
    return (some "Unable to read font\n", con)
  else do
    let con ← fbconSetparam con (.font (fileFont content behind))
    return (none, con)

/-! ## Fonts that are safe -/

/-- The bytes of the glyphs of `' '` to `'~'`. -/
def FbconFont.printable (font : FbconFont) : Nat := 95 * font.charHeight * font.charWidthBytes

/-- The font is rejected and the console is as it was, or it has a size, and the file has the
glyphs of the printable characters. -/
def SetsSafely (con : Console FbconPriv) (content : List UInt8)
    (r : Except Fault (Option String × Console FbconPriv)) : Prop :=
  ∃ text con', r = .ok (text, con') ∧
    ((text ≠ none ∧ con'.priv.font = con.priv.font ∧ con'.width = con.width ∧
        con'.height = con.height) ∨
      (text = none ∧ con'.priv.font.NonZero ∧
        4 + con'.priv.font.printable ≤ content.length))

/-- A file that has what its header says. -/
def Complete (content : List UInt8) : Prop :=
  let charWidth := (content.getD 0 0).toNat
  let charHeight := (content.getD 1 0).toNat
  charWidth ≠ 0 ∧ charHeight ≠ 0 ∧
    4 + 95 * charHeight * (charWidth / 8 + if charWidth % 8 ≠ 0 then 1 else 0) ≤ content.length

instance (content : List UInt8) : Decidable (Complete content) :=
  inferInstanceAs (Decidable (_ ∧ _ ∧ _))

section Setfnt

variable {con con' : Console FbconPriv} {content : List UInt8} {behind : Int → UInt8}

theorem fileByte_of_lt {i : Nat} (h : i < content.length) :
    fileByte content behind i = content.getD i 0 := if_pos ⟨Int.natCast_nonneg i, by omega⟩

/-- A complete file makes the font that its header says. -/
theorem complete_iff (content : List UInt8) (behind : Int → UInt8) :
    Complete content ↔ (fileFont content behind).NonZero ∧
      4 + (fileFont content behind).printable ≤ content.length := by
  rcases Nat.lt_or_ge 1 content.length with hlen | hlen
  · have h0 : fileByte content behind 0 = content.getD 0 0 :=
      fileByte_of_lt (i := 0) (Nat.lt_of_succ_lt hlen)
    have h1 : fileByte content behind 1 = content.getD 1 0 := fileByte_of_lt (i := 1) hlen
    unfold Complete FbconFont.NonZero FbconFont.printable fileFont
    dsimp only
    rw [h0, h1, Nat.pos_iff_ne_zero, Nat.pos_iff_ne_zero, and_assoc]
  · -- too short for the header
    constructor
    · rintro ⟨-, -, hle⟩
      omega
    · rintro ⟨-, hle⟩
      omega

/-- Setting a font that has a size installs it. -/
theorem fbconSetparam_installs (con : Console FbconPriv) {font : FbconFont} (hfont : font.NonZero) :
    ∃ con', fbconSetparam con (.font font) = .ok con' ∧ con'.priv.font = font := by
  rw [fbconSetparam_font hfont]
  obtain ⟨con', hclear⟩ := consoleClear_total fbconOps_total
    { fbconGrid { con with priv := { con.priv with font := font } } with
      priv := fbconGencursor { con.priv with font := font } }
  refine ⟨con', hclear, ?_⟩
  exact consoleClear_keeps (fbconOps_keeps_font font) (fun hp h => by cases h; exact hp) rfl hclear

/-- A font without a pixel is not rejected. -/
theorem setfntContent_divides (hempty : content ≠ [])
    (hfont : ¬ (fileFont content behind).NonZero) :
    setfntContent con content behind = .error .divide := by
  have hlen : content.length ≠ 0 := fun h => hempty (List.length_eq_zero_iff.mp h)
  rw [setfntContent, if_neg hlen, fbconSetparam_font_of_not hfont]
  rfl

/-- A file is safe to set if it is empty or complete. -/
theorem setfntContent_safe_iff (con : Console FbconPriv) (content : List UInt8)
    (behind : Int → UInt8) :
    SetsSafely con content (setfntContent con content behind) ↔
      content = [] ∨ Complete content := by
  by_cases hempty : content = []
  · rw [hempty]
    exact iff_of_true ⟨_, con, rfl, .inl ⟨Option.some_ne_none _, rfl, rfl, rfl⟩⟩ (.inl rfl)
  rw [or_iff_right hempty, complete_iff content behind]
  by_cases hfont : (fileFont content behind).NonZero
  · obtain ⟨con', hset, hinstalled⟩ := fbconSetparam_installs con hfont
    have hlen : content.length ≠ 0 := fun h => hempty (List.length_eq_zero_iff.mp h)
    rw [setfntContent, if_neg hlen, hset]
    constructor
    · rintro ⟨text, con'', hok, ⟨hnone, -⟩ | ⟨-, -, hle⟩⟩
      · cases hok
        exact absurd rfl hnone
      · cases hok
        rw [hinstalled] at hle
        exact ⟨hfont, hle⟩
    · rintro ⟨-, hle⟩
      exact ⟨none, con', rfl, .inr ⟨rfl, by rwa [hinstalled], by rwa [hinstalled]⟩⟩
  · rw [setfntContent_divides hempty hfont]
    constructor
    · rintro ⟨text, con', hok, -⟩
      cases hok
    · exact fun h => absurd h.1 hfont

/-- Four zero bytes. -/
theorem setfntContent_zeros :
    ∃ con, fbconCreate smallFb = .ok con ∧
      ¬ SetsSafely con [0, 0, 0, 0] (setfntContent con [0, 0, 0, 0] fun _ => 0) := by
  obtain ⟨con, hcreate, -⟩ := fbconCreate_inv (by decide : 0 < smallFb.width) (by decide)
  refine ⟨con, hcreate, ?_⟩
  rw [setfntContent_divides (List.cons_ne_nil _ _) (by decide)]
  rintro ⟨text, con', hok, -⟩
  cases hok

end Setfnt

end Microboot.Kern.Io
