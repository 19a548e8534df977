/-
  Kern/Io/Fbcon.lean --- kern/io/fbcon.c, the console on a framebuffer.

  A character is drawn as the bitmap its font has for it, into the pixels of its
  cell.  The cursor is a bitmap of its own that is drawn over the cell it is in;
  the driver remembers that cell, and draws a space there when the cursor moves
  on.  The grid follows the size of the screen and of the font.
-/
import Microboot.Kern.Io.Driver
import Microboot.Kern.Io.Framebuffer
import Microboot.Kern.Io.Putc
import Microboot.Kern.Res.CherryFont

set_option autoImplicit false

namespace Microboot.Kern.Io

open Microboot.Foundation Microboot.Kern.Res

/-! ## Data -/

/-- `struct fbcon_font`.  `data` is read at offsets from the pointer, which can lie
in front of the first glyph or behind the last. -/
structure FbconFont where
  data : Int → UInt8
  charWidth : Nat
  charWidthBytes : Nat
  charHeight : Nat

/-- `fbcon_priv_t`, and the cells `con->put_xy` was called for so far (latest first),
which the code does not keep. -/
structure FbconPriv where
  fb : FbDev
  fgColour : UInt32
  bgColour : UInt32
  colourMap : List UInt32
  font : FbconFont
  cursorX : Int
  cursorY : Int
  cursorBitmap : Int → UInt8
  puts : List (Int × Int)

/-- `base_colour_map`. -/
def baseColourMap : List UInt32 :=
  [0x000000, 0x0000ff, 0x00ff00, 0x008b8b, 0xff0000, 0x800080, 0x964b00, 0x808080,
    0x696969, 0x87cefa, 0x90ee90, 0x00ffff, 0xfa8072, 0xff00ff, 0xffff00, 0xffffff]

/-! ## Drawing -/

/-- The bit of a bitmap for pixel `(x, y)`, with `wbytes` bytes a row. -/
def bitmapBit (bitmap : Int → UInt8) (wbytes x y : Nat) : Bool :=
  bitmap (y * wbytes + (x >>> 3 : Nat)) &&& [128, 64, 32, 16, 8, 4, 2, 1].getD (x &&& 7) 0 ≠ 0

/-- `fb_put_bitmap(con, px_x, px_y, width, height, wbytes, fg, bg, bitmap)`. -/
def fbPutBitmap (fb : FbDev) (pxX pxY : Int) (width height wbytes : Nat) (fg bg : UInt32)
    (bitmap : Int → UInt8) : FbDev :=
  fb.putRect pxX pxY width height fun x y => if bitmapBit bitmap wbytes x y then fg else bg

/-- The bitmap of `c`: `font.data + char_height * char_wbytes * (c - 32)`, where `c`
is a signed `char`. -/
def FbconFont.glyph (font : FbconFont) (c : UInt8) : Int → UInt8 :=
  fun i => font.data (font.charHeight * font.charWidthBytes * (c.toInt8.toInt - 32) + i)

/-- A bitmap drawn into the pixels of a cell in the console's colours. -/
def FbconPriv.drawCell (priv : FbconPriv) (x y : Int) (bitmap : Int → UInt8) : FbDev :=
  fbPutBitmap priv.fb (x * priv.font.charWidth) (y * priv.font.charHeight)
    priv.font.charWidth priv.font.charHeight priv.font.charWidthBytes
    priv.fgColour priv.bgColour bitmap

/-- `fb_putxy(con, x_base, y_base, c)`: the cursor is no longer tracked if it is
drawn over. -/
def fbPutxy (priv : FbconPriv) (xBase yBase : Int) (c : UInt8) : FbconPriv :=
  let priv :=
    if priv.cursorX = xBase ∧ priv.cursorY = yBase then
      { priv with cursorX := -1, cursorY := -1 }
    else priv
  { priv with fb := priv.drawCell xBase yBase (priv.font.glyph c) }

/-- `fb_invalidate(con, x, y, width, height)`. -/
def fbInvalidate (priv : FbconPriv) (x y width height : Int) : FbconPriv :=
  { priv with
    fb := priv.fb.invalidate (x * priv.font.charWidth) (y * priv.font.charHeight)
      (width * priv.font.charWidth) (height * priv.font.charHeight) }

/-- The first part of `fb_set_cursor`: a space where the cursor was. -/
def fbEraseCursor (priv : FbconPriv) : FbconPriv :=
  if priv.cursorX ≠ -1 ∧ priv.cursorY ≠ -1 then
    fbInvalidate (fbPutxy priv priv.cursorX priv.cursorY space) priv.cursorX priv.cursorY 1 1
  else priv

/-- `fb_set_cursor(con, x, y)`. -/
def fbSetCursor (priv : FbconPriv) (x y : Int) : FbconPriv :=
  let priv := fbEraseCursor priv
  let priv := { priv with fb := priv.drawCell x y priv.cursorBitmap }
  { fbInvalidate priv x y 1 1 with cursorX := x, cursorY := y }

/-- `fb_set_colour(con, colour)`. -/
def fbSetColour (priv : FbconPriv) (colour : UInt16) : FbconPriv :=
  { priv with
    bgColour := priv.colourMap.getD ((colour >>> 4) &&& 0xf).toNat 0
    fgColour := priv.colourMap.getD (colour &&& 0xf).toNat 0 }

/-- `fb_clear(con)`: every pixel of the screen in the background colour. -/
def fbClear (priv : FbconPriv) : FbconPriv :=
  let fb := priv.fb.putRect 0 0 priv.fb.width.toNat priv.fb.height.toNat fun _ _ => priv.bgColour
  { priv with fb := fb.invalidate 0 0 priv.fb.width priv.fb.height }

/-! ## The operations of the console -/

/-- `con->put_xy`, which is `fb_putxy`. -/
def fbconPutXy (con : Console FbconPriv) (x y : Int) (c : UInt8) : Except Fault FbconPriv :=
  .ok { fbPutxy con.priv x y c with puts := (x, y) :: con.priv.puts }

/-- `con->invalidate`, which is `fb_invalidate`. -/
def fbconInvalidate (con : Console FbconPriv) (x y width height : Int) :
    Except Fault FbconPriv :=
  .ok (fbInvalidate con.priv x y width height)

/-- `fb_scroll(con)`. -/
def fbScroll (con : Console FbconPriv) : Except Fault FbconPriv :=
  let priv := { con.priv with fb := con.priv.fb.shift con.priv.font.charHeight }
  consoleClearRow fbconPutXy fbconInvalidate { con with priv := priv } con.yPos

/-- The operations of the framebuffer console. -/
def fbconOps : ConsoleOps FbconPriv where
  putXy := fbconPutXy
  setCursor con x y := .ok (fbSetCursor con.priv x y)
  scroll := fbScroll
  setColour con colour := .ok (fbSetColour con.priv colour)
  invalidate := fbconInvalidate
  clear con := .ok (fbClear con.priv)

/-! ## The device -/

/-- `fbcon_gencursor(con)`: the second pixel of every row. -/
def fbconGencursor (priv : FbconPriv) : FbconPriv :=
  { priv with
    cursorBitmap := forUpto priv.font.charHeight
      (fun i bmp k => if k = i * priv.font.charWidthBytes then 0x40 else bmp k) fun _ => 0 }

/-- The console with the grid that its screen and font make. -/
def fbconGrid (con : Console FbconPriv) : Console FbconPriv :=
  { con with
    width := con.priv.fb.width / con.priv.font.charWidth
    height := con.priv.fb.height / con.priv.font.charHeight }

/-- The two divisions that set `con->width` and `con->height`. -/
def fbconMeasure (con : Console FbconPriv) : Except Fault (Console FbconPriv) :=
  if con.priv.font.charWidth = 0 ∨ con.priv.font.charHeight = 0 then .error .divide
  else .ok (fbconGrid con)

/-- `fbcon_resize(con)`. -/
def fbconResize (con : Console FbconPriv) : Except Fault (Console FbconPriv) := do
  let new ← fbconMeasure con
  if new.width = con.width ∧ new.height = con.height then return new
  else consoleClear fbconOps new

/-- The requests of `fbcon_setparam`, with what `aux` points to. -/
inductive FbconParam where
  | colourscheme (map : List UInt32)
  | font (font : FbconFont)
  | resize

/-- `fbcon_setparam(dev, param_id, aux)`. -/
def fbconSetparam (con : Console FbconPriv) : FbconParam → Except Fault (Console FbconPriv)
  | .colourscheme map => return { con with priv := { con.priv with colourMap := map } }
  | .font font => do
    let con ← fbconMeasure { con with priv := { con.priv with font := font } }
    consoleClear fbconOps { con with priv := fbconGencursor con.priv }
  | .resize => return con

/-- `enum change_type`. -/
inductive ChangeType where
  | param
  deriving DecidableEq, Repr

/-- `FBDEV_CHANGE_RESOLUTION`. -/
def fbdevChangeResolution : Int := 1

/-- `fbcon_inform(dev, sender, type, id, aux)`. -/
def fbconInform (con : Console FbconPriv) (sender : DeviceType) (type : ChangeType) (id : Int) :
    Except Fault (Console FbconPriv) :=
  if sender = .framebuffer then
    if type = .param ∧ id = fbdevChangeResolution then fbconResize con else return con
  else return con

/-- The framebuffer's `setparam(FBDEV_SETRES)` that finds a mode: the framebuffer has
a new size, and informs the console bound to it. -/
def fbdevSetRes (con : Console FbconPriv) (width height : Int) :
    Except Fault (Console FbconPriv) :=
  fbconInform { con with priv := { con.priv with fb := con.priv.fb.setRes width height } }
    .framebuffer .param fbdevChangeResolution

/-- The font `fbcon_create` starts with. -/
def cherryFont : FbconFont where
  data := fontCherry
  charWidth := 7
  charWidthBytes := 1
  charHeight := 13

/-- `fbcon_create(fb)`. -/
def fbconCreate (fb : FbDev) : Except Fault (Console FbconPriv) := do
  let priv := fbconGencursor
    { fb := fb
      fgColour := baseColourMap.getD 15 0
      bgColour := baseColourMap.getD 1 0
      colourMap := baseColourMap
      font := cherryFont
      cursorX := -1
      cursorY := -1
      cursorBitmap := fun _ => 0
      puts := [] }
  let con ← fbconMeasure { xPos := 0, yPos := 0, width := 0, height := 0, priv := priv }
  consoleClear fbconOps con

end Microboot.Kern.Io
