/-
  Kern/Res/CherryFont.lean --- kern/res/cherry_font.h, the font of a new console.

  A glyph is thirteen rows of one byte; each is written as one numeral here, with
  the top row in the highest byte.  The table has room for 192 glyphs and rows for
  the first 191 of them.
-/
import Mathlib.Data.List.Basic

set_option autoImplicit false

namespace Microboot.Kern.Res

/-- The rows of `font_cherry`, from the space on. -/
def cherryGlyphs : List Nat :=
  [0x00000000000000000000000000, 0x00001010101010100010100000, 0x00002828280000000000000000,
    0x000028287c2828287c28280000, 0x00001038545030181454381000, 0x00002454582810283454480000,
    0x000010282810304a4a443a0000, 0x00001810200000000000000000, 0x00081010202020202010100800,
    0x00201010080808080810102000, 0x000000000028107c1028000000, 0x000000000010107c1010000000,
    0x00000000000000000010102000, 0x000000000000007c0000000000, 0x00000000000000000010100000,
    0x00040408081010102020404000, 0x00003844444c54644444380000, 0x00001030501010101010100000,
    0x000038444404081020407c0000, 0x00003844040418040444380000, 0x00000818182828487c08080000,
    0x00007c40404078040404780000, 0x00003840404078444444380000, 0x00007c04040808101020200000,
    0x00003844444438444444380000, 0x0000384444443c040404380000, 0x00000000101000000010100000,
    0x00000000080800000008081000, 0x00000000041860806018040000, 0x0000000000007c007c00000000,
    0x0000000040300c020c30400000, 0x00003844440418100010100000, 0x000038445c5454544c403c0000,
    0x00001010282828384444440000, 0x00007844444478444444780000, 0x00003844404040404044380000,
    0x00007844444444444444780000, 0x00007c404040784040407c0000, 0x00007c40404078404040400000,
    0x0000384440404c444444380000, 0x0000444444447c444444440000, 0x00003810101010101010380000,
    0x00003c04040404040404380000, 0x00004444484870484844440000, 0x000040404040404040407c0000,
    0x0000447c444444444444440000, 0x000044446464544c4c44440000, 0x00003844444444444444380000,
    0x00007844444478404040400000, 0x00003844444444444444380c00, 0x00007844444478484844440000,
    0x00003844404038040444380000, 0x00007c10101010101010100000, 0x000044444444444444443c0000,
    0x00004444442828282810100000, 0x0000444444444444447c440000, 0x00004444282810282844440000,
    0x00004444282828101010100000, 0x00007c040808102020407c0000, 0x00382020202020202020203800,
    0x00404020201010100808040400, 0x001c0404040404040404041c00, 0x00001028440000000000000000,
    0x000000000000000000007c0000, 0x00003010080000000000000000, 0x000000003804043c44443c0000,
    0x00004040784444444444780000, 0x00000000384440404044380000, 0x000004043c44444444443c0000,
    0x000000003844447c4044380000, 0x00001c20782020202020200000, 0x000000003c44444444443c0438,
    0x000040405c6444444444440000, 0x00101000301010101010100000, 0x00101000301010101010101060,
    0x00004040444850705048440000, 0x00003010101010101010100000, 0x000000007c5454545454540000,
    0x000000005c6444444444440000, 0x00000000384444444444380000, 0x00000000784444444444784040,
    0x000000003c44444444443c0404, 0x000000005c6040404040400000, 0x00000000384440380444380000,
    0x00002020782020202020180000, 0x000000004444444444443c0000, 0x00000000444428282810100000,
    0x0000000044444444447c440000, 0x00000000444428102844440000, 0x000000004444444444443c0438,
    0x000000007c04081020407c0000, 0x001820202020c0202020201800, 0x00101010101010101010101000,
    0x00300808080806080808083000, 0x0000000000325a4c0000000000, 0x000000000000000000447c0000,
    0x00001010001010101010100000, 0x00000010385450505054381000, 0x000c121210103c1010227e0000,
    0x000000423c24243c4200000000, 0x0044442828287c107c10100000, 0x00101010100000001010101000,
    0x00304840205048482810084830, 0x00282800000000000000000000, 0x000038449aa2a2a2a29a443800,
    0x18041c241c003c000000000000, 0x00000000000024484824000000, 0x000000000000007c0404040000,
    0x00000000000000380000000000, 0x00003844b2aaaab2aaaa443800, 0x007c0000000000000000000000,
    0x00182424180000000000000000, 0x000000000010107c10107c0000, 0x001824040810203c0000000000,
    0x00182404180424180000000000, 0x00081000000000000000000000, 0x000000444444444444645a4040,
    0x003c7474747434141414140000, 0x00000000000010100000000000, 0x00000000000000000000001020,
    0x00103050101010100000000000, 0x0018242418003c000000000000, 0x00000000000048242448000000,
    0x002060a2242810244c941e0404, 0x002060a22428102c528204081e, 0x60902012946810244c941e0404,
    0x00101000001030404444380000, 0x20100010102828384444440000, 0x08100010102828384444440000,
    0x10280010102828384444440000, 0x14280010102828384444440000, 0x28280010102828384444440000,
    0x10281010102828384444440000, 0x00000e1818282e3848484e0000, 0x00384440404040404044381020,
    0x2010007c4040784040407c0000, 0x1020007c4040784040407c0000, 0x1028007c4040784040407c0000,
    0x2828007c4040784040407c0000, 0x20100038101010101010380000, 0x08100038101010101010380000,
    0x10280038101010101010380000, 0x28280038101010101010380000, 0x000070484444e4444448700000,
    0x28500044646454544c4c440000, 0x20100038444444444444380000, 0x10200038444444444444380000,
    0x10280038444444444444380000, 0x28500038444444444444380000, 0x28280038444444444444380000,
    0x00000000442810284400000000, 0x00003a444c4c54646444b80000, 0x201000444444444444443c0000,
    0x102000444444444444443c0000, 0x102800444444444444443c0000, 0x282800444444444444443c0000,
    0x10200044442828101010100000, 0x00004040784444444478404000, 0x00003048485058444444480000,
    0x002010003804043c44443c0000, 0x000810003804043c44443c0000, 0x001028003804043c44443c0000,
    0x001428003804043c44443c0000, 0x002828003804043c44443c0000, 0x102810003804043c44443c0000,
    0x000000006c12127c90906c0000, 0x00000000384440404044381020, 0x002010003844447c4044380000,
    0x000810003844447c4044380000, 0x001028003844447c4044380000, 0x002828003844447c4044380000,
    0x00201000301010101010100000, 0x00081000301010101010100000, 0x00102800301010101010100000,
    0x00282800301010101010100000, 0x00483050182844444444380000, 0x001428005c6444444444440000,
    0x00201000384444444444380000, 0x00081000384444444444380000, 0x00102800384444444444380000,
    0x00142800384444444444380000, 0x00282800384444444444380000, 0x0000001010007c001010000000,
    0x000000003a444c546444b80000, 0x002010004444444444443c0000, 0x000810004444444444443c0000,
    0x001028004444444444443c0000, 0x002828004444444444443c0000, 0x000810004444444444443c0438,
    0x00404058644444444464584040, 0x002828004444444444443c0438]

/-- The rows of a glyph. -/
def cherryRows : Nat := 13

/-- Byte `i` of `font_cherry`; bytes outside of the table read as 0. -/
def fontCherry (i : Int) : UInt8 :=
  if 0 ≤ i then
    UInt8.ofNat (cherryGlyphs.getD (i.toNat / cherryRows) 0 >>>
      (8 * (cherryRows - 1 - i.toNat % cherryRows)))
  else 0

/-- The first rows of the exclamation mark, the second glyph. -/
example : (List.range 4).map (fun i => fontCherry (13 + i)) = [0x00, 0x00, 0x10, 0x10] := by
  decide

end Microboot.Kern.Res
