/-
  Kern/Format.lean --- printf and its relatives, kern/printf.c.

  printf.h switches floating point, `long long` and `ptrdiff_t` off, and what is
  left is here as a whole: the flags, the width, the precision and the length of a
  conversion, the integers, characters, strings and pointers, and the functions
  that put one character out.

  The format and the strings are read from the memory that the output may change,
  as the code reads them, one character when it is due.  The arguments are the words
  that `va_arg` takes; to take one more than there are is undefined.
-/
import Microboot.Foundation.CString
import Microboot.Kern.Printf
import Microboot.Kern.Stdlib

set_option autoImplicit false

namespace Microboot.Kern.Printf

open Microboot.Foundation

/-! ## Output functions -/

/-- `out_fct_type`: what putting out a character at an index, below `maxlen` or not,
does to a state, and the memory in that state. -/
structure OutFct (σ : Type) where
  out : UInt8 → UInt32 → UInt32 → σ → σ
  mem : σ → Mem

/-- `_out_buffer` -/
def outBuffer (buffer : Nat) : OutFct Mem where
  out character idx maxlen m := if idx < maxlen then m.store8 (buffer + idx.toNat) character else m
  mem m := m

/-- `_out_null` -/
def outNull {σ : Type} (f : OutFct σ) : OutFct σ where
  out _ _ _ s := s
  mem := f.mem

/-- `_out_char`, where `putc` is `_putchar`. -/
def outChar {σ : Type} (putc : UInt8 → σ → σ) (mem : σ → Mem) : OutFct σ where
  out character _ _ s := if character ≠ 0 then putc character s else s
  mem := mem

/-- `_out_fct`, where `fct` is the function together with its argument. -/
def outFct {σ : Type} (fct : UInt8 → σ → σ) (mem : σ → Mem) : OutFct σ where
  out character _ _ s := if character ≠ 0 then fct character s else s
  mem := mem

/-- `idx` and the state behind the output function. -/
structure Printed (σ : Type) where
  idx : UInt32
  state : σ
  deriving DecidableEq, Repr

section Output

variable {σ : Type} (f : OutFct σ) (maxlen : UInt32)

/-- `out(character, buffer, idx++, maxlen)` -/
def Printed.put (character : UInt8) (s : Printed σ) : Printed σ :=
  { idx := s.idx + 1, state := f.out character s.idx maxlen s.state }

/-- Characters, one after the other. -/
def Printed.puts (characters : List UInt8) (s : Printed σ) : Printed σ :=
  characters.foldl (fun s character => s.put f maxlen character) s

/-- `n` times a space. -/
def Printed.spaces (n : Nat) (s : Printed σ) : Printed σ := s.puts f maxlen (List.replicate n 32)

end Output

/-! ## Numbers -/

/-- The flags of a conversion, without `FLAGS_ADAPT_EXP`. -/
structure Flags where
  zeropad : Bool := false
  left : Bool := false
  plus : Bool := false
  space : Bool := false
  hash : Bool := false
  uppercase : Bool := false
  char : Bool := false
  short : Bool := false
  long : Bool := false
  longLong : Bool := false
  precision : Bool := false
  deriving DecidableEq, Repr

/-- `char buf[PRINTF_NTOA_BUFFER_SIZE]` up to `len`. -/
structure NtoaBuf where
  chars : List UInt8
  fits : chars.length ≤ ntoaBufferSize

namespace NtoaBuf

/-- `len` -/
def len (buf : NtoaBuf) : Nat := buf.chars.length

theorem len_le (buf : NtoaBuf) : buf.len ≤ ntoaBufferSize := buf.fits

/-- `len = 0U` -/
def empty : NtoaBuf := ⟨[], Nat.zero_le _⟩

/-- `buf[len++] = c`, which is inside the buffer. -/
def push (buf : NtoaBuf) (c : UInt8) (h : buf.len < ntoaBufferSize) : NtoaBuf :=
  ⟨buf.chars ++ [c], by rw [List.length_append]; exact h⟩

theorem len_push (buf : NtoaBuf) (c : UInt8) (h : buf.len < ntoaBufferSize) :
    (buf.push c h).len = buf.len + 1 := List.length_append

/-- `if (len < PRINTF_NTOA_BUFFER_SIZE) { buf[len++] = c; }` -/
def pushIf (buf : NtoaBuf) (c : UInt8) : NtoaBuf :=
  if h : buf.len < ntoaBufferSize then buf.push c h else buf

/-- `len--` -/
def pop (buf : NtoaBuf) : NtoaBuf :=
  ⟨buf.chars.dropLast, by rw [List.length_dropLast]; exact (Nat.sub_le _ _).trans buf.fits⟩

/-- `while ((len < n) && (len < PRINTF_NTOA_BUFFER_SIZE)) { buf[len++] = '0'; }` -/
def padTo (buf : NtoaBuf) (n : Nat) : NtoaBuf :=
  ⟨buf.chars ++ List.replicate (min n ntoaBufferSize - buf.len) 48, by
    have hlen : buf.chars.length = buf.len := rfl
    have hle := buf.len_le
    rw [List.length_append, List.length_replicate, hlen]
    omega⟩

end NtoaBuf

/-- The character of a digit. -/
def ntoaDigit (flags : Flags) (digit : Nat) : UInt8 :=
  UInt8.ofNat (if digit < 10 then 48 + digit else (if flags.uppercase then 65 else 97) + digit - 10)

/-- `do { .. } while (value && (len < PRINTF_NTOA_BUFFER_SIZE))`, where the buffer has
room for `room` more. -/
def ntoaLoop (flags : Flags) (base : Nat) : (room value : Nat) → (buf : NtoaBuf) →
    buf.len + room = ntoaBufferSize → NtoaBuf
  | 0, _, buf, _ => buf
  | room + 1, value, buf, h =>
    let next := buf.push (ntoaDigit flags (value % base)) (by omega)
    if value / base = 0 then next
    else ntoaLoop flags base room (value / base) next (by
      rw [NtoaBuf.len_push]
      omega)

/-- The leading zeros of `_ntoa_format`, and the width that is left. -/
def ntoaPad (buf : NtoaBuf) (negative : Bool) (prec width : Nat) (flags : Flags) : NtoaBuf × Nat :=
  if flags.left then (buf, width)
  else
    let width :=
      if width ≠ 0 ∧ flags.zeropad ∧ (negative ∨ flags.plus ∨ flags.space) then width - 1
      else width
    let buf := buf.padTo prec
    (if flags.zeropad then buf.padTo width else buf, width)

/-- The hash of `_ntoa_format`. -/
def ntoaHash (buf : NtoaBuf) (base prec width : Nat) (flags : Flags) : NtoaBuf :=
  if flags.hash then
    let buf :=
      if ¬flags.precision ∧ buf.len ≠ 0 ∧ (buf.len = prec ∨ buf.len = width) then
        let buf := buf.pop
        if buf.len ≠ 0 ∧ base = 16 then buf.pop else buf
      else buf
    let buf :=
      if base = 16 ∧ ¬flags.uppercase ∧ buf.len < ntoaBufferSize then buf.pushIf 120
      else if base = 16 ∧ flags.uppercase ∧ buf.len < ntoaBufferSize then buf.pushIf 88
      else if base = 2 ∧ buf.len < ntoaBufferSize then buf.pushIf 98
      else buf
    buf.pushIf 48
  else buf

/-- The sign of `_ntoa_format`. -/
def ntoaSign (buf : NtoaBuf) (negative : Bool) (flags : Flags) : NtoaBuf :=
  if negative then buf.pushIf 45
  else if flags.plus then buf.pushIf 43
  else if flags.space then buf.pushIf 32
  else buf

section Output

variable {σ : Type} (f : OutFct σ) (maxlen : UInt32)

/-- `_out_rev` -/
def outRev (s : Printed σ) (buf : NtoaBuf) (width : Nat) (flags : Flags) : Printed σ :=
  let startIdx := s.idx
  let s := if ¬flags.left ∧ ¬flags.zeropad then s.spaces f maxlen (width - buf.len) else s
  let s := s.puts f maxlen buf.chars.reverse
  if flags.left then s.spaces f maxlen (width - (s.idx - startIdx).toNat) else s

/-- `_ntoa_format` -/
def ntoaFormat (s : Printed σ) (buf : NtoaBuf) (negative : Bool) (base prec width : Nat)
    (flags : Flags) : Printed σ :=
  let (buf, width) := ntoaPad buf negative prec width flags
  let buf := ntoaHash buf base prec width flags
  let buf := ntoaSign buf negative flags
  outRev f maxlen s buf width flags

/-- `_ntoa_long` -/
def ntoaLong (s : Printed σ) (value : Nat) (negative : Bool) (base prec width : Nat)
    (flags : Flags) : Printed σ :=
  let flags := if value = 0 then { flags with hash := false } else flags
  let buf :=
    if ¬flags.precision ∨ value ≠ 0 then
      ntoaLoop flags base ntoaBufferSize value .empty (Nat.zero_add _)
    else .empty
  ntoaFormat f maxlen s buf negative base prec width flags

end Output

/-! ## Conversions -/

/-- The words that `va_arg` takes. -/
abbrev VaList : Type := List UInt32

/-- `va_arg(va, ..)` -/
def vaArg : VaList → Option (UInt32 × VaList)
  | [] => none
  | w :: va => some (w, va)

/-- `_is_digit` -/
def isDigit (c : UInt8) : Bool := 48 ≤ c ∧ c ≤ 57

/-- `_atoi`: the number, and where it ends. -/
def atoi (m : Mem) : Nat → Nat → Nat → Option (Nat × Nat)
  | 0, _, _ => none
  | fuel + 1, p, i =>
    let c := m.load8 p
    if isDigit c then atoi m fuel (p + 1) ((i * 10 + (c.toNat - 48)) % 2 ^ 32) else some (i, p)

/-- What a flag adds to the flags. -/
def flagOf (c : UInt8) (flags : Flags) : Option Flags :=
  if c = 48 then some { flags with zeropad := true }
  else if c = 45 then some { flags with left := true }
  else if c = 43 then some { flags with plus := true }
  else if c = 32 then some { flags with space := true }
  else if c = 35 then some { flags with hash := true }
  else none

/-- `do { .. } while (n)`: the flags, and where they end. -/
def evalFlags (m : Mem) : Nat → Nat → Flags → Option (Flags × Nat)
  | 0, _, _ => none
  | fuel + 1, p, flags =>
    match flagOf (m.load8 p) flags with
    | some flags => evalFlags m fuel (p + 1) flags
    | none => some (flags, p)

/-- The `[flags][width][.precision][length]` of a conversion. -/
structure Spec where
  flags : Flags
  width : Nat
  precision : Nat
  deriving DecidableEq, Repr

/-- "evaluate width field" -/
def evalWidth (m : Mem) (p : Nat) (flags : Flags) (va : VaList) :
    Option (Spec × Nat × VaList) := do
  if isDigit (m.load8 p) then
    let (width, p) ← atoi m addrSpace p 0
    return ({ flags, width, precision := 0 }, p, va)
  else if m.load8 p = 42 then
    let (w, va) ← vaArg va
    if w.toInt32 < 0 then
      return ({ flags := { flags with left := true }, width := (-w).toNat, precision := 0 },
        p + 1, va)
    else return ({ flags, width := w.toNat, precision := 0 }, p + 1, va)
  else return ({ flags, width := 0, precision := 0 }, p, va)

/-- "evaluate precision field" -/
def evalPrecision (m : Mem) (p : Nat) (spec : Spec) (va : VaList) :
    Option (Spec × Nat × VaList) := do
  let spec := { spec with precision := 0 }
  if m.load8 p = 46 then
    let flags := { spec.flags with precision := true }
    let p := p + 1
    if isDigit (m.load8 p) then
      let (precision, p) ← atoi m addrSpace p 0
      return ({ spec with flags, precision }, p, va)
    else if m.load8 p = 42 then
      let (prec, va) ← vaArg va
      let precision := if prec.toInt32 > 0 then prec.toNat else 0
      return ({ spec with flags, precision }, p + 1, va)
    else return ({ spec with flags }, p, va)
  else return (spec, p, va)

/-- "evaluate length field"; `intmax_t` has 64 bits, `size_t` and `long` have 32. -/
def evalLength (m : Mem) (p : Nat) (flags : Flags) : Flags × Nat :=
  let c := m.load8 p
  if c = 108 then
    let flags := { flags with long := true }
    if m.load8 (p + 1) = 108 then ({ flags with longLong := true }, p + 2) else (flags, p + 1)
  else if c = 104 then
    let flags := { flags with short := true }
    if m.load8 (p + 1) = 104 then ({ flags with char := true }, p + 2) else (flags, p + 1)
  else if c = 106 then ({ flags with longLong := true }, p + 1)
  else if c = 122 then ({ flags with long := true }, p + 1)
  else (flags, p)

/-- What stands between a `%` and its specifier, and where the specifier is. -/
def evalSpec (m : Mem) (p : Nat) (va : VaList) : Option (Spec × Nat × VaList) := do
  let (flags, p) ← evalFlags m addrSpace p {}
  let (spec, p, va) ← evalWidth m p flags va
  let (spec, p, va) ← evalPrecision m p spec va
  let (flags, p) := evalLength m p spec.flags
  return ({ spec with flags }, p, va)

/-- The base of a specifier for integers: `x` or `X`, `o`, `b`, else ten. -/
def baseOf (c : UInt8) : Nat :=
  if c = 120 ∨ c = 88 then 16 else if c = 111 then 8 else if c = 98 then 2 else 10

/-- The flags that are left for an integer. -/
def integerFlags (c : UInt8) (flags : Flags) : Flags :=
  let flags := if baseOf c = 10 then { flags with hash := false } else flags
  let flags := if c = 88 then { flags with uppercase := true } else flags
  let flags := if c ≠ 105 ∧ c ≠ 100 then { flags with plus := false, space := false } else flags
  if flags.precision then { flags with zeropad := false } else flags

/-- The value of an argument for `d` and `i`: a `long`, or an `int` cut to a `char` or a
`short`. -/
def signedArg (flags : Flags) (w : UInt32) : Int32 :=
  if flags.long then w.toInt32
  else if flags.char then w.toInt32.toInt8.toInt32
  else if flags.short then w.toInt32.toInt16.toInt32
  else w.toInt32

/-- The value of an argument for the other integers. -/
def unsignedArg (flags : Flags) (w : UInt32) : UInt32 :=
  if flags.long then w
  else if flags.char then w.toUInt8.toUInt32
  else if flags.short then w.toUInt16.toUInt32
  else w

/-- `_strnlen_s(str, maxsize)` -/
def strnlenS (m : Mem) (str : Nat) : (maxsize : Nat) → Nat
  | 0 => 0
  | maxsize + 1 => if m.load8 str = 0 then 0 else strnlenS m (str + 1) maxsize + 1

section Output

variable {σ : Type} (f : OutFct σ) (maxlen : UInt32)

/-- The specifiers `d`, `i`, `u`, `x`, `X`, `o` and `b`. -/
def convertInteger (s : Printed σ) (c : UInt8) (spec : Spec) (va : VaList) :
    Option (Printed σ × VaList) := do
  let base := baseOf c
  let flags := integerFlags c spec.flags
  -- without `PRINTF_SUPPORT_LONG_LONG` nothing is converted and no argument is taken
  if flags.longLong then return (s, va)
  let (w, va) ← vaArg va
  if c = 105 ∨ c = 100 then
    let value := signedArg flags w
    let magnitude := if value > 0 then value else 0 - value
    return (ntoaLong f maxlen s magnitude.toUInt32.toNat (value < 0) base spec.precision
      spec.width flags, va)
  else
    return (ntoaLong f maxlen s (unsignedArg flags w).toNat false base spec.precision
      spec.width flags, va)

/-- The specifier `c`. -/
def convertChar (s : Printed σ) (spec : Spec) (va : VaList) : Option (Printed σ × VaList) := do
  let s := if ¬spec.flags.left then s.spaces f maxlen (spec.width - 1) else s
  let (w, va) ← vaArg va
  let s := s.put f maxlen w.toUInt8
  return (if spec.flags.left then s.spaces f maxlen (spec.width - 1) else s, va)

/-- `while ((*p != 0) && (!(flags & FLAGS_PRECISION) || precision--))` -/
def outString (flags : Flags) : Nat → Nat → Nat → Printed σ → Option (Printed σ)
  | 0, _, _, _ => none
  | fuel + 1, p, precision, s =>
    let c := (f.mem s.state).load8 p
    if c ≠ 0 ∧ (¬flags.precision ∨ precision ≠ 0) then
      outString flags fuel (p + 1) (precision - 1) (s.put f maxlen c)
    else some s

/-- The specifier `s`. -/
def convertString (s : Printed σ) (spec : Spec) (va : VaList) : Option (Printed σ × VaList) := do
  let (w, va) ← vaArg va
  let p := w.toNat
  let l := strnlenS (f.mem s.state) p (if spec.precision ≠ 0 then spec.precision else 2 ^ 32 - 1)
  let l := if spec.flags.precision then min l spec.precision else l
  let s := if ¬spec.flags.left then s.spaces f maxlen (spec.width - l) else s
  let s ← outString f maxlen spec.flags addrSpace p spec.precision s
  return (if spec.flags.left then s.spaces f maxlen (spec.width - l) else s, va)

/-- The specifier `p`. -/
def convertPointer (s : Printed σ) (spec : Spec) (va : VaList) : Option (Printed σ × VaList) := do
  let (w, va) ← vaArg va
  return (ntoaLong f maxlen s w.toNat false 16 spec.precision 8
    { spec.flags with zeropad := true, uppercase := true }, va)

/-- "evaluate specifier" -/
def convert (s : Printed σ) (c : UInt8) (spec : Spec) (va : VaList) :
    Option (Printed σ × VaList) :=
  if c = 100 ∨ c = 105 ∨ c = 117 ∨ c = 120 ∨ c = 88 ∨ c = 111 ∨ c = 98 then
    convertInteger f maxlen s c spec va
  else if c = 99 then convertChar f maxlen s spec va
  else if c = 115 then convertString f maxlen s spec va
  else if c = 112 then convertPointer f maxlen s spec va
  else some (s.put f maxlen c, va)

/-- `while (*format) { .. }` -/
def formatLoop : Nat → Nat → VaList → Printed σ → Option (Printed σ)
  | 0, _, _, _ => none
  | fuel + 1, format, va, s => do
    let m := f.mem s.state
    let c := m.load8 format
    if c = 0 then return s
    else if c ≠ 37 then formatLoop fuel (format + 1) va (s.put f maxlen c)
    else
      let (spec, p, va) ← evalSpec m (format + 1) va
      let (s, va) ← convert f maxlen s (m.load8 p) spec va
      formatLoop fuel (p + 1) va s

/-- The termination: the state behind it, and `(int)idx`. -/
def Printed.terminate (s : Printed σ) : σ × Int32 :=
  (f.out 0 (if s.idx < maxlen then s.idx else maxlen - 1) maxlen s.state, s.idx.toInt32)

/-- `_vsnprintf`: the state, and the number that is returned. -/
def vsnprintfOut (buffer format : Nat) (va : VaList) (s : σ) : Option (σ × Int32) := do
  let f := if buffer = 0 then outNull f else f
  let s ← formatLoop f maxlen addrSpace format va ⟨0, s⟩
  return s.terminate f maxlen

end Output

/-! ## The functions of printf.h -/

/-- `vsnprintf`, and `snprintf` with its arguments in a list. -/
def vsnprintf (m : Mem) (buffer : Nat) (count : UInt32) (format : Nat) (va : VaList) :
    Option (Mem × Int32) :=
  vsnprintfOut (outBuffer buffer) count buffer format va m

/-- `sprintf` -/
def sprintf (m : Mem) (buffer format : Nat) (va : VaList) : Option (Mem × Int32) :=
  vsnprintfOut (outBuffer buffer) 0xffffffff buffer format va m

section Output

variable {σ : Type}

/-- `vprintf`, and `printf`; the buffer of one byte is on the stack at `buffer`. -/
def vprintf (putc : UInt8 → σ → σ) (mem : σ → Mem) (buffer format : Nat) (va : VaList) (s : σ) :
    Option (σ × Int32) :=
  vsnprintfOut (outChar putc mem) 0xffffffff buffer format va s

/-- `vfctprintf`, and `fctprintf`; the wrapper is on the stack at `wrap`. -/
def vfctprintf (fct : UInt8 → σ → σ) (mem : σ → Mem) (wrap format : Nat) (va : VaList) (s : σ) :
    Option (σ × Int32) :=
  vsnprintfOut (outFct fct mem) 0xffffffff wrap format va s

end Output

end Microboot.Kern.Printf
