import FormDesigner.Text.Printable

/-!
# Quoted and escaped text

Text quoted for a message stands between single quotes, or between double quotes when it holds a
single quote and no double one. Inside, the backslash and the enclosing quote are escaped, and
characters that are not printable are written by their code.

JSON writes text between double quotes with backslash escapes. Control characters, the quote and the
backslash are always escaped; in ASCII form every other character beyond printable ASCII is escaped
too, by its 16-bit units.
-/

namespace FormDesigner.Text

/-! ### Text in messages -/

def hexDigit (n : Nat) : Char :=
  if n < 10 then Char.ofNat (0x30 + n) else Char.ofNat (0x57 + n)

/-- The last `width` hexadecimal digits of a number, in lower case. -/
def hexDigits (width n : Nat) : List Char :=
  match width with
  | 0 => []
  | width + 1 => hexDigits width (n / 16) ++ [hexDigit (n % 16)]

/-- One character of quoted text. -/
def quotedChar (quote : Char) (c : Char) : List Char :=
  if c = quote || c = '\\' then ['\\', c]
  else if c = '\n' then ['\\', 'n']
  else if c = '\r' then ['\\', 'r']
  else if c = '\t' then ['\\', 't']
  else if isPrintable c then [c]
  else if c.toNat < 0x100 then '\\' :: 'x' :: hexDigits 2 c.toNat
  else if c.toNat < 0x10000 then '\\' :: 'u' :: hexDigits 4 c.toNat
  else '\\' :: 'U' :: hexDigits 8 c.toNat

def quoteFor (cs : List Char) : Char :=
  if cs.contains '\x27' && !cs.contains '\x22' then '\x22' else '\x27'

def quoted (s : String) : String :=
  let cs := s.toList
  let quote := quoteFor cs
  String.ofList (quote :: cs.flatMap (quotedChar quote) ++ [quote])

/-- One octet of quoted binary data. -/
def quotedOctet (quote : Char) (b : UInt8) : List Char :=
  let c := Char.ofNat b.toNat
  if c = quote || c = '\\' then ['\\', c]
  else if c = '\n' then ['\\', 'n']
  else if c = '\r' then ['\\', 'r']
  else if c = '\t' then ['\\', 't']
  else if 0x20 ≤ b.toNat && b.toNat < 0x7f then [c]
  else '\\' :: 'x' :: hexDigits 2 b.toNat

/-- Binary data, quoted as text is and marked by a leading `b`. -/
def quotedOctets (bs : List UInt8) : String :=
  let quote := quoteFor (bs.map fun b => Char.ofNat b.toNat)
  String.ofList ('b' :: quote :: bs.flatMap (quotedOctet quote) ++ [quote])

/-! ### Text in JSON -/

/-- The escape of a 16-bit unit. -/
def escapedUnit (n : Nat) : List Char := '\\' :: 'u' :: hexDigits 4 n

def escapedChar (ascii : Bool) (c : Char) : List Char :=
  if c = '\x22' || c = '\\' then ['\\', c]
  else if c = '\n' then ['\\', 'n']
  else if c = '\r' then ['\\', 'r']
  else if c = '\t' then ['\\', 't']
  else if c.toNat = 0x8 then ['\\', 'b']
  else if c.toNat = 0xc then ['\\', 'f']
  else if c.toNat < 0x20 then escapedUnit c.toNat
  else if !ascii || c.toNat < 0x7f then [c]
  else if c.toNat < 0x10000 then escapedUnit c.toNat
  else
    let n := c.toNat - 0x10000
    escapedUnit (0xd800 + n / 0x400) ++ escapedUnit (0xdc00 + n % 0x400)

def escapedChars (ascii : Bool) (cs : List Char) : List Char :=
  '\x22' :: cs.flatMap (escapedChar ascii) ++ ['\x22']

def escaped (ascii : Bool) (s : String) : String := String.ofList (escapedChars ascii s.toList)

end FormDesigner.Text
