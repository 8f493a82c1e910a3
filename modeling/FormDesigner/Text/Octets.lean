/-!
# Octets as text

A file holds the octets of a text in UTF-8. When a text file is read, every way of ending a line
becomes a line feed.

Binary data as text has 64 characters, six bits each. When it is read, characters of no meaning are
passed over, and nothing is read after the padding of the last group.
-/

namespace FormDesigner.Text

/-! ### Texts in files -/

def toOctets (s : String) : List UInt8 := s.toUTF8.toList

/-- The text whose octets these are. -/
def ofOctets? (bs : List UInt8) : Option String := String.fromUTF8? ⟨bs.toArray⟩

/-- Turns carriage returns, also before a line feed, into line feeds. -/
def unifyBreaks : List Char → List Char
  | [] => []
  | '\r' :: '\n' :: cs => '\n' :: unifyBreaks cs
  | '\r' :: cs => '\n' :: unifyBreaks cs
  | c :: cs => c :: unifyBreaks cs

/-- The text that a file of octets holds. -/
def ofFile? (bs : List UInt8) : Option String := do
  return String.ofList (unifyBreaks (← ofOctets? bs).toList)

/-! ### Base64 -/

/-- The six bits that a character stands for. -/
def base64Value? (c : Char) : Option Nat :=
  if 'A' ≤ c && c ≤ 'Z' then some (c.toNat - 0x41)
  else if 'a' ≤ c && c ≤ 'z' then some (c.toNat - 0x61 + 26)
  else if c.isDigit then some (c.toNat - 0x30 + 52)
  else if c = '+' then some 62
  else if c = '/' then some 63
  else none

/-- Reads on after `count` characters of a group, which hold the bits `left` beyond whole octets,
and after `pads` signs of padding. -/
def base64From (count left pads : Nat) : List Char → Option (List UInt8)
  | [] => if count = 0 then some [] else none
  | c :: rest =>
    if c = '=' then
      if 2 ≤ count && 4 ≤ count + pads + 1 then some []
      else base64From count left (if 2 ≤ count then pads + 1 else pads) rest
    else
      match base64Value? c with
      | none => base64From count left pads rest
      | some v =>
        match count with
        | 0 => base64From 1 v 0 rest
        | 1 => (base64From 2 (v % 16) 0 rest).map (UInt8.ofNat (left * 4 + v / 16) :: ·)
        | 2 => (base64From 3 (v % 4) 0 rest).map (UInt8.ofNat (left * 16 + v / 4) :: ·)
        | _ => (base64From 0 0 0 rest).map (UInt8.ofNat (left * 64 + v) :: ·)

/-- The octets that a text writes in base64. -/
def decodeBase64? (s : String) : Option (List UInt8) := base64From 0 0 0 s.toList

/-- The character for six bits. -/
def base64Char (n : Nat) : Char :=
  if n < 26 then Char.ofNat (0x41 + n)
  else if n < 52 then Char.ofNat (0x61 + n - 26)
  else if n < 62 then Char.ofNat (0x30 + n - 52)
  else if n = 62 then '+'
  else '/'

/-- Octets in groups of four characters each. -/
def encodeBase64 : List UInt8 → List Char
  | a :: b :: c :: rest =>
    let n := (a.toNat * 256 + b.toNat) * 256 + c.toNat
    [n / 262144, n / 4096 % 64, n / 64 % 64, n % 64].map base64Char ++ encodeBase64 rest
  | [a, b] =>
    let n := a.toNat * 1024 + b.toNat * 4
    [n / 4096, n / 64 % 64, n % 64].map base64Char ++ ['=']
  | [a] =>
    let n := a.toNat * 16
    [n / 64, n % 64].map base64Char ++ ['=', '=']
  | [] => []

/-- Characters of a line of base64. -/
def base64Line : Nat := 76

/-- The characters in lines of a given length, each ended by a line feed. -/
def inLines (width : Nat) : Nat → List Char → List Char
  | 0, _ => []
  | fuel + 1, cs =>
    if cs.isEmpty then [] else cs.take width ++ '\n' :: inLines width fuel (cs.drop width)

/-- Octets in lines of base64. -/
def encodeBase64Lines (bs : List UInt8) : String :=
  let cs := encodeBase64 bs
  String.ofList (inLines base64Line (cs.length + 1) cs)

end FormDesigner.Text
