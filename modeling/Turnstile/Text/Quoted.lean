import Turnstile.Text.Printable

/-! Quoted text, the form in which messages name a piece of their input. A single quote opens
and closes it unless the text itself holds single quotes and no double one; whatever cannot be
shown as itself is written by its code point. -/
namespace Turnstile.Text

def hexDigit (n : Nat) : Char :=
  if n < 10 then Char.ofNat (48 + n) else Char.ofNat (87 + n)

/-- The last `width` hexadecimal digits of a number, most significant first. -/
def hexDigits : (width : Nat) → Nat → List Char
  | 0, _ => []
  | width + 1, n => hexDigits width (n / 16) ++ [hexDigit (n % 16)]

/-- A code point in the shortest of the three escapes that holds it. -/
def escapedCode (n : Nat) : List Char :=
  if n < 0x100 then '\\' :: 'x' :: hexDigits 2 n
  else if n < 0x10000 then '\\' :: 'u' :: hexDigits 4 n
  else '\\' :: 'U' :: hexDigits 8 n

def quotedChar (mark : Char) (c : Char) : List Char :=
  if c = mark || c = '\\' then ['\\', c]
  else if c = '\n' then ['\\', 'n']
  else if c = '\r' then ['\\', 'r']
  else if c = '\t' then ['\\', 't']
  else if isPrintable c then [c]
  else escapedCode c.toNat

/-- The quotation mark that needs the fewest escapes, the single one if both do. -/
def quotationMark (cs : List Char) : Char :=
  if cs.contains '\'' && !cs.contains '"' then '"' else '\''

def quote (s : String) : String :=
  let cs := s.toList
  let mark := quotationMark cs
  String.ofList (mark :: cs.flatMap (quotedChar mark) ++ [mark])

end Turnstile.Text
