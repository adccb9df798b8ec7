import Turnstile.Data.Datum
import Turnstile.Document.Text

/-! Unquoted words that stand for something other than themselves: null, the flags, integers
in four bases and decimals. Digits may be set apart by low lines. -/
namespace Turnstile.Document

/-- The number that digits write, most significant first; low lines among them do not count. -/
def digitsIn? (base : Nat) (cs : List Char) : Option Nat :=
  (cs.filter (· != '_')).foldlM (fun n c => do
    let d ← digit? c
    if d < base then return base * n + d else none) 0

/-- The integer that a word without a sign writes. A zero before other digits makes them
octal. -/
def magnitude? : List Char → Option Nat
  | ['0'] => some 0
  | '0' :: 'b' :: d :: rest => digitsIn? 2 (d :: rest)
  | '0' :: 'x' :: d :: rest => digitsIn? 16 (d :: rest)
  | '0' :: rest => digitsIn? 8 rest
  | c :: rest => if c.isDigit then digitsIn? 10 (c :: rest) else none
  | [] => none

def exponent? : List Char → Option Int
  | [] => some 0
  | mark :: sign :: d :: rest =>
    if (mark == 'e' || mark == 'E') && (d :: rest).all Char.isDigit then do
      let n ← digitsIn? 10 (d :: rest)
      if sign = '-' then some (-n) else if sign = '+' then some n else none
    else none
  | _ => none

/-- The decimal that a word writes: digits, a point, more digits and a power of ten. The first
digits may be missing if there is no sign. -/
def decimal? (sign : Option Char) (cs : List Char) : Option Decimal :=
  let isPart (c : Char) : Bool := c.isDigit || c == '_'
  let whole := cs.takeWhile isPart
  match cs.dropWhile isPart with
  | '.' :: rest => do
    let part := rest.takeWhile isPart
    let exponent ← exponent? (rest.dropWhile isPart)
    let coefficient ← digitsIn? 10 (whole ++ part)
    let places := (part.filter (· != '_')).length
    let lead := if whole.isEmpty && sign.isNone then part else whole
    if lead.head?.any Char.isDigit then
      return .ofParts (sign == some '-') coefficient (exponent - places)
    else none
  | _ => none

def number? (cs : List Char) : Option Scalar :=
  let sign := cs.head?.filter fun c => c == '+' || c == '-'
  let body := if sign.isSome then cs.drop 1 else cs
  match magnitude? body with
  | some n => some (.integer (if sign = some '-' then -n else n))
  | none => (decimal? sign body).map .decimal

def scalarOf (cs : List Char) : Scalar :=
  let s := String.ofList cs
  if ["", "~", "null", "Null", "NULL"].contains s then .null
  else if ["true", "True", "TRUE", "yes", "Yes", "YES", "on", "On", "ON"].contains s then
    .flag true
  else if ["false", "False", "FALSE", "no", "No", "NO", "off", "Off", "OFF"].contains s then
    .flag false
  else (number? cs).getD (.text s)

end Turnstile.Document
