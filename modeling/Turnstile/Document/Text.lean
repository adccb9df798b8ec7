/-! Text in a document, quoted or not. A text may go on over several lines: what separates two
lines then counts as a single space, and every further line break stays. Text between double
quotes may hold escapes; between single quotes, two quotes stand for one. -/
namespace Turnstile.Document

def isGap (c : Char) : Bool := c == ' ' || c == '\t'

def isBreak (c : Char) : Bool := c == '\n' || c == '\u2028' || c == '\u2029'

def atBlank : List Char → Bool
  | [] => true
  | c :: _ => isGap c || isBreak c

/-- Three dashes or three dots, with nothing right behind them. -/
def atBoundary (cs : List Char) : Bool :=
  (cs.take 3 == ['-', '-', '-'] || cs.take 3 == ['.', '.', '.']) && atBlank (cs.drop 3)

/-- What separates two parts of a text: the blanks before the first line break, the line
breaks, and whether an escaped one stands before them. -/
structure Gap where
  blanks : List Char := []
  breaks : List Char := []
  joined : Bool := false

namespace Gap

def add (g : Gap) (c : Char) : Gap :=
  if isBreak c then { g with breaks := g.breaks ++ [c] }
  else if g.joined || !g.breaks.isEmpty then g
  else { g with blanks := g.blanks ++ [c] }

def text (g : Gap) : List Char :=
  if g.joined then g.breaks
  else
    match g.breaks with
    | [] => g.blanks
    | ['\n'] => [' ']
    | '\n' :: more => more
    | more => more

def isEmpty (g : Gap) : Bool := g.blanks.isEmpty && g.breaks.isEmpty

end Gap

def endsKey (inBrackets : Bool) (cs : List Char) : Bool :=
  atBlank cs || inBrackets && cs.head?.any [',', '[', ']', '\x7b', '\x7d'].contains

def isWordChar (inBrackets : Bool) (c : Char) (rest : List Char) : Bool :=
  !isGap c && !(c == ':' && endsKey inBrackets rest) &&
    !(inBrackets && [',', '?', '[', ']', '\x7b', '\x7d'].contains c)

/-- What an unquoted text still holds after a gap, and the characters behind it; none if it
ends before the gap. Later lines of the text, outside brackets, start at the margin or further
in; `column` is where their characters stand. -/
def word? (inBrackets : Bool) (margin : Nat) :
    Gap → (column : Nat) → List Char → Option (List Char × List Char)
  | _, _, [] => none
  | gap, column, c :: rest =>
    if c = ' ' then word? inBrackets margin (gap.add c) (column + 1) rest
    else if isBreak c then
      if atBoundary rest then none else word? inBrackets margin (gap.add c) 0 rest
    else if c = '#' && !gap.isEmpty then none
    else if column < margin && !gap.breaks.isEmpty && !inBrackets then none
    else if isWordChar inBrackets c rest then
      -- a gap belongs to the text only if more of the text follows it
      let (more, rest) := (word? inBrackets margin {} 0 rest).getD ([], rest)
      some (gap.text ++ c :: more, rest)
    else none

def startsWord (inBrackets : Bool) (c : Char) (rest : List Char) : Bool :=
  match c with
  | '-' => !atBlank rest
  | '?' => !atBlank rest && !inBrackets
  | ':' => !atBlank rest && !inBrackets
  | _ =>
    !isGap c && !([',', '[', ']', '\x7b', '\x7d', '#', '&', '*', '!', '|', '>', '\'', '"', '%', '@',
      '\x60'].contains c)

/-- How the next character inside quotes is to be taken. -/
inductive Quotation
  | plain
  | literal
  | escape
  | code (digits : Nat) (value : Nat)

def escaped? (c : Char) : Option Char :=
  [('0', '\x00'), ('a', '\x07'), ('b', '\x08'), ('t', '\t'), ('\t', '\t'), ('n', '\n'),
    ('v', '\x0b'), ('f', '\x0c'), ('r', '\r'), ('e', '\x1b'), (' ', ' '), ('"', '"'),
    ('\\', '\\'), ('/', '/'), ('N', '\u0085'), ('_', '\u00a0'), ('L', '\u2028'), ('P', '\u2029')].lookup c

def codeDigits? (c : Char) : Option Nat := [('x', 2), ('u', 4), ('U', 8)].lookup c

def digit? (c : Char) : Option Nat :=
  if '0' ≤ c && c ≤ '9' then some (c.toNat - 48)
  else if 'a' ≤ c && c ≤ 'f' then some (c.toNat - 87)
  else if 'A' ≤ c && c ≤ 'F' then some (c.toNat - 55)
  else none

def ofCode? (n : Nat) : Option Char :=
  if n.isValidChar then some (Char.ofNat n) else none

/-- What a text still holds up to the closing quotation mark, and the characters behind that. -/
def quoted? (mark : Char) :
    Quotation → Gap → List Char → Option (List Char × List Char)
  | _, _, [] => none
  | .plain, gap, c :: rest =>
    if isBreak c && atBoundary rest then none
    else if isGap c || isBreak c then quoted? mark .plain (gap.add c) rest
    else if c = mark && mark = '\'' && rest.head? = some '\'' then quoted? mark .literal gap rest
    else if c = mark then some (gap.text, rest)
    else if c = '\\' && mark = '"' then quoted? mark .escape gap rest
    else (quoted? mark .plain {} rest).map fun r => (gap.text ++ c :: r.1, r.2)
  | .literal, gap, c :: rest =>
    (quoted? mark .plain {} rest).map fun r => (gap.text ++ c :: r.1, r.2)
  | .escape, gap, c :: rest =>
    if isBreak c then
      if atBoundary rest then none
      else (quoted? mark .plain ⟨[], [], true⟩ rest).map fun r => (gap.text ++ r.1, r.2)
    else
      match codeDigits? c with
      | some digits => quoted? mark (.code digits 0) gap rest
      | none => do
        let meant ← escaped? c
        let (more, rest) ← quoted? mark .plain {} rest
        return (gap.text ++ meant :: more, rest)
  | .code digits value, gap, c :: rest => do
    let value := 16 * value + (← digit? c)
    if 1 < digits then quoted? mark (.code (digits - 1) value) gap rest
    else
      let meant ← ofCode? value
      let (more, rest) ← quoted? mark .plain {} rest
      return (gap.text ++ meant :: more, rest)

end Turnstile.Document
