import Turnstile.Document.Word

/-! Marks: what the structure of a document is written with. Collections are marked off by
brackets or by indentation. A text becomes a key only by the colon after it, so the place where
a key may have begun is kept until the colon comes or the line ends. -/
namespace Turnstile.Document

/-- A part of a document: the start or end of something, a sign between parts, or a scalar. -/
inductive Mark
  | documentStart
  | documentEnd
  | itemBlock
  | entryBlock
  | blockEnd
  | listStart
  | listEnd
  | mapStart
  | mapEnd
  | item
  | key
  | value
  | separator
  | scalar (value : Scalar)
  deriving DecidableEq

structure Place where
  line : Nat := 0
  column : Nat := 0
  offset : Nat := 0

def Place.after (p : Place) (c : Char) : Place :=
  if isBreak c then ⟨p.line + 1, 0, p.offset + 1⟩ else ⟨p.line, p.column + 1, p.offset + 1⟩

/-- Where a key may have begun, how many marks stand before it, and whether it stands where a
block must have its next key. -/
structure Candidate where
  place : Place
  before : Nat
  required : Bool

/-- A document in part turned into marks, the latest first. The columns of the blocks that are
open come innermost first; for every bracket that is open there is an outer level, with the
candidate for a key that was left there. -/
structure Draft where
  rest : List Char
  place : Place := {}
  columns : List Nat := []
  candidate : Option Candidate := none
  outer : List (Option Candidate) := []
  keyAllowed : Bool := true
  marks : List Mark := []

namespace Draft

def inBrackets (d : Draft) : Bool := !d.outer.isEmpty

def moveTo (d : Draft) (rest : List Char) : Draft :=
  let passed := d.rest.take (d.rest.length - rest.length)
  { d with rest := rest, place := passed.foldl Place.after d.place }

def put (d : Draft) (mark : Mark) (rest : List Char) : Draft :=
  { d.moveTo rest with marks := mark :: d.marks }

def content : (inComment : Bool) → List Char → List Char
  | _, [] => []
  | inComment, c :: rest =>
    if isBreak c then content false rest
    else if inComment || c == ' ' then content inComment rest
    else if c = '#' then content true rest
    else c :: rest

/-- Goes on at the next character that says something. Outside brackets, a key may begin on
every new line. -/
def toContent (d : Draft) : Draft :=
  let next := d.moveTo (content false d.rest)
  { next with keyAllowed := d.keyAllowed || !d.inBrackets && d.place.line < next.place.line }

/-- Gives up the candidate for a key; none if a key is required there. -/
def dropCandidate (d : Draft) : Option Draft :=
  if d.candidate.any (·.required) then none else some { d with candidate := none }

/-- Gives up a candidate that is on another line or too far back. -/
def dropExpired (d : Draft) : Option Draft :=
  let isExpired (k : Candidate) : Bool :=
    k.place.line != d.place.line || 1024 < d.place.offset - k.place.offset
  if d.candidate.any isExpired then d.dropCandidate else some d

def noteCandidate (d : Draft) : Option Draft :=
  if d.keyAllowed then do
    let d ← d.dropCandidate
    -- at the column of the innermost block nothing but its next key can come
    let required := !d.inBrackets && d.columns.head? == some d.place.column
    return { d with candidate := some ⟨d.place, d.marks.length, required⟩ }
  else some d

def closeBlocks (closes : Nat → Bool) (d : Draft) : Draft :=
  -- inside brackets indentation says nothing
  if d.inBrackets then d
  else
    let closed := d.columns.takeWhile closes
    { d with
      columns := d.columns.drop closed.length
      marks := List.replicate closed.length .blockEnd ++ d.marks }

/-- A block that begins at a column would stand further in than all that are open. -/
def opensAt (d : Draft) (column : Nat) : Bool :=
  !d.inBrackets && d.columns.head?.all (· < column)

def openBlock (d : Draft) (mark : Mark) : Draft :=
  if d.opensAt d.place.column then
    { d with columns := d.place.column :: d.columns, marks := mark :: d.marks }
  else d

def boundary (d : Draft) (mark : Mark) : Option Draft :=
  if d.inBrackets then none
  else do
    let d ← (d.closeBlocks fun _ => true).dropCandidate
    return { d.put mark (d.rest.drop 3) with keyAllowed := false }

def openBracket (d : Draft) (mark : Mark) : Option Draft := do
  let d ← d.noteCandidate
  return { d.put mark (d.rest.drop 1) with
    candidate := none, outer := d.candidate :: d.outer, keyAllowed := true }

def closeBracket (d : Draft) (mark : Mark) : Option Draft :=
  match d.outer with
  | [] => none
  | candidate :: outer =>
    some { d.put mark (d.rest.drop 1) with candidate, outer, keyAllowed := false }

def separator (d : Draft) : Option Draft :=
  if d.inBrackets then
    some { d.put .separator (d.rest.drop 1) with candidate := none, keyAllowed := true }
  else none

def item (d : Draft) : Option Draft :=
  if d.inBrackets || !d.keyAllowed then none
  else do
    let d ← (d.openBlock .itemBlock).dropCandidate
    return { d.put .item (d.rest.drop 1) with keyAllowed := true }

def sign (d : Draft) (mark : Mark) : Option Draft :=
  if d.inBrackets || d.keyAllowed then do
    let d ← (d.openBlock .entryBlock).dropCandidate
    return { d.put mark (d.rest.drop 1) with keyAllowed := !d.inBrackets }
  else none

/-- A colon before a value. It makes a key of what began at the candidate, and begins a block
there if none is open at that column. -/
def value (d : Draft) : Option Draft :=
  match d.candidate with
  | none => d.sign .value
  | some k =>
    -- the marks of the key itself stay behind the one that makes it a key
    let later := d.marks.take (d.marks.length - k.before)
    let earlier := d.marks.drop (d.marks.length - k.before)
    let opens := d.opensAt k.place.column
    let opened := if opens then Mark.entryBlock :: earlier else earlier
    let d :=
      { d with
        columns := if opens then k.place.column :: d.columns else d.columns
        candidate := none
        keyAllowed := false
        marks := later ++ Mark.key :: opened }
    some (d.put .value (d.rest.drop 1))

def scalar (d : Draft) (s : Scalar) (rest : List Char) : Option Draft := do
  let d ← d.noteCandidate
  return { d.put (.scalar s) rest with keyAllowed := false }

/-- The column where later lines of an unquoted text must at least start. -/
def margin (d : Draft) : Nat := (d.columns.head?.map (· + 1)).getD 0

def step (d : Draft) : Option Draft :=
  match d.rest with
  | [] => none
  | c :: rest =>
    if d.place.column = 0 && atBoundary (c :: rest) then
      d.boundary (if c = '-' then .documentStart else .documentEnd)
    else if c = '[' then d.openBracket .listStart
    else if c = '\x7b' then d.openBracket .mapStart
    else if c = ']' then d.closeBracket .listEnd
    else if c = '\x7d' then d.closeBracket .mapEnd
    else if c = ',' then d.separator
    else if c = '-' && atBlank rest then d.item
    else if c = '?' && (d.inBrackets || atBlank rest) then d.sign .key
    else if c = ':' && (d.inBrackets || atBlank rest) then d.value
    else if c = '\'' || c = '"' then do
      let (text, rest) ← quoted? c .plain {} rest
      d.scalar (.text (String.ofList text)) rest
    else if startsWord d.inBrackets c rest then do
      let (text, rest) ← word? d.inBrackets d.margin {} 0 (c :: rest)
      d.scalar (scalarOf text) rest
    else none

/-- The marks of the whole document, in their order. Every step uses up a character. -/
def complete? : (fuel : Nat) → Draft → Option (List Mark)
  | 0, _ => none
  | fuel + 1, d => do
    let d ← d.toContent.dropExpired
    let d := d.closeBlocks (d.place.column < ·)
    if d.rest.isEmpty then
      let d ← (d.closeBlocks fun _ => true).dropCandidate
      return d.marks.reverse
    else complete? fuel (← d.step)

end Draft

def marks? (cs : List Char) : Option (List Mark) := Draft.complete? (cs.length + 1) { rest := cs }

end Turnstile.Document
