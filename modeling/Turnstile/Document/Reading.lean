import Turnstile.Document.Mark

/-! A reader of documents, one that settings can be loaded with; nothing about settings depends
on it. A document holds one datum, or none, between marks for its start and its end; a value that
is left out is null. Only scalars are keys, and an entry written later replaces an earlier one
with the same key. -/
namespace Turnstile.Document

mutual
def node? : (fuel : Nat) → List Mark → Option (Datum × List Mark)
  | 0, _ => none
  | fuel + 1, marks =>
    match marks with
    | .scalar s :: rest => some (.scalar s, rest)
    | .itemBlock :: rest => do
      let (members, rest) ← items? fuel rest
      if rest.head? = some .blockEnd then return (.sequence members, rest.drop 1) else none
    | .entryBlock :: rest => do
      let (members, rest) ← entries? fuel rest
      return (.ofEntries members, rest)
    | .listStart :: rest => do
      let (members, rest) ← listed? fuel rest
      return (.sequence members, rest)
    | .mapStart :: rest => do
      let (members, rest) ← mapped? fuel rest
      return (.ofEntries members, rest)
    | _ => none

def nodeOrNull? : (fuel : Nat) → List Mark → Option (Datum × List Mark)
  | 0, _ => none
  | fuel + 1, marks =>
    match marks with
    | .scalar _ :: _ => node? fuel marks
    | .itemBlock :: _ => node? fuel marks
    | .entryBlock :: _ => node? fuel marks
    | .listStart :: _ => node? fuel marks
    | .mapStart :: _ => node? fuel marks
    | _ => some (.scalar .null, marks)

/-- Reads the scalar of a key, null if it is left out, and the value behind it. -/
def pair? : (fuel : Nat) → List Mark → Option ((Scalar × Datum) × List Mark)
  | 0, _ => none
  | fuel + 1, marks => do
    let (key, rest) ← nodeOrNull? fuel marks
    match key, rest with
    | .scalar k, .value :: .item :: rest => do
      let (members, rest) ← items? fuel (.item :: rest)
      return ((k, .sequence members), rest)
    | .scalar k, .value :: rest => do
      let (value, rest) ← nodeOrNull? fuel rest
      return ((k, value), rest)
    | .scalar k, rest => some ((k, .scalar .null), rest)
    | _, _ => none

def items? : (fuel : Nat) → List Mark → Option (List Datum × List Mark)
  | 0, _ => none
  | fuel + 1, marks =>
    match marks with
    | .item :: rest => do
      let (value, rest) ← nodeOrNull? fuel rest
      let (more, rest) ← items? fuel rest
      return (value :: more, rest)
    | _ => some ([], marks)

def entries? : (fuel : Nat) → List Mark → Option (List (Scalar × Datum) × List Mark)
  | 0, _ => none
  | fuel + 1, marks =>
    match marks with
    | .key :: rest => do
      let (pair, rest) ← pair? fuel rest
      let (more, rest) ← entries? fuel rest
      return (pair :: more, rest)
    | .blockEnd :: rest => some ([], rest)
    | _ => none

/-- Reads the members of a list in brackets, up to the bracket that closes it. A key among
them makes a mapping with one entry. -/
def listed? : (fuel : Nat) → List Mark → Option (List Datum × List Mark)
  | 0, _ => none
  | fuel + 1, marks => do
    if marks.head? = some .listEnd then return ([], marks.drop 1)
    let (member, rest) ←
      match marks with
      | .key :: rest => (pair? fuel rest).map fun r => (.ofEntries [r.1], r.2)
      | _ => node? fuel marks
    match rest with
    | .separator :: rest =>
      let (more, rest) ← listed? fuel rest
      return (member :: more, rest)
    | .listEnd :: rest => return ([member], rest)
    | _ => none

/-- Reads the entries of a mapping in brackets, up to the bracket that closes it. A key
without a sign behind it has no value. -/
def mapped? : (fuel : Nat) → List Mark → Option (List (Scalar × Datum) × List Mark)
  | 0, _ => none
  | fuel + 1, marks => do
    if marks.head? = some .mapEnd then return ([], marks.drop 1)
    let (pair, rest) ←
      match marks with
      | .key :: rest => pair? fuel rest
      | .scalar k :: rest => some ((k, .scalar .null), rest)
      | _ => none
    match rest with
    | .separator :: rest =>
      let (more, rest) ← mapped? fuel rest
      return (pair :: more, rest)
    | .mapEnd :: rest => return ([pair], rest)
    | _ => none
end

def ofMarks? (marks : List Mark) : Option Datum := do
  -- of four calls one inside the other, one at least takes a mark
  let fuel := 4 * marks.length + 4
  let (d, rest) ←
    match marks with
    | [] => some (.scalar .null, [])
    | .documentStart :: rest => nodeOrNull? fuel rest
    | _ => node? fuel marks
  if rest.all (· = .documentEnd) then return d else none

def isAllowed (c : Char) : Bool :=
  ['\t', '\n', '\r', '\u0085'].contains c || ' ' ≤ c && c ≤ '~' ||
    '\u00a0' ≤ c && c ≠ '\ufffe' && c ≠ '\uffff'

/-- The characters of a document with the line breaks of all systems written alike. -/
def unifyBreaks : List Char → List Char
  | [] => []
  | '\r' :: '\n' :: rest => '\n' :: unifyBreaks rest
  | c :: rest => (if c = '\r' || c = '\u0085' then '\n' else c) :: unifyBreaks rest

/-- The datum that a document writes; none if it is malformed. A mark of byte order may stand
before it. -/
def read? (text : String) : Option Datum :=
  let cs := text.toList
  if cs.all isAllowed then
    let body := if cs.head? = some '\ufeff' then cs.drop 1 else cs
    (marks? (unifyBreaks body)).bind ofMarks?
  else none

end Turnstile.Document
