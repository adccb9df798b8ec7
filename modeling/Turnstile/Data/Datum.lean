import Turnstile.Data.Decimal

/-! Data of any shape, as they come from a settings document or in place of a text. A datum is
a scalar, a sequence or a mapping whose keys are scalars; an entry written later replaces an
earlier one with the same key. -/
namespace Turnstile

inductive Scalar
  | null
  | flag (value : Bool)
  | integer (value : Int)
  | decimal (value : Decimal)
  | text (value : String)
  deriving DecidableEq

inductive Datum
  | scalar (value : Scalar)
  | sequence (items : List Datum)
  | mapping (entries : List (Scalar × Datum))

inductive Shape
  | null
  | flag
  | integer
  | decimal
  | text
  | sequence
  | mapping
  deriving DecidableEq

def Shape.word : Shape → String
  | .null => "NoneType"
  | .flag => "bool"
  | .integer => "int"
  | .decimal => "float"
  | .text => "str"
  | .sequence => "list"
  | .mapping => "dict"

def Scalar.shape : Scalar → Shape
  | .null => .null
  | .flag _ => .flag
  | .integer _ => .integer
  | .decimal _ => .decimal
  | .text _ => .text

/-- A scalar that says nothing: null, false, zero or the empty text. -/
def Scalar.isVacant : Scalar → Bool
  | .null => true
  | .flag value => !value
  | .integer value => value == 0
  | .decimal value => value.isZero
  | .text value => value.isEmpty

namespace Datum

def ofText (s : String) : Datum := .scalar (.text s)

def shape : Datum → Shape
  | .scalar value => value.shape
  | .sequence _ => .sequence
  | .mapping _ => .mapping

def isVacant : Datum → Bool
  | .scalar value => value.isVacant
  | .sequence items => items.isEmpty
  | .mapping entries => entries.isEmpty

/-- Entries with one more at the end, in place of any with the same key. -/
def put (entries : List (Scalar × Datum)) (key : Scalar) (value : Datum) :
    List (Scalar × Datum) :=
  if entries.any fun entry => decide (entry.1 = key) then
    entries.map fun entry => if entry.1 = key then (key, value) else entry
  else entries ++ [(key, value)]

/-- The mapping with the given entries, the last of several with one key winning. -/
def ofEntries (entries : List (Scalar × Datum)) : Datum :=
  .mapping (entries.foldl (fun kept entry => put kept entry.1 entry.2) [])

def field? (d : Datum) (name : String) : Option Datum :=
  match d with
  | .mapping entries => entries.lookup (.text name)
  | _ => none

end Datum

end Turnstile
