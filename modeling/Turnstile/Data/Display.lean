import Turnstile.Data.Datum
import Turnstile.Text.Quoted

/-! The text of a datum in a message: words for the constants, quotation marks around texts,
brackets around sequences and braces around mappings, whose members stand in their order. -/
namespace Turnstile

def Scalar.display : Scalar → String
  | .null => "None"
  | .flag true => "True"
  | .flag false => "False"
  | .integer value => toString value
  | .decimal value => value.text
  | .text value => Text.quote value

namespace Datum

mutual
/-- The text of a datum, members separated by a comma and a space. -/
def display : Datum → String
  | .scalar value => value.display
  | .sequence items => "[" ++ ", ".intercalate (displayItems items) ++ "]"
  | .mapping entries => "\x7b" ++ ", ".intercalate (displayEntries entries) ++ "\x7d"

def displayItems : List Datum → List String
  | [] => []
  | item :: rest => item.display :: displayItems rest

def displayEntries : List (Scalar × Datum) → List String
  | [] => []
  | (key, value) :: rest => (key.display ++ ": " ++ value.display) :: displayEntries rest
end

end Datum

end Turnstile
