/-! Letter case, as far as it can turn a text into one of the English words that settings
accept. A character whose other case lies outside ASCII stays as it is: no comparison with an
ASCII word can tell the difference. -/
namespace Turnstile.Text

def lowerForm (c : Char) : List Char :=
  if c = '\u212a' then ['k'] else [c.toLower]

/-- The upper-case form of a character, where that is ASCII: besides the ASCII letters, the
dotless i, the long s, the sharp s and the Latin ligatures. -/
def upperForm (c : Char) : List Char :=
  match c with
  | '\u0131' => ['I']
  | '\u017f' => ['S']
  | '\u00df' => ['S', 'S']
  | '\ufb00' => ['F', 'F']
  | '\ufb01' => ['F', 'I']
  | '\ufb02' => ['F', 'L']
  | '\ufb03' => ['F', 'F', 'I']
  | '\ufb04' => ['F', 'F', 'L']
  | '\ufb05' => ['S', 'T']
  | '\ufb06' => ['S', 'T']
  | _ => [c.toUpper]

def lowerCase (s : String) : String := String.ofList (s.toList.flatMap lowerForm)

def upperCase (s : String) : String := String.ofList (s.toList.flatMap upperForm)

/-- A text with its ASCII letters in lower case and all else untouched. -/
def lowerAscii (s : String) : String := String.ofList (s.toList.map Char.toLower)

end Turnstile.Text
