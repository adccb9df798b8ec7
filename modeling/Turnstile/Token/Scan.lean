import Turnstile.Reading.SyntaxError
import Turnstile.Text.Blank
import Turnstile.Token.Spelling

/-! Tokens, and their scanning: blanks are skipped, and at every other place the spelling that
stands there becomes a token. A token of a kind that the dialect does not allow ends the scan
like a character that spells nothing. -/
namespace Turnstile

/-- A piece of a text: its kind, its characters and the place of the first of them, counted in
characters. -/
structure Token where
  kind : Kind
  text : String
  position : Nat
  deriving DecidableEq

namespace Token

/-- Scans the characters from a position of the source on. -/
def scanFrom (dialect : Dialect) (source : String) :
    (position : Nat) → List Char → Except SyntaxError (List Token)
  | _, [] => .ok []
  | position, c :: rest =>
    if Text.isBlank c then scanFrom dialect source (position + 1) rest
    else
      match Spelling.atStart? (c :: rest) with
      | none => .error ⟨.unrecognized c, some position, source⟩
      | some spelling =>
        if dialect.allows spelling.kind then do
          let tokens ← scanFrom dialect source (position + spelling.length)
            (rest.drop spelling.others.length)
          return ⟨spelling.kind, spelling.text, position⟩ :: tokens
        else .error ⟨.notAllowed spelling.text dialect.name, some position, source⟩
termination_by _ cs => cs.length
decreasing_by all_goals simp only [List.length_cons, List.length_drop]; omega

def scan (dialect : Dialect) (source : String) : Except SyntaxError (List Token) :=
  scanFrom dialect source 0 source.toList

end Token

end Turnstile
