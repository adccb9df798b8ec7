import Turnstile.Token.Scan

/-! The ways to write tokens: spellings in order, with any blanks before, between and after
them. A text that is written so is what scanning accepts, and the tokens are what it gives. -/
namespace Turnstile

/-- A spelling of an operator or a sign, or a letter that names a variable. -/
def Spelling.IsKnown (s : Spelling) : Prop :=
  s ∈ Spelling.symbols ∨ s.kind = .literal ∧ s.others = [] ∧ Spelling.isLiteral s.first = true

namespace Token

/-- The characters, the first of them at a position, write the tokens of a dialect. -/
inductive Spelled (dialect : Dialect) : (position : Nat) → List Char → List Token → Prop
  | blanks {position : Nat} {gap : List Char} (blank : ∀ c ∈ gap, Text.isBlank c = true) :
      Spelled dialect position gap []
  | token {position : Nat} {gap rest : List Char} {spelling : Spelling} {tokens : List Token}
      (blank : ∀ c ∈ gap, Text.isBlank c = true) (known : spelling.IsKnown)
      (allowed : dialect.allows spelling.kind = true)
      (later : Spelled dialect (position + gap.length + spelling.length) rest tokens) :
      Spelled dialect position (gap ++ spelling.letters ++ rest)
        (⟨spelling.kind, spelling.text, position + gap.length⟩ :: tokens)

end Token

end Turnstile
