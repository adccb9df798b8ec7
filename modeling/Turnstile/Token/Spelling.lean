import Turnstile.Token.Dialect

/-! Spellings: the texts that stand for tokens. Longer spellings come before the ones they
overlap, and a lower-case letter names a variable unless it spells an operator. -/
namespace Turnstile

/-- The characters of a token, of which there is at least one, and the kind they stand for. -/
structure Spelling where
  first : Char
  others : List Char
  kind : Kind
  deriving DecidableEq

namespace Spelling

def letters (s : Spelling) : List Char := s.first :: s.others

def text (s : Spelling) : String := String.ofList s.letters

def length (s : Spelling) : Nat := s.others.length + 1

@[simp] theorem length_letters (s : Spelling) : s.letters.length = s.length := rfl

def opens (s : Spelling) (cs : List Char) : Bool := s.letters.isPrefixOf cs

def symbols : List Spelling :=
  [⟨'<', ['-', '>'], .binary .biconditional⟩,
    ⟨'|', ['/', '-'], .judgment .doesNotProve⟩,
    ⟨'-', ['>'], .binary .conditional⟩,
    ⟨'<', ['>'], .unary (.modal .possibility)⟩,
    ⟨'[', [']'], .unary (.modal .necessity)⟩,
    ⟨'|', ['-'], .judgment .proves⟩,
    ⟨'~', [], .unary .negation⟩,
    ⟨'¬', [], .unary .negation⟩,
    ⟨'^', [], .binary .conjunction⟩,
    ⟨'∧', [], .binary .conjunction⟩,
    ⟨'v', [], .binary .disjunction⟩,
    ⟨'∨', [], .binary .disjunction⟩,
    ⟨'→', [], .binary .conditional⟩,
    ⟨'↔', [], .binary .biconditional⟩,
    ⟨'◻', [], .unary (.modal .necessity)⟩,
    ⟨'□', [], .unary (.modal .necessity)⟩,
    ⟨'◇', [], .unary (.modal .possibility)⟩,
    ⟨'(', [], .leftParen⟩,
    ⟨')', [], .rightParen⟩,
    ⟨',', [], .comma⟩,
    ⟨'⊢', [], .judgment .proves⟩,
    ⟨'⊬', [], .judgment .doesNotProve⟩]

/-- A letter that names a variable. -/
def isLiteral (c : Char) : Bool := 'a' ≤ c && c ≤ 'z' && c != 'v'

/-- The spelling with which a text begins, the earliest of the table if several fit. -/
def atStart? (cs : List Char) : Option Spelling :=
  match symbols.find? fun s => s.opens cs with
  | some s => some s
  | none =>
    match cs with
    | c :: _ => if isLiteral c then some ⟨c, [], .literal⟩ else none
    | [] => none

end Spelling

end Turnstile
