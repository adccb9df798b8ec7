import Turnstile.Token.Kind

/-! Flat formulas: atoms with unary operators before them, joined by connectives other than the
conditional and without any groups. What is said here is which kinds of token such a formula has,
one after another. -/
namespace Turnstile

/-- The unary operators before the first atom, and for every other atom the connective that joins
it to what is before it and the unary operators between the two. -/
structure FlatShape where
  first : List Unary
  others : List (Connective × List Unary)
  unconditional : ∀ joined ∈ others, joined.1 ≠ .conditional

namespace FlatShape

def termKinds (run : List Unary) : List Kind := run.map .unary ++ [.literal]

def joinedKinds (others : List (Connective × List Unary)) : List Kind :=
  others.flatMap fun joined => .binary joined.1 :: termKinds joined.2

def kinds (shape : FlatShape) : List Kind := termKinds shape.first ++ joinedKinds shape.others

def runs (shape : FlatShape) : List (List Unary) := shape.first :: shape.others.map Prod.snd

end FlatShape

end Turnstile
