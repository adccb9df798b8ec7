import Turnstile.Token.Spelled

/-! Layouts: a text cut into spellings, each behind a gap, and the gap at its end. A layout
fixes its text and its tokens, so it says which characters belong to which token. -/
namespace Turnstile

@[ext]
structure Piece where
  gap : List Char
  spelling : Spelling

@[ext]
structure Layout where
  pieces : List Piece
  lastGap : List Char

namespace Piece

def letters (piece : Piece) : List Char := piece.gap ++ piece.spelling.letters

structure Fits (dialect : Dialect) (piece : Piece) : Prop where
  blank : ∀ c ∈ piece.gap, Text.isBlank c = true
  known : piece.spelling.IsKnown
  allowed : dialect.allows piece.spelling.kind = true

/-- The tokens that pieces spell from a position on. -/
def tokensFrom : (position : Nat) → List Piece → List Token
  | _, [] => []
  | position, piece :: rest =>
    ⟨piece.spelling.kind, piece.spelling.text, position + piece.gap.length⟩ ::
      tokensFrom (position + piece.gap.length + piece.spelling.length) rest

end Piece

namespace Layout

def letters (layout : Layout) : List Char :=
  layout.pieces.flatMap Piece.letters ++ layout.lastGap

def tokens (layout : Layout) : List Token := Piece.tokensFrom 0 layout.pieces

structure Fits (dialect : Dialect) (layout : Layout) : Prop where
  pieces : ∀ piece ∈ layout.pieces, piece.Fits dialect
  blank : ∀ c ∈ layout.lastGap, Text.isBlank c = true

end Layout

namespace Token

/-- The place is that of a character of the token. -/
def Covers (token : Token) (place : Nat) : Prop :=
  token.position ≤ place ∧ place < token.position + token.text.toList.length

/-- Tokens account for the characters of a text from a position on: they follow one another
without overlap, each stands where it says, and together they hold just the characters that are
not blank. -/
structure Account (position : Nat) (text : List Char) (tokens : List Token) : Prop where
  apart : tokens.Pairwise fun token later =>
    token.position + token.text.toList.length ≤ later.position
  behind : ∀ token ∈ tokens, position ≤ token.position
  placed : ∀ token ∈ tokens, token.text.toList <+: text.drop token.position
  covered : ∀ place c, position ≤ place → text[place]? = some c →
    (Text.isBlank c = false ↔ ∃ token ∈ tokens, token.Covers place)

end Token

end Turnstile
