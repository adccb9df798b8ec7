import Turnstile.Token.Scan

/-! How far a text can be scanned at all: with every kind of token allowed, up to the first
character that spells nothing. What offends a dialect there is that character, and every token of a
kind that the dialect does not allow. -/
namespace Turnstile

def Dialect.every : Dialect := ⟨"every", Kind.all⟩

namespace Token

/-- The tokens that a scan finds, and the character that ends it before the text does, with its
place. -/
structure Extent where
  tokens : List Token
  stop : Option (Char × Nat)
  deriving DecidableEq

namespace Extent

def cons (token : Token) (full : Extent) : Extent := ⟨token :: full.tokens, full.stop⟩

def places (full : Extent) : List Nat :=
  full.tokens.map Token.position ++ (full.stop.map Prod.snd).toList

/-- What scanning gives if it goes so far. -/
def outcome (full : Extent) (source : String) : Except SyntaxError (List Token) :=
  match full.stop with
  | none => .ok full.tokens
  | some (c, place) => .error ⟨.unrecognized c, some place, source⟩

def Suits (full : Extent) (dialect : Dialect) : Prop :=
  (∀ token ∈ full.tokens, dialect.allows token.kind = true) ∧ full.stop = none

/-- What a dialect finds wrong, as it is worded, and where. -/
inductive Offence (dialect : Dialect) (full : Extent) : (detail : String) → (place : Nat) → Prop
  | token {token : Token} (mem : token ∈ full.tokens)
      (forbidden : dialect.allows token.kind = false) :
      Offence dialect full
        (Text.quote token.text ++ " is not allowed in " ++ dialect.name ++ " formulas")
        token.position
  | character {c : Char} {place : Nat} (stop : full.stop = some (c, place)) :
      Offence dialect full ("unrecognized character " ++ Text.quote (String.singleton c)) place

end Extent

/-- Scans the characters from a position on with every kind of token allowed. -/
def extentFrom : (position : Nat) → List Char → Extent
  | _, [] => ⟨[], none⟩
  | position, c :: rest =>
    if Text.isBlank c then extentFrom (position + 1) rest
    else
      match Spelling.atStart? (c :: rest) with
      | none => ⟨[], some (c, position)⟩
      | some spelling =>
        .cons ⟨spelling.kind, spelling.text, position⟩
          (extentFrom (position + spelling.length) (rest.drop spelling.others.length))
termination_by _ cs => cs.length
decreasing_by all_goals simp only [List.length_cons, List.length_drop]; omega

def extent (source : String) : Extent := extentFrom 0 source.toList

end Token

end Turnstile
