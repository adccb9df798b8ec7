import Turnstile.Sequent
import Turnstile.Text.Quoted

/-! Glyphs: the texts by which operators and judgments are shown. Two tables are given by
name, one of logical signs and one that keeps to ASCII. -/
namespace Turnstile

/-- The text for each operator and judgment. -/
structure Glyphs where
  negation : String
  conjunction : String
  disjunction : String
  conditional : String
  biconditional : String
  necessary : String
  possible : String
  proves : String
  doesNotProve : String

namespace Glyphs

def unicode : Glyphs where
  negation := "¬"
  conjunction := "∧"
  disjunction := "∨"
  conditional := "→"
  biconditional := "↔"
  necessary := "◻"
  possible := "◇"
  proves := "⊢"
  doesNotProve := "⊬"

def ascii : Glyphs where
  negation := "~"
  conjunction := "^"
  disjunction := "v"
  conditional := "->"
  biconditional := "<->"
  necessary := "[]"
  possible := "<>"
  proves := "|-"
  doesNotProve := "|/-"

def ofUnary (g : Glyphs) : Unary → String
  | .negation => g.negation
  | .modal .necessity => g.necessary
  | .modal .possibility => g.possible

def ofConnective (g : Glyphs) : Connective → String
  | .conjunction => g.conjunction
  | .disjunction => g.disjunction
  | .conditional => g.conditional
  | .biconditional => g.biconditional

def ofJudgment (g : Glyphs) : Judgment → String
  | .proves => g.proves
  | .doesNotProve => g.doesNotProve

end Glyphs

inductive Script
  | unicode
  | ascii
  deriving DecidableEq

structure UnknownScript where
  name : String

def UnknownScript.message (e : UnknownScript) : String :=
  "Unknown notation: " ++ Text.quote e.name ++ ". Expected one of ['ascii', 'unicode']"

namespace Script

def name : Script → String
  | .unicode => "unicode"
  | .ascii => "ascii"

def ofName (name : String) : Except UnknownScript Script :=
  match name with
  | "unicode" => .ok .unicode
  | "ascii" => .ok .ascii
  | other => .error ⟨other⟩

def glyphs : Script → Glyphs
  | .unicode => .unicode
  | .ascii => .ascii

end Script

end Turnstile
