import Turnstile.Formula.Outline
import Turnstile.Formula.Names

/-! Sequents: a list of assumptions, a conclusion, and the judgment between them. The order
of the assumptions is kept for display. A sequent whose judgment was never said is shown as
one that holds and equals only its like. -/
namespace Turnstile

inductive Judgment
  | proves
  | doesNotProve
  deriving DecidableEq

/-- A judgment, possibly unsaid, about a conclusion under assumptions. -/
structure Sequent where
  judgment : Option Judgment
  assumptions : List Formula
  conclusion : Formula
  deriving DecidableEq

namespace Sequent

/-- The judgment under which a sequent is shown. -/
def shownJudgment (s : Sequent) : Judgment := s.judgment.getD .proves

def formulas (s : Sequent) : List Formula := s.assumptions ++ [s.conclusion]

def names (s : Sequent) : List Char :=
  s.formulas.foldl (fun found f => insertNames f.names found) []

def heading (s : Sequent) : String :=
  match s.judgment with
  | some .proves => "Proves"
  | some .doesNotProve => "DoesNotProve"
  | none => "Theorem"

/-- A list of outlines in parentheses, one alone followed by a comma. -/
def groupOutline : List String → String
  | [only] => "(" ++ only ++ ",)"
  | parts => "(" ++ ", ".intercalate parts ++ ")"

def outline (s : Sequent) : String :=
  s.heading ++ "(assumptions=" ++ groupOutline (s.assumptions.map Formula.outline) ++
    ", conclusion=" ++ s.conclusion.outline ++ ")"

end Sequent

end Turnstile
