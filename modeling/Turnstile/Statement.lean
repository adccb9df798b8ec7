import Turnstile.Sequent

/-! Statements: what a text can say, a formula or a sequent. Operations on truth values are
for formulas only and report a sequent by its outline. -/
namespace Turnstile

inductive Statement
  | formula (f : Formula)
  | sequent (s : Sequent)
  deriving DecidableEq

namespace Statement

def names : Statement → List Char
  | .formula f => f.names
  | .sequent s => s.names

def heading : Statement → String
  | .formula f => f.heading
  | .sequent s => s.heading

def outline : Statement → String
  | .formula f => f.outline
  | .sequent s => s.outline

/-- A sequent that stands where a formula is needed. -/
structure NotFormula where
  sequent : Sequent

def NotFormula.message (e : NotFormula) : String :=
  "Not an expression: " ++ e.sequent.outline

def asFormula : Statement → Except NotFormula Formula
  | .formula f => .ok f
  | .sequent s => .error ⟨s⟩

end Statement

end Turnstile
