import Turnstile.Formula.Evaluation
import Turnstile.Formula.Names
import Turnstile.Subsets

/-! Decision of a formula by enumerating the assignments of its own variables, the empty one
first. Each question stops at the first assignment that answers it. -/
namespace Turnstile.Formula

/-- The sets of variables that can be true together, in the order of enumeration. -/
def assignments (f : Formula) : Subsets Char := .ofList f.names

/-- The first assignment that gives a formula the wanted value. -/
def firstAssignment (wanted : Bool) (f : Formula) :
    Except EvaluationError (Option (List Char)) :=
  f.assignments.find? fun trues => (f.evaluate (valuationOf trues)).map (· == wanted)

def counterexample (f : Formula) : Except EvaluationError (Option (List Char)) :=
  f.firstAssignment false

def isTautology (f : Formula) : Except EvaluationError Bool :=
  (f.firstAssignment false).map Option.isNone

def isSatisfiable (f : Formula) : Except EvaluationError Bool :=
  (f.firstAssignment true).map Option.isSome

def evaluateAll (f : Formula) : Except EvaluationError (List (List Char × Bool)) :=
  f.assignments.toList.mapM fun trues => (f.evaluate (valuationOf trues)).map (trues, ·)

end Turnstile.Formula
