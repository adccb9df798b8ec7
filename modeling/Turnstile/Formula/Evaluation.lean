import Turnstile.Formula.Outline
import Turnstile.Formula.Truth

/-! Evaluation of a formula by a machine with two stacks, one of tasks and one of values, so
that the depth of a formula costs no depth of calls. Both sides of a connective are always
evaluated, and the machine stops at the first modality it meets. -/
namespace Turnstile

/-- Why a formula has no value: a modality, or a task that found too few values. -/
inductive EvaluationError
  | noTruthTable (modality : Modality)
  | unbalanced
  deriving DecidableEq

def EvaluationError.message : EvaluationError → String
  | .noTruthTable modality => modality.word ++ " has no truth-functional semantics"
  | .unbalanced => "no value left on the stack"

namespace Evaluation

/-- Something still to do: the value of a formula, or an operation on values. -/
inductive Task
  | visit (f : Formula)
  | negate
  | connect (op : Connective)

/-- The work in a task, which its steps use up. -/
@[simp] def Task.weight : Task → Nat
  | .visit f => 2 * f.size
  | .negate => 1
  | .connect _ => 1

@[simp] def totalWeight : List Task → Nat
  | [] => 0
  | task :: rest => task.weight + totalWeight rest

/-- Carries out the tasks in order, leaving the values on their stack, the last one on top. -/
def run (v : Valuation) : List Task → List Bool → Except EvaluationError (List Bool)
  | [], values => .ok values
  | .visit (.atom name) :: rest, values => run v rest (v name :: values)
  | .visit (.unary .negation operand) :: rest, values =>
    run v (.visit operand :: .negate :: rest) values
  | .visit (.unary (.modal modality) _) :: _, _ => .error (.noTruthTable modality)
  | .visit (.binary op left right) :: rest, values =>
    run v (.visit left :: .visit right :: .connect op :: rest) values
  | .negate :: rest, value :: values => run v rest ((!value) :: values)
  | .negate :: _, [] => .error .unbalanced
  | .connect op :: rest, right :: left :: values => run v rest (op.apply left right :: values)
  | .connect _ :: _, _ => .error .unbalanced
termination_by tasks => totalWeight tasks
decreasing_by all_goals simp only [totalWeight, Task.weight, Formula.size]; omega

end Evaluation

namespace Formula

def evaluate (v : Valuation) (f : Formula) : Except EvaluationError Bool :=
  match Evaluation.run v [.visit f] [] with
  | .ok [value] => .ok value
  | .ok _ => .error .unbalanced
  | .error e => .error e

end Formula

end Turnstile
