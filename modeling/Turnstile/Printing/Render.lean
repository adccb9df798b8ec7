import Turnstile.Formula.Chain
import Turnstile.Printing.Glyphs
import Turnstile.Statement

/-! Canonical text. Every connective puts parentheses around its operands, a chain of one
associative connective around all of them at once, and a negation around a modal operand. The
text is composed by a machine with a stack of tasks and one of finished parts, so that the
depth of a formula costs no depth of calls. -/
namespace Turnstile

namespace Rendering

/-- The text of a formula, given the texts of its operands. -/
def compose (g : Glyphs) (f : Formula) (parts : List String) : String :=
  match f with
  | .atom name => String.singleton name
  | .unary .negation (.unary (.modal _) _) => g.negation ++ "(" ++ parts.headD "" ++ ")"
  | .unary op _ => g.ofUnary op ++ parts.headD ""
  | .binary op _ _ => "(" ++ (" " ++ g.ofConnective op ++ " ").intercalate parts ++ ")"

/-- Something still to do: the text of a formula, or its composition from finished parts. -/
inductive Task
  | visit (f : Formula)
  | compose (f : Formula)

/-- The work in a task, which its steps use up. -/
@[simp] def Task.weight : Task → Nat
  | .visit f => 2 * f.size
  | .compose _ => 1

@[simp] def totalWeight : List Task → Nat
  | [] => 0
  | task :: rest => task.weight + totalWeight rest

@[simp] theorem totalWeight_append (tasks more : List Task) :
    totalWeight (tasks ++ more) = totalWeight tasks + totalWeight more := by
  induction tasks with
  | nil => simp
  | cons task rest ih => simp [ih, Nat.add_assoc]

@[simp] theorem totalWeight_visits (fs : List Formula) :
    totalWeight (fs.map .visit) = 2 * Formula.totalSize fs := by
  induction fs with
  | nil => rfl
  | cons f rest ih =>
    simp [ih, Nat.mul_add]

theorem totalWeight_operands_lt (f : Formula) (rest : List Task) :
    totalWeight (f.operands.map .visit ++ .compose f :: rest) <
      totalWeight (.visit f :: rest) := by
  have h := Formula.totalSize_operands_lt f
  simp
  omega

/-- Carries out the tasks in order, leaving the finished parts on their stack, the last one on
top. -/
def run (g : Glyphs) : List Task → List String → List String
  | [], parts => parts
  | .visit (.atom name) :: rest, parts => run g rest (String.singleton name :: parts)
  | .visit (.unary op operand) :: rest, parts =>
    run g ((Formula.unary op operand).operands.map .visit ++
      .compose (.unary op operand) :: rest) parts
  | .visit (.binary op left right) :: rest, parts =>
    run g ((Formula.binary op left right).operands.map .visit ++
      .compose (.binary op left right) :: rest) parts
  | .compose f :: rest, parts =>
    let count := f.operands.length
    run g rest (compose g f (parts.take count).reverse :: parts.drop count)
termination_by tasks => totalWeight tasks
decreasing_by
  · simp
  · exact totalWeight_operands_lt _ _
  · exact totalWeight_operands_lt _ _
  · simp

end Rendering

def Formula.render (g : Glyphs) (f : Formula) : String :=
  (Rendering.run g [.visit f] []).headD ""

def Sequent.render (g : Glyphs) (s : Sequent) : String :=
  let given := s.assumptions.map (Formula.render g)
  let said := [g.ofJudgment s.shownJudgment, s.conclusion.render g]
  " ".intercalate (if given.isEmpty then said else ", ".intercalate given :: said)

def Statement.render (g : Glyphs) : Statement → String
  | .formula f => f.render g
  | .sequent s => s.render g

end Turnstile
