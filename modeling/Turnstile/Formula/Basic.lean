import Turnstile.Text.Quoted

/-! Formulas of propositional and modal logic. A formula is an atom named by one character, a
unary operator over an operand, or a connective between two formulas; equality is equality of
trees, so two readings of one formula are equal. -/
namespace Turnstile

/-- The operators that qualify truth and have no truth table. -/
inductive Modality
  | necessity
  | possibility
  deriving DecidableEq

inductive Unary
  | negation
  | modal (modality : Modality)
  deriving DecidableEq

inductive Connective
  | conjunction
  | disjunction
  | conditional
  | biconditional
  deriving DecidableEq

inductive Formula
  | atom (name : Char)
  | unary (op : Unary) (operand : Formula)
  | binary (op : Connective) (left right : Formula)
  deriving DecidableEq

/-- The connectives whose nested uses are shown as one group of operands. -/
def Connective.isChained : Connective → Bool
  | .conditional => false
  | _ => true

/-- A text that cannot name a variable, because it is not one character. -/
structure BadName where
  text : String
  deriving DecidableEq

def BadName.message (e : BadName) : String :=
  "Variable name must be one character, got " ++ Text.quote e.text

def variableNamed (text : String) : Except BadName Char :=
  match text.toList with
  | [name] => .ok name
  | _ => .error ⟨text⟩

namespace Formula

def named (text : String) : Except BadName Formula := (variableNamed text).map .atom

@[simp] def size : Formula → Nat
  | .atom _ => 1
  | .unary _ operand => operand.size + 1
  | .binary _ left right => left.size + right.size + 1

theorem size_pos (f : Formula) : 0 < f.size := by
  cases f <;> simp

@[simp] def totalSize : List Formula → Nat
  | [] => 0
  | f :: rest => f.size + totalSize rest

@[simp] theorem totalSize_append (fs gs : List Formula) :
    totalSize (fs ++ gs) = totalSize fs + totalSize gs := by
  induction fs with
  | nil => simp
  | cons f rest ih => simp [ih, Nat.add_assoc]

/-- The operators of a run applied to a formula, the first one outermost. -/
def applyRun (run : List Unary) (f : Formula) : Formula := run.foldr .unary f

end Formula

end Turnstile
