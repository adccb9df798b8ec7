import Turnstile.Formula.Basic

/-! Outlines: the structure of a formula spelled out, each node by its word and its named
parts. Messages use outlines where a canonical text would hide the grouping. -/
namespace Turnstile

def Connective.word : Connective → String
  | .conjunction => "And"
  | .disjunction => "Or"
  | .conditional => "Conditional"
  | .biconditional => "Biconditional"

def Modality.word : Modality → String
  | .necessity => "Necessary"
  | .possibility => "Possible"

def Unary.word : Unary → String
  | .negation => "Negated"
  | .modal modality => modality.word

namespace Formula

def heading : Formula → String
  | .atom _ => "Variable"
  | .unary op _ => op.word
  | .binary op _ _ => op.word

def outline : Formula → String
  | .atom name => "Variable(name=" ++ Text.quote (String.singleton name) ++ ")"
  | .unary op operand => op.word ++ "(operand=" ++ operand.outline ++ ")"
  | .binary op left right =>
    op.word ++ "(left=" ++ left.outline ++ ", right=" ++ right.outline ++ ")"

end Formula

end Turnstile
