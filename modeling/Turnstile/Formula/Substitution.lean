import Turnstile.Formula.Basic

/-! Substitution: a formula in place of every atom of one name, and a text in place of every
occurrence of one character. -/
namespace Turnstile

namespace Text

def replaceChars (c : Char) (part cs : List Char) : List Char :=
  cs.flatMap fun d => if d = c then part else [d]

/-- A text with another in place of every occurrence of a character. -/
def replace (c : Char) (part text : String) : String :=
  String.ofList (replaceChars c part.toList text.toList)

end Text

@[simp] def Formula.substitute : Formula → (name : Char) → Formula → Formula
  | .atom other, name, g => if other = name then g else .atom other
  | .unary op operand, name, g => .unary op (operand.substitute name g)
  | .binary op left right, name, g =>
    .binary op (left.substitute name g) (right.substitute name g)

end Turnstile
