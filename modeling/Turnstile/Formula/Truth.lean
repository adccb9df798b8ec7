import Turnstile.Formula.Basic

/-! The truth of a formula under a valuation, by recursion on the formula. Modalities are read
at a single world that sees itself, where both leave truth as it is; `firstModality?` tells
whether a formula stays clear of them. -/
namespace Turnstile

abbrev Valuation := Char → Bool

def Connective.apply : Connective → Bool → Bool → Bool
  | .conjunction, left, right => left && right
  | .disjunction, left, right => left || right
  | .conditional, left, right => !left || right
  | .biconditional, left, right => left == right

namespace Formula

@[simp] def truth (v : Valuation) : Formula → Bool
  | .atom name => v name
  | .unary .negation operand => !operand.truth v
  | .unary (.modal _) operand => operand.truth v
  | .binary op left right => op.apply (left.truth v) (right.truth v)

/-- The modality that comes first when the formula is written operator first. -/
def firstModality? : Formula → Option Modality
  | .atom _ => none
  | .unary .negation operand => operand.firstModality?
  | .unary (.modal modality) _ => some modality
  | .binary _ left right => left.firstModality?.or right.firstModality?

def IsClassical (f : Formula) : Prop := f.firstModality? = none

instance (f : Formula) : Decidable f.IsClassical := inferInstanceAs (Decidable (_ = _))

end Formula

/-- The valuation under which just the listed names are true. -/
def valuationOf (trues : List Char) : Valuation := fun name => trues.contains name

end Turnstile
