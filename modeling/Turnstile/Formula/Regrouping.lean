import Turnstile.Formula.Basic

/-! Regrouping: two formulas that differ only in how the chains of conjunctions, disjunctions
and biconditionals are grouped. Of all formulas that regroup to one another just one has every
chain grouped to the left, and `leftNested` finds it. -/
namespace Turnstile.Formula

/-- One formula becomes the other by moving the grouping inside chains. -/
inductive Regroups : Formula → Formula → Prop
  | refl (f : Formula) : Regroups f f
  | symm {f g : Formula} : Regroups f g → Regroups g f
  | trans {f g h : Formula} : Regroups f g → Regroups g h → Regroups f h
  | assoc (op : Connective) (chained : op.isChained = true) (f g h : Formula) :
      Regroups (.binary op f (.binary op g h)) (.binary op (.binary op f g) h)
  | unary (op : Unary) {f g : Formula} : Regroups f g → Regroups (.unary op f) (.unary op g)
  | binary (op : Connective) {f f' g g' : Formula} :
      Regroups f f' → Regroups g g' → Regroups (.binary op f g) (.binary op f' g')

/-- Joins two formulas by a connective; the operands of a left-nested chain on the right are
taken into the chain one by one. -/
def joinNested (op : Connective) (left : Formula) : Formula → Formula
  | .binary other first last =>
    if other = op then .binary op (joinNested op left first) last
    else .binary op left (.binary other first last)
  | right => .binary op left right

/-- The formula with all its chains grouped to the left. -/
def leftNested : Formula → Formula
  | .atom name => .atom name
  | .unary op operand => .unary op operand.leftNested
  | .binary op left right =>
    if op.isChained then joinNested op left.leftNested right.leftNested
    else .binary op left.leftNested right.leftNested

theorem regroups_joinNested (op : Connective) (chained : op.isChained = true)
    (left right : Formula) : Regroups (.binary op left right) (joinNested op left right) := by
  induction right with
  | atom name => exact .refl _
  | unary op' operand ih => exact .refl _
  | binary other first last ihFirst ihLast =>
    simp only [joinNested]
    split
    · next h =>
      subst h
      exact .trans (.assoc other chained left first last) (.binary other ihFirst (.refl last))
    · exact .refl _

/-- Grouping all chains to the left is a regrouping. -/
theorem regroups_leftNested (f : Formula) : Regroups f f.leftNested := by
  induction f with
  | atom name => exact .refl _
  | unary op operand ih => exact .unary op ih
  | binary op left right ihl ihr =>
    simp only [leftNested]
    split
    · next h => exact .trans (.binary op ihl ihr) (regroups_joinNested op h _ _)
    · exact .binary op ihl ihr

end Turnstile.Formula
