import Turnstile.Printing.Render

/-! The canonical text of a formula by recursion: what stands under the root is written first,
then put together with the glyph of the root. It is what rendering computes, said without any
stack. -/
namespace Turnstile.Formula

theorem size_le_totalSize (f : Formula) (fs : List Formula) (h : f ∈ fs) :
    f.size ≤ totalSize fs := by
  induction fs with
  | nil => simp at h
  | cons g rest ih =>
    rcases List.mem_cons.mp h with rfl | h
    · simp
    · exact Nat.le_add_left_of_le (ih h)

theorem size_lt_of_mem_operands (f g : Formula) (h : g ∈ f.operands) : g.size < f.size :=
  Nat.lt_of_le_of_lt (size_le_totalSize g f.operands h) (totalSize_operands_lt f)

def isModal : Formula → Bool
  | .unary (.modal _) _ => true
  | _ => false

/-- The canonical text: a modal operand of a negation stands in parentheses, and so do the
operands under every connective, all those of one chain together. -/
def canonical (g : Glyphs) (f : Formula) : String :=
  match f with
  | .atom name => String.singleton name
  | .unary .negation operand =>
    g.negation ++
      (if operand.isModal then "(" ++ operand.canonical g ++ ")" else operand.canonical g)
  | .unary (.modal modality) operand => g.ofUnary (.modal modality) ++ operand.canonical g
  | .binary op left right =>
    "(" ++ (" " ++ g.ofConnective op ++ " ").intercalate
      ((Formula.binary op left right).operands.attach.map fun operand =>
        operand.val.canonical g) ++ ")"
termination_by f.size
decreasing_by
  · simp
  · simp
  · simp
  · exact size_lt_of_mem_operands _ _ operand.property

end Turnstile.Formula
