import Turnstile.Formula.Basic

/-! Chains: nested uses of one connective, unfolded into the operands that stand at their
frontier, left to right. The unfolding keeps a list of formulas still to visit;
`flatten_binary` gives its law on a chain and `totalSize_operands_lt` the measure by which a
walk over operands ends. -/
namespace Turnstile.Formula

/-- Unfolds the first of the pending formulas as long as its connective joins the chain. -/
def frontier (joins : Connective → Bool) : List Formula → List Formula
  | [] => []
  | .binary op left right :: rest =>
    if joins op then frontier joins (left :: right :: rest)
    else .binary op left right :: frontier joins rest
  | .atom name :: rest => .atom name :: frontier joins rest
  | .unary op operand :: rest => .unary op operand :: frontier joins rest
termination_by pending => totalSize pending
decreasing_by all_goals simp only [totalSize, size]; omega

def flatten (joins : Connective → Bool) (f : Formula) : List Formula := frontier joins [f]

/-- What is shown side by side under the root: the whole chain of a chained connective, the
two sides of a conditional, the operand of a unary operator. -/
def operands : Formula → List Formula
  | .atom _ => []
  | .unary _ operand => [operand]
  | .binary op left right =>
    if op.isChained then flatten (fun other => decide (other = op)) (.binary op left right)
    else [left, right]

theorem totalSize_frontier_le (joins : Connective → Bool) (pending : List Formula) :
    totalSize (frontier joins pending) ≤ totalSize pending := by
  fun_induction frontier joins pending with
  | case1 => simp
  | case2 op left right rest h ih => simp at ih ⊢; omega
  | case3 op left right rest h ih => simpa using ih
  | case4 name rest ih => simpa using ih
  | case5 op operand rest ih => simpa using ih

theorem frontier_append (joins : Connective → Bool) (fs gs : List Formula) :
    frontier joins (fs ++ gs) = frontier joins fs ++ frontier joins gs := by
  fun_induction frontier joins fs with
  | case1 => simp
  | case2 op left right rest h ih =>
    simp only [List.cons_append] at ih ⊢
    rw [frontier, if_pos h, ih]
  | case3 op left right rest h ih => simp [frontier, if_neg h, ih]
  | case4 name rest ih => simp [frontier, ih]
  | case5 op operand rest ih => simp [frontier, ih]

/-- A chain is the chain of its left side followed by the chain of its right side. -/
theorem flatten_binary (joins : Connective → Bool) (op : Connective) (left right : Formula)
    (h : joins op = true) :
    flatten joins (.binary op left right) = flatten joins left ++ flatten joins right := by
  simp only [flatten]
  rw [frontier, if_pos h, ← frontier_append]
  rfl

theorem totalSize_operands_lt (f : Formula) : totalSize f.operands < f.size := by
  cases f with
  | atom name => simp [operands]
  | unary op operand => simp [operands]
  | binary op left right =>
    simp only [operands]
    split
    · rw [flatten_binary _ _ _ _ (by simp), totalSize_append]
      have hl := totalSize_frontier_le (fun other => decide (other = op)) [left]
      have hr := totalSize_frontier_le (fun other => decide (other = op)) [right]
      simp [flatten] at hl hr ⊢
      omega
    · simp

end Turnstile.Formula
