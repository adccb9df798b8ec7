import Turnstile.Formula.Evaluation
import Turnstile.Formula.Names

/-! The evaluating machine computes truth. A visit leaves the truth of the formula on top of the
values and the other tasks as they were; the first modality, if there is one, ends the run
whatever else is on the stacks. -/
namespace Turnstile

namespace Evaluation

/-- A visit gives the truth of its formula, or ends at the formula's first modality. -/
theorem run_visit (v : Valuation) (f : Formula) (rest : List Task) (values : List Bool) :
    run v (.visit f :: rest) values =
      match f.firstModality? with
      | none => run v rest (f.truth v :: values)
      | some modality => .error (.noTruthTable modality) := by
  induction f generalizing rest values with
  | atom name => rw [run]; rfl
  | unary op operand ih =>
    cases op with
    | negation =>
      rw [run, ih]
      simp only [Formula.firstModality?]
      cases operand.firstModality? with
      | none => simp only [run, Formula.truth]
      | some modality => rfl
    | modal modality => rw [run]; rfl
  | binary op left right ihl ihr =>
    rw [run, ihl]
    simp only [Formula.firstModality?]
    cases left.firstModality? with
    | some modality => rfl
    | none =>
      simp only [Option.none_or, ihr]
      cases right.firstModality? with
      | none => simp only [run, Formula.truth]
      | some modality => rfl

end Evaluation

namespace Formula

variable {f : Formula} {v w : Valuation}

theorem evaluate_of_isClassical (v : Valuation) (h : f.IsClassical) :
    f.evaluate v = .ok (f.truth v) := by
  rw [IsClassical] at h
  simp only [evaluate, Evaluation.run_visit, h, Evaluation.run]

theorem evaluate_of_firstModality {modality : Modality} (v : Valuation)
    (h : f.firstModality? = some modality) :
    f.evaluate v = .error (.noTruthTable modality) := by
  simp only [evaluate, Evaluation.run_visit, h]

/-- Only the names that a formula mentions matter for its truth. -/
theorem truth_congr (h : ∀ name, f.Mentions name → v name = w name) :
    f.truth v = f.truth w := by
  induction f with
  | atom name => exact h name rfl
  | unary op operand ih =>
    have hoperand := ih h
    cases op with
    | negation => exact congrArg (!·) hoperand
    | modal modality => exact hoperand
  | binary op left right ihl ihr =>
    have hleft := ihl fun name hname => h name (.inl hname)
    have hright := ihr fun name hname => h name (.inr hname)
    rw [truth, truth, hleft, hright]

/-- The mentioned names that are true determine the truth. -/
theorem truth_valuationOf {trues : List Char}
    (h : ∀ name, f.Mentions name → (name ∈ trues ↔ v name = true)) :
    f.truth (valuationOf trues) = f.truth v := by
  apply truth_congr
  intro name hname
  rw [Bool.eq_iff_iff, valuationOf, List.contains_iff_mem]
  exact h name hname

end Formula

end Turnstile
