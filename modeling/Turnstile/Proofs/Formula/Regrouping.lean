import Turnstile.Decision
import Turnstile.Formula.Regrouping
import Turnstile.Proofs.Formula.Evaluation

/-! What regrouping keeps. Names are collected from right to left and modalities looked for from
left to right, whatever the grouping, and the chained connectives are associative on truth
values, the biconditional included. So formulas that regroup to one another have the same names
and values, and every question about their assignments has one answer. -/
namespace Turnstile

theorem Connective.apply_assoc {op : Connective} (chained : op.isChained = true)
    (a b c : Bool) : op.apply a (op.apply b c) = op.apply (op.apply a b) c := by
  cases op with
  | conjunction => exact (Bool.and_assoc a b c).symm
  | disjunction => exact (Bool.or_assoc a b c).symm
  | conditional => cases chained
  | biconditional => cases a <;> cases b <;> cases c <;> rfl

namespace Formula

variable {f f' : Formula}

theorem Regroups.truth_eq (h : Regroups f f') (v : Valuation) : f.truth v = f'.truth v := by
  induction h with
  | refl => rfl
  | symm _ ih => exact ih.symm
  | trans _ _ ih ih' => exact ih.trans ih'
  | assoc op chained f g h => exact Connective.apply_assoc chained _ _ _
  | unary op _ ih =>
    cases op with
    | negation => exact congrArg (!·) ih
    | modal modality => exact ih
  | binary op _ _ ihl ihr => rw [truth, truth, ihl, ihr]

theorem Regroups.firstModality?_eq (h : Regroups f f') :
    f.firstModality? = f'.firstModality? := by
  induction h with
  | refl => rfl
  | symm _ ih => exact ih.symm
  | trans _ _ ih ih' => exact ih.trans ih'
  | assoc op chained f g h => exact (Option.or_assoc ..).symm
  | unary op _ ih =>
    cases op with
    | negation => exact ih
    | modal modality => rfl
  | binary op _ _ ihl ihr => rw [firstModality?, firstModality?, ihl, ihr]

theorem Regroups.evaluate_eq (h : Regroups f f') (v : Valuation) :
    f.evaluate v = f'.evaluate v := by
  simp only [evaluate, Evaluation.run_visit, h.firstModality?_eq, h.truth_eq v]

theorem Regroups.namesOnto_eq (h : Regroups f f') (found : List Char) :
    f.namesOnto found = f'.namesOnto found := by
  induction h generalizing found with
  | refl => rfl
  | symm _ ih => exact (ih found).symm
  | trans _ _ ih ih' => exact (ih found).trans (ih' found)
  | assoc => rfl
  | unary op _ ih => exact ih found
  | binary op _ _ ihl ihr => rw [namesOnto, namesOnto, ihl, ihr]

theorem Regroups.names_eq (h : Regroups f f') : f.names = f'.names := by
  rw [names_eq_namesOnto, names_eq_namesOnto, h.namesOnto_eq]

/-- Decisions see nothing of a formula but its names and its values. -/
theorem Regroups.isTautology_eq (h : Regroups f f') : f.isTautology = f'.isTautology := by
  simp only [isTautology, firstAssignment, assignments, h.names_eq, h.evaluate_eq]

theorem Regroups.evaluateAll_eq (h : Regroups f f') : f.evaluateAll = f'.evaluateAll := by
  simp only [evaluateAll, assignments, h.names_eq, h.evaluate_eq]

end Formula

end Turnstile
