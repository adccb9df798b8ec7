import Mathlib
import Turnstile.Decision
import Turnstile.Proofs.Formula.Evaluation
import Turnstile.Proofs.Subsets.Digits

/-! Decision by enumeration answers for all valuations. Every valuation agrees with an
enumerated assignment on the names of the formula, which is all that its truth depends on, so
a value that some valuation gives is found. -/
namespace Turnstile.Formula

variable {f : Formula}

/-- Every valuation has the effect of an enumerated assignment. -/
theorem exists_assignment (f : Formula) (v : Valuation) :
    ∃ trues ∈ f.assignments.toList, f.truth (valuationOf trues) = f.truth v := by
  -- the assignment that holds the mentioned names that are true under the valuation
  refine ⟨_, Subsets.filter_mem_toList f.names v, truth_valuationOf fun name hname => ?_⟩
  have hmem : name ∈ distinct f.names := mem_distinct.mpr ((mem_names name f).mpr hname)
  rw [List.mem_filter]
  exact and_iff_right hmem

/-- The search goes through the assignments in order. -/
theorem firstAssignment_eq (h : f.IsClassical) (wanted : Bool) :
    f.firstAssignment wanted = .ok (f.assignments.toList.find? fun trues =>
      f.truth (valuationOf trues) == wanted) := by
  apply Subsets.find?_of_ok
  intro trues
  rw [evaluate_of_isClassical _ h]
  rfl

/-- A formula without modalities has a value under each of its assignments. -/
theorem evaluateAll_of_isClassical (h : f.IsClassical) :
    f.evaluateAll =
      .ok (f.assignments.toList.map fun trues => (trues, f.truth (valuationOf trues))) := by
  have hvalue : (fun trues => (f.evaluate (valuationOf trues)).map (Prod.mk trues)) =
      fun trues => pure (trues, f.truth (valuationOf trues)) := by
    funext trues
    rw [evaluate_of_isClassical _ h]
    rfl
  rw [evaluateAll, hvalue, List.mapM_pure]
  rfl

/-- The search for a value finds it if any valuation gives it. -/
theorem firstAssignment_of_isClassical (h : f.IsClassical) (wanted : Bool) :
    ∃ result, f.firstAssignment wanted = .ok result ∧
      (result.isSome = true ↔ ∃ v, f.truth v = wanted) := by
  refine ⟨_, firstAssignment_eq h wanted, ?_⟩
  simp only [List.find?_isSome, beq_iff_eq]
  constructor
  · rintro ⟨trues, -, htruth⟩
    exact ⟨valuationOf trues, htruth⟩
  · rintro ⟨v, hv⟩
    obtain ⟨trues, hmem, htruth⟩ := f.exists_assignment v
    exact ⟨trues, hmem, htruth.trans hv⟩

theorem isTautology_of_isClassical (h : f.IsClassical) :
    ∃ answer, f.isTautology = .ok answer := by
  obtain ⟨failing, hfailing, -⟩ := firstAssignment_of_isClassical h false
  exact ⟨failing.isNone, by rw [isTautology, hfailing]; rfl⟩

theorem firstAssignment_of_firstModality {modality : Modality}
    (h : f.firstModality? = some modality) (wanted : Bool) :
    f.firstAssignment wanted = .error (.noTruthTable modality) := by
  apply Subsets.find?_of_error rfl
  intro trues
  rw [evaluate_of_firstModality _ h]
  rfl

/-- Formulas without modalities are decided for all valuations; with a modality every question
fails, for the reason that it has no truth table. -/
theorem decision_correct (f : Formula) :
    (f.IsClassical →
      (∃ answer, f.isTautology = .ok answer ∧ (answer = true ↔ ∀ v, f.truth v = true)) ∧
      ∃ answer, f.isSatisfiable = .ok answer ∧ (answer = true ↔ ∃ v, f.truth v = true)) ∧
    (¬ f.IsClassical → ∃ modality, f.isTautology = .error (.noTruthTable modality) ∧
      f.isSatisfiable = .error (.noTruthTable modality) ∧
      f.counterexample = .error (.noTruthTable modality)) := by
  constructor
  · intro h
    obtain ⟨failing, hfailing, hfalse⟩ := firstAssignment_of_isClassical h false
    obtain ⟨passing, hpassing, htrue⟩ := firstAssignment_of_isClassical h true
    constructor
    · refine ⟨failing.isNone, by rw [isTautology, hfailing]; rfl, ?_⟩
      rw [← Bool.not_eq_false, Option.isNone_eq_false_iff, hfalse]
      simp only [not_exists, Bool.not_eq_false]
    · exact ⟨passing.isSome, by rw [isSatisfiable, hpassing]; rfl, htrue⟩
  · intro h
    obtain ⟨modality, hmodality⟩ := Option.ne_none_iff_exists'.mp h
    refine ⟨modality, ?_, ?_, firstAssignment_of_firstModality hmodality false⟩
    · rw [isTautology, firstAssignment_of_firstModality hmodality]
      rfl
    · rw [isSatisfiable, firstAssignment_of_firstModality hmodality]
      rfl

def excludedMiddle : Formula :=
  .binary .disjunction (.atom 'p') (.unary .negation (.atom 'p'))

def necessarily : Formula := .unary (.modal .necessity) excludedMiddle

/-- The law of excluded middle holds, and is not decided under a modality. -/
theorem decision_excludedMiddle : excludedMiddle.isTautology = .ok true ∧
    (∀ v, excludedMiddle.truth v = true) ∧
    ∃ modality, necessarily.isTautology = .error (.noTruthTable modality) := by
  have hdecided : excludedMiddle.isTautology = .ok true := by cbv
  obtain ⟨answer, hanswer, hiff⟩ := ((decision_correct excludedMiddle).1 (by decide)).1
  obtain ⟨modality, hmodality, -⟩ := (decision_correct necessarily).2 (by decide)
  cases hdecided.symm.trans hanswer
  exact ⟨hdecided, hiff.mp rfl, modality, hmodality⟩

end Turnstile.Formula
