import Mathlib
import Turnstile.Proofs.Decision
import Turnstile.Proofs.Formula.Names

/-! The counterexample that is found weighs least. Assignments come in the order of their weights,
and any valuation weighs what the assignment weighs that has its effect; so no valuation that
makes the formula false can come before the first assignment that does. -/
namespace Turnstile.Formula

open Subsets

variable {f : Formula} {trues : List Char} {number : Nat}

/-- The assignments are the selections of the names by one number after the other. -/
theorem toList_assignments (f : Formula) :
    f.assignments.toList = (List.range (2 ^ f.names.length)).map (subsetAt f.names) := by
  rw [assignments, toList_ofList, distinct_of_nodup f.nodup_names]

/-- The number that a valuation weighs has its effect. -/
theorem truth_weight (f : Formula) (v : Valuation) :
    f.truth (valuationOf (subsetAt f.names (weight f.names v))) = f.truth v := by
  refine truth_valuationOf fun name hname => ?_
  rw [subsetAt_weight, List.mem_filter]
  exact and_iff_right ((mem_names name f).mpr hname)

/-- The assignment that is found is that of the first number with the wanted value. -/
theorem exists_number_of_find? {wanted : Bool}
    (h : (f.assignments.toList.find? fun trues => f.truth (valuationOf trues) == wanted) =
      some trues) :
    ∃ number < 2 ^ f.names.length, trues = subsetAt f.names number ∧
      f.truth (valuationOf trues) = wanted ∧
      ∀ earlier < number, f.truth (valuationOf (subsetAt f.names earlier)) ≠ wanted := by
  rw [toList_assignments, List.find?_map, Option.map_eq_some_iff] at h
  obtain ⟨number, hfind, rfl⟩ := h
  rw [List.find?_range_eq_some] at hfind
  obtain ⟨hvalue, hmem, hearlier⟩ := hfind
  refine ⟨number, List.mem_range.mp hmem, rfl, beq_iff_eq.mp hvalue, fun earlier hlt heq => ?_⟩
  have hother := hearlier earlier hlt
  simp [heq] at hother

/-- Just the names of a formula are weighed, in code point order. The counterexample consists of
such names, makes the formula false, and weighs no more than any valuation that does; there is none
just if the formula is true under all valuations. -/
theorem counterexample_least (f : Formula) (h : f.IsClassical) :
    (f.names.Pairwise (· < ·) ∧ ∀ name, name ∈ f.names ↔ f.Mentions name) ∧
    ∃ found, f.counterexample = .ok found ∧
      (∀ trues, found = some trues →
        (∀ name ∈ trues, f.Mentions name) ∧ f.evaluate (valuationOf trues) = .ok false ∧
        ∀ v, f.evaluate v = .ok false →
          weight f.names (valuationOf trues) ≤ weight f.names v) ∧
      (found = none ↔ ∀ v, f.evaluate v = .ok true) := by
  refine ⟨⟨f.pairwise_names, fun name => mem_names name f⟩, _, firstAssignment_eq h false, ?_, ?_⟩
  · intro trues hfound
    obtain ⟨number, hlt, rfl, hfalse, hearlier⟩ := exists_number_of_find? hfound
    refine ⟨fun name hname => (mem_names name f).mp (mem_of_mem_subsetAt hname), ?_, fun v hv => ?_⟩
    · rw [evaluate_of_isClassical _ h, hfalse]
    · have hweight : weight f.names (valuationOf (subsetAt f.names number)) = number :=
        weight_subsetAt f.nodup_names hlt
      rw [evaluate_of_isClassical v h, Except.ok.injEq] at hv
      rw [hweight]
      refine Nat.le_of_not_lt fun hless => hearlier _ hless ?_
      rw [truth_weight, hv]
  · simp only [evaluate_of_isClassical _ h, Except.ok.injEq, List.find?_eq_none, beq_iff_eq,
      Bool.not_eq_false]
    refine ⟨fun hall v => ?_, fun hall trues _ => hall _⟩
    obtain ⟨trues, hmem, htruth⟩ := f.exists_assignment v
    exact htruth ▸ hall trues hmem

/-- That some of two holds does not say that both do. -/
def confusion : Formula :=
  .binary .conditional (.binary .disjunction (.atom 'p') (.atom 'q'))
    (.binary .conjunction (.atom 'p') (.atom 'q'))

/-- Two valuations show this, and the one that is found is the lighter; what the other says of a
name that does not occur weighs nothing. -/
theorem counterexample_least_confusion : confusion.IsClassical ∧
    confusion.counterexample = .ok (some ['p']) ∧
    confusion.evaluate (valuationOf ['q', 'r']) = .ok false ∧
    weight confusion.names (valuationOf ['p']) ≤
      weight confusion.names (valuationOf ['q', 'r']) := by
  have hclassical : confusion.IsClassical := by decide
  have hfound : confusion.counterexample = .ok (some ['p']) := by cbv
  have hfalse : confusion.evaluate (valuationOf ['q', 'r']) = .ok false := by cbv
  obtain ⟨-, found, hcounterexample, hleast, -⟩ := counterexample_least confusion hclassical
  obtain rfl := Except.ok.inj (hfound.symm.trans hcounterexample)
  exact ⟨hclassical, hfound, hfalse, (hleast ['p'] rfl).2.2 _ hfalse⟩

end Turnstile.Formula
