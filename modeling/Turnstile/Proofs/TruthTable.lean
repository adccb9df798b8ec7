import Mathlib
import Turnstile.Proofs.Decision.Least
import Turnstile.TruthTable

/-! Truth tables of formulas. The rows follow the assignments, so a row's place in the table is the
number whose digits it assigns; and as every answer about a formula goes through the same
assignments, the table gives the answers that the searches give which stop early. -/
namespace Turnstile

open Formula Subsets

def TableRow.valuation (row : TableRow) : Valuation :=
  fun name => decide ((String.singleton name, true) ∈ row.assignment)

namespace TruthTable

variable {f : Formula} {t : TruthTable} {names trues : List Char}

/-- The table has a row for every number of as many digits as the formula has names: the digits of
the number are what the row assigns to the names, and its value is that of the formula. -/
structure Tabulates (t : TruthTable) (f : Formula) : Prop where
  names : t.names = f.names.map String.singleton
  length : t.rows.length = 2 ^ f.names.length
  assignment : ∀ (number : Nat) (row : TableRow), t.rows[number]? = some row →
    row.assignment = f.names.mapIdx fun place name =>
      (String.singleton name, number.testBit place)
  value : ∀ row ∈ t.rows, f.evaluate row.valuation = .ok row.value

/-- The verdicts of a table are the answers to the questions whether a formula is valid and whether
it is satisfiable, and what makes it false. -/
structure Answers (t : TruthTable) (valid satisfiable : Bool) (found : Option (List Char)) :
    Prop where
  isTautology : t.isTautology = valid
  isSatisfiable : t.isSatisfiable = satisfiable
  isContradiction : t.isContradiction = !satisfiable
  missing : t.counterexample = none ↔ found = none
  shown : ∀ trues, found = some trues → ∃ assignment, t.counterexample = some assignment ∧
    ∀ name, (name, true) ∈ assignment ↔ ∃ c ∈ trues, name = String.singleton c
  word : t.verdict.word =
    if valid then "tautology" else if satisfiable then "contingent" else "contradiction"

def ofTruth (f : Formula) : TruthTable where
  expression := f.render .unicode
  names := f.names.map String.singleton
  rows := f.assignments.toList.map fun trues =>
    rowOf f.names trues (f.truth (valuationOf trues))

@[simp] theorem value_rowOf (names trues : List Char) (value : Bool) :
    (rowOf names trues value).value = value := rfl

@[simp] theorem rows_ofTruth (f : Formula) : (ofTruth f).rows =
    f.assignments.toList.map fun trues => rowOf f.names trues (f.truth (valuationOf trues)) := rfl

theorem ofFormula_eq_ofTruth (h : f.IsClassical) : ofFormula f = .ok (ofTruth f) := by
  rw [ofFormula, evaluateAll_of_isClassical h, Except.map, List.map_map]
  rfl

theorem mem_assignment_rowOf {value : Bool} {text : String} :
    (text, true) ∈ (rowOf names trues value).assignment ↔
      ∃ c ∈ names, c ∈ trues ∧ text = String.singleton c := by
  simp only [rowOf, List.mem_map, Prod.mk.injEq, List.contains_iff_mem]
  constructor
  · rintro ⟨c, hc, rfl, htrue⟩
    exact ⟨c, hc, htrue, rfl⟩
  · rintro ⟨c, hc, htrue, rfl⟩
    exact ⟨c, hc, rfl, htrue⟩

theorem valuation_rowOf {value : Bool} {name : Char} (hname : name ∈ names) :
    (rowOf names trues value).valuation name = valuationOf trues name := by
  rw [Bool.eq_iff_iff, TableRow.valuation, decide_eq_true_eq, mem_assignment_rowOf, valuationOf,
    List.contains_iff_mem]
  constructor
  · rintro ⟨c, -, htrue, heq⟩
    rwa [String.singleton_inj.mp heq]
  · exact fun htrue => ⟨name, hname, htrue, rfl⟩

/-- The row of a number assigns its digits. -/
theorem assignment_rowOf_subsetAt (nodup : names.Nodup) (number : Nat) (value : Bool) :
    (rowOf names (subsetAt names number) value).assignment =
      names.mapIdx fun place name => (String.singleton name, number.testBit place) := by
  apply List.ext_getElem?
  intro place
  simp only [rowOf, List.getElem?_map, List.getElem?_mapIdx]
  cases hplace : names[place]? with
  | none => rfl
  | some name =>
    have hdigit : (subsetAt names number).contains name = number.testBit place := by
      rw [Bool.eq_iff_iff, List.contains_iff_mem]
      exact mem_subsetAt_iff nodup hplace
    simp only [Option.map_some, hdigit]

theorem tabulates_ofTruth (h : f.IsClassical) : (ofTruth f).Tabulates f where
  names := rfl
  length := by simp [toList_assignments]
  assignment number row hrow := by
    simp only [rows_ofTruth, toList_assignments, List.map_map, List.getElem?_map,
      Option.map_eq_some_iff] at hrow
    obtain ⟨place, hplace, rfl⟩ := hrow
    obtain ⟨hlt, rfl⟩ := List.getElem?_eq_some_iff.mp hplace
    rw [List.getElem_range]
    exact assignment_rowOf_subsetAt f.nodup_names number _
  value row hrow := by
    obtain ⟨trues, -, rfl⟩ := List.mem_map.mp hrow
    rw [evaluate_of_isClassical _ h]
    exact congrArg Except.ok
      (truth_congr fun name hname => valuation_rowOf ((mem_names name f).mpr hname))

theorem rows_ofTruth_ne_nil (f : Formula) : (ofTruth f).rows.isEmpty = false := by
  simp [toList_assignments]

theorem isTautology_ofTruth (f : Formula) : (ofTruth f).isTautology =
    (f.assignments.toList.find? fun trues => f.truth (valuationOf trues) == false).isNone := by
  rw [Bool.eq_iff_iff, isTautology, rows_ofTruth_ne_nil, Option.isNone_iff_eq_none,
    List.find?_eq_none]
  simp

theorem isSatisfiable_ofTruth (f : Formula) : (ofTruth f).isSatisfiable =
    (f.assignments.toList.find? fun trues => f.truth (valuationOf trues) == true).isSome := by
  rw [Bool.eq_iff_iff, isSatisfiable, List.find?_isSome]
  simp

theorem counterexample_ofTruth (f : Formula) : (ofTruth f).counterexample =
    (f.assignments.toList.find? fun trues => f.truth (valuationOf trues) == false).map
      fun trues => (rowOf f.names trues (f.truth (valuationOf trues))).assignment := by
  have htest : (fun row : TableRow => !row.value) ∘
      (fun trues => rowOf f.names trues (f.truth (valuationOf trues))) =
      fun trues => f.truth (valuationOf trues) == false := by
    funext trues
    simp
  rw [counterexample, ofTruth, List.find?_map, htest, Option.map_map]
  rfl

/-- The verdict goes by the answers, the rows of a formula's table never being empty. -/
theorem word_ofTruth (f : Formula) : (ofTruth f).verdict.word =
    if (ofTruth f).isTautology then "tautology"
    else if (ofTruth f).isSatisfiable then "contingent" else "contradiction" := by
  rw [verdict, isContradiction, rows_ofTruth_ne_nil]
  cases (ofTruth f).isTautology <;> cases (ofTruth f).isSatisfiable <;> rfl

/-- The table by truth answers as the searches do. -/
theorem answers_ofTruth (h : f.IsClassical) : ∃ valid satisfiable found,
    f.isTautology = .ok valid ∧ f.isSatisfiable = .ok satisfiable ∧
    f.counterexample = .ok found ∧ (ofTruth f).Answers valid satisfiable found := by
  refine ⟨_, _, _, congrArg (Except.map Option.isNone) (firstAssignment_eq h false),
    congrArg (Except.map Option.isSome) (firstAssignment_eq h true), firstAssignment_eq h false,
    isTautology_ofTruth f, isSatisfiable_ofTruth f, ?_, ?_, fun trues hfound => ?_, ?_⟩
  · rw [isContradiction, rows_ofTruth_ne_nil, isSatisfiable_ofTruth]
    rfl
  · rw [counterexample_ofTruth, Option.map_eq_none_iff]
  · obtain ⟨number, -, rfl, -⟩ := exists_number_of_find? hfound
    rw [counterexample_ofTruth, hfound]
    refine ⟨_, rfl, fun name => ?_⟩
    rw [mem_assignment_rowOf]
    constructor
    · rintro ⟨c, -, htrue, rfl⟩
      exact ⟨c, htrue, rfl⟩
    · rintro ⟨c, htrue, rfl⟩
      exact ⟨c, mem_of_mem_subsetAt htrue, htrue, rfl⟩
  · rw [word_ofTruth, isTautology_ofTruth, isSatisfiable_ofTruth]

end TruthTable

end Turnstile
