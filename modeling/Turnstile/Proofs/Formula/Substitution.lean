import Mathlib.Logic.Function.Basic
import Turnstile.Formula.Substitution
import Turnstile.Proofs.Decision

/-! Truth under substitution. A formula takes its value under substitution where the name has
the value of the formula that replaces it; so what holds under all valuations, or under none,
goes on to do so. -/
namespace Turnstile.Formula

variable {name : Char} {f g : Formula}

theorem substitute_self (name : Char) (f : Formula) : f.substitute name (.atom name) = f := by
  induction f with
  | atom other =>
    rw [substitute]
    split
    · next h => rw [h]
    · rfl
  | unary op operand ih => rw [substitute, ih]
  | binary op left right ihl ihr => rw [substitute, ihl, ihr]

theorem truth_substitute (v : Valuation) (name : Char) (f g : Formula) :
    (f.substitute name g).truth v = f.truth (Function.update v name (g.truth v)) := by
  induction f with
  | atom other =>
    by_cases h : other = name
    · subst h
      simp
    · simp [h]
  | unary op operand ih => cases op <;> simp [ih]
  | binary op left right ihl ihr => simp [ihl, ihr]

theorem IsClassical.substitute (hf : f.IsClassical) (hg : g.IsClassical) (name : Char) :
    (f.substitute name g).IsClassical := by
  induction f with
  | atom other =>
    rw [Formula.substitute]
    split
    · exact hg
    · rfl
  | unary op operand ih =>
    cases op with
    | negation => exact ih hf
    | modal modality => cases hf
  | binary op left right ihl ihr =>
    obtain ⟨hleft, hright⟩ := Option.or_eq_none_iff.mp hf
    exact Option.or_eq_none_iff.mpr ⟨ihl hleft, ihr hright⟩

theorem isTautology_eq_true_iff (h : f.IsClassical) :
    f.isTautology = .ok true ↔ ∀ v, f.truth v = true := by
  obtain ⟨failing, hfailing, hfalse⟩ := firstAssignment_of_isClassical h false
  have hanswer : f.isTautology = .ok failing.isNone := by rw [isTautology, hfailing]; rfl
  rw [hanswer, Except.ok.injEq, ← Bool.not_eq_false, Option.isNone_eq_false_iff, hfalse]
  simp only [not_exists, Bool.not_eq_false]

theorem isSatisfiable_eq_false_iff (h : f.IsClassical) :
    f.isSatisfiable = .ok false ↔ ∀ v, f.truth v = false := by
  obtain ⟨passing, hpassing, htrue⟩ := firstAssignment_of_isClassical h true
  have hanswer : f.isSatisfiable = .ok passing.isSome := by rw [isSatisfiable, hpassing]; rfl
  rw [hanswer, Except.ok.injEq, ← Bool.not_eq_true, htrue]
  simp only [not_exists, Bool.not_eq_true]

/-- What has one value under all valuations keeps it. -/
theorem truth_substitute_of_forall {value : Bool} (h : ∀ v, f.truth v = value) (name : Char)
    (g : Formula) (v : Valuation) : (f.substitute name g).truth v = value := by
  rw [truth_substitute]
  exact h _

theorem isTautology_substitute (hf : f.IsClassical) (hg : g.IsClassical) (name : Char)
    (h : f.isTautology = .ok true) : (f.substitute name g).isTautology = .ok true := by
  rw [isTautology_eq_true_iff hf] at h
  exact (isTautology_eq_true_iff (hf.substitute hg name)).mpr (truth_substitute_of_forall h name g)

theorem isSatisfiable_substitute (hf : f.IsClassical) (hg : g.IsClassical) (name : Char)
    (h : f.isSatisfiable = .ok false) : (f.substitute name g).isSatisfiable = .ok false := by
  rw [isSatisfiable_eq_false_iff hf] at h
  exact (isSatisfiable_eq_false_iff (hf.substitute hg name)).mpr
    (truth_substitute_of_forall h name g)

end Turnstile.Formula
