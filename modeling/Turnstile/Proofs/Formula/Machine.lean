import Turnstile.Formula.Polish
import Turnstile.Proofs.Formula.Evaluation
import Turnstile.Proofs.Supply

/-! The evaluating machine, step by step. Before every step all tasks are supplied with the values
that they take, and the visit of a formula leaves one; so the machine halts with a single value or
before a modality, and that is the one which stands first in Polish order. -/
namespace Turnstile

def Symbol.modality? : Symbol → Option Modality
  | .unary (.modal modality) => some modality
  | _ => none

namespace Formula

theorem firstModality?_eq_findSome? (f : Formula) :
    f.firstModality? = f.toPolish.findSome? Symbol.modality? := by
  induction f with
  | atom name => rfl
  | unary op operand ih =>
    cases op with
    | negation => exact ih
    | modal modality => rfl
  | binary op left right ihl ihr =>
    rw [firstModality?, ihl, ihr, toPolish_binary, ← List.findSome?_append]
    rfl

end Formula

namespace Evaluation

def Task.takes : Task → Nat
  | .visit _ => 0
  | .negate => 1
  | .connect _ => 2

abbrev State := StackState Task Bool

def start (f : Formula) : State := ⟨[.visit f], []⟩

inductive Step (v : Valuation) : State → State → Prop
  | atom {name : Char} {rest : List Task} {values : List Bool} :
      Step v ⟨.visit (.atom name) :: rest, values⟩ ⟨rest, v name :: values⟩
  | negation {operand : Formula} {rest : List Task} {values : List Bool} :
      Step v ⟨.visit (.unary .negation operand) :: rest, values⟩
        ⟨.visit operand :: .negate :: rest, values⟩
  | binary {op : Connective} {left right : Formula} {rest : List Task} {values : List Bool} :
      Step v ⟨.visit (.binary op left right) :: rest, values⟩
        ⟨.visit left :: .visit right :: .connect op :: rest, values⟩
  | negate {value : Bool} {rest : List Task} {values : List Bool} :
      Step v ⟨.negate :: rest, value :: values⟩ ⟨rest, (!value) :: values⟩
  | connect {op : Connective} {left right : Bool} {rest : List Task} {values : List Bool} :
      Step v ⟨.connect op :: rest, right :: left :: values⟩
        ⟨rest, op.apply left right :: values⟩

/-- Where the machine has no step: nothing is left to do, or a modality comes next, or a task finds
too few values. -/
inductive Halts : State → Except EvaluationError (List Bool) → Prop
  | finished {values : List Bool} : Halts ⟨[], values⟩ (.ok values)
  | modality {modality : Modality} {operand : Formula} {rest : List Task} {values : List Bool} :
      Halts ⟨.visit (.unary (.modal modality) operand) :: rest, values⟩
        (.error (.noTruthTable modality))
  | unsupplied {task : Task} {rest : List Task} {values : List Bool}
      (few : values.length < task.takes) : Halts ⟨task :: rest, values⟩ (.error .unbalanced)

abbrev Reaches (v : Valuation) : State → State → Prop := Relation.ReflTransGen (Step v)

variable {v : Valuation} {s s' : State}

/-- The steps lead to where the run halts, with the outcome of the run. -/
theorem reaches_halt (v : Valuation) (tasks : List Task) (values : List Bool) :
    ∃ s, Reaches v ⟨tasks, values⟩ s ∧ Halts s (run v tasks values) := by
  have after {s s' : State} {outcome : Except EvaluationError (List Bool)} (step : Step v s s')
      (h : ∃ last, Reaches v s' last ∧ Halts last outcome) :
      ∃ last, Reaches v s last ∧ Halts last outcome := by
    obtain ⟨last, hreaches, halts⟩ := h
    exact ⟨last, .head step hreaches, halts⟩
  fun_induction run v tasks values with
  | case1 values => exact ⟨_, .refl, .finished⟩
  | case2 name rest values ih => exact after .atom ih
  | case3 operand rest values ih => exact after .negation ih
  | case4 modality operand rest values => exact ⟨_, .refl, .modality⟩
  | case5 op left right rest values ih => exact after .binary ih
  | case6 rest value values ih => exact after .negate ih
  | case7 rest => exact ⟨_, .refl, .unsupplied Nat.one_pos⟩
  | case8 op rest right left values ih => exact after .connect ih
  | case9 op rest values few =>
    refine ⟨_, .refl, .unsupplied ?_⟩
    rcases values with _ | ⟨right, _ | ⟨left, values⟩⟩
    · exact Nat.two_pos
    · exact Nat.one_lt_two
    · exact absurd rfl (few right left values)

/-- A step leaves every task supplied that was. -/
theorem Step.balanced (h : Step v s s') (balanced : s.Balanced Task.takes) :
    s'.Balanced Task.takes := by
  cases h with
  | atom => exact balanced.2
  | negation => exact balanced.put_off [_] rfl (by simp [Task.takes]) rfl
  | binary => exact balanced.put_off [_, _] rfl (by simp [Task.takes]) rfl
  | negate => exact balanced.2
  | connect => exact balanced.2

/-- Evaluation gives a formula without modalities its truth, the only value that is left, and
reports the first modality in Polish order of any other formula, whatever the valuation. On the way
no task finds fewer values than it takes. -/
theorem halts_with_truth_or_modality (v : Valuation) (f : Formula) :
    (∀ s, Reaches v (start f) s → s.Sound Task.takes) ∧
    (∃ s, Reaches v (start f) s ∧ Halts s (run v [.visit f] [])) ∧
    (f.toPolish.findSome? Symbol.modality? = none →
      run v [.visit f] [] = .ok [f.truth v] ∧ f.evaluate v = .ok (f.truth v)) ∧
    ∀ modality, f.toPolish.findSome? Symbol.modality? = some modality →
      f.evaluate v = .error (.noTruthTable modality) ∧
      (EvaluationError.noTruthTable modality).message =
        modality.word ++ " has no truth-functional semantics" := by
  rw [← f.firstModality?_eq_findSome?]
  refine ⟨fun s h => ?_, reaches_halt v [.visit f] [], fun h => ?_, fun modality h => ?_⟩
  · exact StackState.sound_of_reaches (fun _ _ => Step.balanced) rfl h
  · exact ⟨by simp only [run_visit, h, run], f.evaluate_of_isClassical v h⟩
  · exact ⟨f.evaluate_of_firstModality v h, rfl⟩

/-- A conditional is false only from left to right. -/
def doubted : Formula :=
  .binary .conditional (.atom 'p') (.unary .negation (.binary .biconditional (.atom 'q') (.atom 'p')))

/-- A modality around another one, which stands behind it in Polish order. -/
def guarded : Formula :=
  .binary .disjunction (.atom 'q')
    (.unary .negation (.unary (.modal .possibility) (.unary (.modal .necessity) (.atom 'p'))))

theorem halts_doubted :
    doubted.evaluate (valuationOf ['p', 'q']) = .ok false ∧
    doubted.evaluate (valuationOf ['p']) = .ok true ∧
    guarded.evaluate (valuationOf ['q']) = .error (.noTruthTable .possibility) := by
  have hdoubted (v : Valuation) := ((halts_with_truth_or_modality v doubted).2.2.1 rfl).2
  have hguarded := (halts_with_truth_or_modality (valuationOf ['q']) guarded).2.2.2 .possibility rfl
  exact ⟨hdoubted _, hdoubted _, hguarded.1⟩

end Evaluation

end Turnstile
