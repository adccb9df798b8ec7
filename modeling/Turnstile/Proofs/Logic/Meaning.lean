import Mathlib
import Turnstile.Proofs.Formula.Regrouping
import Turnstile.Proofs.Logic.Reading
import Turnstile.Proofs.Printing.Regrouping
import Turnstile.Proofs.TruthTable

/-! Canonical text and meaning. Formulas with one canonical text are regroupings of each other,
and a regrouping keeps the names, the values and with them every answer; so it does not matter
in which form or grouping a text was written. -/
namespace Turnstile

open Formula Journaled

variable {f f' : Formula}

theorem Script.spelled (script : Script) : script.glyphs.Spelled := by
  cases script with
  | unicode => exact Glyphs.spelled_unicode
  | ascii => exact Glyphs.spelled_ascii

theorem TruthTable.ofFormula_of_isClassical (h : f.IsClassical) :
    ∃ table, TruthTable.ofFormula f = .ok table := ⟨ofTruth f, ofFormula_eq_ofTruth h⟩

theorem Formula.Regroups.table_eq (h : Regroups f f') :
    TruthTable.ofFormula f = TruthTable.ofFormula f' := by
  simp only [TruthTable.ofFormula, h.render_eq, h.names_eq, h.evaluateAll_eq]

namespace ClassicalLogic

/-- Two texts that are accepted, by any readers, are read as formulas whose canonical texts come
with the answers. If the formulas have one canonical text in any script, they have the same variables
and values, and the texts have one verdict and one truth table, that of the formula. -/
theorem meaning_of_render_eq (frames frames' : Nat) (l l' : ClassicalLogic)
    (source source' : Datum) (answer answer' : String × Bool)
    (accepted : (l.validate frames source).Yields (.ok answer))
    (accepted' : (l'.validate frames' source').Yields (.ok answer')) :
    ∃ f f', (l.read (frames - 1) source).Yields (.ok f) ∧
      (l'.read (frames' - 1) source').Yields (.ok f') ∧
      f.render l.glyphs = answer.1 ∧ f'.render l'.glyphs = answer'.1 ∧
      ∀ script : Script, f.render script.glyphs = f'.render script.glyphs →
        f.names = f'.names ∧
        (∀ v, ∃ value, f.evaluate v = .ok value ∧ f'.evaluate v = .ok value) ∧
        answer.2 = answer'.2 ∧
        ∃ table, TruthTable.ofFormula f = .ok table ∧
          (l.analyze frames source).Yields (.ok table) ∧
          (l'.analyze frames' source').Yields (.ok table) := by
  obtain ⟨f, read, hf, htext, hanswer⟩ := read_of_validate accepted
  obtain ⟨f', read', hf', htext', hanswer'⟩ := read_of_validate accepted'
  refine ⟨f, f', read, read', htext, htext', fun script same => ?_⟩
  have h : Regroups f f' := regroups_of_render_eq script.spelled hf.modal_of_classical
    hf'.modal_of_classical same
  obtain ⟨table, htable⟩ := TruthTable.ofFormula_of_isClassical hf.isClassical
  have hvalue (v : Valuation) := evaluate_of_isClassical v hf.isClassical
  refine ⟨h.names_eq, fun v => ?_, ?_, ?_⟩
  · exact ⟨f.truth v, hvalue v, h.evaluate_eq v ▸ hvalue v⟩
  · exact Except.ok.inj (hanswer.symm.trans (h.isTautology_eq.trans hanswer'))
  · exact ⟨table, htable, analyze_of_read read htable,
      analyze_of_read read' (h.table_eq ▸ htable)⟩

/-- A chain of biconditionals that is grouped to the right. -/
def rightChain : Formula :=
  .binary .biconditional (.atom 'p') (.binary .biconditional (.atom 'q') (.atom 'r'))

def leftChain : Formula :=
  .binary .biconditional (.binary .biconditional (.atom 'p') (.atom 'q')) (.atom 'r')

/-- The chain is written to the right with its connectives between the operands, and to the
left with the connectives first. -/
theorem meaning_of_render_eq_chain :
    (read 999 {} (.ofText "p <-> (q <-> r)")).Yields (.ok rightChain) ∧
    (read 999 {} (.ofText "<-> <-> p q r")).Yields (.ok leftChain) ∧ rightChain ≠ leftChain ∧
    rightChain.render .ascii = leftChain.render .ascii ∧
    ∃ table, (analyze 1000 {} (.ofText "p <-> (q <-> r)")).Yields (.ok table) ∧
      (analyze 1000 {} (.ofText "<-> <-> p q r")).Yields (.ok table) := by
  have hright : (read 999 {} (.ofText "p <-> (q <-> r)")).Yields (.ok rightChain) :=
    read_of_ok (by cbv)
  have hleft : (read 999 {} (.ofText "<-> <-> p q r")).Yields (.ok leftChain) :=
    read_of_ok (by cbv)
  have same : rightChain.render .ascii = leftChain.render .ascii := by cbv
  have hinvalid : rightChain.isTautology = .ok false := by cbv
  have hinvalid' : leftChain.isTautology = .ok false := by cbv
  have accepted : (validate 1000 {} (.ofText "p <-> (q <-> r)")).Yields (.ok (_, false)) :=
    validate_of_read hright hinvalid
  have accepted' : (validate 1000 {} (.ofText "<-> <-> p q r")).Yields (.ok (_, false)) :=
    validate_of_read hleft hinvalid'
  obtain ⟨f, f', hread, hread', -, -, hsame⟩ :=
    meaning_of_render_eq 1000 1000 {} {} _ _ _ _ accepted accepted'
  obtain rfl := Except.ok.inj (hread.unique hright)
  obtain rfl := Except.ok.inj (hread'.unique hleft)
  obtain ⟨-, -, -, table, -, htable, htable'⟩ := hsame .ascii same
  exact ⟨hright, hleft, by decide, same, table, htable, htable'⟩

end ClassicalLogic

end Turnstile
