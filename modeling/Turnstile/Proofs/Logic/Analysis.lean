import Mathlib
import Turnstile.Proofs.Logic.Reading
import Turnstile.Proofs.Reading.Letters
import Turnstile.Proofs.TruthTable

/-! What an analysis says. The table of a formula agrees with every other answer about it, and
the variables of a text's table are the letters of the text that can name one. -/
namespace Turnstile

open Formula Journaled

/-- A letter names a variable just if it is lower-case and spells no operator. -/
theorem Spelling.isLiteral_iff (c : Char) :
    isLiteral c = true ↔ 'a' ≤ c ∧ c ≤ 'z' ∧ c ≠ 'v' := by
  simp only [isLiteral, Bool.and_eq_true, decide_eq_true_eq, bne_iff_ne, ne_eq, and_assoc]

namespace ClassicalLogic

variable {frames : Nat} {l : ClassicalLogic} {text : String} {f : Formula}

/-- What is read from a text mentions just the letters of the text. -/
theorem mentions_of_read (h : (l.read frames (.ofText text)).Yields (.ok f)) (c : Char) :
    f.Mentions c ↔ c ∈ text.toList ∧ Spelling.isLiteral c = true := by
  rcases Reader.readFirst_outcome (frames - 1) l.readers (.ofText text) l.readers_ne_nil with
    ⟨statement, hfirst, reader, hmem, hread⟩ | ⟨⟨e, hfirst, -⟩, -⟩
  · obtain ⟨read, rfl, -⟩ := exists_formula_of_read hmem hread
    cases h.unique (read_of_ok hfirst)
    obtain ⟨tokens, hscan, hwrites⟩ := Reader.writes_of_read hread
    exact hwrites.mentions_iff hscan c
  · cases h.unique (read_of_refused hfirst)

end ClassicalLogic

/-- A formula without modalities has a truth table, over its names in code point order, whose rows
assign the digits of their places and show the values of the formula; its verdicts are the answers
of the searches. The table that classical logic gives of a text is that of the formula it reads, and
the names are the lower-case letters of the text, without the one that spells an operator. -/
theorem TruthTable.ofFormula_agrees :
    (∀ f : Formula, f.IsClassical →
      (f.names.Pairwise (· < ·) ∧ ∀ name, name ∈ f.names ↔ f.Mentions name) ∧
      ∃ table valid satisfiable found, TruthTable.ofFormula f = .ok table ∧
        f.isTautology = .ok valid ∧ f.isSatisfiable = .ok satisfiable ∧
        f.counterexample = .ok found ∧
        table.Tabulates f ∧ table.Answers valid satisfiable found) ∧
    ∀ (frames : Nat) (l : ClassicalLogic) (text : String) (table : TruthTable),
      (l.analyze frames (.ofText text)).Yields (.ok table) →
      ∃ (f : Formula) (letters : List Char),
        (l.read (frames - 1) (.ofText text)).Yields (.ok f) ∧ TruthTable.ofFormula f = .ok table ∧
        table.names = letters.map String.singleton ∧ letters.Pairwise (· < ·) ∧
        ∀ c, c ∈ letters ↔ c ∈ text.toList ∧ 'a' ≤ c ∧ c ≤ 'z' ∧ c ≠ 'v' := by
  constructor
  · intro f h
    obtain ⟨valid, satisfiable, found, hvalid, hsatisfiable, hfound, answers⟩ := answers_ofTruth h
    exact ⟨⟨f.pairwise_names, fun name => mem_names name f⟩, ofTruth f, valid, satisfiable, found,
      ofFormula_eq_ofTruth h, hvalid, hsatisfiable, hfound, tabulates_ofTruth h, answers⟩
  · intro frames l text table hanalyze
    obtain ⟨f, hread, printable, htable⟩ := ClassicalLogic.read_of_analyze hanalyze
    have hnames : table = ofTruth f :=
      Except.ok.inj (htable.symm.trans (ofFormula_eq_ofTruth printable.isClassical))
    refine ⟨f, f.names, hread, htable, by rw [hnames, ofTruth], f.pairwise_names, fun c => ?_⟩
    rw [mem_names, ClassicalLogic.mentions_of_read hread, Spelling.isLiteral_iff]

def either : Formula := .binary .disjunction (.atom 'q') (.atom 'p')

/-- A disjunction is false only if both of its parts are. Its sign is no variable, though it is a
letter. -/
theorem TruthTable.ofFormula_agrees_either : either.IsClassical ∧
    (ClassicalLogic.read 999 {} (.ofText "q v p")).Yields (.ok either) ∧
    ∃ (table : TruthTable) (letters : List Char),
      (ClassicalLogic.analyze 1000 {} (.ofText "q v p")).Yields (.ok table) ∧
      table.Tabulates either ∧ table.Answers false true (some []) ∧
      table.names = letters.map String.singleton ∧ 'p' ∈ letters ∧ 'v' ∉ letters := by
  have hclassical : either.IsClassical := by decide
  have hread : (ClassicalLogic.read 999 {} (.ofText "q v p")).Yields (.ok either) :=
    ClassicalLogic.read_of_ok (by cbv)
  have hanswers : either.isTautology = .ok false ∧ either.isSatisfiable = .ok true ∧
      either.counterexample = .ok (some []) := ⟨by cbv, by cbv, by cbv⟩
  obtain ⟨-, table, valid, satisfiable, found, htable, hvalid, hsatisfiable, hfound, tabulates,
    answers⟩ := TruthTable.ofFormula_agrees.1 either hclassical
  have hanalyze : (ClassicalLogic.analyze 1000 {} (.ofText "q v p")).Yields (.ok table) :=
    ClassicalLogic.analyze_of_read hread htable
  obtain ⟨f, letters, -, -, hnames, -, hletters⟩ :=
    TruthTable.ofFormula_agrees.2 1000 {} "q v p" table hanalyze
  obtain rfl := Except.ok.inj (hanswers.1.symm.trans hvalid)
  obtain rfl := Except.ok.inj (hanswers.2.1.symm.trans hsatisfiable)
  obtain rfl := Except.ok.inj (hanswers.2.2.symm.trans hfound)
  refine ⟨hclassical, hread, table, letters, hanalyze, tabulates, answers, hnames,
    (hletters 'p').mpr ⟨by simp, by decide⟩, fun hmem => ?_⟩
  exact ((hletters 'v').mp hmem).2.2.2 rfl

end Turnstile
