import Mathlib
import Turnstile.Proofs.Logic.Conditionals

/-! Modal logic extends classical logic. Every token of a formula is an operator or an atom of it,
or a parenthesis, so a formula without modalities is written in tokens of the classical dialect;
hence just these formulas are read from one text in both dialects. Modal logic reads none of the
texts as a sequent, and concludes what it reads from nothing. -/
namespace Turnstile

open Grammar Reading Journaled

theorem Dialect.classical_allows_binary (op : Connective) :
    Dialect.classical.allows (.binary op) = true := by
  cases op <;> rfl

variable {frames : Nat} {text : String} {tokens : List Token} {f : Formula}

/-- A formula without modalities is written in tokens of the classical dialect. -/
theorem Grammar.Derives.classical_allows {stratum : Stratum} (h : Derives stratum tokens f)
    (free : f.IsClassical) :
    ∀ token ∈ tokens, Dialect.classical.allows token.kind = true := by
  induction h with
  | lift _ ih => exact ih free
  | joinLeft _ hkind _ _ ihl ihr =>
    obtain ⟨hleft, hright⟩ := Option.or_eq_none_iff.mp free
    have hjoin := hkind ▸ Dialect.classical_allows_binary _
    exact List.forall_mem_append.mpr ⟨ihl hleft, List.forall_mem_cons.mpr ⟨hjoin, ihr hright⟩⟩
  | joinRight hkind _ _ ihl ihr =>
    obtain ⟨hleft, hright⟩ := Option.or_eq_none_iff.mp free
    have hjoin := hkind ▸ Dialect.classical_allows_binary _
    exact List.forall_mem_append.mpr ⟨ihl hleft, List.forall_mem_cons.mpr ⟨hjoin, ihr hright⟩⟩
  | @unary op _ _ _ hkind _ ih =>
    cases op with
    | negation => exact List.forall_mem_cons.mpr ⟨hkind ▸ rfl, ih free⟩
    | modal modality => cases free
  | group hfirst hlast _ ih =>
    refine List.forall_mem_append.mpr ⟨?_, List.forall_mem_singleton.mpr (hlast ▸ rfl)⟩
    exact List.forall_mem_cons.mpr ⟨hfirst ▸ rfl, ih free⟩
  | literal hkind => exact List.forall_mem_singleton.mpr (hkind ▸ rfl)

theorem ofText_eq_of_scan {dialect dialect' : Dialect}
    (scanned : Token.scan dialect text = .ok tokens)
    (scanned' : Token.scan dialect' text = .ok tokens) :
    Formula.ofText frames dialect text = Formula.ofText frames dialect' text := by
  rw [Formula.ofText, Formula.ofText, ofText_eq_ofTokens scanned, ofText_eq_ofTokens scanned']

theorem ofText_modal_of_classical (h : Formula.ofText frames .classical text = .ok f) :
    Formula.ofText frames .modal text = .ok f ∧ f.IsClassical := by
  obtain ⟨tokens, hscan, derives⟩ := Recognizer.governs_formula.written_of_ofText h
  have hof := Token.isOf_of_scan hscan
  have hmodal : Token.scan .modal text = .ok tokens := Token.scan_of_allows hscan
    fun token hmem => Dialect.modal_allows_of_classical (hof token hmem).allows
  exact ⟨ofText_eq_of_scan hmodal hscan ▸ h, (derives.printable hof).isClassical⟩

theorem ofText_classical_of_modal (h : Formula.ofText frames .modal text = .ok f)
    (free : f.IsClassical) : Formula.ofText frames .classical text = .ok f := by
  obtain ⟨tokens, hscan, derives⟩ := Recognizer.governs_formula.written_of_ofText h
  have hclassical : Token.scan .classical text = .ok tokens :=
    Token.scan_of_allows hscan (derives.classical_allows free)
  exact ofText_eq_of_scan hclassical hscan ▸ h

/-- The classical dialect reads from a text just what the modal dialect reads there, if that has
no modalities. Modal logic then proves it without assumptions, or finds it nested too deeply; with a
frame more than the formula was read by, it does prove it. -/
theorem Logic.modal_extends_classical (text : String) (f : Formula) :
    (∀ frames, Formula.ofText frames .classical text = .ok f ↔
      Formula.ofText frames .modal text = .ok f ∧ f.IsClassical) ∧
    ∀ frames frames', Formula.ofText frames .classical text = .ok f →
      ((ModalLogic.read frames' (.ofText text)).Yields (.ok ⟨some .proves, [], f⟩) ∨
        (ModalLogic.read frames' (.ofText text)).Yields
          (.error (.reading (.fault (tooDeep text))))) ∧
      (frames < frames' →
        (ModalLogic.read frames' (.ofText text)).Yields (.ok ⟨some .proves, [], f⟩)) := by
  refine ⟨fun frames => ⟨ofText_modal_of_classical, ?_⟩, fun frames frames' h => ?_⟩
  · rintro ⟨h, free⟩
    exact ofText_classical_of_modal h free
  · have hmodal := (ofText_modal_of_classical h).1
    rcases ModalLogic.sequentOf_formula_or_tooDeep hmodal frames' with hok | ⟨hfew, -, hdeep⟩
    · exact ⟨.inl (ModalLogic.read_of_ok hok), fun _ => ModalLogic.read_of_ok hok⟩
    · exact ⟨.inr (ModalLogic.read_of_refused hdeep), fun hmore => absurd hfew (by omega)⟩

def deMorganText : String := "~(p ^ q) -> ~p v ~q"

def deMorgan : Formula :=
  .binary .conditional (.unary .negation (.binary .conjunction (.atom 'p') (.atom 'q')))
    (.binary .disjunction (.unary .negation (.atom 'p')) (.unary .negation (.atom 'q')))

/-- A classical formula is read in the modal dialect too, and concluded from nothing. -/
theorem Logic.modal_extends_classical_deMorgan :
    Formula.ofText 999 .classical deMorganText = .ok deMorgan ∧
    Formula.ofText 999 .modal deMorganText = .ok deMorgan ∧ deMorgan.IsClassical ∧
    (ModalLogic.read 1000 (.ofText deMorganText)).Yields (.ok ⟨some .proves, [], deMorgan⟩) := by
  have hread : Formula.ofText 999 .classical deMorganText = .ok deMorgan := by cbv
  obtain ⟨hiff, hlogic⟩ := modal_extends_classical deMorganText deMorgan
  obtain ⟨hmodal, hfree⟩ := (hiff 999).mp hread
  exact ⟨hread, hmodal, hfree, (hlogic 999 1000 hread).2 (by decide)⟩

/-- So many conditionals are just read as a formula in both dialects; modal logic lacks a frame. -/
theorem Logic.modal_misses_conditionals :
    Formula.ofText 993 .classical (conditionalsText 990) = .ok (conditionals 990) ∧
    Formula.ofText 993 .modal (conditionalsText 990) = .ok (conditionals 990) ∧
    ¬ (ModalLogic.read 993 (.ofText (conditionalsText 990))).Yields
      (.ok ⟨some .proves, [], conditionals 990⟩) := by
  refine ⟨?_, ?_, fun h => ?_⟩
  · rw [ofText_conditionalsText rfl rfl, if_pos (Nat.le_refl _)]
  · rw [ofText_conditionalsText rfl rfl, if_pos (Nat.le_refl _)]
  · cases h.unique (ModalLogic.read_conditionalsText_few (Nat.le_refl _))

end Turnstile
