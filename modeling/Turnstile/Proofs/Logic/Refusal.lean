import Mathlib
import Turnstile.Proofs.Logic.Conditionals
import Turnstile.Proofs.Reading.Places

/-! The refusal of modal logic. A text is read as a sequent first, and as a formula if it is none;
where both readings fail, the error of the sequent is reported. Whatever may come next in a formula
may come next in a sequent, so that error is the one that lies farther on. -/
namespace Turnstile

open Grammar Reading

/-- Both errors have their places, and that of the first is not before that of the other. -/
def SyntaxError.NotBefore (e e' : SyntaxError) : Prop :=
  ∃ place place', e.position = some place ∧ e'.position = some place' ∧ place' ≤ place

theorem SyntaxError.PlacedIn.exists_position {e : SyntaxError} {text : String}
    (h : e.PlacedIn text) (shallow : Fault.refused e ≠ tooDeep text) :
    ∃ place, e.position = some place := by
  obtain ⟨refusal, position, source⟩ := e
  obtain ⟨rfl, hposition⟩ := h
  cases refusal with
  | tooDeep =>
    cases hposition
    exact absurd rfl shallow
  | endOfInput => exact ⟨_, hposition⟩
  | empty => exact ⟨_, hposition⟩
  | _ =>
    obtain ⟨place, hplace, -⟩ := hposition
    exact ⟨place, hplace⟩

namespace Token

variable {dialect : Dialect} {source : String} {used used' rest rest' tokens : List Token}
  {token token' : Token}

theorem position_le_length (scanned : scan dialect source = .ok tokens) (hmem : token ∈ tokens) :
    token.position ≤ source.length := by
  obtain ⟨c, hc, -⟩ := visibleAt_of_mem scanned hmem
  rw [← String.length_toList]
  exact Nat.le_of_lt (List.getElem?_eq_some_iff.mp hc).1

/-- A token stands no later in the text than one with as many or more tokens before it. -/
theorem position_le_of_prefix (scanned : scan dialect source = .ok tokens)
    (split : tokens = used ++ token :: rest) (split' : tokens = used' ++ token' :: rest')
    (before : used' <+: used) : token'.position ≤ token.position := by
  obtain ⟨between, rfl⟩ := before
  subst split
  rw [List.append_assoc, List.append_cancel_left_eq] at split'
  cases between with
  | nil =>
    cases split'
    exact Nat.le_refl _
  | cons first between =>
    cases split'
    have hapart := (List.pairwise_append.mp (account_of_scan scanned).apart).2.2
    have hbehind := hapart token' (by simp) token (by simp)
    exact Nat.le_trans (Nat.le_add_right _ _) hbehind

end Token

namespace Recognizer

variable {σ τ α β : Type} {R : Recognizer σ} {S : Recognizer τ} {dialect : Dialect}
  {source : String} {used more tokens : List Token} {token : Token} {e e' : SyntaxError}

/-- One recognizer follows another: it has a move wherever the other has one. -/
def Follows (S : Recognizer τ) (R : Recognizer σ) : Prop :=
  ∀ used state, R.run R.start used = some state → ∃ state', S.run S.start used = some state'

/-- Where a recognizer has no move, one that it follows has none left. -/
theorem Follows.run_of_stuck {state : τ} (h : S.Follows R) (hrun : S.run S.start used = some state)
    (stuck : S.step state token.kind = none) : R.run R.start (used ++ token :: more) = none := by
  refine Option.eq_none_iff_forall_ne_some.mpr fun state' hrun' => ?_
  obtain ⟨_, hfollows⟩ := h _ _ hrun'
  rw [Recognizer.run_of_stuck hrun stuck] at hfollows
  cases hfollows

/-- What follows another recognizer rejects no earlier token. -/
theorem Rejects.notBefore (follows : S.Follows R)
    (scanned : Token.scan dialect source = .ok tokens) (h : S.Rejects source tokens e)
    (h' : R.Rejects source tokens e') : e.NotBefore e' := by
  cases h with
  | atEnd hrun _ =>
    refine ⟨source.length, ?_⟩
    cases h' with
    | atEnd => exact ⟨source.length, rfl, rfl, Nat.le_refl _⟩
    | @atToken _ _ token' _ split' =>
      refine ⟨token'.position, rfl, rfl, Token.position_le_length scanned ?_⟩
      simp [split']
  | @atToken used rest token _ split hrun stuck =>
    refine ⟨token.position, ?_⟩
    cases h' with
    | atEnd hrun' =>
      rw [split, follows.run_of_stuck hrun stuck] at hrun'
      cases hrun'
    | @atToken used' rest' token' _ split' hrun' =>
      refine ⟨token'.position, rfl, rfl, Token.position_le_of_prefix scanned split split' ?_⟩
      rcases List.append_eq_append_iff.mp (split.symm.trans split') with
        ⟨between, rfl, hrest⟩ | ⟨between, rfl, -⟩
      · cases between with
        | nil => simp
        | cons first between =>
          -- the other recognizer would have gone beyond the token without a move
          cases hrest
          rw [follows.run_of_stuck hrun stuck] at hrun'
          cases hrun'
      · exact List.prefix_append used' between

/-- A reading whose recognizer follows that of another fails no earlier in the same text. -/
theorem Governs.notBefore {reading : Nat → Reading α} {Written : List Token → α → Prop}
    {reading' : Nat → Reading β} {Written' : List Token → β → Prop} {frames frames' : Nat}
    (h : S.Governs reading Written) (h' : R.Governs reading' Written') (follows : S.Follows R)
    (failed : (reading frames).ofText dialect source = .error (.refused e))
    (failed' : (reading' frames').ofText dialect source = .error (.refused e'))
    (shallow : Fault.refused e ≠ tooDeep source) (shallow' : Fault.refused e' ≠ tooDeep source) :
    e.NotBefore e' := by
  cases hscan : Token.scan dialect source with
  | error other =>
    simp only [Reading.ofText, Cursor.ofText, hscan] at failed failed'
    cases failed
    cases failed'
    obtain ⟨place, hplace⟩ :=
      (Token.placedIn_of_scanFrom hscan List.drop_zero).1.exists_position shallow
    exact ⟨place, place, hplace, hplace, Nat.le_refl _⟩
  | ok tokens =>
    by_cases hempty : tokens = []
    · subst hempty
      cases failed.symm.trans (ofText_eq_ofTokens hscan)
      cases failed'.symm.trans (ofText_eq_ofTokens hscan)
      exact ⟨0, 0, rfl, rfl, Nat.le_refl _⟩
    · obtain ⟨other, hother, hrejects⟩ := h.rejects hscan hempty failed shallow
      obtain ⟨other', hother', hrejects'⟩ := h'.rejects hscan hempty failed' shallow'
      cases hother
      cases hother'
      exact hrejects.notBefore follows hscan hrejects'

/-- A first assumption may go on like a formula. -/
theorem follows_formula : Recognizer.sequent.Follows .formula := by
  intro used state hrun
  cases used with
  | nil => exact ⟨_, rfl⟩
  | cons token rest =>
    cases hjudgment : token.kind.judgment? with
    | none => exact ⟨_, (Grammar.run_start hjudgment).trans (embeds_given.run hrun)⟩
    | some j =>
      have hkind : token.kind = .judgment j := Kind.judgment?_eq_some.mp hjudgment
      rw [run, hkind] at hrun
      cases hrun

end Recognizer

namespace ModalLogic

open Journaled

/-- No text is both a sequent and a formula. Modal logic reads a sequent as it is. A formula it reads
as the sequent that proves it, unless that is nested too deeply for a reading one call deeper. What is
neither is refused with the error of the sequent, which does not lie before that of the formula, by
whatever frames this is read, unless one of them is nested too deeply. -/
theorem read_sequent_or_formula (text : String) :
    (∀ frames frames' s f, Sequent.ofText frames .modal text = .ok s →
      Formula.ofText frames' .modal text ≠ .ok f) ∧
    (∀ frames s, Sequent.ofText frames .modal text = .ok s →
      (read frames (.ofText text)).Yields (.ok s)) ∧
    (∀ frames frames' f, Formula.ofText frames .modal text = .ok f →
      ((read frames' (.ofText text)).Yields (.ok ⟨some .proves, [], f⟩) ∨
        Sequent.ofText frames' .modal text = .error (tooDeep text) ∧
          (read frames' (.ofText text)).Yields (.error (.reading (.fault (tooDeep text))))) ∧
      (frames < frames' → (read frames' (.ofText text)).Yields (.ok ⟨some .proves, [], f⟩))) ∧
    ∀ frames frames' fault fault', Sequent.ofText frames .modal text = .error fault →
      Formula.ofText frames' .modal text = .error fault' →
      ∃ e e', fault = .refused e ∧ fault' = .refused e' ∧
        (frames - 1 ≤ frames' →
          (read frames (.ofText text)).Yields (.error (.reading (.fault (.refused e))))) ∧
        (fault ≠ tooDeep text → fault' ≠ tooDeep text → e.NotBefore e') := by
  refine ⟨?_, fun _ s hsequent => read_of_ok ?_, fun frames frames' f hformula => ?_, ?_⟩
  · exact fun _ _ _ _ => Formula.ofText_ne_ok_of_sequent
  · exact sequentOf_of_sequent hsequent
  · rcases sequentOf_formula_or_tooDeep hformula frames' with hok | ⟨hfew, hsequent, hdeep⟩
    · exact ⟨.inl (read_of_ok hok), fun _ => read_of_ok hok⟩
    · exact ⟨.inr ⟨hsequent, read_of_refused hdeep⟩, fun hmore => absurd hfew (by omega)⟩
  · intro frames frames' fault fault' hfault hfault'
    obtain ⟨e, rfl⟩ := Recognizer.governs_sequent.refused hfault
    obtain ⟨e', rfl⟩ := Recognizer.governs_formula.refused hfault'
    refine ⟨e, e', rfl, rfl, fun hle => read_of_refused ?_, ?_⟩
    · cases hformula : Formula.ofText (frames - 1) .modal text with
      | ok f => cases hfault'.symm.trans (ofText_formula_mono hle hformula)
      | error fault =>
        obtain ⟨e'', rfl⟩ := Recognizer.governs_formula.refused hformula
        exact sequentOf_of_refused hfault hformula
    · exact Recognizer.governs_sequent.notBefore Recognizer.governs_formula
        Recognizer.follows_formula hfault hfault'

/-- In the last of three texts the comma is wrong for a formula at once, while a sequent lacks
nothing before its end. -/
theorem read_sequent_or_formula_stray_comma :
    (read 1000 (.ofText "p |- q")).Yields (.ok ⟨some .proves, [.atom 'p'], .atom 'q'⟩) ∧
    (read 1000 (.ofText "~p")).Yields (.ok ⟨some .proves, [], .unary .negation (.atom 'p')⟩) ∧
    (read 1000 (.ofText "p, q")).Yields
      (.error (.reading (.fault (.refused ⟨.endOfInput, some 4, "p, q"⟩)))) ∧
    SyntaxError.NotBefore ⟨.endOfInput, some 4, "p, q"⟩ ⟨.trailing ",", some 1, "p, q"⟩ := by
  have hsequent : Sequent.ofText 1000 .modal "p |- q" =
      .ok ⟨some .proves, [.atom 'p'], .atom 'q'⟩ := by cbv
  have hformula : Formula.ofText 999 .modal "~p" = .ok (.unary .negation (.atom 'p')) := by cbv
  have hlate : Sequent.ofText 1000 .modal "p, q" =
      .error (.refused ⟨.endOfInput, some 4, "p, q"⟩) := by cbv
  have hearly : Formula.ofText 999 .modal "p, q" =
      .error (.refused ⟨.trailing ",", some 1, "p, q"⟩) := by cbv
  obtain ⟨-, hreadSequent, -, -⟩ := read_sequent_or_formula "p |- q"
  obtain ⟨-, -, hreadFormula, -⟩ := read_sequent_or_formula "~p"
  obtain ⟨-, -, -, hrefused⟩ := read_sequent_or_formula "p, q"
  obtain ⟨e, e', he, he', hread, hplaces⟩ := hrefused 1000 999 _ _ hlate hearly
  cases he
  cases he'
  exact ⟨hreadSequent _ _ hsequent, (hreadFormula 999 1000 _ hformula).2 (by decide),
    hread (by decide), hplaces (by decide) (by decide)⟩

/-- A formula that is just read in the modal dialect is refused by modal logic, with the error of a
sequent. -/
theorem read_misses_formula :
    Formula.ofText 993 .modal (conditionalsText 990) = .ok (conditionals 990) ∧
    (read 993 (.ofText (conditionalsText 990))).Yields
      (.error (.reading (.fault (tooDeep (conditionalsText 990))))) ∧
    ¬ (read 993 (.ofText (conditionalsText 990))).Yields
      (.ok ⟨some .proves, [], conditionals 990⟩) := by
  have hdeep := read_conditionalsText_few (Nat.le_refl 993)
  refine ⟨?_, hdeep, fun h => ?_⟩
  · rw [ofText_conditionalsText rfl rfl, if_pos (Nat.le_refl _)]
  · cases h.unique hdeep

end ModalLogic

end Turnstile
