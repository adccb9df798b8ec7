import Mathlib
import Turnstile.Proofs.Formula.Regrouping
import Turnstile.Proofs.Logic.Conditionals
import Turnstile.Proofs.Logic.Meaning

/-! Canonical text read again. It writes what was read with its chains grouped to the left, which
shows the same text and has the same answer; but it may open more groups than the text it came
from, so it can be nested too deeply for a second reading. -/
namespace Turnstile

open Grammar Formula Journaled Reading

theorem Sequent.regroups_leftNested (s : Sequent) : s.Regroups s.leftNested where
  judgment := rfl
  assumptions := by
    rw [Sequent.leftNested, List.forall₂_map_right_iff, List.forall₂_same]
    exact fun f _ => Formula.regroups_leftNested f
  conclusion := Formula.regroups_leftNested s.conclusion

variable {frames : Nat} {source : Datum} {answer : String × Bool}

/-- Canonical text gets the answer with which it came, given frames enough for its length. -/
theorem ClassicalLogic.validate_again {l : ClassicalLogic} (spelled : l.glyphs.Spelled)
    (h : (l.validate frames source).Yields (.ok answer)) (frames' : Nat) :
    (l.validate frames' (.ofText answer.1)).Yields (.ok answer) ∨
      (l.validate frames' (.ofText answer.1)).Yields
          (.error (.reading (.fault (tooDeep answer.1)))) ∧
        frames' ≤ 3 * answer.1.length + 4 := by
  obtain ⟨f, -, printable, htext, hdecided⟩ := read_of_validate h
  have hprints : PrintsAs .classical loosest answer.1 f.leftNested :=
    htext ▸ printsAs_render spelled rfl rfl printable
  have hregroups := f.regroups_leftNested
  rcases l.read_of_printsAs (frames' - 1) hprints with hread | ⟨hdeep, hfew⟩
  · have hanswer := validate_of_read hread (hregroups.isTautology_eq ▸ hdecided)
    rw [← hregroups.render_eq, htext] at hanswer
    exact .inl hanswer
  · exact .inr ⟨validate_of_refused hdeep, by omega⟩

theorem ModalLogic.validate_again {l : ModalLogic} (spelled : l.glyphs.Spelled)
    (h : (l.validate frames source).Yields (.ok answer)) (frames' : Nat) :
    (l.validate frames' (.ofText answer.1)).Yields (.ok answer) ∨
      (l.validate frames' (.ofText answer.1)).Yields
          (.error (.reading (.fault (tooDeep answer.1)))) ∧
        frames' ≤ 3 * answer.1.length + 4 := by
  obtain ⟨s, printable, rfl⟩ := read_of_validate h
  rcases sequentOf_of_prints (frames' - 1) (s.prints_render spelled printable) with
    hok | ⟨hdeep, hfew⟩
  · have hread : (read (frames' - 1) (.ofText (s.render l.glyphs))).Yields (.ok s.leftNested) :=
      read_of_ok hok
    have hanswer : (l.validate frames' (.ofText (s.render l.glyphs))).Yields
        (.ok (s.leftNested.render l.glyphs, true)) := validate_of_read hread
    rw [← s.regroups_leftNested.render_eq] at hanswer
    exact .inl hanswer
  · refine .inr ⟨validate_of_refused (read_of_refused hdeep), ?_⟩
    dsimp only
    omega

namespace Logic

/-- The canonical text of an answer is answered alike by the same logic, whatever the frames were and
are now, or it is nested too deeply for them; not if there are three for each of its characters and a
few more. -/
theorem validate_canonical (settings : Settings) (frames : Nat) (source : Datum)
    (canonical : String) (verdict : Bool)
    (accepted : ((ofSettings settings).validate frames source).Yields (.ok (canonical, verdict)))
    (frames' : Nat) :
    (((ofSettings settings).validate frames' (.ofText canonical)).Yields
        (.ok (canonical, verdict)) ∨
      ((ofSettings settings).validate frames' (.ofText canonical)).Yields
        (.error (.reading (.fault (tooDeep canonical))))) ∧
    (3 * canonical.length + 5 ≤ frames' →
      ((ofSettings settings).validate frames' (.ofText canonical)).Yields
        (.ok (canonical, verdict))) := by
  have hagain : ((ofSettings settings).validate frames' (.ofText canonical)).Yields
        (.ok (canonical, verdict)) ∨
      ((ofSettings settings).validate frames' (.ofText canonical)).Yields
        (.error (.reading (.fault (tooDeep canonical)))) ∧
      frames' ≤ 3 * canonical.length + 4 := by
    unfold ofSettings at accepted ⊢
    cases hlogic : settings.logic with
    | classical =>
      rw [hlogic] at accepted
      exact ClassicalLogic.validate_again settings.script.spelled accepted frames'
    | modal =>
      rw [hlogic] at accepted
      exact ModalLogic.validate_again settings.script.spelled accepted frames'
  refine ⟨hagain.imp_right And.left, fun henough => hagain.resolve_right ?_⟩
  rintro ⟨-, hfew⟩
  omega

def asciiSettings : Settings where
  script := .ascii

def weakening : Formula :=
  .binary .conditional (.atom 'p') (.binary .conditional (.atom 'q') (.atom 'p'))

/-- A text with its operators first comes back with parentheses, and these may be read with fewer
frames. -/
theorem validate_canonical_weakening :
    ((ofSettings asciiSettings).validate 1000 (.ofText "-> p -> q p")).Yields
      (.ok ("(p -> (q -> p))", true)) ∧
    ((ofSettings asciiSettings).validate 50 (.ofText "(p -> (q -> p))")).Yields
      (.ok ("(p -> (q -> p))", true)) := by
  have hread : (ClassicalLogic.read 999 ⟨.ascii, true⟩ (.ofText "-> p -> q p")).Yields
      (.ok weakening) := ClassicalLogic.read_of_ok (by cbv)
  have hvalid : weakening.isTautology = .ok true := by cbv
  have htext : weakening.render .ascii = "(p -> (q -> p))" := by cbv
  have accepted : ((ofSettings asciiSettings).validate 1000 (.ofText "-> p -> q p")).Yields
      (.ok ("(p -> (q -> p))", true)) := htext ▸ ClassicalLogic.validate_of_read hread hvalid
  exact ⟨accepted, (validate_canonical asciiSettings 1000 _ _ _ accepted 50).2 (by decide)⟩

/-- Six hundred conditionals are read and found valid; their canonical text is not read. -/
theorem validate_canonical_conditionals :
    ((ofSettings .standard).validate 1000 (.ofText (conditionalsText 600))).Yields
      (.ok ((conditionals 600).render .unicode, true)) ∧
    ¬ ((ofSettings .standard).validate 1000 (.ofText ((conditionals 600).render .unicode))).Yields
      (.ok ((conditionals 600).render .unicode, true)) := by
  constructor
  · exact ClassicalLogic.validate_of_read
      (ClassicalLogic.read_conditionalsText (by decide)) (isTautology_conditionals 599)
  · intro h
    have hdeep : (ClassicalLogic.read 999 ⟨.unicode, true⟩
        (.ofText ((conditionals 600).render .unicode))).Yields
        (.error (.reading (.fault (tooDeep ((conditionals 600).render .unicode))))) :=
      ClassicalLogic.read_canonical_conditionals Glyphs.spelled_unicode (by decide)
    cases h.unique (ClassicalLogic.validate_of_refused hdeep)

end Logic

end Turnstile
