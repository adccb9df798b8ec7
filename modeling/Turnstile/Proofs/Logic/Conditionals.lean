import Mathlib
import Turnstile.Proofs.Formula.Substitution
import Turnstile.Proofs.Logic.Reading
import Turnstile.Proofs.Reading.Shortfall

/-! Conditionals in a row, each the right operand of the one before. Written without parentheses
they cost one frame each; the canonical text opens a group for every one of them, which costs
three. So there are texts that are read, though their canonical text is not. -/
namespace Turnstile

open Grammar Formula Journaled Reading

/-- So many conditionals, each the right operand of the one before. -/
def conditionals : Nat → Formula
  | 0 => .atom 'p'
  | count + 1 => .binary .conditional (.atom 'p') (conditionals count)

def conditionalsText : Nat → String
  | 0 => "p"
  | count + 1 => "p" ++ "->" ++ conditionalsText count

section

variable {dialect : Dialect} (literal : dialect.allows .literal = true)
include literal

theorem prints_name :
    Prints dialect "p" fun tokens => ∃ position, tokens = [⟨.literal, "p", position⟩] :=
  prints_spelling (s := ⟨'p', [], .literal⟩) (.inr ⟨rfl, rfl, rfl⟩) literal

/-- The variable takes three frames, and every conditional one more. -/
theorem prints_conditionalsText (arrow : dialect.allows (.binary .conditional) = true)
    (count : Nat) : Prints dialect (conditionalsText count)
      (Needs (count + 3) · (conditionals count)) := by
  have harrow : Prints dialect "->" (IsOne (.binary .conditional)) :=
    prints_symbol arrow (by decide)
  induction count with
  | zero =>
    apply (prints_name literal).mono
    rintro _ ⟨position, rfl⟩
    exact .literal rfl rfl
  | succ count ih =>
    apply Prints.join (prints_name literal) harrow ih
    rintro _ right token hkind ⟨position, rfl⟩ hright
    exact .conditional hkind (.literal rfl rfl) (by simp) hright

theorem ofText_conditionalsText (arrow : dialect.allows (.binary .conditional) = true)
    (count frames : Nat) : Formula.ofText frames dialect (conditionalsText count) =
      if count + 3 ≤ frames then .ok (conditionals count)
      else .error (tooDeep (conditionalsText count)) := by
  obtain ⟨tokens, hspelled, hneeds⟩ := prints_conditionalsText literal arrow count 0
  split
  · next henough => exact ofText_of_readsWithin henough (hspelled.scanFrom_eq _) hneeds.enough
  · next hfew => exact ofText_of_few (Nat.lt_of_not_le hfew) (hspelled.scanFrom_eq _) hneeds

end

/-- Tokens that open so many groups before they close one. -/
def Opens (count : Nat) (tokens : List Token) : Prop :=
  ∀ depth, ∃ used more, tokens = used ++ more ∧
    Recognizer.formula.run (.operand depth) used = some (.operand (depth + count))

theorem Opens.append {count : Nat} {tokens : List Token} (h : Opens count tokens)
    (later : List Token) : Opens count (tokens ++ later) := by
  intro depth
  obtain ⟨used, more, rfl, hrun⟩ := h depth
  exact ⟨used, more ++ later, List.append_assoc .., hrun⟩

theorem Opens.cons {count : Nat} {tokens : List Token} {token : Token}
    (hkind : token.kind = .leftParen) (h : Opens count tokens) :
    Opens (count + 1) (token :: tokens) := by
  intro depth
  obtain ⟨used, more, rfl, hrun⟩ := h (depth + 1)
  refine ⟨token :: used, more, rfl, ?_⟩
  rw [Recognizer.run_kind hkind rfl, hrun, Nat.add_right_comm, Nat.add_assoc]

theorem canonical_conditionals (g : Glyphs) (count : Nat) :
    (conditionals (count + 1)).canonical g = "(" ++
      ("p" ++ (" " ++ g.conditional ++ " ") ++ (conditionals count).canonical g) ++ ")" := by
  rw [conditionals, canonical_binary, operands, if_neg (by decide), List.map_cons, List.map_cons,
    List.map_nil, String.intercalate_cons_cons, String.intercalate_singleton, canonical_atom]
  rfl

/-- Every conditional opens a group in the canonical text. -/
theorem prints_conditionals {g : Glyphs} (spelled : g.Spelled) (count : Nat) :
    Prints .classical ((conditionals count).canonical g) (Opens count) := by
  induction count with
  | zero =>
    rw [conditionals, canonical_atom]
    exact (prints_name rfl).mono fun tokens _ depth => ⟨[], tokens, rfl, rfl⟩
  | succ count ih =>
    have hopening : Prints .classical "(" (IsOne .leftParen) := prints_symbol rfl (by decide)
    have hclosing : Prints .classical ")" (IsOne .rightParen) := prints_symbol rfl (by decide)
    have harrow : Prints .classical g.conditional (IsOne (.binary .conditional)) :=
      prints_symbol rfl (spelled.connective .conditional)
    rw [canonical_conditionals]
    have hinner : Prints .classical
        ("p" ++ (" " ++ g.conditional ++ " ") ++ (conditionals count).canonical g)
        (Opens count) := by
      apply Prints.join (prints_name rfl) (prints_glue harrow) ih
      rintro _ right token hkind ⟨position, rfl⟩ hright depth
      obtain ⟨used, more, rfl, hrun⟩ := hright depth
      refine ⟨_ :: token :: used, more, rfl, ?_⟩
      rw [Recognizer.run_kind rfl rfl, Recognizer.run_kind hkind rfl, hrun]
    have hopened : Prints .classical ("(" ++
        ("p" ++ (" " ++ g.conditional ++ " ") ++ (conditionals count).canonical g))
        (Opens (count + 1)) := by
      apply hopening.append hinner
      rintro _ tokens ⟨token, rfl, hkind⟩ hopens
      exact hopens.cons hkind
    exact hopened.append hclosing fun _ later hopens _ => hopens.append later

theorem isClassical_conditionals (count : Nat) : (conditionals count).IsClassical := by
  induction count with
  | zero => rfl
  | succ count ih => exact Option.or_eq_none_iff.mpr ⟨rfl, ih⟩

theorem truth_conditionals (count : Nat) (v : Valuation) (h : v 'p' = true) :
    (conditionals count).truth v = true := by
  induction count with
  | zero => exact h
  | succ count ih => rw [conditionals, truth, ih, Connective.apply, Bool.or_true]

theorem isTautology_conditionals (count : Nat) :
    (conditionals (count + 1)).isTautology = .ok true := by
  rw [isTautology_eq_true_iff (isClassical_conditionals _)]
  intro v
  cases h : v 'p' with
  | false => rw [conditionals, truth, truth, h]; rfl
  | true => exact truth_conditionals _ v h

theorem spellable_conditionals (count : Nat) : (conditionals count).Spellable := by
  induction count with
  | zero => rintro name rfl; rfl
  | succ count ih => rintro name (rfl | hname); exacts [rfl, ih name hname]

namespace ClassicalLogic

variable {l : ClassicalLogic} {frames count : Nat}

/-- Classical logic calls its readers two calls deep. -/
theorem read_conditionalsText (enough : count + 5 ≤ frames) :
    (l.read frames (.ofText (conditionalsText count))).Yields (.ok (conditionals count)) := by
  have htext : Formula.ofText (frames - 1 - 1) .classical (conditionalsText count) =
      .ok (conditionals count) := by
    rw [ofText_conditionalsText rfl rfl, if_pos (by omega)]
  have hread : Reader.classical.read (frames - 1 - 1) (.ofText (conditionalsText count)) =
      .ok (.formula (conditionals count)) := congrArg (Except.map _) htext
  apply read_of_ok
  rw [Reader.readFirst, readers, Reader.tryEach, hread]

/-- The groups of the canonical text cost three frames each. -/
theorem read_canonical_conditionals (spelled : l.glyphs.Spelled)
    (many : frames < 3 * (count + 1) + 5) :
    (l.read frames (.ofText ((conditionals (count + 1)).render l.glyphs))).Yields
      (.error (.reading (.fault (tooDeep ((conditionals (count + 1)).render l.glyphs))))) := by
  have hprints := printsAs_render spelled rfl rfl
    (printable_classical (isClassical_conditionals (count + 1)) (spellable_conditionals _))
  apply l.read_of_tooDeep hprints (root?_leftNested _)
  apply (ofText_of_printsAs (frames - 1 - 1) hprints).resolve_left
  intro hread
  obtain ⟨tokens, hspelled, hopens⟩ := prints_conditionals spelled (count + 1) 0
  obtain ⟨used, more, rfl, hrun⟩ := hopens 0
  rw [← render_eq_canonical] at hspelled
  have hdepth := depth_le_of_ofText (hspelled.scanFrom_eq _) hread hrun
  rw [Outlook.depth] at hdepth
  omega

end ClassicalLogic

/-- Modal logic reads formulas one call deeper than sequents. -/
theorem ModalLogic.read_conditionalsText_few {frames count : Nat} (few : frames ≤ count + 3) :
    (read frames (.ofText (conditionalsText count))).Yields
      (.error (.reading (.fault (tooDeep (conditionalsText count))))) := by
  have hread : Formula.ofText (count + 3) .modal (conditionalsText count) =
      .ok (conditionals count) := by
    rw [ofText_conditionalsText rfl rfl, if_pos (Nat.le_refl _)]
  have hfew : Formula.ofText (frames - 1) .modal (conditionalsText count) =
      .error (tooDeep (conditionalsText count)) := by
    rw [ofText_conditionalsText rfl rfl, if_neg (by omega)]
  rcases ofText_formula_or_tooDeep hread frames with hok | ⟨-, -, hsequent⟩
  · cases hfew.symm.trans hok
  · exact read_of_refused (sequentOf_of_refused hsequent hfew)

end Turnstile
