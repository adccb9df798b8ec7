import Mathlib.Data.List.Forall2
import Turnstile.Proofs.Printing.Sequent
import Turnstile.Proofs.Reading.Cut

/-! What canonical text tells apart. Regrouping moves no operand of a chain, so it leaves the
text as it is; and the text writes tokens from which the formula grouped to the left can be
derived, so formulas with one text are regroupings of each other. A sequent shows its judgment
and every one of its formulas. -/
namespace Turnstile

open Grammar

namespace Formula

variable {g : Glyphs} {f f' : Formula} {op : Connective}

theorem Regroups.isModal_eq (h : Regroups f f') : f.isModal = f'.isModal := by
  induction h with
  | refl => rfl
  | symm _ ih => exact ih.symm
  | trans _ _ ih ih' => exact ih.trans ih'
  | assoc => rfl
  | unary op => cases op <;> rfl
  | binary => rfl

theorem canonical_of_isChained (chained : op.isChained = true) (left right : Formula) :
    (Formula.binary op left right).canonical g = "(" ++ (" " ++ g.ofConnective op ++ " ").intercalate
      (((Formula.binary op left right).chain op).map (canonical g)) ++ ")" := by
  rw [canonical_binary, operands, if_pos chained, chain]

/-- Two formulas have one text, and so have the operands of the chains that they are. -/
structure PrintAlike (g : Glyphs) (f f' : Formula) : Prop where
  text : f.canonical g = f'.canonical g
  chains : ∀ op, (f.chain op).map (canonical g) = (f'.chain op).map (canonical g)

/-- Only the chain of the connective at the root is more than the formula itself. -/
theorem PrintAlike.of_root (root : f.root? = f'.root?) (text : f.canonical g = f'.canonical g)
    (chain : ∀ op, f.root? = some op →
      (f.chain op).map (canonical g) = (f'.chain op).map (canonical g)) : PrintAlike g f f' where
  text := text
  chains op := by
    by_cases hroot : f.root? = some op
    · exact chain op hroot
    · have hroot' : f'.root? ≠ some op := root ▸ hroot
      rw [chain_of_root_ne hroot, chain_of_root_ne hroot', List.map_singleton,
        List.map_singleton, text]

theorem PrintAlike.unary {op : Unary} (h : PrintAlike g f f') (modal : f.isModal = f'.isModal) :
    PrintAlike g (.unary op f) (.unary op f') := by
  refine .of_root rfl ?_ nofun
  cases op with
  | negation => rw [canonical_negation, canonical_negation, h.text, modal]
  | modal modality => rw [canonical_modal, canonical_modal, h.text]

theorem PrintAlike.of_chain {left right left' right' : Formula} (chained : op.isChained = true)
    (h : ((Formula.binary op left right).chain op).map (canonical g) =
      ((Formula.binary op left' right').chain op).map (canonical g)) :
    PrintAlike g (.binary op left right) (.binary op left' right') := by
  refine .of_root rfl ?_ ?_
  · rw [canonical_of_isChained chained, canonical_of_isChained chained, h]
  · intro other hroot
    cases hroot
    exact h

theorem PrintAlike.binary {left right left' right' : Formula} (hleft : PrintAlike g left left')
    (hright : PrintAlike g right right') :
    PrintAlike g (.binary op left right) (.binary op left' right') := by
  have hchain : ((Formula.binary op left right).chain op).map (canonical g) =
      ((Formula.binary op left' right').chain op).map (canonical g) := by
    rw [chain_binary, chain_binary, List.map_append, List.map_append, hleft.chains, hright.chains]
  by_cases chained : op.isChained = true
  · exact .of_chain chained hchain
  · refine .of_root rfl ?_ ?_
    · rw [canonical_binary, canonical_binary, operands, operands, if_neg chained, if_neg chained]
      simp only [List.map_cons, List.map_nil, hleft.text, hright.text]
    · intro other hroot
      cases hroot
      exact hchain

/-- Regrouping leaves the text as it is. -/
theorem Regroups.printAlike (h : Regroups f f') : PrintAlike g f f' := by
  induction h with
  | refl f => exact ⟨rfl, fun _ => rfl⟩
  | symm _ ih => exact ⟨ih.text.symm, fun op => (ih.chains op).symm⟩
  | trans _ _ ih ih' =>
    exact ⟨ih.text.trans ih'.text, fun op => (ih.chains op).trans (ih'.chains op)⟩
  | assoc op chained =>
    apply PrintAlike.of_chain chained
    simp only [chain_binary, List.append_assoc]
  | unary op h ih => exact ih.unary h.isModal_eq
  | binary op _ _ ihl ihr => exact ihl.binary ihr

theorem Regroups.render_eq (h : Regroups f f') : f.render g = f'.render g := by
  rw [render_eq_canonical, render_eq_canonical, (h.printAlike (g := g)).text]

theorem regroups_of_leftNested_eq (h : f.leftNested = f'.leftNested) : Regroups f f' :=
  .trans (regroups_leftNested f) (h ▸ .symm (regroups_leftNested f'))

/-- A text determines the formula that it shows, up to the grouping of chains. -/
theorem regroups_of_render_eq (spelled : g.Spelled) (printable : f.Printable .modal)
    (printable' : f'.Printable .modal) (same : f.render g = f'.render g) : Regroups f f' := by
  have hprints := printsAs_render spelled rfl rfl printable
  rw [same] at hprints
  obtain ⟨tokens, derives, derives'⟩ :=
    hprints.and (printsAs_render spelled rfl rfl printable')
  exact regroups_of_leftNested_eq (derives.unique derives')

end Formula

open Formula

variable {g : Glyphs} {s s' : Sequent} {fs fs' : List Formula}

theorem map_render_eq (h : List.Forall₂ Regroups fs fs') :
    fs.map (Formula.render g) = fs'.map (Formula.render g) := by
  induction h with
  | nil => rfl
  | cons hfirst _ ih => rw [List.map_cons, List.map_cons, hfirst.render_eq, ih]

theorem forall₂_regroups_of_map_eq (h : fs.map leftNested = fs'.map leftNested) :
    List.Forall₂ Regroups fs fs' := by
  rw [← List.forall₂_eq_eq_eq, List.forall₂_map_left_iff, List.forall₂_map_right_iff] at h
  exact h.imp fun _ _ => regroups_of_leftNested_eq

structure Sequent.Regroups (s s' : Sequent) : Prop where
  judgment : s.shownJudgment = s'.shownJudgment
  assumptions : List.Forall₂ Formula.Regroups s.assumptions s'.assumptions
  conclusion : Formula.Regroups s.conclusion s'.conclusion

theorem Sequent.Regroups.render_eq (h : s.Regroups s') : s.render g = s'.render g := by
  rw [Sequent.render, Sequent.render, map_render_eq h.assumptions, h.judgment,
    h.conclusion.render_eq]

theorem Sequent.regroups_of_render_eq (spelled : g.Spelled)
    (printable : ∀ f ∈ s.formulas, f.Printable .modal)
    (printable' : ∀ f ∈ s'.formulas, f.Printable .modal) (same : s.render g = s'.render g) :
    s.Regroups s' := by
  have hprints := Sequent.prints_render spelled printable
  rw [same] at hprints
  obtain ⟨tokens, derives, derives'⟩ := hprints.and (Sequent.prints_render spelled printable')
  obtain ⟨hjudgment, hassumptions, hconclusion⟩ :=
    Sequent.mk.inj (derives.unique derives')
  exact ⟨Option.some.inj hjudgment, forall₂_regroups_of_map_eq hassumptions,
    regroups_of_leftNested_eq hconclusion⟩

/-- Just the formulas that regroup to one another have one text, and just the sequents that say
the same of such formulas. -/
theorem render_eq_iff_regroups (g : Glyphs) (spelled : g.Spelled) :
    (∀ f f' : Formula, f.Spellable → f'.Spellable →
      (f.render g = f'.render g ↔ Formula.Regroups f f')) ∧
    ∀ s s' : Sequent, (∀ f ∈ s.formulas, f.Spellable) → (∀ f ∈ s'.formulas, f.Spellable) →
      (s.render g = s'.render g ↔ s.Regroups s') := by
  constructor
  · intro f f' hf hf'
    refine ⟨fun same => ?_, fun h => h.render_eq⟩
    exact Formula.regroups_of_render_eq spelled (printable_modal hf) (printable_modal hf') same
  · intro s s' hs hs'
    refine ⟨fun same => ?_, fun h => h.render_eq⟩
    exact Sequent.regroups_of_render_eq spelled (fun f hmem => printable_modal (hs f hmem))
      (fun f hmem => printable_modal (hs' f hmem)) same

def selfProof (assumption : Formula) : Sequent := ⟨none, [assumption], rightGrouped⟩

theorem render_eq_selfProof :
    rightGrouped.render .unicode = rightGrouped.leftNested.render .unicode ∧
    Formula.Regroups rightGrouped rightGrouped.leftNested ∧
    (selfProof rightGrouped).render .unicode =
      (selfProof rightGrouped.leftNested).render .unicode := by
  have hright : rightGrouped.Spellable := by
    simp only [Formula.Spellable, rightGrouped, Formula.Mentions]
    rintro name (rfl | rfl | rfl) <;> rfl
  have hleft : rightGrouped.leftNested.Spellable := by
    simp only [Formula.Spellable, rightGrouped, Formula.leftNested, Connective.isChained, if_true,
      Formula.joinNested, Formula.Mentions]
    rintro name ((rfl | rfl) | rfl) <;> rfl
  obtain ⟨hformula, hsequent⟩ := render_eq_iff_regroups .unicode Glyphs.spelled_unicode
  have htext : rightGrouped.render .unicode = rightGrouped.leftNested.render .unicode := by cbv
  have hregroups := (hformula rightGrouped rightGrouped.leftNested hright hleft).mp htext
  refine ⟨htext, hregroups, (hsequent (selfProof _) (selfProof _) ?_ ?_).mpr ?_⟩
  · simp [selfProof, Sequent.formulas, hright]
  · simp [selfProof, Sequent.formulas, hright, hleft]
  · exact ⟨rfl, .cons hregroups .nil, .refl _⟩

end Turnstile
