import Turnstile.Proofs.Reading.Cut
import Turnstile.Proofs.Reading.Polish

/-! Where the written forms overlap. Tokens that write a formula both ways, with connectives
between operands and with operators first, are negations before a literal; tokens that write a
sequent write no formula. So whatever writes a statement in two forms writes one statement. -/
namespace Turnstile

namespace Grammar

variable {tokens : List Token} {f g : Formula} {s : Sequent}

structure NegatedLiteral (tokens negations : List Token) (literal : Token) : Prop where
  split : tokens = negations ++ [literal]
  negation : ∀ token ∈ negations, token.kind = .unary .negation
  literal : literal.kind = .literal

/-- The formula of a name behind so many negations. -/
def negatedAtom (count : Nat) (name : Char) : Formula :=
  (Formula.atom name).applyRun (List.replicate count .negation)

/-- Only negations lead both recognizers on without a need of anything but one literal. -/
theorem exists_negatedLiteral
    (between : Recognizer.formula.run (.operand 0) tokens = some (.follow 0))
    (ahead : Recognizer.polish.run 1 tokens = some 0) :
    ∃ negations literal, NegatedLiteral tokens negations literal := by
  induction tokens with
  | nil => cases between
  | cons token rest ih =>
    rw [Recognizer.run] at between ahead
    cases hkind : token.kind with
    | literal =>
      rw [hkind] at ahead
      cases rest with
      | nil => exact ⟨[], token, rfl, List.forall_mem_nil _, hkind⟩
      | cons next more => cases ahead
    | unary op =>
      rw [hkind] at between ahead
      cases op with
      | modal modality => cases ahead
      | negation =>
        obtain ⟨negations, literal, rfl, hnegations, hliteral⟩ := ih between ahead
        exact ⟨token :: negations, literal, rfl,
          List.forall_mem_cons.mpr ⟨hkind, hnegations⟩, hliteral⟩
    | binary op => rw [hkind] at between; cases between
    | leftParen => rw [hkind] at ahead; cases ahead
    | rightParen => rw [hkind] at ahead; cases ahead
    | comma => rw [hkind] at ahead; cases ahead
    | judgment j => rw [hkind] at ahead; cases ahead

theorem NegatedLiteral.map_negations {negations : List Token} {literal : Token}
    (h : NegatedLiteral tokens negations literal) {want : Kind → Option Unary}
    (hwant : want (.unary .negation) = some .negation) :
    negations.map (fun token => want token.kind) =
      (List.replicate negations.length Unary.negation).map some := by
  rw [List.map_replicate, List.eq_replicate_iff]
  refine ⟨List.length_map _, fun item hitem => ?_⟩
  obtain ⟨token, hmem, rfl⟩ := List.mem_map.mp hitem
  rw [h.negation token hmem, hwant]

theorem NegatedLiteral.derives {negations : List Token} {literal : Token} {name : Char}
    (h : NegatedLiteral tokens negations literal) (htext : literal.text = String.singleton name) :
    Derives loosest tokens (negatedAtom negations.length name) := by
  have hderives := (Derives.literal h.literal htext).applyRun (h.map_negations rfl)
  rw [h.split]
  exact hderives.loosen (by decide)

theorem NegatedLiteral.derivesPolish {negations : List Token} {literal : Token} {name : Char}
    (h : NegatedLiteral tokens negations literal) (htext : literal.text = String.singleton name) :
    DerivesPolish tokens (negatedAtom negations.length name) := by
  rw [h.split]
  exact (DerivesPolish.literal h.literal htext).applyRun (h.map_negations rfl)

theorem DerivesPolish.unique (h : DerivesPolish tokens f) (h' : DerivesPolish tokens g) :
    f = g := by
  have hpolish : f.toPolish = g.toPolish :=
    (List.map_inj_right fun _ _ => Option.some.inj).mp (h.symm.trans h')
  have hread := congrArg Formula.ofPolish? hpolish
  rwa [Formula.ofPolish?_toPolish, Formula.ofPolish?_toPolish, Option.some.injEq] at hread

/-- What both forms write is one formula, an atom behind negations. -/
theorem Derives.eq_of_derivesPolish (named : ∀ token ∈ tokens, token.Named)
    (hf : Derives loosest tokens f) (hg : DerivesPolish tokens g) :
    f = g ∧ ∃ negations literal name, NegatedLiteral tokens negations literal ∧
      literal.text = String.singleton name ∧ f = negatedAtom negations.length name := by
  obtain ⟨negations, literal, hform⟩ := exists_negatedLiteral hf.accepts (hg.run 0)
  obtain ⟨name, htext⟩ := named literal (by simp [hform.split]) hform.literal
  have hfe := hf.unique (hform.derives htext)
  have hge := hg.unique (hform.derivesPolish htext)
  exact ⟨hfe.trans hge.symm, negations, literal, name, hform, htext, hfe⟩

theorem Derives.kind_ne_judgment {token : Token} (hf : Derives loosest tokens f)
    (hmem : token ∈ tokens) (j : Judgment) : token.kind ≠ .judgment j := by
  intro hkind
  have hinner := (hf.isInner token hmem).2
  rw [hkind] at hinner
  cases hinner

theorem DerivesSequent.exists_judgment (h : DerivesSequent tokens s) :
    ∃ token ∈ tokens, ∃ j, token.kind = .judgment j := by
  obtain ⟨before, j, after, ⟨⟨token, hkind, rfl⟩, -⟩, -⟩ := derivesSequent_iff_cut.mp h
  exact ⟨token, by simp, j, hkind⟩

theorem Derives.not_derivesSequent (hf : Derives loosest tokens f) :
    ¬ DerivesSequent tokens s := by
  intro h
  obtain ⟨token, hmem, j, hkind⟩ := h.exists_judgment
  exact hf.kind_ne_judgment hmem j hkind

theorem DerivesPolish.not_derivesSequent (hf : DerivesPolish tokens f) :
    ¬ DerivesSequent tokens s := by
  intro h
  obtain ⟨token, hmem, j, hkind⟩ := h.exists_judgment
  have hsymbol : symbol? token ∈ f.toPolish.map some := hf ▸ List.mem_map_of_mem hmem
  simp [symbol?, hkind] at hsymbol

end Grammar

open Grammar

inductive Form.Writes (tokens : List Token) : Form → Statement → Prop
  | formula {f : Formula} (derives : Derives loosest tokens f) :
      Writes tokens .formula (.formula f)
  | polish {f : Formula} (derives : DerivesPolish tokens f) : Writes tokens .polish (.formula f)
  | sequent {s : Sequent} (derives : DerivesSequent tokens s) :
      Writes tokens .sequent (.sequent s)

/-- Forms never compete: what the tokens write in two of them is one statement. -/
theorem Form.Writes.unique {tokens : List Token} {form form' : Form}
    {statement statement' : Statement} (named : ∀ token ∈ tokens, token.Named)
    (h : form.Writes tokens statement) (h' : form'.Writes tokens statement') :
    statement = statement' := by
  cases h with
  | formula hf =>
    cases h' with
    | formula hg => exact congrArg _ (hf.unique hg)
    | polish hg => exact congrArg _ (hf.eq_of_derivesPolish named hg).1
    | sequent hs => exact absurd hs hf.not_derivesSequent
  | polish hf =>
    cases h' with
    | formula hg => exact congrArg _ (hg.eq_of_derivesPolish named hf).1.symm
    | polish hg => exact congrArg _ (hf.unique hg)
    | sequent hs => exact absurd hs hf.not_derivesSequent
  | sequent hs =>
    cases h' with
    | formula hg => exact absurd hs hg.not_derivesSequent
    | polish hg => exact absurd hs hg.not_derivesSequent
    | sequent hs' => exact congrArg _ (hs.unique hs')

end Turnstile
