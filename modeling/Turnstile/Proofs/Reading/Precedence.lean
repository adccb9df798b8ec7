import Mathlib
import Turnstile.Proofs.Reading.Whole

/-! The grammar of strata decides formulas: a text is read as a formula just if its tokens
derive it, and no tokens derive two. -/
namespace Turnstile

open Grammar Reading

/-- Reading accepts what the grammar derives, builds its only tree, and refuses the rest. -/
theorem ofText_eq_ok_iff_derives (frames : Nat) (dialect : Dialect) (source : String)
    (tokens : List Token) (scanned : Token.scan dialect source = .ok tokens)
    (nonempty : tokens ≠ [])
    (shallow : Formula.ofText frames dialect source ≠ .error (tooDeep source)) :
    (∀ f, Formula.ofText frames dialect source = .ok f ↔ Derives loosest tokens f) ∧
    (∀ used f g, Derives loosest used f → Derives loosest used g → f = g) ∧
    ((¬ ∃ f, Derives loosest tokens f) →
      ∃ e, Formula.ofText frames dialect source = .error (.refused e)) := by
  have hunique (used : List Token) (f g : Formula) (hf : Derives loosest used f)
      (hg : Derives loosest used g) : f = g := hf.unique hg
  have hends := complete_formula_ends frames (named_start scanned)
  rcases ofText_cases scanned nonempty hends with
    ⟨g, hok, derives⟩ | ⟨hdeep, -⟩ | ⟨e, herror, rejects⟩
  · refine ⟨fun f => ⟨fun h => ?_, fun h => ?_⟩, hunique, fun h => absurd ⟨g, derives⟩ h⟩
    · have hfg : f = g := Except.ok.inj (h.symm.trans hok)
      exact hfg ▸ derives
    · exact hunique tokens g f derives h ▸ hok
  · exact absurd hdeep shallow
  · refine ⟨fun f => ⟨fun h => ?_, fun h => ?_⟩, hunique, fun _ => ⟨e, herror⟩⟩
    · cases h.symm.trans herror
    · exact absurd h.accepts rejects.not_accepts

def mixedText : String := "p -> q->~r^s <-> t"

def mixedTokens : List Token :=
  [⟨.literal, "p", 0⟩, ⟨.binary .conditional, "->", 2⟩, ⟨.literal, "q", 5⟩,
    ⟨.binary .conditional, "->", 6⟩, ⟨.unary .negation, "~", 8⟩, ⟨.literal, "r", 9⟩,
    ⟨.binary .conjunction, "^", 10⟩, ⟨.literal, "s", 11⟩,
    ⟨.binary .biconditional, "<->", 13⟩, ⟨.literal, "t", 17⟩]

def mixedFormula : Formula :=
  .binary .biconditional
    (.binary .conditional (.atom 'p')
      (.binary .conditional (.atom 'q')
        (.binary .conjunction (.unary .negation (.atom 'r')) (.atom 's'))))
    (.atom 't')

/-- Conditionals group to the right, looser than a conjunction and tighter than a
biconditional. -/
theorem derives_mixed : Token.scan .classical mixedText = .ok mixedTokens ∧
    mixedTokens ≠ [] ∧ Formula.ofText 1000 .classical mixedText ≠ .error (tooDeep mixedText) ∧
    Derives loosest mixedTokens mixedFormula := by
  have hscan : Token.scan .classical mixedText = .ok mixedTokens := by cbv
  have hread : Formula.ofText 1000 .classical mixedText = .ok mixedFormula := by cbv
  have hshallow : Formula.ofText 1000 .classical mixedText ≠ .error (tooDeep mixedText) := by
    rw [hread]
    intro h
    cases h
  have nonempty : mixedTokens ≠ [] := List.cons_ne_nil _ _
  refine ⟨hscan, nonempty, hshallow, ?_⟩
  exact ((ofText_eq_ok_iff_derives 1000 .classical mixedText mixedTokens hscan nonempty
    hshallow).1 mixedFormula).mp hread

end Turnstile
