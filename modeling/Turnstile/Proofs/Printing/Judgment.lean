import Turnstile.Proofs.Printing.Sequent
import Turnstile.Proofs.Reading.Overlap
import Turnstile.Proofs.Reading.Earliest
import Turnstile.Proofs.Token.Layout

/-! The judgment in the canonical text of a sequent. It has a blank before it, unless it begins the
text, so it is a token of the text whatever stands around it; no formula has such a token. What is
read from the text is the sequent as it is shown. -/
namespace Turnstile

open Grammar

namespace Token

variable {dialect : Dialect} {text : String} {tokens : List Token} {s : Spelling}
  {first more : List Char}

/-- A token that covers the place of a spelling behind a blank begins there. -/
theorem Account.position_eq {token : Token} (h : Account 0 text.toList tokens)
    (hmem : token ∈ tokens) (hcovers : token.Covers first.length)
    (split : text.toList = first ++ more)
    (blank : ∀ c ∈ first.getLast?, Text.isBlank c = true) : token.position = first.length := by
  rcases List.eq_nil_or_concat first with rfl | ⟨front, c, rfl⟩
  · exact Nat.le_zero.mp hcovers.1
  · rw [List.concat_eq_append] at *
    have hblank : Text.isBlank c = true := blank c (by simp)
    have hc : text.toList[front.length]? = some c := by simp [split]
    have hapart : ¬ token.Covers front.length := fun hfront => by
      have hvisible := (h.covered front.length c (Nat.zero_le _) hc).mpr ⟨token, hmem, hfront⟩
      rw [hblank] at hvisible
      cases hvisible
    rw [Covers] at hcovers hapart
    rw [List.length_append, List.length_singleton] at hcovers ⊢
    omega

/-- A spelling at the beginning of a text or behind a blank is the spelling of a token. -/
theorem exists_mem_kind (scanned : scan dialect text = .ok tokens) (known : s.IsKnown)
    (split : text.toList = first ++ (s.letters ++ more))
    (blank : ∀ c ∈ first.getLast?, Text.isBlank c = true) :
    ∃ token ∈ tokens, token.kind = s.kind := by
  have account := account_of_scan scanned
  have hfirst : text.toList[first.length]? = some s.first := by simp [split, Spelling.letters]
  obtain ⟨token, hmem, hcovers⟩ :=
    (account.covered _ _ (Nat.zero_le _) hfirst).mp known.first_not_blank
  have hposition := account.position_eq hmem hcovers split blank
  obtain ⟨other, rest, hother, hkind, hdrop⟩ := exists_spelling_of_mem scanned hmem
  rw [hposition, split, List.drop_left] at hdrop
  -- one spelling at most begins a text
  have heq : some other = some s := by
    rw [← hother.atStart?_append rest, ← hdrop, known.atStart?_append]
  exact ⟨token, hmem, hkind.trans (congrArg Spelling.kind (Option.some.inj heq))⟩

end Token

variable {g : Glyphs} {s : Sequent} {frames : Nat} {dialect : Dialect} {tokens : List Token}

/-- The judgment begins the text of a sequent or stands behind a blank. -/
theorem Sequent.render_split (g : Glyphs) (s : Sequent) : ∃ first more : List Char,
    (s.render g).toList = first ++ ((g.ofJudgment s.shownJudgment).toList ++ more) ∧
      ∀ c ∈ first.getLast?, Text.isBlank c = true := by
  by_cases hnil : s.assumptions = []
  · refine ⟨[], (" " ++ s.conclusion.render g).toList, ?_, nofun⟩
    rw [render_bare hnil, String.append_assoc, String.toList_append, List.nil_append]
  · refine ⟨(", ".intercalate (s.assumptions.map (Formula.render g))).toList ++ [' '],
      (" " ++ s.conclusion.render g).toList, ?_, ?_⟩
    · rw [render_under hnil]
      simp only [String.toList_append, List.append_assoc]
      rfl
    · rw [List.getLast?_concat]
      exact fun c hc => Option.some.inj hc ▸ rfl

/-- Whatever the names in a sequent are, its judgment is a token of its text. -/
theorem Sequent.exists_judgment_of_scan (spelled : g.Spelled)
    (scanned : Token.scan dialect (s.render g) = .ok tokens) :
    ∃ token ∈ tokens, token.kind = .judgment s.shownJudgment := by
  obtain ⟨sign, hmem, hkind, htext⟩ := spelled.judgment s.shownJudgment
  obtain ⟨first, more, split, blank⟩ := s.render_split g
  rw [← htext, Spelling.text, String.toList_ofList] at split
  rw [← hkind]
  exact Token.exists_mem_kind scanned (.inl hmem) split blank

/-- The text of a sequent is no formula, whatever the names in it are. -/
theorem Sequent.formula_ofText_render (frames : Nat) (dialect : Dialect) (spelled : g.Spelled)
    (s : Sequent) :
    ∃ e, Formula.ofText frames dialect (s.render g) = .error (.refused e) := by
  rcases Recognizer.governs_formula.outcome frames dialect (s.render g) with
    ⟨f, tokens, -, scanned, derives⟩ | refused
  · obtain ⟨token, hmem, hkind⟩ := exists_judgment_of_scan spelled scanned
    exact absurd hkind (derives.kind_ne_judgment hmem _)
  · exact refused

/-- The text of a sequent is read as the sequent with its judgment said and every formula grouped
to the left, given frames enough for its length, and never as a formula. -/
theorem Sequent.ofText_render_leftNested (frames : Nat) (g : Glyphs) (spelled : g.Spelled)
    (s : Sequent) :
    ((∀ f ∈ s.formulas, f.Spellable) →
      (Sequent.ofText frames .modal (s.render g) = .ok s.leftNested ∨
        Sequent.ofText frames .modal (s.render g) = .error (tooDeep (s.render g))) ∧
      (3 * (s.render g).length + 2 < frames →
        Sequent.ofText frames .modal (s.render g) = .ok s.leftNested)) ∧
    ∃ e, Formula.ofText frames .modal (s.render g) = .error (.refused e) := by
  refine ⟨fun spellable => ?_, formula_ofText_render frames .modal spelled s⟩
  have hprints := prints_render spelled fun f hmem => Formula.printable_modal (spellable f hmem)
  have hread := ofText_of_prints frames hprints
  refine ⟨hread.imp_right And.left, fun enough => hread.resolve_right ?_⟩
  rintro ⟨-, hfew⟩
  omega

/-- Two assumptions and a chain grouped to the right, with the judgment left unsaid. -/
def unsaid : Sequent where
  judgment := none
  assumptions := [.atom 'p', .binary .conditional (.atom 'p') (.atom 'q')]
  conclusion := .binary .conjunction (.atom 'p') (.binary .conjunction (.atom 'q') (.atom 'p'))

theorem Sequent.ofText_render_unsaid :
    unsaid.render .ascii = "p, (p -> q) |- (p ^ q ^ p)" ∧
    Sequent.ofText 1000 .modal (unsaid.render .ascii) = .ok unsaid.leftNested ∧
    unsaid.leftNested ≠ unsaid := by
  have hrender : unsaid.render .ascii = "p, (p -> q) |- (p ^ q ^ p)" := by cbv
  have hspellable : ∀ f ∈ unsaid.formulas, f.Spellable := by
    simp only [unsaid, formulas, Formula.Spellable, List.cons_append, List.nil_append,
      List.forall_mem_cons, Formula.Mentions]
    simp [Spelling.isLiteral]
  have hshort : 3 * (unsaid.render .ascii).length + 2 < 1000 := by
    rw [hrender]
    decide
  obtain ⟨hread, -⟩ := ofText_render_leftNested 1000 .ascii Glyphs.spelled_ascii unsaid
  exact ⟨hrender, (hread hspellable).2 hshort, by decide⟩

end Turnstile
