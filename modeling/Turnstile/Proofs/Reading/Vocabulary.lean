import Turnstile.Proofs.Printing.RoundTrip
import Turnstile.Proofs.Reading.Overlap

/-! The vocabulary of what is read. Tokens of a dialect write only formulas whose operators the
dialect allows and whose names are letters, in every written form; so what was read can be
printed in the dialect from which it came. -/
namespace Turnstile

variable {dialect dialect' : Dialect} {token : Token} {tokens : List Token} {f : Formula}
  {fs : List Formula} {s : Sequent}

theorem Token.IsOf.allows (h : token.IsOf dialect) : dialect.allows token.kind = true := by
  obtain ⟨spelling, -, allowed, hkind, -⟩ := h
  rwa [hkind]

theorem Token.IsOf.isLiteral (h : token.IsOf dialect) (hkind : token.kind = .literal)
    {name : Char} (htext : token.text = String.singleton name) :
    Spelling.isLiteral name = true := by
  obtain ⟨spelling, known, -, hspelling, hletters⟩ := h
  rcases known with hmem | ⟨-, hothers, hliteral⟩
  · exact absurd (hspelling.symm.trans hkind) (Spelling.kind_ne_literal_of_mem_symbols _ hmem)
  · have hname := congrArg String.toList (htext.symm.trans hletters)
    rw [String.toList_singleton, Spelling.text, String.toList_ofList, Spelling.letters, hothers,
      List.singleton_inj] at hname
    rwa [hname]

theorem Dialect.modal_allows_of_classical {kind : Kind}
    (h : Dialect.classical.allows kind = true) : Dialect.modal.allows kind = true := by
  simp only [allows, decide_eq_true_eq] at h ⊢
  exact List.mem_append_left _ h

namespace Formula

theorem Printable.mono (h : f.Printable dialect)
    (kinds : ∀ kind, dialect.allows kind = true → dialect'.allows kind = true) :
    f.Printable dialect' := by
  induction f with
  | atom name => exact ⟨kinds _ h.1, h.2⟩
  | unary op operand ih => exact ⟨kinds _ h.1, ih h.2⟩
  | binary op left right ihl ihr => exact ⟨kinds _ h.1, ihl h.2.1, ihr h.2.2⟩

theorem Printable.classical_of_reversePolish (h : f.Printable .reversePolish) :
    f.Printable .classical :=
  h.mono fun kind => by
    simp only [Dialect.allows, decide_eq_true_eq]
    exact fun hmem => List.mem_append_left _ hmem

theorem Printable.modal_of_classical (h : f.Printable .classical) : f.Printable .modal :=
  h.mono fun _ => Dialect.modal_allows_of_classical

theorem Printable.spellable (h : f.Printable dialect) : f.Spellable := by
  induction f with
  | atom name =>
    rintro _ rfl
    exact h.2
  | unary op operand ih => exact ih h.2
  | binary op left right ihl ihr =>
    rintro name (hname | hname)
    · exact ihl h.2.1 name hname
    · exact ihr h.2.2 name hname

/-- What the classical dialect can print has a truth table. -/
theorem Printable.isClassical (h : f.Printable .classical) : f.IsClassical := by
  induction f with
  | atom name => rfl
  | unary op operand ih =>
    cases op with
    | negation => exact ih h.2
    | modal modality => cases modality <;> exact absurd h.1 (by decide)
  | binary op left right ihl ihr => exact Option.or_eq_none_iff.mpr ⟨ihl h.2.1, ihr h.2.2⟩

end Formula

namespace Grammar

theorem Derives.printable {stratum : Stratum} (h : Derives stratum tokens f)
    (of : ∀ token ∈ tokens, token.IsOf dialect) : f.Printable dialect := by
  induction h with
  | lift _ ih => exact ih of
  | joinLeft _ hkind _ _ ihl ihr =>
    rw [List.forall_mem_append, List.forall_mem_cons] at of
    exact ⟨hkind ▸ of.2.1.allows, ihl of.1, ihr of.2.2⟩
  | joinRight hkind _ _ ihl ihr =>
    rw [List.forall_mem_append, List.forall_mem_cons] at of
    exact ⟨hkind ▸ of.2.1.allows, ihl of.1, ihr of.2.2⟩
  | unary hkind _ ih =>
    rw [List.forall_mem_cons] at of
    exact ⟨hkind ▸ of.1.allows, ih of.2⟩
  | group _ _ _ ih =>
    rw [List.forall_mem_append, List.forall_mem_cons] at of
    exact ih of.1.2
  | literal hkind htext =>
    rw [List.forall_mem_singleton] at of
    exact ⟨hkind ▸ of.allows, of.isLiteral hkind htext⟩

theorem DerivesPolish.printable (h : DerivesPolish tokens f)
    (of : ∀ token ∈ tokens, token.IsOf dialect) : f.Printable dialect := by
  induction h using DerivesPolish.induct with
  | literal hkind htext =>
    rw [List.forall_mem_singleton] at of
    exact ⟨hkind ▸ of.allows, of.isLiteral hkind htext⟩
  | negation hkind _ ih =>
    rw [List.forall_mem_cons] at of
    exact ⟨hkind ▸ of.1.allows, ih of.2⟩
  | connective hkind _ _ ihl ihr =>
    rw [List.forall_mem_cons, List.forall_mem_append] at of
    exact ⟨hkind ▸ of.1.allows, ihl of.2.1, ihr of.2.2⟩

theorem DerivesList.printable (h : DerivesList tokens fs)
    (of : ∀ token ∈ tokens, token.IsOf dialect) : ∀ f ∈ fs, f.Printable dialect := by
  induction h with
  | single derives => exact List.forall_mem_singleton.mpr (derives.printable of)
  | cons _ derives _ ih =>
    rw [List.forall_mem_append, List.forall_mem_cons] at of
    exact List.forall_mem_cons.mpr ⟨derives.printable of.1, ih of.2.2⟩

theorem DerivesSequent.printable (h : DerivesSequent tokens s)
    (of : ∀ token ∈ tokens, token.IsOf dialect) : ∀ f ∈ s.formulas, f.Printable dialect := by
  cases h with
  | bare _ derives =>
    rw [List.forall_mem_cons] at of
    exact List.forall_mem_singleton.mpr (derives.printable of.2)
  | under _ given derives =>
    rw [List.forall_mem_append, List.forall_mem_cons] at of
    rw [Sequent.formulas, List.forall_mem_append]
    exact ⟨given.printable of.1, List.forall_mem_singleton.mpr (derives.printable of.2.2)⟩

end Grammar

end Turnstile
