import Mathlib
import Turnstile.Proofs.Formula.Substitution
import Turnstile.Proofs.Printing.RoundTrip
import Turnstile.Proofs.Reading.Earliest
import Turnstile.Proofs.Reading.Vocabulary

/-! Substitution in the text. A letter that names a variable is a token wherever it stands, so
a group in its place puts the tokens of the group there; a group is a term like the letter, so
the rest of the text is read around it as before. -/
namespace Turnstile

def Token.Names (token : Token) (name : Char) : Prop :=
  token.kind = .literal ∧ token.text = String.singleton name

namespace Grammar

/-- Tokens with others, which write a formula, in the place of every one that names a variable.
The rest keep their kinds and texts, but they may move. -/
inductive Expands (name : Char) (g : Formula) : List Token → List Token → Prop
  | nil : Expands name g [] []
  | keep {token moved : Token} {tokens expanded : List Token} (other : ¬ token.Names name)
      (kind : moved.kind = token.kind) (text : moved.text = token.text)
      (later : Expands name g tokens expanded) :
      Expands name g (token :: tokens) (moved :: expanded)
  | expand {token : Token} {part tokens expanded : List Token} (names : token.Names name)
      (derives : Derives .term part g) (later : Expands name g tokens expanded) :
      Expands name g (token :: tokens) (part ++ expanded)

variable {name : Char} {f g : Formula} {tokens left right expanded : List Token}

theorem Expands.split (h : Expands name g (left ++ right) expanded) :
    ∃ left' right', expanded = left' ++ right' ∧ Expands name g left left' ∧
      Expands name g right right' := by
  induction left generalizing expanded with
  | nil => exact ⟨[], expanded, rfl, .nil, h⟩
  | cons token left ih =>
    cases h with
    | keep other kind text later =>
      obtain ⟨left', right', rfl, hleft, hright⟩ := ih later
      exact ⟨_ :: left', right', rfl, .keep other kind text hleft, hright⟩
    | @expand _ part _ _ names derives later =>
      obtain ⟨left', right', rfl, hleft, hright⟩ := ih later
      exact ⟨part ++ left', right', (List.append_assoc ..).symm, .expand names derives hleft,
        hright⟩

/-- A token that is no literal is kept. -/
theorem Expands.kept {token : Token} {kind : Kind} (hkind : token.kind = kind)
    (hne : kind ≠ .literal) (h : Expands name g (token :: tokens) expanded) :
    ∃ moved rest, expanded = moved :: rest ∧ moved.kind = kind ∧ Expands name g tokens rest := by
  cases h with
  | keep _ hmoved _ later => exact ⟨_, _, rfl, hmoved.trans hkind, later⟩
  | expand names => exact absurd (hkind.symm.trans names.1) hne

/-- Expanded tokens derive the formula with the same substitution. -/
theorem Derives.substitute {s : Stratum} (h : Derives s tokens f)
    (hexpands : Expands name g tokens expanded) :
    Derives s expanded (f.substitute name g) := by
  induction h generalizing expanded with
  | lift _ ih => exact .lift (ih hexpands)
  | joinLeft hop hkind _ _ ihl ihr =>
    obtain ⟨left', more, rfl, hleft, hmore⟩ := hexpands.split
    obtain ⟨moved, right', rfl, hmoved, hright⟩ := hmore.kept hkind nofun
    exact .joinLeft hop hmoved (ihl hleft) (ihr hright)
  | joinRight hkind _ _ ihl ihr =>
    obtain ⟨left', more, rfl, hleft, hmore⟩ := hexpands.split
    obtain ⟨moved, right', rfl, hmoved, hright⟩ := hmore.kept hkind nofun
    exact .joinRight hmoved (ihl hleft) (ihr hright)
  | unary hkind _ ih =>
    obtain ⟨moved, rest, rfl, hmoved, hrest⟩ := hexpands.kept hkind nofun
    exact .unary hmoved (ih hrest)
  | group hfirst hlast _ ih =>
    obtain ⟨opened, ends, rfl, hopened, hends⟩ := hexpands.split
    obtain ⟨first, inner, rfl, hfirst', hinner⟩ := hopened.kept hfirst nofun
    obtain ⟨last, rest, rfl, hlast', hrest⟩ := hends.kept hlast nofun
    cases hrest
    exact .group hfirst' hlast' (ih hinner)
  | @literal token other hkind htext =>
    rw [Formula.substitute]
    cases hexpands with
    | keep hother hmoved hmovedText later =>
      cases later
      have hname : other ≠ name := fun h => hother ⟨hkind, h ▸ htext⟩
      rw [if_neg hname]
      exact .literal (hmoved.trans hkind) (hmovedText.trans htext)
    | expand names derives later =>
      cases later
      have hname : other = name := by
        have heq := congrArg String.toList (htext.symm.trans names.2)
        simpa using heq
      rwa [if_pos hname, List.append_nil]

end Grammar

namespace Spelling

variable {s : Spelling} {x : Char}

/-- A letter that names variables stands in no spelling but its own. -/
theorem IsKnown.names_or_not_mem (h : s.IsKnown) (literal : isLiteral x = true) :
    s.kind = .literal ∧ s.letters = [x] ∨
      (s.kind = .literal → s.text ≠ String.singleton x) ∧ x ∉ s.letters := by
  rcases h with hmem | ⟨hkind, hothers, -⟩
  · have hliteral := kind_ne_literal_of_mem_symbols s hmem
    refine .inr ⟨fun hkind => absurd hkind hliteral, fun hx => ?_⟩
    rw [not_isLiteral_of_mem_symbols s hmem x hx] at literal
    cases literal
  · have hletters : s.letters = [s.first] := by rw [letters, hothers]
    by_cases hx : s.first = x
    · exact .inl ⟨hkind, hx ▸ hletters⟩
    · refine .inr ⟨fun _ htext => hx ?_, ?_⟩
      · have hlist := congrArg String.toList htext
        rw [text, hletters] at hlist
        simpa using hlist
      · simpa [hletters] using Ne.symm hx

end Spelling

namespace Text

theorem replaceChars_append (c : Char) (part cs ds : List Char) :
    replaceChars c part (cs ++ ds) = replaceChars c part cs ++ replaceChars c part ds :=
  List.flatMap_append

theorem replaceChars_of_not_mem {c : Char} {cs : List Char} (part : List Char) (h : c ∉ cs) :
    replaceChars c part cs = cs := by
  induction cs with
  | nil => rfl
  | cons d rest ih =>
    rw [List.mem_cons, not_or] at h
    have hrest := ih h.2
    rw [replaceChars] at hrest ⊢
    rw [List.flatMap_cons, hrest, if_neg (Ne.symm h.1)]
    rfl

theorem replaceChars_singleton (c : Char) (part : List Char) :
    replaceChars c part [c] = part := by
  simp [replaceChars]

theorem replaceChars_self (c : Char) (cs : List Char) : replaceChars c [c] cs = cs := by
  induction cs with
  | nil => rfl
  | cons d rest ih =>
    rw [replaceChars] at ih ⊢
    rw [List.flatMap_cons, ih]
    split
    · next h => rw [h]; rfl
    · rfl

end Text

open Grammar

section

variable {dialect : Dialect} {x : Char} {part text : String} {f g : Formula}
  {position : Nat} {cs : List Char} {tokens : List Token}

theorem not_mem_of_blank {gap : List Char} (literal : Spelling.isLiteral x = true)
    (blank : ∀ c ∈ gap, Text.isBlank c = true) : x ∉ gap := by
  intro hmem
  have hblank := Spelling.isBlank_of_isLiteral literal
  rw [blank x hmem] at hblank
  cases hblank

/-- A text with a term in place of a letter spells the tokens with those of the term in place of
the letter's, wherever it stands. -/
theorem Token.Spelled.replaceChars (literal : Spelling.isLiteral x = true)
    (hpart : PrintsAs dialect .term part g) (h : Spelled dialect position cs tokens)
    (moved : Nat) :
    ∃ expanded, Spelled dialect moved (Text.replaceChars x part.toList cs) expanded ∧
      Expands x g tokens expanded := by
  induction h generalizing moved with
  | @blanks position gap blank =>
    refine ⟨[], ?_, .nil⟩
    rw [Text.replaceChars_of_not_mem _ (not_mem_of_blank literal blank)]
    exact .blanks blank
  | @token position gap rest spelling tokens blank known allowed _ ih =>
    rw [Text.replaceChars_append, Text.replaceChars_append,
      Text.replaceChars_of_not_mem _ (not_mem_of_blank literal blank), List.append_assoc]
    rcases known.names_or_not_mem literal with ⟨hkind, hletters⟩ | ⟨hother, hmem⟩
    · -- the letter itself, so the term stands here
      obtain ⟨term, hterm, derives⟩ := hpart (moved + gap.length)
      obtain ⟨expanded, hspelled, hexpands⟩ := ih (moved + gap.length + part.toList.length)
      rw [hletters, Text.replaceChars_singleton]
      have names : Token.Names ⟨spelling.kind, spelling.text, position + gap.length⟩ x :=
        ⟨hkind, congrArg String.ofList hletters⟩
      exact ⟨term ++ expanded, (hterm.append hspelled).append_blanks blank,
        .expand names derives hexpands⟩
    · obtain ⟨expanded, hspelled, hexpands⟩ := ih (moved + gap.length + spelling.length)
      rw [Text.replaceChars_of_not_mem _ hmem, ← List.append_assoc]
      exact ⟨_, .token blank known allowed hspelled,
        .keep (fun names => hother names.1 names.2) rfl rfl hexpands⟩

/-- An accepted text prints its formula, not only at the start of a text. -/
theorem printsAs_of_ofText {frames : Nat} (allowed : dialect.allows .literal = true)
    (h : Formula.ofText frames dialect text = .ok f) : PrintsAs dialect loosest text f := by
  intro position
  obtain ⟨tokens, hscan, derives⟩ := Recognizer.governs_formula.written_of_ofText h
  -- to put a letter in its own place moves the text and leaves the rest as it is
  have literal : Spelling.isLiteral 'p' = true := rfl
  obtain ⟨expanded, hspelled, hexpands⟩ := (Token.spelled_of_scanFrom hscan).replaceChars
    literal (printsAs_atom allowed literal) position
  have hderives := derives.substitute hexpands
  rw [Formula.substitute_self] at hderives
  rw [String.toList_singleton, Text.replaceChars_self] at hspelled
  exact ⟨expanded, hspelled, hderives⟩

/-- A text with a term in place of a letter prints the formula with that substitution. -/
theorem PrintsAs.substitute {s : Stratum} (literal : Spelling.isLiteral x = true)
    (hf : PrintsAs dialect s text f) (hpart : PrintsAs dialect .term part g) :
    PrintsAs dialect s (Text.replace x part text) (f.substitute x g) := by
  intro position
  obtain ⟨tokens, hspelled, derives⟩ := hf position
  obtain ⟨expanded, hmoved, hexpands⟩ := hspelled.replaceChars literal hpart position
  rw [Text.replace, String.toList_ofList]
  exact ⟨expanded, hmoved, derives.substitute hexpands⟩

/-- What is accepted in the classical dialect has a truth table. -/
theorem isClassical_of_ofText {frames : Nat}
    (h : Formula.ofText frames .classical text = .ok f) : f.IsClassical := by
  obtain ⟨tokens, hscan, derives⟩ := Recognizer.governs_formula.written_of_ofText h
  exact (derives.printable (Token.isOf_of_scan hscan)).isClassical

end

/-- Reading commutes with substitution: where a letter makes room for an accepted text in
parentheses, the formula of the letter makes room for that of the text. Among classical formulas
this keeps tautologies and unsatisfiable formulas what they are, by the decision and under all
valuations. -/
theorem ofText_substitute (frames : Nat) (dialect : Dialect)
    (known : dialect = .classical ∨ dialect = .modal) (text part : String) (f g : Formula)
    (name : Char) (literal : Spelling.isLiteral name = true)
    (hf : Formula.ofText frames dialect text = .ok f)
    (hg : Formula.ofText frames dialect part = .ok g) :
    (Formula.ofText frames dialect (Text.replace name ("(" ++ part ++ ")") text) =
        .ok (f.substitute name g) ∨
      Formula.ofText frames dialect (Text.replace name ("(" ++ part ++ ")") text) =
        .error (tooDeep (Text.replace name ("(" ++ part ++ ")") text))) ∧
    (dialect = .classical →
      (f.isTautology = .ok true → (f.substitute name g).isTautology = .ok true) ∧
      (f.isSatisfiable = .ok false → (f.substitute name g).isSatisfiable = .ok false) ∧
      ((∀ v, f.truth v = true) → ∀ v, (f.substitute name g).truth v = true) ∧
      ((∀ v, f.truth v = false) → ∀ v, (f.substitute name g).truth v = false)) := by
  constructor
  · have allowed : dialect.allows .literal = true ∧ dialect.allows .leftParen = true ∧
        dialect.allows .rightParen = true := by
      rcases known with rfl | rfl <;> decide
    have hgroup := (printsAs_of_ofText allowed.1 hg).group allowed.2.1 allowed.2.2
    exact Reading.ofText_of_printsAs frames
      ((printsAs_of_ofText allowed.1 hf).substitute literal hgroup)
  · rintro rfl
    have classical := isClassical_of_ofText hf
    have classical' := isClassical_of_ofText hg
    exact ⟨Formula.isTautology_substitute classical classical' name,
      Formula.isSatisfiable_substitute classical classical' name,
      fun h => Formula.truth_substitute_of_forall h name g,
      fun h => Formula.truth_substitute_of_forall h name g⟩

def reflexive : Formula := .binary .conditional (.atom 'p') (.atom 'p')

def unequal : Formula := .binary .conjunction (.atom 'q') (.unary .negation (.atom 'r'))

/-- The letter is replaced at once on both sides, where no parentheses were before. -/
theorem ofText_substitute_reflexive :
    Formula.ofText 1000 .classical "p->p" = .ok reflexive ∧
    Formula.ofText 1000 .classical "q ^ ~r" = .ok unequal ∧
    Text.replace 'p' ("(" ++ "q ^ ~r" ++ ")") "p->p" = "(q ^ ~r)->(q ^ ~r)" ∧
    Formula.ofText 1000 .classical "(q ^ ~r)->(q ^ ~r)" = .ok (reflexive.substitute 'p' unequal) ∧
    (reflexive.substitute 'p' unequal).isTautology = .ok true := by
  have hread : Formula.ofText 1000 .classical "p->p" = .ok reflexive := by cbv
  have hpart : Formula.ofText 1000 .classical "q ^ ~r" = .ok unequal := by cbv
  have hreplaced : Text.replace 'p' ("(" ++ "q ^ ~r" ++ ")") "p->p" = "(q ^ ~r)->(q ^ ~r)" := by cbv
  have haccepted : (Formula.ofText 1000 .classical "(q ^ ~r)->(q ^ ~r)").isOk = true := by cbv
  have htautology : reflexive.isTautology = .ok true := by cbv
  obtain ⟨hsubstituted, hkept⟩ :=
    ofText_substitute 1000 .classical (.inl rfl) _ _ _ _ 'p' rfl hread hpart
  rw [hreplaced] at hsubstituted
  rcases hsubstituted with hok | hdeep
  · exact ⟨hread, hpart, hreplaced, hok, (hkept rfl).1 htautology⟩
  · rw [hdeep] at haccepted
    cases haccepted

end Turnstile
