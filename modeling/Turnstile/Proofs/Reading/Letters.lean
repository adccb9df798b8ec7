import Turnstile.Proofs.Reading.Substitution

/-! The letters of a text. A letter that can name a variable is a token wherever it stands in a
text, and every token of a literal is such a letter; so what the tokens write mentions just the
letters of the text. -/
namespace Turnstile

variable {dialect : Dialect} {text : String} {position : Nat} {cs : List Char} {c : Char}
  {tokens : List Token} {f : Formula}

namespace Token

variable {token : Token} {name : Char}

theorem not_names {kind : Kind} (hkind : token.kind = kind) (other : kind ≠ .literal) :
    ¬ token.Names c := fun hnames => other (hkind.symm.trans hnames.1)

theorem names_iff_of_literal (hkind : token.kind = .literal)
    (htext : token.text = String.singleton name) : token.Names c ↔ c = name := by
  rw [Names, and_iff_right hkind, htext, String.singleton_inj, eq_comm]

end Token

/-- The spelling that names a variable is its letter. -/
theorem Spelling.IsKnown.names_iff {s : Spelling} (h : s.IsKnown) (position : Nat) :
    Token.Names ⟨s.kind, s.text, position⟩ c ↔ c ∈ s.letters ∧ isLiteral c = true := by
  by_cases hliteral : isLiteral c = true
  · rw [Token.Names, and_iff_left hliteral]
    rcases h.names_or_not_mem hliteral with ⟨hkind, hletters⟩ | ⟨hother, hmem⟩
    · refine iff_of_true ⟨hkind, ?_⟩ (by simp [hletters])
      rw [text, hletters]
      rfl
    · exact iff_of_false (fun hnames => hother hnames.1 hnames.2) hmem
  · refine iff_of_false (fun hnames => hliteral ?_) fun hboth => hliteral hboth.2
    have hof : Token.IsOf ⟨"", [s.kind]⟩ ⟨s.kind, s.text, position⟩ :=
      ⟨s, h, by simp [Dialect.allows], rfl, rfl⟩
    exact hof.isLiteral hnames.1 hnames.2

/-- Just the letters of a text that can name variables are named by its tokens. -/
theorem Token.Spelled.names_iff (h : Spelled dialect position cs tokens) (c : Char) :
    (∃ token ∈ tokens, token.Names c) ↔ c ∈ cs ∧ Spelling.isLiteral c = true := by
  induction h with
  | blanks blank =>
    refine iff_of_false (by simp) ?_
    rintro ⟨hmem, hliteral⟩
    exact not_mem_of_blank hliteral blank hmem
  | @token position gap rest spelling tokens blank known _ _ ih =>
    rw [List.exists_mem_cons_iff, known.names_iff, or_congr_right ih, List.mem_append,
      List.mem_append]
    by_cases hliteral : Spelling.isLiteral c = true
    · simp [hliteral, not_mem_of_blank hliteral blank]
    · simp [hliteral]

namespace Grammar

/-- What tokens derive mentions just the names of their literals. -/
theorem Derives.mentions_iff {stratum : Stratum} (h : Derives stratum tokens f) (c : Char) :
    f.Mentions c ↔ ∃ token ∈ tokens, token.Names c := by
  induction h with
  | lift _ ih => exact ih
  | joinLeft _ hkind _ _ ihl ihr =>
    simp [ihl, ihr, or_and_right, exists_or, Token.not_names hkind (by simp)]
  | joinRight hkind _ _ ihl ihr =>
    simp [ihl, ihr, or_and_right, exists_or, Token.not_names hkind (by simp)]
  | unary hkind _ ih => simp [ih, Token.not_names hkind (by simp)]
  | group hfirst hlast _ ih =>
    simp [ih, or_and_right, exists_or, Token.not_names hfirst (by simp),
      Token.not_names hlast (by simp)]
  | literal hkind htext => simp [Token.names_iff_of_literal hkind htext]

theorem DerivesPolish.mentions_iff (h : DerivesPolish tokens f) (c : Char) :
    f.Mentions c ↔ ∃ token ∈ tokens, token.Names c := by
  induction h using DerivesPolish.induct with
  | literal hkind htext => simp [Token.names_iff_of_literal hkind htext]
  | negation hkind _ ih => simp [ih, Token.not_names hkind (by simp)]
  | connective hkind _ _ ihl ihr =>
    simp [ihl, ihr, or_and_right, exists_or, Token.not_names hkind (by simp)]

end Grammar

/-- A formula that is read from a text mentions just the letters of the text. -/
theorem Form.Writes.mentions_iff {form : Form} (h : form.Writes tokens (.formula f))
    (scanned : Token.scan dialect text = .ok tokens) (c : Char) :
    f.Mentions c ↔ c ∈ text.toList ∧ Spelling.isLiteral c = true := by
  rw [← (Token.spelled_of_scanFrom scanned).names_iff c]
  cases h with
  | formula derives => exact derives.mentions_iff c
  | polish derives => exact derives.mentions_iff c

end Turnstile
