import Turnstile.Proofs.Reading.Ends
import Turnstile.Token.Spelled

/-! Scanning and spelling. No spelling begins another one, so at most one stands at any place of
a text; hence what is written as tokens is scanned as just those tokens, and what is scanned
was written so. -/
namespace Turnstile

namespace Spelling

theorem symbols_prefix_free : ∀ s ∈ symbols, ∀ t ∈ symbols, t.letters <+: s.letters → t = s := by
  decide

theorem kind_ne_literal_of_mem_symbols : ∀ s ∈ symbols, s.kind ≠ .literal := by
  decide

theorem not_isLiteral_of_mem_symbols :
    ∀ s ∈ symbols, ∀ c ∈ s.letters, isLiteral c = false := by
  simp [symbols, letters, isLiteral]

theorem not_isBlank_of_mem_symbols :
    ∀ s ∈ symbols, ∀ c ∈ s.letters, Text.isBlank c = false := by
  simp [symbols, letters, Text.isBlank]

theorem opens_iff (s : Spelling) (cs : List Char) : s.opens cs = true ↔ s.letters <+: cs :=
  List.isPrefixOf_iff_prefix

theorem found_in_symbols {cs : List Char} {s : Spelling}
    (h : symbols.find? (fun s => s.opens cs) = some s) : s ∈ symbols ∧ s.letters <+: cs := by
  have hopens := List.find?_some h
  exact ⟨List.mem_of_find?_eq_some h, (opens_iff s cs).mp hopens⟩

theorem letters_append_drop {s : Spelling} {c : Char} {rest : List Char}
    (h : s.letters <+: c :: rest) : s.letters ++ rest.drop s.others.length = c :: rest := by
  obtain ⟨more, hmore⟩ := h
  simp only [letters, List.cons_append, List.cons.injEq] at hmore ⊢
  obtain ⟨hc, hrest⟩ := hmore
  rw [← hrest, List.drop_left, hc]
  exact ⟨rfl, rfl⟩

theorem isBlank_of_isLiteral {c : Char} (h : isLiteral c = true) : Text.isBlank c = false := by
  simp only [isLiteral, Bool.and_eq_true, decide_eq_true_eq, Char.le_def,
    UInt32.le_iff_toNat_le] at h
  obtain ⟨⟨hlow, hhigh⟩, -⟩ := h
  change 97 ≤ c.toNat at hlow
  change c.toNat ≤ 122 at hhigh
  simp only [Text.isBlank, Bool.or_eq_false_iff, Bool.and_eq_false_iff, decide_eq_false_iff_not,
    beq_eq_false_iff_ne]
  omega

theorem IsKnown.not_blank {s : Spelling} (h : s.IsKnown) :
    ∀ c ∈ s.letters, Text.isBlank c = false := by
  rcases h with hmem | ⟨-, hothers, hliteral⟩
  · exact not_isBlank_of_mem_symbols s hmem
  · simpa [letters, hothers] using isBlank_of_isLiteral hliteral

theorem IsKnown.first_not_blank {s : Spelling} (h : s.IsKnown) :
    Text.isBlank s.first = false :=
  h.not_blank s.first List.mem_cons_self

theorem exists_isKnown (kind : Kind) : ∃ s : Spelling, s.IsKnown ∧ s.kind = kind := by
  by_cases hliteral : kind = .literal
  · exact ⟨⟨'p', [], .literal⟩, .inr ⟨rfl, rfl, rfl⟩, hliteral.symm⟩
  · have hsymbols : ∀ kind ∈ Kind.all, kind ≠ .literal → ∃ s ∈ symbols, s.kind = kind := by decide
    obtain ⟨s, hmem, hkind⟩ := hsymbols kind kind.mem_all hliteral
    exact ⟨s, .inl hmem, hkind⟩

/-- The spelling that a text begins with is the one that is found. -/
theorem IsKnown.atStart?_append {s : Spelling} (h : s.IsKnown) (rest : List Char) :
    atStart? (s.letters ++ rest) = some s := by
  have hself : s.letters <+: s.letters ++ rest := List.prefix_append _ _
  cases hfind : symbols.find? (fun t => t.opens (s.letters ++ rest)) with
  | some t =>
    obtain ⟨hmem, hopens⟩ := found_in_symbols hfind
    simp only [atStart?, hfind]
    rcases h with hs | ⟨-, hothers, hliteral⟩
    · -- both spellings begin the text, so one of them begins the other
      rcases List.prefix_or_prefix_of_prefix hopens hself with hp | hp
      · exact congrArg some (symbols_prefix_free s hs t hmem hp)
      · exact congrArg some (symbols_prefix_free t hmem s hs hp).symm
    · have hfirst : t.first = s.first := (List.cons_prefix_cons.mp hopens).1
      have hnot := not_isLiteral_of_mem_symbols t hmem t.first List.mem_cons_self
      rw [hfirst, hliteral] at hnot
      cases hnot
  | none =>
    simp only [atStart?, hfind]
    rcases h with hs | ⟨hkind, hothers, hliteral⟩
    · have hnot := List.find?_eq_none.mp hfind s hs
      exact absurd ((opens_iff s _).mpr hself) hnot
    · obtain ⟨first, others, kind⟩ := s
      subst hkind hothers
      simp only [letters, List.cons_append, hliteral, if_true]

theorem isKnown_of_atStart? {cs : List Char} {s : Spelling} (h : atStart? cs = some s) :
    s.IsKnown ∧ s.letters <+: cs := by
  unfold atStart? at h
  split at h
  · next t hfind =>
    cases h
    obtain ⟨hmem, hopens⟩ := found_in_symbols hfind
    exact ⟨.inl hmem, hopens⟩
  · next hfind =>
    cases cs with
    | nil => cases h
    | cons c rest =>
      dsimp only at h
      by_cases hc : isLiteral c = true
      · rw [if_pos hc] at h
        cases h
        exact ⟨.inr ⟨rfl, rfl, hc⟩, List.cons_prefix_cons.mpr ⟨rfl, List.nil_prefix⟩⟩
      · rw [if_neg hc] at h
        cases h

end Spelling

namespace Token

variable {dialect dialect' : Dialect} {source : String} {position : Nat}
  {cs rest gap : List Char} {tokens : List Token}

theorem Spelled.cons_blank {c : Char} (hblank : Text.isBlank c = true)
    (h : Spelled dialect (position + 1) cs tokens) :
    Spelled dialect position (c :: cs) tokens := by
  have hgap {gap : List Char} (blank : ∀ c ∈ gap, Text.isBlank c = true) :
      ∀ d ∈ c :: gap, Text.isBlank d = true := by
    intro d hd
    rcases List.mem_cons.mp hd with rfl | hd
    · exact hblank
    · exact blank d hd
  cases h with
  | blanks blank => exact .blanks (hgap blank)
  | @token _ gap rest spelling tokens blank known allowed later =>
    have hposition : position + 1 + gap.length = position + (c :: gap).length := by
      rw [List.length_cons]
      omega
    rw [hposition] at later ⊢
    exact .token (hgap blank) known allowed later

theorem Spelled.spelling {spelling : Spelling} (known : spelling.IsKnown)
    (allowed : dialect.allows spelling.kind = true)
    (later : Spelled dialect (position + spelling.length) rest tokens) :
    Spelled dialect position (spelling.letters ++ rest)
      (⟨spelling.kind, spelling.text, position⟩ :: tokens) :=
  @Spelled.token dialect position [] rest spelling tokens nofun known allowed later

/-- What is scanned was spelled. -/
theorem spelled_of_scanFrom (h : scanFrom dialect source position cs = .ok tokens) :
    Spelled dialect position cs tokens := by
  fun_induction scanFrom dialect source position cs generalizing tokens with
  | case1 position =>
    cases h
    exact .blanks (fun _ hmem => absurd hmem List.not_mem_nil)
  | case2 position c rest hblank ih => exact .cons_blank hblank (ih h)
  | case3 => cases h
  | case4 position c rest hblank spelling hstart hallowed ih =>
    obtain ⟨known, hprefix⟩ := Spelling.isKnown_of_atStart? hstart
    cases hrest : scanFrom dialect source (position + spelling.length)
        (rest.drop spelling.others.length) with
    | error e => rw [hrest] at h; cases h
    | ok later =>
      rw [hrest] at h
      cases h
      rw [← Spelling.letters_append_drop hprefix]
      exact .spelling known hallowed (ih hrest)
  | case5 => cases h

theorem scanFrom_blank {c : Char} (hblank : Text.isBlank c = true) :
    scanFrom dialect source position (c :: rest) =
      scanFrom dialect source (position + 1) rest := by
  rw [scanFrom, if_pos hblank]

theorem scanFrom_gap (blank : ∀ c ∈ gap, Text.isBlank c = true) (position : Nat) :
    scanFrom dialect source position (gap ++ rest) =
      scanFrom dialect source (position + gap.length) rest := by
  induction gap generalizing position with
  | nil => rfl
  | cons c gap ih =>
    have hblank := blank c List.mem_cons_self
    have hgap := ih (fun d hd => blank d (List.mem_cons_of_mem c hd)) (position + 1)
    have hposition : position + 1 + gap.length = position + (c :: gap).length := by
      rw [List.length_cons]
      omega
    rw [List.cons_append, scanFrom_blank hblank, hgap, hposition]

theorem scanFrom_spelling {spelling : Spelling} (known : spelling.IsKnown)
    (allowed : dialect.allows spelling.kind = true)
    (later : scanFrom dialect source (position + spelling.length) rest = .ok tokens) :
    scanFrom dialect source position (spelling.letters ++ rest) =
      .ok (⟨spelling.kind, spelling.text, position⟩ :: tokens) := by
  have hstart := known.atStart?_append rest
  have hdrop : (spelling.others ++ rest).drop spelling.others.length = rest := List.drop_left
  simp only [Spelling.letters, List.cons_append] at hstart ⊢
  rw [scanFrom, if_neg (by simp [known.first_not_blank]), hstart]
  simp only [allowed, if_true, hdrop, later]
  rfl

/-- What is spelled is scanned. -/
theorem Spelled.scanFrom_eq (h : Spelled dialect position cs tokens) (source : String) :
    scanFrom dialect source position cs = .ok tokens := by
  induction h with
  | @blanks position gap blank =>
    rw [← List.append_nil gap, scanFrom_gap blank, scanFrom]
  | token blank known allowed _ ih =>
    rw [List.append_assoc, scanFrom_gap blank]
    exact scanFrom_spelling known allowed ih

theorem Spelled.of_allows (h : Spelled dialect position cs tokens)
    (allowed : ∀ token ∈ tokens, dialect'.allows token.kind = true) :
    Spelled dialect' position cs tokens := by
  induction h with
  | blanks blank => exact .blanks blank
  | token blank known _ _ ih =>
    obtain ⟨hfirst, hlater⟩ := List.forall_mem_cons.mp allowed
    exact .token blank known hfirst (ih hlater)

/-- A dialect that allows the tokens of a text has the same tokens for it. -/
theorem scan_of_allows (h : scan dialect source = .ok tokens)
    (allowed : ∀ token ∈ tokens, dialect'.allows token.kind = true) :
    scan dialect' source = .ok tokens :=
  ((spelled_of_scanFrom h).of_allows allowed).scanFrom_eq source

/-- Just the blank texts have no tokens. -/
theorem scan_eq_nil_iff :
    scan dialect source = .ok [] ↔ ∀ c ∈ source.toList, Text.isBlank c = true := by
  constructor
  · intro scanned
    have hspelled := spelled_of_scanFrom scanned
    generalize source.toList = cs at hspelled ⊢
    cases hspelled with
    | blanks blank => exact blank
  · intro blank
    exact (Spelled.blanks blank).scanFrom_eq source

/-- A token that the texts of a dialect can hold. -/
def IsOf (dialect : Dialect) (token : Token) : Prop :=
  ∃ spelling : Spelling, spelling.IsKnown ∧ dialect.allows spelling.kind = true ∧
    token.kind = spelling.kind ∧ token.text = spelling.text

theorem IsOf.named {token : Token} (h : token.IsOf dialect) : token.Named := by
  obtain ⟨spelling, known, -, hkind, htext⟩ := h
  intro hliteral
  rcases known with hmem | ⟨-, hothers, -⟩
  · exact absurd (hkind.symm.trans hliteral) (Spelling.kind_ne_literal_of_mem_symbols _ hmem)
  · refine ⟨spelling.first, ?_⟩
    rw [htext, Spelling.text, Spelling.letters, hothers]
    rfl

/-- Every kind that a dialect allows has tokens. -/
theorem exists_isOf {kind : Kind} (allowed : dialect.allows kind = true) :
    ∃ token : Token, token.IsOf dialect ∧ token.kind = kind := by
  obtain ⟨spelling, known, rfl⟩ := Spelling.exists_isKnown kind
  exact ⟨⟨_, _, 0⟩, ⟨spelling, known, allowed, rfl, rfl⟩, rfl⟩

theorem Spelled.isOf (h : Spelled dialect position cs tokens) :
    ∀ token ∈ tokens, token.IsOf dialect := by
  induction h with
  | blanks => exact fun _ hmem => absurd hmem List.not_mem_nil
  | token _ known allowed _ ih =>
    intro token hmem
    rcases List.mem_cons.mp hmem with rfl | hmem
    · exact ⟨_, known, allowed, rfl, rfl⟩
    · exact ih token hmem

theorem isOf_of_scan (h : scan dialect source = .ok tokens) :
    ∀ token ∈ tokens, token.IsOf dialect := (spelled_of_scanFrom h).isOf

end Token

end Turnstile
