import Mathlib
import Turnstile.Proofs.Reading.Sequent

/-! Sequents cut by hand. No formula contains a comma or a judgment, so the tokens of a sequent
are cut in one way at its judgment and at the commas before it; reading the sequent is reading
the parts. -/
namespace Turnstile

/-- A token that may stand in a formula, which contains no comma and no judgment. -/
def Token.IsInner (token : Token) : Prop :=
  token.kind ≠ .comma ∧ token.kind.judgment? = none

section

variable {tokens part before after before' after' : List Token} {token : Token}
  {j j' : Judgment}

theorem commaParts_append_comma {comma : Token} {rest : List Token} (hcomma : comma.kind = .comma)
    (inner : ∀ token ∈ tokens, token.IsInner) :
    commaParts (tokens ++ comma :: rest) = tokens :: commaParts rest := by
  apply List.splitOnP_append_cons_of_forall_mem
  · intro token hmem
    exact decide_eq_false (inner token hmem).1
  · exact decide_eq_true hcomma

theorem commaParts_of_isInner (inner : ∀ token ∈ tokens, token.IsInner) :
    commaParts tokens = [tokens] :=
  List.splitOnP_eq_singleton fun token hmem => decide_eq_false (inner token hmem).1

theorem commaParts_cons (token : Token) (rest : List Token) :
    commaParts (token :: rest) = if token.kind = .comma then [] :: commaParts rest
      else (commaParts rest).modifyHead (token :: ·) := by
  simp [commaParts, List.splitOnP_cons_eq_if_modifyHead]

theorem mem_of_mem_commaParts (hpart : part ∈ commaParts tokens) (hmem : token ∈ part) :
    token ∈ tokens := by
  induction tokens generalizing part with
  | nil =>
    obtain rfl := List.mem_singleton.mp hpart
    exact hmem
  | cons first rest ih =>
    rw [commaParts_cons] at hpart
    split at hpart
    · rcases List.mem_cons.mp hpart with rfl | hpart
      · cases hmem
      · exact List.mem_cons_of_mem first (ih hpart hmem)
    · cases hparts : commaParts rest with
      | nil => simp [hparts] at hpart
      | cons head tail =>
        rw [hparts] at ih hpart
        rcases List.mem_cons.mp hpart with rfl | hpart
        · rcases List.mem_cons.mp hmem with rfl | hmem
          · exact List.mem_cons_self
          · exact List.mem_cons_of_mem first (ih List.mem_cons_self hmem)
        · exact List.mem_cons_of_mem first (ih (List.mem_cons_of_mem head hpart) hmem)

namespace Sequent

theorem CutAt.takeWhile (h : CutAt tokens before j after) :
    tokens.takeWhile (fun token => token.kind.judgment?.isNone) = before := by
  obtain ⟨⟨token, hkind, rfl⟩, only⟩ := h
  obtain ⟨hbefore, -⟩ := List.forall_mem_append.mp only
  have hall : ∀ token ∈ before, token.kind.judgment?.isNone = true :=
    fun token hmem => by rw [hbefore token hmem]; rfl
  rw [List.takeWhile_append_of_pos hall]
  simp [hkind, Kind.judgment?]

/-- Tokens are cut in one way at most. -/
theorem CutAt.unique (h : CutAt tokens before j after) (h' : CutAt tokens before' j' after') :
    before = before' ∧ j = j' ∧ after = after' := by
  have hbefore : before = before' := h.takeWhile.symm.trans h'.takeWhile
  obtain ⟨⟨token, hkind, rfl⟩, -⟩ := h
  obtain ⟨⟨token', hkind', heq⟩, -⟩ := h'
  rw [hbefore, List.append_cancel_left_eq, List.cons.injEq] at heq
  obtain ⟨rfl, rfl⟩ := heq
  exact ⟨hbefore, Kind.judgment.inj (hkind.symm.trans hkind'), rfl⟩

theorem CutAt.mem_of_mem_part (h : CutAt tokens before j after)
    (hpart : part ∈ after :: givenParts before) (hmem : token ∈ part) : token ∈ tokens := by
  obtain ⟨⟨judgment, -, rfl⟩, -⟩ := h
  rw [List.mem_append, List.mem_cons]
  rcases List.mem_cons.mp hpart with rfl | hpart
  · exact .inr (.inr hmem)
  · unfold givenParts at hpart
    split at hpart
    · cases hpart
    · exact .inl (mem_of_mem_commaParts hpart hmem)

end Sequent

end

namespace Grammar

variable {tokens : List Token} {f : Formula} {fs : List Formula} {s s' : Sequent}

theorem Derives.isInner {stratum : Stratum} (h : Derives stratum tokens f) :
    ∀ token ∈ tokens, token.IsInner := by
  have inner {token : Token} {kind : Kind} (hkind : token.kind = kind) (hcomma : kind ≠ .comma)
      (hjudgment : kind.judgment? = none) : token.IsInner := by
    subst hkind
    exact ⟨hcomma, hjudgment⟩
  induction h with
  | lift _ ih => exact ih
  | joinLeft _ hkind _ _ ihl ihr =>
    exact List.forall_mem_append.mpr ⟨ihl, List.forall_mem_cons.mpr ⟨inner hkind nofun rfl, ihr⟩⟩
  | joinRight hkind _ _ ihl ihr =>
    exact List.forall_mem_append.mpr ⟨ihl, List.forall_mem_cons.mpr ⟨inner hkind nofun rfl, ihr⟩⟩
  | unary hkind _ ih => exact List.forall_mem_cons.mpr ⟨inner hkind nofun rfl, ih⟩
  | group hfirst hlast _ ih =>
    refine List.forall_mem_append.mpr ⟨?_, ?_⟩
    · exact List.forall_mem_cons.mpr ⟨inner hfirst nofun rfl, ih⟩
    · exact List.forall_mem_singleton.mpr (inner hlast nofun rfl)
  | literal hkind => exact List.forall_mem_singleton.mpr (inner hkind nofun rfl)

theorem modifyHead_nil_append (parts : List (List Token)) :
    parts.modifyHead ([] ++ ·) = parts := by
  cases parts <;> rfl

/-- Parts that derive formulas derive them in the whole, with tokens before the first part. -/
theorem derivesList_of_parts (before : List Token)
    (h : List.Forall₂ (Derives loosest) ((commaParts tokens).modifyHead (before ++ ·)) fs) :
    DerivesList (before ++ tokens) fs := by
  induction tokens generalizing before fs with
  | nil =>
    obtain ⟨f, _, derives, hnil, rfl⟩ := List.forall₂_cons_left_iff.mp h
    cases hnil
    exact .single derives
  | cons token rest ih =>
    rw [commaParts_cons] at h
    by_cases hcomma : token.kind = .comma
    · rw [if_pos hcomma] at h
      obtain ⟨f, fs, derives, hrest, rfl⟩ := List.forall₂_cons_left_iff.mp h
      have hbefore : Derives loosest before f := by simpa using derives
      rw [← modifyHead_nil_append (commaParts rest)] at hrest
      exact .cons hcomma hbefore (ih [] hrest)
    · rw [if_neg hcomma, List.modifyHead_modifyHead] at h
      have hmore := ih (before ++ [token]) (by simpa [Function.comp_def] using h)
      simpa using hmore

/-- Formulas with commas between them are the formulas of the parts. -/
theorem derivesList_iff_forall₂ :
    DerivesList tokens fs ↔ List.Forall₂ (Derives loosest) (commaParts tokens) fs := by
  constructor
  · intro h
    induction h with
    | single derives =>
      rw [commaParts_of_isInner derives.isInner]
      exact .cons derives .nil
    | cons hcomma derives _ ih =>
      rw [commaParts_append_comma hcomma derives.isInner]
      exact .cons derives ih
  · intro h
    apply derivesList_of_parts []
    rwa [modifyHead_nil_append]

theorem DerivesList.no_judgment (h : DerivesList tokens fs) :
    ∀ token ∈ tokens, token.kind.judgment? = none := by
  induction h with
  | single derives => exact fun token hmem => (derives.isInner token hmem).2
  | cons hcomma derives _ ih =>
    refine List.forall_mem_append.mpr ⟨fun token hmem => (derives.isInner token hmem).2, ?_⟩
    exact List.forall_mem_cons.mpr ⟨by rw [hcomma]; rfl, ih⟩

/-- A sequent is a formula behind the only judgment, and one for every part before it. -/
theorem derivesSequent_iff_cut :
    DerivesSequent tokens s ↔ ∃ before j after, Sequent.CutAt tokens before j after ∧
      s.judgment = some j ∧ Derives loosest after s.conclusion ∧
      List.Forall₂ (Derives loosest) (Sequent.givenParts before) s.assumptions := by
  constructor
  · intro h
    cases h with
    | @bare after token j f hkind derives =>
      refine ⟨[], j, after, ⟨⟨token, hkind, rfl⟩, ?_⟩, rfl, derives, .nil⟩
      exact fun token hmem => (derives.isInner token hmem).2
    | @under given after token j fs f hkind hgiven derives =>
      refine ⟨given, j, after, ⟨⟨token, hkind, rfl⟩, ?_⟩, rfl, derives, ?_⟩
      · exact List.forall_mem_append.mpr
          ⟨hgiven.no_judgment, fun token hmem => (derives.isInner token hmem).2⟩
      · rw [Sequent.givenParts, if_neg hgiven.ne_nil]
        exact derivesList_iff_forall₂.mp hgiven
  · obtain ⟨judgment, fs, f⟩ := s
    rintro ⟨before, j, after, ⟨⟨token, hkind, rfl⟩, -⟩, rfl, derives, hgiven⟩
    by_cases hbefore : before = []
    · subst hbefore
      cases hgiven
      exact .bare hkind derives
    · rw [Sequent.givenParts, if_neg hbefore] at hgiven
      exact .under hkind (derivesList_iff_forall₂.mpr hgiven) derives

/-- No tokens write two sequents. -/
theorem DerivesSequent.unique (h : DerivesSequent tokens s) (h' : DerivesSequent tokens s') :
    s = s' := by
  obtain ⟨before, j, after, hcut, hjudgment, hconclusion, hgiven⟩ := derivesSequent_iff_cut.mp h
  obtain ⟨before', j', after', hcut', hjudgment', hconclusion', hgiven'⟩ :=
    derivesSequent_iff_cut.mp h'
  obtain ⟨rfl, rfl, rfl⟩ := hcut.unique hcut'
  have hunique : Relator.RightUnique (Derives loosest) := fun _ _ _ => Derives.unique
  have hfs := List.right_unique_forall₂' hunique hgiven hgiven'
  have hf := hconclusion.unique hconclusion'
  obtain ⟨judgment, fs, f⟩ := s
  obtain ⟨judgment', fs', f'⟩ := s'
  dsimp only at hjudgment hjudgment' hfs hf
  rw [hjudgment, hjudgment', hfs, hf]

end Grammar

namespace Reading

open Grammar

variable {frames : Nat} {source : String} {tokens : List Token}

/-- A part of a text is read as just what it derives. -/
theorem formula_ofTokens_eq_ok_iff (named : ∀ token ∈ tokens, token.Named)
    (shallow : Formula.ofTokens frames source tokens ≠ .error (tooDeep source)) (f : Formula) :
    Formula.ofTokens frames source tokens = .ok f ↔ Derives loosest tokens f := by
  by_cases hempty : tokens = []
  · subst hempty
    exact iff_of_false nofun fun derives => derives.ne_nil rfl
  · exact ofTokens_eq_ok_iff hempty (complete_formula_ends frames named)
      (fun _ derives => derives.accepts) (fun _ _ => Derives.unique) shallow f

/-- A text is read as just the sequent that its tokens write. -/
theorem sequent_ofText_eq_ok_iff (scanned : Token.scan .modal source = .ok tokens)
    (nonempty : tokens ≠ [])
    (shallow : Sequent.ofText frames .modal source ≠ .error (tooDeep source)) (s : Sequent) :
    Sequent.ofText frames .modal source = .ok s ↔ DerivesSequent tokens s := by
  rw [Sequent.ofText, ofText_eq_ofTokens scanned] at shallow ⊢
  exact ofTokens_eq_ok_iff nonempty (sequent_ends frames (named_start scanned) nonempty)
    (fun _ h => h.accepts) (fun _ _ => DerivesSequent.unique) shallow s

theorem map_ofTokens_eq_iff {parts : List (List Token)} {fs : List Formula}
    (h : ∀ part ∈ parts, ∀ f,
      Formula.ofTokens frames source part = .ok f ↔ Derives loosest part f) :
    parts.map (Formula.ofTokens frames source) = fs.map .ok ↔
      List.Forall₂ (Derives loosest) parts fs := by
  induction parts generalizing fs with
  | nil => simp [eq_comm]
  | cons part rest ih =>
    obtain ⟨hpart, hrest⟩ := List.forall_mem_cons.mp h
    cases fs with
    | nil => simp
    | cons f fs => simp [hpart, ih hrest]

end Reading

open Grammar Reading

/-- Reading a sequent is cutting it at its only judgment and at the commas before that, and
reading every part as a formula. -/
theorem ofText_eq_ok_iff_cut (frames : Nat) (source : String) (tokens : List Token)
    (scanned : Token.scan .modal source = .ok tokens) (nonempty : tokens ≠ [])
    (shallow : Sequent.ofText frames .modal source ≠ .error (tooDeep source))
    (shallowParts : ∀ before j after, Sequent.CutAt tokens before j after →
      ∀ part ∈ after :: Sequent.givenParts before,
        Formula.ofTokens frames source part ≠ .error (tooDeep source)) (s : Sequent) :
    Sequent.ofText frames .modal source = .ok s ↔
      ∃ before j after, Sequent.CutAt tokens before j after ∧ s.judgment = some j ∧
        Formula.ofTokens frames source after = .ok s.conclusion ∧
        (Sequent.givenParts before).map (Formula.ofTokens frames source) =
          s.assumptions.map .ok := by
  rw [sequent_ofText_eq_ok_iff scanned nonempty shallow, derivesSequent_iff_cut]
  refine exists_congr fun before => exists_congr fun j => exists_congr fun after =>
    and_congr_right fun hcut => and_congr_right fun _ => ?_
  have hparts : ∀ part ∈ after :: Sequent.givenParts before, ∀ f,
      Formula.ofTokens frames source part = .ok f ↔ Derives loosest part f := by
    intro part hpart
    have named : ∀ token ∈ part, token.Named := fun token hmem =>
      named_start scanned token (hcut.mem_of_mem_part hpart hmem)
    exact formula_ofTokens_eq_ok_iff named (shallowParts before j after hcut part hpart)
  obtain ⟨hafter, hgiven⟩ := List.forall_mem_cons.mp hparts
  rw [hafter, map_ofTokens_eq_iff hgiven]

def entailmentText : String := "(p -> q), ~q |/- []p"

def entailmentGiven : List Token :=
  [⟨.leftParen, "(", 0⟩, ⟨.literal, "p", 1⟩, ⟨.binary .conditional, "->", 3⟩,
    ⟨.literal, "q", 6⟩, ⟨.rightParen, ")", 7⟩, ⟨.comma, ",", 8⟩, ⟨.unary .negation, "~", 10⟩,
    ⟨.literal, "q", 11⟩]

def entailmentConclusion : List Token :=
  [⟨.unary (.modal .necessity), "[]", 17⟩, ⟨.literal, "p", 19⟩]

def entailmentTokens : List Token :=
  entailmentGiven ++ ⟨.judgment .doesNotProve, "|/-", 13⟩ :: entailmentConclusion

def entailment : Sequent where
  judgment := some .doesNotProve
  assumptions := [.binary .conditional (.atom 'p') (.atom 'q'), .unary .negation (.atom 'q')]
  conclusion := .unary (.modal .necessity) (.atom 'p')

theorem cutAt_entailment :
    Sequent.CutAt entailmentTokens entailmentGiven .doesNotProve entailmentConclusion :=
  ⟨⟨_, rfl, rfl⟩, by decide⟩

/-- Two assumptions, one of them in parentheses, are cut from a sequent and read alone. -/
theorem cut_entailment :
    Sequent.ofText 1000 .modal entailmentText = .ok entailment ∧
    ∃ before j after, Sequent.CutAt entailmentTokens before j after ∧
      entailment.judgment = some j ∧
      Formula.ofTokens 1000 entailmentText after = .ok entailment.conclusion ∧
      (Sequent.givenParts before).map (Formula.ofTokens 1000 entailmentText) =
        entailment.assumptions.map .ok := by
  have hscan : Token.scan .modal entailmentText = .ok entailmentTokens := by cbv
  have hread : Sequent.ofText 1000 .modal entailmentText = .ok entailment := by cbv
  have hgiven : (Sequent.givenParts entailmentGiven).map
      (Formula.ofTokens 1000 entailmentText) = entailment.assumptions.map .ok := by cbv
  have hconclusion : Formula.ofTokens 1000 entailmentText entailmentConclusion =
      .ok entailment.conclusion := by cbv
  have hshallow : Sequent.ofText 1000 .modal entailmentText ≠ .error (tooDeep entailmentText) := by
    rw [hread]
    intro h
    cases h
  refine ⟨hread, (ofText_eq_ok_iff_cut 1000 entailmentText entailmentTokens hscan (by decide)
    hshallow ?_ entailment).mp hread⟩
  intro before j after hcut part hpart
  obtain ⟨rfl, rfl, rfl⟩ := hcut.unique cutAt_entailment
  rcases List.mem_cons.mp hpart with rfl | hpart
  · rw [hconclusion]
    intro h
    cases h
  · have hmem := List.mem_map_of_mem (f := Formula.ofTokens 1000 entailmentText) hpart
    rw [hgiven] at hmem
    obtain ⟨f, -, hf⟩ := List.mem_map.mp hmem
    rw [← hf]
    intro h
    cases h

end Turnstile
