import Turnstile.Proofs.Reading.Earliest
import Turnstile.Reading.Respelling

/-! Reading looks at the kinds of tokens and at names only. The readings of two texts, one a
respelling of the other, are followed side by side: from cursors before the same token they end
before the same token with the same value, or with faults that are alike. Every operation on a
cursor has one rule, and the readings are put together from the rules as they are from the
operations. -/
namespace Turnstile

open Reading

namespace Respelling

variable {R : Respelling} {α β : Type} {token token' : Token} {c c' : Cursor}

theorem Pairs.respells (h : R.Pairs token token') : token.Respells token' := by
  obtain ⟨index, here, there⟩ := h
  obtain ⟨hlt, rfl⟩ := List.getElem?_eq_some_iff.mp here
  obtain ⟨hlt', rfl⟩ := List.getElem?_eq_some_iff.mp there
  exact R.respells.get hlt hlt'

theorem Pairs.kind (h : R.Pairs token token') : token'.kind = token.kind := h.respells.kind

/-- Cursors of the two texts before the same token. -/
structure Aligned (R : Respelling) (c c' : Cursor) : Prop where
  source : c.source = R.source
  source' : c'.source = R.source'
  ahead : ∃ index, c.ahead = R.tokens.drop index ∧ c'.ahead = R.tokens'.drop index

theorem aligned_start (R : Respelling) :
    R.Aligned (.start R.source R.tokens) (.start R.source' R.tokens') := ⟨rfl, rfl, 0, rfl, rfl⟩

theorem Aligned.respells (h : R.Aligned c c') :
    List.Forall₂ Token.Respells c.ahead c'.ahead := by
  obtain ⟨index, hahead, hahead'⟩ := h.ahead
  rw [hahead, hahead']
  exact List.forall₂_drop index R.respells

theorem Aligned.length_eq (h : R.Aligned c c') : c.ahead.length = c'.ahead.length :=
  h.respells.length_eq

/-- Aligned cursors are both at the end, or before tokens that pair. -/
theorem Aligned.cases (h : R.Aligned c c') :
    (c.ahead = [] ∧ c'.ahead = []) ∨ ∃ token token' rest rest', R.Pairs token token' ∧
      c.ahead = token :: rest ∧ c'.ahead = token' :: rest' ∧
      R.Aligned ⟨c.source, token :: c.passed, rest⟩ ⟨c'.source, token' :: c'.passed, rest'⟩ := by
  obtain ⟨index, hdrop, hdrop'⟩ := h.ahead
  have hrespells := h.respells
  cases hahead : c.ahead with
  | nil =>
    rw [hahead, List.forall₂_nil_left_iff] at hrespells
    exact .inl ⟨rfl, hrespells⟩
  | cons token rest =>
    rw [hahead, List.forall₂_cons_left_iff] at hrespells
    obtain ⟨token', rest', -, -, hahead'⟩ := hrespells
    rw [hahead] at hdrop
    rw [hahead'] at hdrop'
    refine .inr ⟨token, token', rest, rest', ⟨index, ?_, ?_⟩, rfl, hahead', h.source, h.source',
      index + 1, ?_, ?_⟩
    · rw [← List.head?_drop, ← hdrop, List.head?_cons]
    · rw [← List.head?_drop, ← hdrop', List.head?_cons]
    · rw [← List.tail_drop, ← hdrop, List.tail_cons]
    · rw [← List.tail_drop, ← hdrop', List.tail_cons]

/-- Faults of the two texts for one cause. Only refusals say where in a text they belong; any other
fault is the same for both, since literals have the same names. -/
inductive FaultsAlike (R : Respelling) : Fault → Fault → Prop
  | refused {e e' : SyntaxError} (alike : R.RefusedAlike e e') :
      FaultsAlike R (.refused e) (.refused e')
  | other {fault : Fault} (unplaced : ∀ e, fault ≠ .refused e) : FaultsAlike R fault fault

/-- Outcomes of the two texts: the same values before the same token, or faults that are alike. -/
inductive OutcomesAlike (R : Respelling) (Same : α → α → Prop) :
    EStateM.Result Fault Cursor α → EStateM.Result Fault Cursor α → Prop
  | ok {value value' : α} {c c' : Cursor} (same : Same value value') (aligned : R.Aligned c c') :
      OutcomesAlike R Same (.ok value c) (.ok value' c')
  | error {fault fault' : Fault} {c c' : Cursor} (alike : R.FaultsAlike fault fault') :
      OutcomesAlike R Same (.error fault c) (.error fault' c')

/-- From aligned cursors the readings have outcomes that are alike. -/
def Agree (R : Respelling) (Same : α → α → Prop) (reading reading' : Reading α) : Prop :=
  ∀ c c', R.Aligned c c' → R.OutcomesAlike Same (reading c) (reading' c')

section Operations

variable {Same : α → α → Prop} {Same' : β → β → Prop} {reading reading' : Reading α}
  {next next' : α → Reading β}

theorem Agree.bind (h : R.Agree Same reading reading')
    (hnext : ∀ value value', Same value value' → R.Agree Same' (next value) (next' value')) :
    R.Agree Same' (reading >>= next) (reading' >>= next') := by
  intro c c' aligned
  have houtcome := h c c' aligned
  generalize hread : reading c = result, hread' : reading' c' = result' at houtcome
  cases houtcome with
  | ok same haligned =>
    rw [bind_of_ok hread, bind_of_ok hread']
    exact hnext _ _ same _ _ haligned
  | error alike =>
    rw [bind_of_error hread, bind_of_error hread']
    exact .error alike

/-- Both readings go on with the value that they share. -/
theorem Agree.bind_eq (h : R.Agree Eq reading reading')
    (hnext : ∀ value, R.Agree Same' (next value) (next' value)) :
    R.Agree Same' (reading >>= next) (reading' >>= next') :=
  h.bind fun value _ heq => heq ▸ hnext value

theorem agree_pure {value value' : α} (same : Same value value') :
    R.Agree Same (pure value) (pure value') := fun _ _ aligned => .ok same aligned

theorem agree_throw {fault : Fault} (unplaced : ∀ e, fault ≠ .refused e) :
    R.Agree Same (throw fault) (throw fault) := fun _ _ _ => .error (.other unplaced)

theorem agree_outOfFrames : R.Agree Same (throw .outOfFrames) (throw .outOfFrames) :=
  agree_throw (by simp)

theorem agree_refuseAt (complaint : Complaint) (pair : R.Pairs token token') :
    R.Agree Same (refuseAt token (complaint.about token.text))
      (refuseAt token' (complaint.about token'.text)) := by
  intro c c' aligned
  rw [refuseAt, refuseAt, aligned.source, aligned.source']
  exact .error (.refused (.atToken complaint pair))

theorem agree_peek : R.Agree (Option.Rel R.Pairs) peek peek := by
  intro c c' aligned
  rw [peek_eq, peek_eq]
  rcases aligned.cases with ⟨hnil, hnil'⟩ | ⟨token, token', _, _, pair, hahead, hahead', -⟩
  · rw [hnil, hnil']
    exact .ok .none aligned
  · rw [hahead, hahead']
    exact .ok (.some pair) aligned

theorem agree_countAhead : R.Agree Eq countAhead countAhead :=
  fun _ _ aligned => .ok aligned.length_eq aligned

theorem agree_advance : R.Agree R.Pairs advance advance := by
  intro c c' aligned
  rcases aligned.cases with ⟨hnil, hnil'⟩ | ⟨token, token', _, _, pair, hahead, hahead', hrest⟩
  · simp only [advance, hnil, hnil', aligned.source, aligned.source']
    exact .error (.refused .endOfInput)
  · simp only [advance, hahead, hahead']
    exact .ok pair hrest

theorem agree_expect (kind : Kind) : R.Agree R.Pairs (expect kind) (expect kind) := by
  apply agree_advance.bind
  intro token token' pair
  rw [pair.kind]
  split
  · exact agree_pure pair
  · exact agree_refuseAt (.expected kind) pair

theorem agree_expectEnd : R.Agree Eq expectEnd expectEnd := by
  apply agree_peek.bind
  rintro _ _ (pair | _)
  · exact agree_refuseAt .trailing pair
  · exact agree_pure rfl

theorem Agree.complete (h : R.Agree Eq reading reading') :
    R.Agree Eq reading.complete reading'.complete := by
  apply h.bind_eq
  intro value
  exact agree_expectEnd.bind_eq fun _ => agree_pure rfl

theorem agree_atomOf (pair : R.Pairs token token') (hkind : token.kind = .literal) :
    R.Agree Eq (atomOf token) (atomOf token') := by
  simp only [atomOf, pair.respells.name hkind]
  split
  · exact agree_pure rfl
  · exact agree_throw (by simp)

theorem agree_takeRun {γ : Type} (want : Kind → Option γ) (budget : Nat) :
    R.Agree Eq (takeRun want budget) (takeRun want budget) := by
  induction budget with
  | zero => exact agree_pure rfl
  | succ budget ih =>
    rw [takeRun]
    apply agree_peek.bind
    rintro _ _ (pair | _)
    · simp only [pair.kind]
      split
      · exact agree_pure rfl
      · apply agree_advance.bind
        intro _ _ _
        apply ih.bind_eq
        intro rest
        exact agree_pure rfl
    · exact agree_pure rfl

end Operations

theorem agree_climb {operand : Int → Reading Formula}
    (h : ∀ least, R.Agree Eq (operand least) (operand least)) (least : Int) (budget : Nat)
    (left : Formula) :
    R.Agree Eq (climb operand least budget left) (climb operand least budget left) := by
  induction budget generalizing left with
  | zero => exact agree_pure rfl
  | succ budget ih =>
    rw [climb_succ]
    apply agree_peek.bind
    rintro _ _ (pair | _)
    · simp only [pair.kind]
      split
      · exact agree_pure rfl
      · next op _ =>
        split
        · exact agree_pure rfl
        · apply agree_advance.bind
          intro _ _ _
          apply (h op.rightStrength).bind_eq
          intro right
          exact ih (.binary op left right)
    · exact agree_pure rfl

/-- Formulas, terms and what a token opens are read alike. -/
theorem agree_reading (R : Respelling) (frames : Nat) :
    (∀ least, R.Agree Eq (formula frames least) (formula frames least)) ∧
    R.Agree Eq (term frames) (term frames) ∧
    ∀ token token', R.Pairs token token' →
      R.Agree Eq (primary frames token) (primary frames token') := by
  -- all three at once, as each calls the next with one frame less
  induction frames with
  | zero =>
    refine ⟨fun least => ?_, ?_, fun token token' _ => ?_⟩
    · rw [formula]
      exact agree_outOfFrames
    · rw [term]
      exact agree_outOfFrames
    · rw [primary, primary]
      exact agree_outOfFrames
  | succ frames ih =>
    obtain ⟨hformula, hterm, hprimary⟩ := ih
    refine ⟨fun least => ?_, ?_, fun token token' pair => ?_⟩
    · rw [formula]
      apply hterm.bind_eq
      intro first
      apply agree_countAhead.bind_eq
      intro budget
      exact agree_climb hformula least budget first
    · rw [term]
      apply agree_countAhead.bind_eq
      intro budget
      apply (agree_takeRun Kind.unary? budget).bind_eq
      intro run
      apply agree_advance.bind
      intro token token' pair
      apply (hprimary token token' pair).bind_eq
      intro operand
      exact agree_pure rfl
    · rw [primary, primary, pair.kind]
      cases hkind : token.kind with
      | literal => exact agree_atomOf pair hkind
      | leftParen =>
        apply (hformula 1).bind_eq
        intro inner
        exact (agree_expect .rightParen).bind fun _ _ _ => agree_pure rfl
      | _ => exact agree_refuseAt .unexpected pair

/-- Formulas with the operators first are read alike, and so is what a token opens there. -/
theorem agree_polish (R : Respelling) (frames : Nat) :
    R.Agree Eq (polish frames) (polish frames) ∧
    ∀ token token', R.Pairs token token' →
      R.Agree Eq (polishOperand frames token) (polishOperand frames token') := by
  induction frames with
  | zero =>
    refine ⟨?_, fun token token' _ => ?_⟩
    · rw [polish]
      exact agree_outOfFrames
    · rw [polishOperand, polishOperand]
      exact agree_outOfFrames
  | succ frames ih =>
    obtain ⟨hpolish, hoperand⟩ := ih
    refine ⟨?_, fun token token' pair => ?_⟩
    · rw [polish]
      apply agree_countAhead.bind_eq
      intro budget
      apply (agree_takeRun negation? budget).bind_eq
      intro run
      apply agree_advance.bind
      intro token token' pair
      apply (hoperand token token' pair).bind_eq
      intro operand
      exact agree_pure rfl
    · rw [polishOperand_succ, polishOperand_succ, pair.kind]
      cases hkind : token.kind with
      | literal => exact agree_atomOf pair hkind
      | binary op =>
        apply hpolish.bind_eq
        intro left
        apply hpolish.bind_eq
        intro right
        exact agree_pure rfl
      | _ => exact agree_refuseAt .unexpected pair

theorem agree_commaSeparated {item : Reading α} (h : R.Agree Eq item item) (budget : Nat) :
    R.Agree Eq (commaSeparated item budget) (commaSeparated item budget) := by
  induction budget with
  | zero =>
    rw [commaSeparated]
    apply h.bind_eq
    intro only
    exact agree_pure rfl
  | succ budget ih =>
    rw [commaSeparated]
    apply h.bind_eq
    intro first
    apply agree_peek.bind
    rintro _ _ (pair | _)
    · simp only [pair.kind]
      split
      · apply agree_advance.bind
        intro _ _ _
        apply ih.bind_eq
        intro rest
        exact agree_pure rfl
      · exact agree_pure rfl
    · exact agree_pure rfl

theorem agree_assumptions (R : Respelling) (frames : Nat) :
    R.Agree Eq (assumptions frames) (assumptions frames) := by
  apply agree_peek.bind
  rintro _ _ (pair | _)
  · simp only [pair.kind]
    split
    · exact agree_pure rfl
    · apply agree_countAhead.bind_eq
      intro budget
      exact agree_commaSeparated ((agree_reading R frames).1 1) budget
  · exact agree_throw (by simp)

theorem agree_sequent (R : Respelling) (frames : Nat) :
    R.Agree Eq (Reading.sequent frames) (Reading.sequent frames) := by
  cases frames with
  | zero => exact agree_outOfFrames
  | succ frames =>
    rw [Reading.sequent]
    apply (agree_assumptions R frames).bind_eq
    intro given
    apply agree_advance.bind
    intro token token' pair
    simp only [pair.kind]
    split
    · exact agree_refuseAt .noJudgment pair
    · apply ((agree_reading R frames).1 1).bind_eq
      intro conclusion
      exact agree_expectEnd.bind_eq fun _ => agree_pure rfl

section Texts

variable {dialect dialect' : Dialect} {reading : Reading α}

/-- Readings that agree make the same of the tokens of both texts. -/
theorem Agree.ofTokens (h : R.Agree Eq reading reading) :
    (∃ value, reading.ofTokens R.source R.tokens = .ok value ∧
      reading.ofTokens R.source' R.tokens' = .ok value) ∨
    ∃ fault fault', reading.ofTokens R.source R.tokens = .error fault ∧
      reading.ofTokens R.source' R.tokens' = .error fault' ∧ R.FaultsAlike fault fault' := by
  have hrespells := R.respells
  have houtcome := h _ _ R.aligned_start
  cases htokens : R.tokens with
  | nil =>
    rw [htokens, List.forall₂_nil_left_iff] at hrespells
    rw [hrespells]
    exact .inr ⟨_, _, rfl, rfl, .refused (.empty htokens)⟩
  | cons token rest =>
    rw [htokens, List.forall₂_cons_left_iff] at hrespells
    obtain ⟨token', rest', -, -, htokens'⟩ := hrespells
    rw [htokens, htokens'] at houtcome
    simp only [htokens', Reading.ofTokens]
    generalize reading (.start R.source (token :: rest)) = result,
      reading (.start R.source' (token' :: rest')) = result' at houtcome
    cases houtcome with
    | ok same _ => exact .inl ⟨_, rfl, congrArg Except.ok same.symm⟩
    | @error fault _ _ _ alike =>
      cases alike with
      | refused alike => exact .inr ⟨_, _, rfl, rfl, .refused alike⟩
      | other unplaced =>
        cases fault with
        | refused e => exact absurd rfl (unplaced e)
        | outOfFrames => exact .inr ⟨_, _, rfl, rfl, .refused .tooDeep⟩
        | _ => exact .inr ⟨_, _, rfl, rfl, .other unplaced⟩

/-- A governed reading has no faults but refusals. -/
theorem readAlike_of_governs {σ : Type} {recognizer : Recognizer σ} {reading : Nat → Reading α}
    {Written : List Token → α → Prop} (governs : recognizer.Governs reading Written)
    {frames : Nat} (agree : R.Agree Eq (reading frames) (reading frames))
    (scanned : Token.scan dialect R.source = .ok R.tokens)
    (scanned' : Token.scan dialect' R.source' = .ok R.tokens') :
    R.ReadAlike ((reading frames).ofText dialect R.source)
      ((reading frames).ofText dialect' R.source') := by
  have houtcome := governs.outcome frames dialect R.source
  rw [ofText_eq_ofTokens scanned] at houtcome ⊢
  rw [ofText_eq_ofTokens scanned']
  rcases agree.ofTokens with hread | ⟨fault, fault', herror, herror', alike⟩
  · exact .inl hread
  · cases alike with
    | refused alike => exact .inr ⟨_, _, herror, herror', alike⟩
    | other unplaced =>
      rcases houtcome with ⟨value, _, hok, -⟩ | ⟨e, hrefused⟩
      · cases hok.symm.trans herror
      · exact absurd (Except.error.inj (herror.symm.trans hrefused)) (unplaced e)

theorem ReadAlike.map {read read' : Except Fault α} (f : α → β) (h : R.ReadAlike read read') :
    R.ReadAlike (read.map f) (read'.map f) := by
  rcases h with ⟨value, rfl, rfl⟩ | ⟨e, e', rfl, rfl, alike⟩
  · exact .inl ⟨f value, rfl, rfl⟩
  · exact .inr ⟨e, e', rfl, rfl, alike⟩

/-- Neither blanks nor spellings have an influence on what a form of reading makes of a text; the
dialects may differ too, as long as they allow the tokens. -/
theorem readAlike (R : Respelling) (frames : Nat) (form : Form)
    (scanned : Token.scan dialect R.source = .ok R.tokens)
    (scanned' : Token.scan dialect' R.source' = .ok R.tokens') :
    R.ReadAlike (Reader.readWithin frames ⟨form, dialect⟩ R.source)
      (Reader.readWithin frames ⟨form, dialect'⟩ R.source') := by
  cases form with
  | formula =>
    have hagree := ((R.agree_reading frames).1 1).complete
    exact (readAlike_of_governs Recognizer.governs_formula hagree scanned scanned').map _
  | polish =>
    have hagree := (R.agree_polish frames).1.complete
    exact (readAlike_of_governs Recognizer.governs_polish hagree scanned scanned').map _
  | sequent =>
    have hagree := R.agree_sequent frames
    exact (readAlike_of_governs Recognizer.governs_sequent hagree scanned scanned').map _

end Texts

end Respelling

/-- A reader reads one value from both texts, or refuses both for one cause at one place among
their tokens. -/
theorem Reader.readWithin_respelled (frames : Nat) (reader : Reader) (R : Respelling)
    (scanned : Token.scan reader.dialect R.source = .ok R.tokens)
    (scanned' : Token.scan reader.dialect R.source' = .ok R.tokens') :
    R.ReadAlike (reader.readWithin frames R.source) (reader.readWithin frames R.source') :=
  R.readAlike frames reader.form scanned scanned'

/-- A group that is open at the judgment, without blanks and in other signs with blanks. -/
def respelledGroup : Respelling where
  source := "p,(q->~r|-p"
  source' := "p, (q → ¬r ⊢ p"
  tokens :=
    [⟨.literal, "p", 0⟩, ⟨.comma, ",", 1⟩, ⟨.leftParen, "(", 2⟩, ⟨.literal, "q", 3⟩,
      ⟨.binary .conditional, "->", 4⟩, ⟨.unary .negation, "~", 6⟩, ⟨.literal, "r", 7⟩,
      ⟨.judgment .proves, "|-", 8⟩, ⟨.literal, "p", 10⟩]
  tokens' :=
    [⟨.literal, "p", 0⟩, ⟨.comma, ",", 1⟩, ⟨.leftParen, "(", 3⟩, ⟨.literal, "q", 4⟩,
      ⟨.binary .conditional, "→", 6⟩, ⟨.unary .negation, "¬", 8⟩, ⟨.literal, "r", 9⟩,
      ⟨.judgment .proves, "⊢", 11⟩, ⟨.literal, "p", 13⟩]
  respells := by simp [Token.respells_iff]

def respelledGroupError : SyntaxError :=
  ⟨.expected .rightParen "|-", some 8, respelledGroup.source⟩

def respelledGroupError' : SyntaxError :=
  ⟨.expected .rightParen "⊢", some 11, respelledGroup.source'⟩

/-- Both judgments are blamed, each at its place and in its spelling. -/
theorem Reader.readWithin_respelled_group :
    Reader.sequent.readWithin 1000 respelledGroup.source =
      .error (.refused respelledGroupError) ∧
    Reader.sequent.readWithin 1000 respelledGroup.source' =
      .error (.refused respelledGroupError') ∧
    respelledGroup.RefusedAlike respelledGroupError respelledGroupError' := by
  have hscan : Token.scan .modal respelledGroup.source = .ok respelledGroup.tokens := by cbv
  have hscan' : Token.scan .modal respelledGroup.source' = .ok respelledGroup.tokens' := by cbv
  have hread : Reader.sequent.readWithin 1000 respelledGroup.source =
      .error (.refused respelledGroupError) := by cbv
  have hread' : Reader.sequent.readWithin 1000 respelledGroup.source' =
      .error (.refused respelledGroupError') := by cbv
  rcases readWithin_respelled 1000 .sequent respelledGroup hscan hscan' with
    ⟨statement, hok, -⟩ | ⟨e, e', herror, herror', alike⟩
  · cases hread.symm.trans hok
  · cases hread.symm.trans herror
    cases hread'.symm.trans herror'
    exact ⟨hread, hread', alike⟩

end Turnstile
