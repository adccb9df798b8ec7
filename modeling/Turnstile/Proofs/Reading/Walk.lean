import Mathlib
import Turnstile.Proofs.Reading.Completeness
import Turnstile.Reading.Walk

/-! Walks are sound. An operation takes tokens and never gives one back, so the tokens of the text
stay what they are; if it refuses the text, the cursor it leaves shows what the refusal is about.
The readings are put together from operations, each with one rule, and every refusal of a token but
that of a trailing one comes right behind the token that it is about. -/
namespace Turnstile

variable {c c' : Cursor} {token : Token} {rest : List Token}

namespace Cursor

theorem index_le (c : Cursor) : c.index ≤ c.tokens.length := by simp [index, tokens]

theorem index_eq_length (h : c.ahead = []) : c.index = c.tokens.length := by
  simp [index, tokens, h]

/-- The token at the index is the next one. -/
theorem getElem?_index (h : c.ahead = token :: rest) : c.tokens[c.index]? = some token := by
  simp [index, tokens, h]

/-- The token before the index is the last one taken. -/
theorem getElem?_pred_index (h : c.passed = token :: rest) :
    c.index = rest.length + 1 ∧ c.tokens[rest.length]? = some token := by
  simp [index, tokens, h]

theorem Takes.tokens {used : List Token} (h : c.Takes used c') : c'.tokens = c.tokens := by
  simp [Cursor.tokens, h.passed, h.ahead]

theorem Takes.index {used : List Token} (h : c.Takes used c') :
    c'.index = c.index + used.length := by
  simp [Cursor.index, h.passed, Nat.add_comm]

theorem Takes.passed_eq (h : c.Takes [token] c') : c'.passed = token :: c.passed := h.passed

end Cursor

/-- What a cursor shows of a refusal: the text is used up if more is needed; a token that is left
over is the next one, and any other token that is refused is the last one taken. -/
inductive SyntaxError.ShownBy (c : Cursor) : SyntaxError → Prop
  | atEnd (nothing : c.ahead = []) : ShownBy c ⟨.endOfInput, some c.source.length, c.source⟩
  | ahead {token : Token} {rest : List Token} (next : c.ahead = token :: rest) :
      ShownBy c ⟨.trailing token.text, some token.position, c.source⟩
  | behind {token : Token} {rest : List Token} {refusal : Refusal}
      (last : c.passed = token :: rest) (more : refusal ≠ .endOfInput)
      (kept : ∀ found, refusal ≠ .trailing found) :
      ShownBy c ⟨refusal, some token.position, c.source⟩

namespace Reading

variable {α β : Type} {reading : Reading α} {next : α → Reading β} {least more : Nat}
  {frames : Nat} {refusal : Refusal} {fault : Fault}

/-- A fault leaves a cursor behind some tokens more, and a refusal is shown by it. -/
structure Stops (c : Cursor) (fault : Fault) (c' : Cursor) : Prop where
  takes : ∃ used, c.Takes used c'
  shown : ∀ e, fault = .refused e → e.ShownBy c'

/-- From a cursor a reading takes at least so many tokens, or stops. -/
def Advances (reading : Reading α) (least : Nat) (c : Cursor) : Prop :=
  Ends reading c (fun _ c' => ∃ used, c.Takes used c' ∧ least ≤ used.length) (Stops c)

/-- A refusal that the cursor shows at once. -/
theorem Stops.of_shown {e : SyntaxError} (h : e.ShownBy c) : Stops c (.refused e) c where
  takes := ⟨[], .refl c⟩
  shown _ heq := Fault.refused.inj heq ▸ h

theorem Stops.after {used : List Token} {c₁ : Cursor} (takes : c.Takes used c₁)
    (h : Stops c₁ fault c') : Stops c fault c' := by
  obtain ⟨later, hlater⟩ := h.takes
  exact ⟨⟨_, takes.append hlater⟩, h.shown⟩

theorem Advances.bind (h : Advances reading least c)
    (hnext : ∀ value used c', c.Takes used c' → Advances (next value) more c') :
    Advances (reading >>= next) (least + more) c := by
  apply Ends.bind
  apply h.mono
  · intro value c₁ hgood
    obtain ⟨used, takes, hleast⟩ := hgood
    apply (hnext value used c₁ takes).mono
    · intro result c₂ hgood
      obtain ⟨later, hlater, hmore⟩ := hgood
      refine ⟨used ++ later, takes.append hlater, ?_⟩
      simp only [List.length_append]
      omega
    · exact fun _ _ => Stops.after takes
  · exact fun _ _ => id

theorem Advances.mono (h : Advances reading more c) (hle : least ≤ more) :
    Advances reading least c := by
  apply Ends.mono h
  · intro value c' hgood
    obtain ⟨used, takes, hmore⟩ := hgood
    exact ⟨used, takes, hle.trans hmore⟩
  · exact fun _ _ => id

/-- Only the tokens that the first reading takes are counted. -/
theorem Advances.bind_left (h : Advances reading least c)
    (hnext : ∀ value used c', c.Takes used c' → Advances (next value) more c') :
    Advances (reading >>= next) least c := (h.bind hnext).mono (Nat.le_add_right _ _)

/-- Only the tokens that the second reading takes are counted. -/
theorem Advances.bind_right (h : Advances reading least c)
    (hnext : ∀ value used c', c.Takes used c' → Advances (next value) more c') :
    Advances (reading >>= next) more c := (h.bind hnext).mono (Nat.le_add_left _ _)

section Operations

theorem advances_pure (value : α) : Advances (pure value) 0 c := ⟨[], .refl c, Nat.zero_le _⟩

theorem advances_throw (unplaced : ∀ e, fault ≠ .refused e) :
    Advances (throw fault : Reading α) least c := ⟨⟨[], .refl c⟩, fun e h => absurd h (unplaced e)⟩

theorem advances_outOfFrames : Advances (throw .outOfFrames : Reading α) least c :=
  advances_throw (by simp)

/-- The last token taken is refused. -/
theorem advances_refuseAt (last : c.passed = token :: rest) (more : refusal ≠ .endOfInput)
    (kept : ∀ found, refusal ≠ .trailing found) :
    Advances (refuseAt token refusal : Reading α) least c :=
  Stops.of_shown (.behind last more kept)

theorem advances_peek_bind {next : Option Token → Reading α}
    (h : Advances (next c.ahead.head?) least c) : Advances (peek >>= next) least c := h

theorem advances_countAhead_bind {next : Nat → Reading α}
    (h : Advances (next c.ahead.length) least c) : Advances (countAhead >>= next) least c := h

theorem advances_advance : Advances advance 1 c := by
  unfold Advances Ends advance
  cases hahead : c.ahead with
  | nil => exact .of_shown (.atEnd hahead)
  | cons token rest => exact ⟨[token], Cursor.takes_of_ahead hahead, Nat.le_refl 1⟩

theorem advances_advance_bind {next : Token → Reading α}
    (hnext : ∀ token c', c.Takes [token] c' → Advances (next token) least c') :
    Advances (advance >>= next) (least + 1) c := by
  apply ends_advance_bind
  · exact fun hahead => .of_shown (.atEnd hahead)
  · intro token c₁ takes
    apply Ends.mono (hnext token c₁ takes)
    · intro value c₂ hgood
      obtain ⟨later, hlater, hleast⟩ := hgood
      exact ⟨token :: later, takes.append hlater, by simpa using hleast⟩
    · exact fun _ _ => Stops.after takes

theorem advances_expect (kind : Kind) : Advances (expect kind) 1 c := by
  unfold expect
  apply advances_advance_bind
  intro token c' takes
  split
  · exact advances_pure token
  · exact advances_refuseAt takes.passed_eq (by simp) (by simp)

theorem advances_expectEnd : Advances expectEnd 0 c := by
  apply advances_peek_bind
  cases hahead : c.ahead with
  | nil => exact advances_pure ()
  | cons token rest => exact Stops.of_shown (.ahead hahead)

theorem advances_atomOf (token : Token) : Advances (atomOf token) 0 c := by
  unfold atomOf
  split
  · exact advances_pure _
  · exact advances_throw (by simp)

theorem advances_join (kind : Kind) (left right : Formula) :
    Advances (join kind left right) 0 c := by
  unfold join
  split
  · exact advances_pure _
  · exact advances_throw (by simp)

theorem advances_takeRun (want : Kind → Option α) (budget : Nat) (c : Cursor) :
    Advances (takeRun want budget) 0 c := by
  induction budget generalizing c with
  | zero => exact advances_pure _
  | succ budget ih =>
    rw [takeRun]
    apply advances_peek_bind
    split
    · exact advances_pure _
    · split
      · exact advances_pure _
      · apply advances_advance.bind_right
        intro _ _ c₁ _
        exact (ih c₁).bind_right fun _ _ _ _ => advances_pure _

end Operations

theorem advances_climb {operand : Int → Reading Formula}
    (h : ∀ strength c, Advances (operand strength) 1 c) (strength : Int) (budget : Nat)
    (left : Formula) (c : Cursor) : Advances (climb operand strength budget left) 0 c := by
  induction budget generalizing left c with
  | zero => exact advances_pure _
  | succ budget ih =>
    rw [climb_succ]
    apply advances_peek_bind
    split
    · exact advances_pure _
    · split
      · exact advances_pure _
      · next op _ =>
        split
        · exact advances_pure _
        · apply advances_advance.bind_right
          intro _ _ c₁ _
          apply (h op.rightStrength c₁).bind_right
          intro right _ c₂ _
          exact ih (.binary op left right) c₂

/-- Formulas and terms take a token at least; what a token opens may be that token alone. -/
theorem advances_reading (frames : Nat) :
    (∀ strength c, Advances (formula frames strength) 1 c) ∧
    (∀ c, Advances (term frames) 1 c) ∧
    ∀ token rest c, c.passed = token :: rest → Advances (primary frames token) 0 c := by
  -- all three at once, as each calls the next with one frame less
  induction frames with
  | zero =>
    refine ⟨fun _ _ => ?_, fun _ => ?_, fun _ _ _ _ => ?_⟩
    · rw [formula]
      exact advances_outOfFrames
    · rw [term]
      exact advances_outOfFrames
    · rw [primary]
      exact advances_outOfFrames
  | succ frames ih =>
    obtain ⟨hformula, hterm, hprimary⟩ := ih
    refine ⟨fun strength c => ?_, fun c => ?_, fun token rest c last => ?_⟩
    · rw [formula]
      apply (hterm c).bind_left
      intro first _ c₁ _
      apply advances_countAhead_bind
      exact advances_climb hformula strength _ first c₁
    · rw [term]
      apply advances_countAhead_bind
      apply (advances_takeRun Kind.unary? _ c).bind_right
      intro run _ c₁ _
      apply advances_advance_bind
      intro token c₂ takes
      apply (hprimary token _ c₂ takes.passed_eq).bind_right
      intro operand _ c₃ _
      exact advances_pure _
    · rw [primary]
      cases token.kind with
      | literal => exact advances_atomOf token
      | leftParen =>
        apply (hformula 1 c).bind_right
        intro inner _ c₁ _
        apply (advances_expect .rightParen).bind_right
        intro _ _ _ _
        exact advances_pure _
      | _ => exact advances_refuseAt last (by simp) (by simp)

/-- The same for formulas with the operators first. -/
theorem advances_polish (frames : Nat) :
    (∀ c, Advances (polish frames) 1 c) ∧
    ∀ token rest c, c.passed = token :: rest → Advances (polishOperand frames token) 0 c := by
  induction frames with
  | zero =>
    refine ⟨fun _ => ?_, fun _ _ _ _ => ?_⟩
    · rw [polish]
      exact advances_outOfFrames
    · rw [polishOperand]
      exact advances_outOfFrames
  | succ frames ih =>
    obtain ⟨hpolish, hoperand⟩ := ih
    refine ⟨fun c => ?_, fun token rest c last => ?_⟩
    · rw [polish]
      apply advances_countAhead_bind
      apply (advances_takeRun negation? _ c).bind_right
      intro run _ c₁ _
      apply advances_advance_bind
      intro token c₂ takes
      apply (hoperand token _ c₂ takes.passed_eq).bind_right
      intro operand _ c₃ _
      exact advances_pure _
    · rw [polishOperand_succ]
      cases token.kind with
      | literal => exact advances_atomOf token
      | binary op =>
        apply (hpolish c).bind_right
        intro left _ c₁ _
        apply (hpolish c₁).bind_right
        intro right _ _ _
        exact advances_pure _
      | _ => exact advances_refuseAt last (by simp) (by simp)

theorem advances_commaSeparated {item : Reading α} (h : ∀ c, Advances item 1 c) (budget : Nat)
    (c : Cursor) : Advances (commaSeparated item budget) 1 c := by
  induction budget generalizing c with
  | zero =>
    rw [commaSeparated]
    exact (h c).bind_left fun _ _ _ _ => advances_pure _
  | succ budget ih =>
    rw [commaSeparated]
    apply (h c).bind_left
    intro first _ c₁ _
    apply advances_peek_bind
    split
    · exact advances_pure _
    · split
      · apply advances_advance.bind_right
        intro _ _ c₂ _
        apply (ih c₂).bind_right
        intro rest _ _ _
        exact advances_pure _
      · exact advances_pure _

theorem advances_assumptions (frames : Nat) (c : Cursor) : Advances (assumptions frames) 0 c := by
  apply advances_peek_bind
  split
  · exact advances_throw (by simp)
  · split
    · exact advances_pure _
    · apply advances_countAhead_bind
      exact (advances_commaSeparated ((advances_reading frames).1 1) _ c).mono (Nat.zero_le 1)

theorem advances_sequent (frames : Nat) (c : Cursor) : Advances (sequent frames) 1 c := by
  cases frames with
  | zero => exact advances_outOfFrames
  | succ frames =>
    rw [sequent]
    apply (advances_assumptions frames c).bind_right
    intro given _ c₁ _
    apply advances_advance_bind
    intro token c₂ takes
    split
    · exact advances_refuseAt takes.passed_eq (by simp) (by simp)
    · apply ((advances_reading frames).1 1 c₂).bind_right
      intro conclusion _ c₃ _
      exact advances_expectEnd.bind_right fun _ _ _ _ => advances_pure _

/-- An operation takes a token at least, unless it is a still one. -/
theorem advances_perform (frames : Nat) (operation : Operation) (c : Cursor) :
    Advances (operation.perform frames) (if operation.isStill then 0 else 1) c := by
  cases operation with
  | peek =>
    apply advances_peek_bind
    split <;> exact advances_pure _
  | advance => exact advances_advance.bind_left fun _ _ _ _ => advances_pure _
  | expect kind => exact (advances_expect kind).bind_left fun _ _ _ _ => advances_pure _
  | atEnd => exact ⟨[], .refl c, Nat.zero_le _⟩
  | expectEnd => exact advances_expectEnd.bind_left fun _ _ _ _ => advances_pure _
  | formula strength =>
    exact ((advances_reading frames).1 strength c).bind_left fun _ _ _ _ => advances_pure _
  | term => exact ((advances_reading frames).2.1 c).bind_left fun _ _ _ _ => advances_pure _
  | polish => exact ((advances_polish frames).1 c).bind_left fun _ _ _ _ => advances_pure _
  | sequent => exact (advances_sequent frames c).bind_left fun _ _ _ _ => advances_pure _
  | join kind left right =>
    exact (advances_join kind left right).bind_left fun _ _ _ _ => advances_pure _

/-- A still operation leaves the cursor where it is, even if it fails. -/
theorem perform_isStill {operation : Operation} (h : operation.isStill = true) (frames : Nat)
    (c : Cursor) :
    Ends (operation.perform frames) c (fun _ c' => c' = c) fun _ c' => c' = c := by
  cases operation with
  | peek =>
    rw [Operation.perform, ends_peek_bind]
    split <;> rfl
  | atEnd => rfl
  | expectEnd =>
    apply Ends.bind
    rw [expectEnd, ends_peek_bind]
    split <;> rfl
  | join kind left right =>
    apply Ends.bind
    rw [join]
    split <;> rfl
  | _ => simp [Operation.isStill] at h

/-- Taking a token of some kind takes one token, if it succeeds. -/
theorem expect_takes (kind : Kind) (c : Cursor) :
    Ends (expect kind) c (fun token c' => c.Takes [token] c') fun _ _ => True := by
  apply ends_advance_bind (fun _ => trivial)
  intro token c' takes
  split
  · exact takes
  · trivial

/-- Operations move the index as they should. -/
theorem perform_moves (frames : Nat) (operation : Operation) (c : Cursor) :
    Ends (operation.perform frames) c (fun _ c' => operation.Moves c.index c'.index)
      fun _ _ => True := by
  have hstill (h : operation.isStill = true) (hmoves : operation.Moves c.index c.index) :
      Ends (operation.perform frames) c (fun _ c' => operation.Moves c.index c'.index)
        fun _ _ => True := by
    apply (perform_isStill h frames c).mono
    · intro outcome c' heq
      rwa [heq]
    · exact fun _ _ _ => trivial
  have hreads (h : operation.isStill = false)
      (hmoves : ∀ after, c.index < after → operation.Moves c.index after) :
      Ends (operation.perform frames) c (fun _ c' => operation.Moves c.index c'.index)
        fun _ _ => True := by
    apply Ends.mono (advances_perform frames operation c)
    · intro outcome c' hgood
      obtain ⟨used, takes, hleast⟩ := hgood
      simp only [h, Bool.false_eq_true, if_false] at hleast
      rw [takes.index]
      exact hmoves _ (by omega)
    · exact fun _ _ _ => trivial
  cases operation with
  | advance =>
    apply ends_advance_bind (fun _ => trivial)
    exact fun token c' takes => takes.index
  | expect kind =>
    apply Ends.bind
    apply (expect_takes kind c).mono
    · exact fun token c' takes => takes.index
    · exact fun _ _ _ => trivial
  | formula | term | polish | sequent => exact hreads rfl fun _ => id
  | _ => exact hstill rfl rfl

theorem ends_after {operation : Operation} {good : Cursor → Prop}
    (h : Ends (operation.perform frames) c (fun _ c' => good c') fun _ c' => good c') :
    good (operation.after frames c) := by
  unfold Operation.after
  cases hperform : operation.perform frames c with
  | ok outcome c' => exact h.of_ok hperform
  | error fault c' => exact h.of_error hperform

theorem takes_after (frames : Nat) (operation : Operation) (c : Cursor) :
    ∃ used, c.Takes used (operation.after frames c) := by
  have htakes : Ends (operation.perform frames) c (fun _ c' => ∃ used, c.Takes used c')
      fun _ c' => ∃ used, c.Takes used c' := by
    apply Ends.mono (advances_perform frames operation c)
    · intro outcome c' hgood
      obtain ⟨used, takes, -⟩ := hgood
      exact ⟨used, takes⟩
    · exact fun fault c' hstops => hstops.takes
  exact ends_after htakes

/-- A refusal that a cursor shows leaves the cursor where it should. -/
theorem leavesAt_of_shownBy {e : SyntaxError} (h : e.ShownBy c) : e.LeavesAt c := by
  cases h with
  | atEnd nothing => exact ⟨rfl, c.index_eq_length nothing, rfl⟩
  | ahead next => exact ⟨rfl, _, c.getElem?_index next, rfl, rfl⟩
  | @behind token rest refusal last more kept =>
    obtain ⟨hindex, hlast⟩ := c.getElem?_pred_index last
    refine ⟨rfl, ?_⟩
    cases refusal with
    | endOfInput => exact absurd rfl more
    | trailing found => exact absurd rfl (kept found)
    | _ => exact ⟨_, token, hindex, hlast, rfl⟩

theorem Operation.sound (frames : Nat) (operation : Operation) (c : Cursor) :
    operation.Sound frames c := by
  obtain ⟨used, takes⟩ := takes_after frames operation c
  refine ⟨takes.source, takes.tokens, ?_, ?_, ?_, ?_, ?_⟩
  · rw [takes.index]
    exact Nat.le_add_right _ _
  · rw [← takes.tokens]
    exact Cursor.index_le _
  · exact fun h => ends_after (perform_isStill h frames c)
  · exact fun outcome c' => (perform_moves frames operation c).of_ok
  · intro e c' hperform
    have hstops := (advances_perform frames operation c).of_error hperform
    exact leavesAt_of_shownBy (hstops.shown e rfl)

/-- The tokens between the start of a walk and its end. -/
theorem takes_walk (frames : Nat) (operations : List Operation) (c : Cursor) :
    ∃ used, c.Takes used (walk frames operations c) := by
  induction operations generalizing c with
  | nil => exact ⟨[], .refl c⟩
  | cons operation rest ih =>
    obtain ⟨used, takes⟩ := takes_after frames operation c
    obtain ⟨later, hlater⟩ := ih (operation.after frames c)
    exact ⟨used ++ later, takes.append hlater⟩

theorem walk_append (frames : Nat) (operations more : List Operation) (c : Cursor) :
    walk frames (operations ++ more) c = walk frames more (walk frames operations c) :=
  List.foldl_append

/-- Whatever is done at the tokens of a text, and whether it succeeds or fails, the text and its
tokens stay the same, the cursor stays among them and never goes back, and every further operation
moves it as it should and is refused, if it is, where the cursor then stands. -/
theorem walk_sound (frames : Nat) (source : String) (tokens : List Token)
    (operations : List Operation) :
    (walk frames operations (.start source tokens)).source = source ∧
    (walk frames operations (.start source tokens)).tokens = tokens ∧
    (walk frames operations (.start source tokens)).index ≤ tokens.length ∧
    (∀ more, (walk frames operations (.start source tokens)).index ≤
      (walk frames (operations ++ more) (.start source tokens)).index) ∧
    ∀ operation : Operation,
      operation.Sound frames (walk frames operations (.start source tokens)) := by
  obtain ⟨used, takes⟩ := takes_walk frames operations (.start source tokens)
  refine ⟨takes.source, takes.tokens, ?_, fun more => ?_, fun operation => operation.sound _ _⟩
  · have hindex := Cursor.index_le (walk frames operations (.start source tokens))
    rwa [takes.tokens] at hindex
  · obtain ⟨later, hlater⟩ := takes_walk frames more (walk frames operations (.start source tokens))
    rw [walk_append, hlater.index]
    exact Nat.le_add_right _ _

/-- A token of the wrong kind is taken and refused; what follows goes on behind it. -/
example : (walk 10 [.expect .comma, .peek, .term, .expectEnd]
    (.start "p~q)" [⟨.literal, "p", 0⟩, ⟨.unary .negation, "~", 1⟩, ⟨.literal, "q", 2⟩,
      ⟨.rightParen, ")", 3⟩])).index = 3 := by cbv

end Reading

end Turnstile
