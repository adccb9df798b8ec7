import Turnstile.Proofs.Reading.Completeness
import Turnstile.Proofs.Token.Spelled
import Turnstile.Reading.Parts

/-! Reading whole texts. A reading that keeps to a recognizer and is then completed either
gives what all the tokens write or is refused where the recognizer rejects them, unless it runs
out of frames. For formulas this makes reading and the grammar agree. -/
namespace Turnstile

def tooDeep (source : String) : Fault := .refused ⟨.tooDeep, none, source⟩

namespace Reading

open Grammar

variable {α σ : Type} {R : Recognizer σ} {reading : Reading α} {dialect : Dialect}
  {source : String} {tokens : List Token} {Written : List Token → α → Prop}

theorem named_start (scanned : Token.scan dialect source = .ok tokens) :
    (Cursor.start source tokens).Named :=
  fun token hmem => (Token.isOf_of_scan scanned token hmem).named

/-- What a failure at the start of a text says of its tokens. -/
def RejectsWithin (R : Recognizer σ) (source : String) (tokens : List Token) (few : Prop)
    (fault : Fault) : Prop :=
  fault = .outOfFrames ∧ few ∨ ∃ e, fault = .refused e ∧ R.Rejects source tokens e

theorem RejectsWithin.mono {few few' : Prop} {fault : Fault} (hfew : few → few')
    (h : RejectsWithin R source tokens few fault) : RejectsWithin R source tokens few' fault :=
  h.imp_left (And.imp_right hfew)

theorem rejectsWithin_of_failsWithin {few : Prop} {fault : Fault} {c' : Cursor}
    (h : R.FailsWithin R.start (.start source tokens) few fault c') :
    RejectsWithin R source tokens few fault := by
  rcases h with hframes | hfails
  · exact .inl hframes
  · exact .inr hfails.rejects

/-- Behind what a recognizer accepts the text has to end, as nothing more has a move. -/
theorem ends_expectEnd {few : Prop} {used : List Token} {c : Cursor} {value : α}
    (takes : (Cursor.start source tokens).Takes used c) (accepts : R.Accepts used)
    (stuck : ∀ token ∈ c.ahead.head?, R.step R.final token.kind = none)
    (trailing : ∀ token, R.complaint R.final token = .trailing token.text)
    (written : Written used value) :
    Ends (do expectEnd; return value) c (fun value _ => Written tokens value)
      (fun fault _ => RejectsWithin R source tokens few fault) := by
  have hsplit : tokens = used ++ c.ahead := takes.ahead
  apply Ends.bind
  rw [expectEnd, ends_peek_bind]
  cases hahead : c.ahead with
  | nil =>
    rw [hahead, List.append_nil] at hsplit
    exact hsplit ▸ written
  | cons token rest =>
    refine .inr ⟨_, rfl, ?_⟩
    rw [takes.source, ← trailing]
    exact .atToken (hahead ▸ hsplit) accepts (stuck token (by simp [hahead]))

/-- What is known of a reading at the start of a text, once the text must be used up. -/
theorem complete_ends {few : Prop}
    (h : Ends reading (.start source tokens)
      (fun value c' => ∃ used, (Cursor.start source tokens).Takes used c' ∧ Written used value ∧
        R.Accepts used ∧ ∀ token ∈ c'.ahead.head?, R.step R.final token.kind = none)
      (R.FailsWithin R.start (.start source tokens) few))
    (trailing : ∀ token, R.complaint R.final token = .trailing token.text) :
    Ends reading.complete (.start source tokens) (fun value _ => Written tokens value)
      (fun fault _ => RejectsWithin R source tokens few fault) := by
  apply Ends.bind
  apply h.mono _ (fun _ _ => rejectsWithin_of_failsWithin)
  rintro value c' ⟨used, takes, written, accepts, stuck⟩
  exact ends_expectEnd takes accepts stuck trailing written

/-- The three outcomes of reading some tokens by themselves. -/
theorem ofTokens_cases {few : Prop} (nonempty : tokens ≠ [])
    (h : Ends reading (.start source tokens) (fun value _ => Written tokens value)
      (fun fault _ => RejectsWithin R source tokens few fault)) :
    (∃ value, reading.ofTokens source tokens = .ok value ∧ Written tokens value) ∨
    (reading.ofTokens source tokens = .error (tooDeep source) ∧ few) ∨
    ∃ e, reading.ofTokens source tokens = .error (.refused e) ∧ R.Rejects source tokens e := by
  cases tokens with
  | nil => exact absurd rfl nonempty
  | cons token rest =>
    simp only [Reading.ofTokens]
    cases hr : reading (.start source (token :: rest)) with
    | ok value c' => exact .inl ⟨value, rfl, h.of_ok hr⟩
    | error fault c' =>
      rcases h.of_error hr with ⟨rfl, hfew⟩ | ⟨e, rfl, hrejects⟩
      · exact .inr (.inl ⟨rfl, hfew⟩)
      · exact .inr (.inr ⟨e, rfl, hrejects⟩)

/-- A text whose tokens are known is read as its tokens are. -/
theorem ofText_eq_ofTokens (scanned : Token.scan dialect source = .ok tokens) :
    reading.ofText dialect source = reading.ofTokens source tokens := by
  simp only [Reading.ofText, Cursor.ofText, scanned]
  cases tokens with
  | nil => rfl
  | cons token rest => rfl

/-- The three outcomes of a text whose tokens are known. -/
theorem ofText_cases {few : Prop} (scanned : Token.scan dialect source = .ok tokens)
    (nonempty : tokens ≠ [])
    (h : Ends reading (.start source tokens) (fun value _ => Written tokens value)
      (fun fault _ => RejectsWithin R source tokens few fault)) :
    (∃ value, reading.ofText dialect source = .ok value ∧ Written tokens value) ∨
    (reading.ofText dialect source = .error (tooDeep source) ∧ few) ∨
    ∃ e, reading.ofText dialect source = .error (.refused e) ∧ R.Rejects source tokens e := by
  rw [ofText_eq_ofTokens scanned]
  exact ofTokens_cases nonempty h

/-- What is not too deep is read as just what the tokens write, if that is one thing only. -/
theorem ofTokens_eq_ok_iff {few : Prop} (nonempty : tokens ≠ [])
    (h : Ends reading (.start source tokens) (fun value _ => Written tokens value)
      (fun fault _ => RejectsWithin R source tokens few fault))
    (accepts : ∀ value, Written tokens value → R.Accepts tokens)
    (unique : ∀ value other, Written tokens value → Written tokens other → value = other)
    (shallow : reading.ofTokens source tokens ≠ .error (tooDeep source)) (value : α) :
    reading.ofTokens source tokens = .ok value ↔ Written tokens value := by
  rcases ofTokens_cases nonempty h with
    ⟨read, hok, hwritten⟩ | ⟨hdeep, -⟩ | ⟨e, herror, hrejects⟩
  · rw [hok, Except.ok.injEq]
    exact ⟨fun heq => heq ▸ hwritten, unique read value hwritten⟩
  · exact absurd hdeep shallow
  · rw [herror]
    exact iff_of_false nofun fun hwritten => hrejects.not_accepts (accepts value hwritten)

/-- A text whose tokens write a value, the only one that they write, is read as that value, given
frames enough. -/
theorem ofText_of_written {few : Prop} {value : α}
    (scanned : Token.scan dialect source = .ok tokens) (nonempty : tokens ≠ [])
    (h : Ends reading (.start source tokens) (fun value _ => Written tokens value)
      (fun fault _ => RejectsWithin R source tokens few fault))
    (accepts : R.Accepts tokens) (unique : ∀ other, Written tokens other → other = value) :
    reading.ofText dialect source = .ok value ∨
      reading.ofText dialect source = .error (tooDeep source) ∧ few := by
  rcases ofText_cases scanned nonempty h with ⟨read, hok, hread⟩ | hdeep | ⟨e, -, rejects⟩
  · exact .inl (unique read hread ▸ hok)
  · exact .inr hdeep
  · exact absurd accepts rejects.not_accepts

theorem stuck_of_closes {rest : List Token} (h : Closes 1 rest) :
    ∀ token ∈ rest.head?, Outlook.step (.follow 0) token.kind = none := by
  intro token hmem
  cases hkind : token.kind with
  | binary op => exact absurd hkind (h.not_binary token hmem op)
  | _ => rfl

/-- Reading a formula to the end of a text. -/
theorem complete_formula_ends (frames : Nat) (named : (Cursor.start source tokens).Named) :
    Ends (formula frames 1).complete (.start source tokens)
      (fun f _ => Derives loosest tokens f)
      (fun fault _ => RejectsWithin .formula source tokens (frames ≤ 3 * tokens.length + 1)
        fault) := by
  apply complete_ends
  · apply ((reading_ends frames).1 1 0 _ named).mono _ (fun _ _ => id)
    rintro f c' ⟨⟨used, takes, derives⟩, hcloses⟩
    exact ⟨used, takes, derives, derives.accepts, stuck_of_closes hcloses⟩
  · exact fun _ => rfl

end Reading

namespace Grammar

open Reading

/-- No tokens derive two formulas. -/
theorem Derives.unique {tokens : List Token} {f g : Formula} (hf : Derives loosest tokens f)
    (hg : Derives loosest tokens g) : f = g := by
  have outcome {h : Formula} (hh : Derives loosest tokens h) :
      formula (3 * tokens.length + 1) 1 (.start "" tokens) = .ok h ⟨"", tokens.reverse, []⟩ := by
    obtain ⟨_, -, heq⟩ := reads_of_derives hh _ 1 (.start "" tokens) ⟨"", tokens.reverse, []⟩
      (Nat.le_refl _) (by decide) (Cursor.takes_start "" tokens) nofun
    exact heq.trans (climb_of_closes _ _ _ _ _ nofun)
  -- one reading of the tokens, of any text, gives both formulas
  have heq := (outcome hf).symm.trans (outcome hg)
  cases heq
  rfl

end Grammar

end Turnstile
