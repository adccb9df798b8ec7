import Mathlib
import Turnstile.Proofs.Reading.Polish
import Turnstile.Proofs.Reading.Sequent

/-! Refusals come as early as they can. Every state of a recognizer can be led to the final
one, so the tokens before the one that is refused could still become a sentence of the
grammar, and those up to it cannot. -/
namespace Turnstile

open Grammar Reading

/-- A refusal at the end of a text that more tokens would complete, or else at the first token
behind which nothing can complete the text. -/
def EarliestRefusal (dialect : Dialect) (grammatical : List Token → Prop) (source : String)
    (tokens : List Token) (e : SyntaxError) : Prop :=
  if e.refusal = .endOfInput then
    e.position = some source.length ∧
      ∃ more, more ≠ [] ∧ (∀ token ∈ more, token.IsOf dialect) ∧ grammatical (tokens ++ more)
  else
    ∃ used token rest, tokens = used ++ token :: rest ∧ e.position = some token.position ∧
      (∃ more, (∀ token ∈ more, token.IsOf dialect) ∧ grammatical (used ++ more)) ∧
      ∀ more, ¬ grammatical (used ++ token :: more)

def Outlook.distance : Outlook → Nat
  | .operand depth => depth + 1
  | .follow depth => depth

/-- The least number of tokens that complete a sequent, counting a bare conclusion. -/
def SequentOutlook.distance : SequentOutlook → Nat
  | .start => 2
  | .given outlook => outlook.distance + 2
  | .conclusion outlook => outlook.distance

namespace Recognizer

variable {σ α : Type} {R : Recognizer σ} {dialect : Dialect} {source : String}
  {tokens : List Token} {e : SyntaxError}

/-- Every state can be led to the final one by tokens of a dialect. -/
def Closable (R : Recognizer σ) (dialect : Dialect) : Prop :=
  ∀ state, ∃ more, (∀ token ∈ more, token.IsOf dialect) ∧ R.run state more = some R.final

/-- Some token brings every state but the final one nearer to it. -/
theorem closable_of_nearer (distance : σ → Nat)
    (nearer : ∀ state, state ≠ R.final → ∃ kind next, dialect.allows kind = true ∧
      R.step state kind = some next ∧ distance next < distance state) :
    R.Closable dialect := by
  intro state
  induction hdistance : distance state using Nat.strongRecOn generalizing state with
  | ind n ih =>
    by_cases hfinal : state = R.final
    · exact ⟨[], nofun, congrArg some hfinal⟩
    · obtain ⟨kind, next, allowed, hstep, hlt⟩ := nearer state hfinal
      obtain ⟨token, hof, rfl⟩ := Token.exists_isOf allowed
      obtain ⟨more, hmore, hrun⟩ := ih _ (hdistance ▸ hlt) next rfl
      refine ⟨token :: more, List.forall_mem_cons.mpr ⟨hof, hmore⟩, ?_⟩
      rw [run_cons hstep]
      exact hrun

theorem Rejects.earliest {grammatical : List Token → Prop}
    (sound : ∀ tokens, grammatical tokens → R.Accepts tokens)
    (complete : ∀ tokens, (∀ token ∈ tokens, token.IsOf dialect) → R.Accepts tokens →
      grammatical tokens)
    (closable : R.Closable dialect)
    (hcomplaint : ∀ state token, R.complaint state token ≠ .endOfInput)
    (known : ∀ token ∈ tokens, token.IsOf dialect) (h : R.Rejects source tokens e) :
    EarliestRefusal dialect grammatical source tokens e := by
  cases h with
  | @atEnd state hrun unfinished =>
    obtain ⟨more, hmore, hfinal⟩ := closable state
    refine ⟨rfl, more, ?_, hmore, complete _ ?_ ?_⟩
    · rintro rfl
      exact unfinished (Option.some.inj hfinal)
    · exact List.forall_mem_append.mpr ⟨known, hmore⟩
    · exact (run_append_of_run hrun).trans hfinal
  | @atToken used rest token state split hrun stuck =>
    rw [EarliestRefusal, if_neg (hcomplaint state token)]
    obtain ⟨more, hmore, hfinal⟩ := closable state
    rw [split, List.forall_mem_append] at known
    refine ⟨used, token, rest, split, rfl, ⟨more, hmore, complete _ ?_ ?_⟩, ?_⟩
    · exact List.forall_mem_append.mpr ⟨known.1, hmore⟩
    · exact (run_append_of_run hrun).trans hfinal
    · intro more hgrammatical
      have accepts := sound _ hgrammatical
      rw [Accepts, run_of_stuck hrun stuck] at accepts
      cases accepts

/-- A reading keeps to a recognizer, which accepts just what the reading can give. -/
structure Governs (R : Recognizer σ) (reading : Nat → Reading α)
    (Written : List Token → α → Prop) : Prop where
  ends : ∀ source tokens, (Cursor.start source tokens).Named → tokens ≠ [] →
    ∃ bound, ∀ frames, Ends (reading frames) (.start source tokens)
      (fun value _ => Written tokens value)
      (fun fault _ => RejectsWithin R source tokens (frames ≤ bound) fault)
  accepts : ∀ {tokens value}, Written tokens value → R.Accepts tokens
  start_ne_final : R.start ≠ R.final
  complaint : ∀ state token, R.complaint state token ≠ .endOfInput

variable {reading : Nat → Reading α} {Written : List Token → α → Prop}

/-- What a recognizer accepts is read, given frames enough. -/
theorem Governs.written (h : R.Governs reading Written)
    (named : (Cursor.start source tokens).Named) (accepts : R.Accepts tokens) :
    ∃ value, Written tokens value := by
  have nonempty : tokens ≠ [] := by
    rintro rfl
    exact h.start_ne_final (Option.some.inj accepts)
  obtain ⟨bound, hends⟩ := h.ends source tokens named nonempty
  cases hread : reading (bound + 1) (.start source tokens) with
  | ok value c' => exact ⟨value, (hends _).of_ok hread⟩
  | error fault c' =>
    rcases (hends _).of_error hread with ⟨-, hfew⟩ | ⟨e, -, hrejects⟩
    · omega
    · exact absurd accepts hrejects.not_accepts

/-- A governed reading accepts a text whose tokens write a value, or refuses the text. -/
theorem Governs.outcome (h : R.Governs reading Written) (frames : Nat) (dialect : Dialect)
    (source : String) :
    (∃ value tokens, (reading frames).ofText dialect source = .ok value ∧
      Token.scan dialect source = .ok tokens ∧ Written tokens value) ∨
    ∃ e, (reading frames).ofText dialect source = .error (.refused e) := by
  cases hscan : Token.scan dialect source with
  | error e => exact .inr ⟨e, by simp only [Reading.ofText, Cursor.ofText, hscan]⟩
  | ok tokens =>
    by_cases hempty : tokens = []
    · subst hempty
      exact .inr ⟨_, ofText_eq_ofTokens hscan⟩
    · obtain ⟨bound, hends⟩ := h.ends source tokens (named_start hscan) hempty
      rcases ofText_cases hscan hempty (hends frames) with
        ⟨value, hok, hwritten⟩ | ⟨hdeep, -⟩ | ⟨e, herror, -⟩
      · exact .inl ⟨value, tokens, hok, rfl, hwritten⟩
      · exact .inr ⟨_, hdeep⟩
      · exact .inr ⟨e, herror⟩

/-- Such a reading fails only by a refusal of the text. -/
theorem Governs.refused (h : R.Governs reading Written) {frames : Nat} {fault : Fault}
    (failed : (reading frames).ofText dialect source = .error fault) :
    ∃ e, fault = .refused e := by
  rcases h.outcome frames dialect source with ⟨value, _, hok, -⟩ | ⟨e, herror⟩
  · cases failed.symm.trans hok
  · exact ⟨e, Except.error.inj (failed.symm.trans herror)⟩

/-- The tokens of a text that is read write the value. -/
theorem Governs.written_of_ofText (h : R.Governs reading Written) {frames : Nat} {value : α}
    (read : (reading frames).ofText dialect source = .ok value) :
    ∃ tokens, Token.scan dialect source = .ok tokens ∧ Written tokens value := by
  rcases h.outcome frames dialect source with ⟨other, tokens, hok, hscan, hwritten⟩ | ⟨e, herror⟩
  · cases read.symm.trans hok
    exact ⟨tokens, hscan, hwritten⟩
  · cases read.symm.trans herror

/-- What is refused, though not for its depth, is rejected by the recognizer. -/
theorem Governs.rejects (h : R.Governs reading Written) {frames : Nat} {fault : Fault}
    (scanned : Token.scan dialect source = .ok tokens) (nonempty : tokens ≠ [])
    (failed : (reading frames).ofText dialect source = .error fault)
    (shallow : fault ≠ tooDeep source) :
    ∃ e, fault = .refused e ∧ R.Rejects source tokens e := by
  obtain ⟨bound, hends⟩ := h.ends source tokens (named_start scanned) nonempty
  rcases ofText_cases scanned nonempty (hends frames) with
    ⟨value, hok, -⟩ | ⟨hdeep, -⟩ | ⟨e, herror, hrejects⟩
  · cases failed.symm.trans hok
  · exact absurd (Except.error.inj (failed.symm.trans hdeep)) shallow
  · exact ⟨e, Except.error.inj (failed.symm.trans herror), hrejects⟩

/-- A text that such a reading refuses is refused as early as can be. -/
theorem Governs.earliest (h : R.Governs reading Written) (closable : R.Closable dialect)
    {frames : Nat} {fault : Fault} (scanned : Token.scan dialect source = .ok tokens)
    (nonempty : tokens ≠ [])
    (failed : (reading frames).ofText dialect source = .error fault)
    (shallow : fault ≠ tooDeep source) :
    ∃ e, fault = .refused e ∧
      EarliestRefusal dialect (fun tokens => ∃ value, Written tokens value) source tokens e := by
  obtain ⟨e, rfl, hrejects⟩ := h.rejects scanned nonempty failed shallow
  refine ⟨e, rfl, ?_⟩
  apply hrejects.earliest _ _ closable h.complaint (Token.isOf_of_scan scanned)
  · rintro tokens ⟨value, hwritten⟩
    exact h.accepts hwritten
  · intro tokens known accepts
    have named : (Cursor.start "" tokens).Named := fun token hmem => (known token hmem).named
    exact h.written named accepts

theorem governs_formula :
    Governs .formula (fun frames => (Reading.formula frames 1).complete) (Derives loosest) where
  ends _ _ named _ := ⟨_, fun frames => complete_formula_ends frames named⟩
  accepts := Derives.accepts
  start_ne_final := nofun
  complaint := by rintro (_ | _ | _) _ <;> exact nofun

theorem governs_polish :
    Governs .polish (fun frames => (Reading.polish frames).complete) DerivesPolish where
  ends _ _ named _ := ⟨_, fun frames => complete_polish_ends frames named⟩
  accepts h := h.run 0
  start_ne_final := nofun
  complaint := by rintro (_ | _) _ <;> exact nofun

theorem governs_sequent : Governs .sequent Reading.sequent DerivesSequent where
  ends _ _ named nonempty := ⟨_, fun frames => sequent_ends frames named nonempty⟩
  accepts := DerivesSequent.accepts
  start_ne_final := nofun
  complaint := by rintro (_ | (_ | _ | _) | (_ | _ | _)) _ <;> exact nofun

theorem closable_formula (literal : dialect.allows .literal = true)
    (closing : dialect.allows .rightParen = true) :
    Recognizer.formula.Closable dialect := by
  apply closable_of_nearer Outlook.distance
  rintro (depth | _ | depth) unfinished
  · exact ⟨.literal, .follow depth, literal, rfl, Nat.lt_succ_self depth⟩
  · exact absurd rfl unfinished
  · exact ⟨.rightParen, .follow depth, closing, rfl, Nat.lt_succ_self depth⟩

theorem closable_polish (literal : dialect.allows .literal = true) :
    Recognizer.polish.Closable dialect := by
  apply closable_of_nearer id
  rintro (_ | needed) unfinished
  · exact absurd rfl unfinished
  · exact ⟨.literal, needed, literal, rfl, Nat.lt_succ_self needed⟩

theorem closable_sequent (literal : dialect.allows .literal = true)
    (closing : dialect.allows .rightParen = true)
    (judgment : dialect.allows (.judgment .proves) = true) :
    Recognizer.sequent.Closable dialect := by
  apply closable_of_nearer SequentOutlook.distance
  rintro (_ | (depth | _ | depth) | (depth | _ | depth)) unfinished
  · exact ⟨.judgment .proves, .conclusion (.operand 0), judgment, rfl, by decide⟩
  · exact ⟨.literal, .given (.follow depth), literal, rfl, Nat.lt_succ_self _⟩
  · exact ⟨.judgment .proves, .conclusion (.operand 0), judgment, rfl, by decide⟩
  · exact ⟨.rightParen, .given (.follow depth), closing, rfl, Nat.lt_succ_self _⟩
  · exact ⟨.literal, .conclusion (.follow depth), literal, rfl, Nat.lt_succ_self _⟩
  · exact absurd rfl unfinished
  · exact ⟨.rightParen, .conclusion (.follow depth), closing, rfl, Nat.lt_succ_self _⟩

end Recognizer

def Reader.Grammatical (reader : Reader) (tokens : List Token) : Prop :=
  match reader.form with
  | .formula => ∃ f, Derives loosest tokens f
  | .polish => ∃ f, DerivesPolish tokens f
  | .sequent => ∃ s, DerivesSequent tokens s

theorem error_of_map_error {α β : Type} {f : α → β} {read : Except Fault α} {fault : Fault}
    (h : read.map f = .error fault) : read = .error fault := by
  cases read with
  | ok value => cases h
  | error other => exact congrArg Except.error (Except.error.inj h)

/-- Every reader refuses a text at the first token behind which nothing can complete it. -/
theorem refusal_earliest (frames : Nat) (reader : Reader)
    (known : reader ∈ [Reader.classical, .modal, .polish, .sequent]) (source : String)
    (tokens : List Token) (scanned : Token.scan reader.dialect source = .ok tokens)
    (nonempty : tokens ≠ []) (fault : Fault)
    (failed : reader.readWithin frames source = .error fault)
    (shallow : fault ≠ tooDeep source) :
    ∃ e, fault = .refused e ∧
      EarliestRefusal reader.dialect reader.Grammatical source tokens e := by
  simp only [List.mem_cons, List.not_mem_nil, or_false] at known
  rcases known with rfl | rfl | rfl | rfl
  · exact Recognizer.governs_formula.earliest (Recognizer.closable_formula rfl rfl) scanned
      nonempty (error_of_map_error failed) shallow
  · exact Recognizer.governs_formula.earliest (Recognizer.closable_formula rfl rfl) scanned
      nonempty (error_of_map_error failed) shallow
  · exact Recognizer.governs_polish.earliest (Recognizer.closable_polish rfl) scanned
      nonempty (error_of_map_error failed) shallow
  · exact Recognizer.governs_sequent.earliest (Recognizer.closable_sequent rfl rfl rfl) scanned
      nonempty (error_of_map_error failed) shallow

def unclosedText : String := "p, (q |- r"

def unclosedTokens : List Token :=
  [⟨.literal, "p", 0⟩, ⟨.comma, ",", 1⟩, ⟨.leftParen, "(", 3⟩, ⟨.literal, "q", 4⟩,
    ⟨.judgment .proves, "|-", 6⟩, ⟨.literal, "r", 9⟩]

/-- In an open group the judgment is the token to blame. -/
def unclosedError : SyntaxError := ⟨.expected .rightParen "|-", some 6, unclosedText⟩

theorem earliest_unclosed :
    Token.scan .modal unclosedText = .ok unclosedTokens ∧
    Reader.sequent.readWithin 1000 unclosedText = .error (.refused unclosedError) ∧
    EarliestRefusal .modal Reader.sequent.Grammatical unclosedText unclosedTokens
      unclosedError := by
  have hscan : Token.scan .modal unclosedText = .ok unclosedTokens := by cbv
  have hread : Reader.sequent.readWithin 1000 unclosedText = .error (.refused unclosedError) := by
    cbv
  have hshallow : Fault.refused unclosedError ≠ tooDeep unclosedText := by decide
  obtain ⟨e, heq, hearliest⟩ := refusal_earliest 1000 .sequent (by simp) unclosedText
    unclosedTokens hscan (List.cons_ne_nil _ _) _ hread hshallow
  cases heq
  exact ⟨hscan, hread, hearliest⟩

end Turnstile
