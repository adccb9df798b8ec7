import Turnstile.Proofs.Reading.Ends

/-! Recognizers: machines that follow the kinds of the tokens and have no move once no
continuation can be right. `Fails` is the failure of a reading that keeps to a recognizer: at
the first token without a move, or at the end of the text before the final state. -/
namespace Turnstile

/-- A machine over kinds of tokens, with the refusal of a token that has no move. -/
structure Recognizer (σ : Type) where
  start : σ
  step : σ → Kind → Option σ
  final : σ
  complaint : σ → Token → Refusal

namespace Recognizer

variable {σ : Type} (R : Recognizer σ)

def run : σ → List Token → Option σ
  | state, [] => some state
  | state, token :: rest => (R.step state token.kind).bind fun next => run next rest

def Accepts (tokens : List Token) : Prop := R.run R.start tokens = some R.final

variable {R} {state state' : σ} {used more : List Token} {token : Token}

theorem run_cons (h : R.step state token.kind = some state') :
    R.run state (token :: more) = R.run state' more := by
  rw [run, h, Option.bind_some]

/-- The next token has a given kind. -/
theorem run_kind {kind : Kind} (hkind : token.kind = kind) (h : R.step state kind = some state') :
    R.run state (token :: more) = R.run state' more := run_cons (hkind ▸ h)

theorem run_append (state : σ) (used more : List Token) :
    R.run state (used ++ more) = (R.run state used).bind fun next => R.run next more := by
  induction used generalizing state with
  | nil => rfl
  | cons token rest ih =>
    simp only [List.cons_append, run]
    cases R.step state token.kind with
    | none => rfl
    | some next => exact ih next

theorem run_append_of_run (h : R.run state used = some state') :
    R.run state (used ++ more) = R.run state' more := by
  rw [run_append, h, Option.bind_some]

/-- Nothing leads on behind a token without a move. -/
theorem run_of_stuck (h : R.run state used = some state')
    (stuck : R.step state' token.kind = none) : R.run state (used ++ token :: more) = none := by
  rw [run_append_of_run h, run, stuck, Option.bind_none]

theorem run_snoc {kind : Kind} {last : σ} (h : R.run state used = some state')
    (hkind : token.kind = kind) (hstep : R.step state' kind = some last) :
    R.run state (used ++ [token]) = some last :=
  (run_append_of_run h).trans (run_kind hkind hstep)

/-- Tokens that leave a state as it is can be passed over. -/
theorem run_of_stays (h : ∀ token ∈ used, R.step state token.kind = some state) :
    R.run state used = some state := by
  induction used with
  | nil => rfl
  | cons token rest ih =>
    rw [run_cons (h token List.mem_cons_self)]
    exact ih fun next hmem => h next (List.mem_cons_of_mem token hmem)

/-- A reading that began at a cursor, in a state, failed where the machine has no move. -/
inductive Fails (R : Recognizer σ) (state : σ) (c : Cursor) : Fault → Cursor → Prop
  | atEnd {used : List Token} {c' : Cursor} {state' : σ} (takes : c.Takes used c')
      (nothing : c'.ahead = []) (run : R.run state used = some state')
      (unfinished : state' ≠ R.final) :
      Fails R state c (.refused ⟨.endOfInput, some c.source.length, c.source⟩) c'
  | atToken (used : List Token) {token : Token} {c' : Cursor} {state' : σ}
      (takes : c.Takes (used ++ [token]) c') (run : R.run state used = some state')
      (stuck : R.step state' token.kind = none) (unfinished : state' ≠ R.final) :
      Fails R state c
        (.refused ⟨R.complaint state' token, some token.position, c.source⟩) c'

/-- A failure, or a lack of frames that only `few` frames can bring about. -/
def FailsWithin (R : Recognizer σ) (state : σ) (c : Cursor) (few : Prop) (fault : Fault)
    (c' : Cursor) : Prop :=
  fault = .outOfFrames ∧ few ∨ R.Fails state c fault c'

variable {c c₁ c' : Cursor} {fault : Fault} {few few' : Prop}

/-- A failure further on is one of the whole reading. -/
theorem Fails.after (takes : c.Takes used c₁) (run : R.run state used = some state')
    (h : R.Fails state' c₁ fault c') : R.Fails state c fault c' := by
  cases h with
  | @atEnd more _ _ htakes hnothing hrun hopen =>
    rw [takes.source]
    exact .atEnd (takes.append htakes) hnothing ((run_append_of_run run).trans hrun) hopen
  | @atToken more token _ last htakes hrun hstuck hopen =>
    rw [takes.source]
    refine .atToken (used ++ more) ?_ ((run_append_of_run run).trans hrun) hstuck hopen
    rw [List.append_assoc]
    exact takes.append htakes

theorem FailsWithin.after (takes : c.Takes used c₁) (run : R.run state used = some state')
    (hfew : few → few') (h : R.FailsWithin state' c₁ few fault c') :
    R.FailsWithin state c few' fault c' := by
  rcases h with ⟨hfault, hf⟩ | h
  · exact .inl ⟨hfault, hfew hf⟩
  · exact .inr (h.after takes run)

theorem FailsWithin.mono (hfew : few → few') (h : R.FailsWithin state c few fault c') :
    R.FailsWithin state c few' fault c' := h.after (.refl c) rfl hfew

/-- A reading that needs one more token finds none. -/
theorem FailsWithin.of_nothing (takes : c.Takes used c') (nothing : c'.ahead = [])
    (run : R.run state used = some state') (unfinished : state' ≠ R.final) :
    R.FailsWithin state c few (.refused ⟨.endOfInput, some c'.source.length, c'.source⟩) c' := by
  rw [takes.source]
  exact .inr (.atEnd takes nothing run unfinished)

/-- A reading takes a token that has no move. -/
theorem FailsWithin.of_token {refusal : Refusal} (used : List Token)
    (takes : c.Takes (used ++ [token]) c')
    (run : R.run state used = some state') (stuck : R.step state' token.kind = none)
    (unfinished : state' ≠ R.final) (hcomplaint : R.complaint state' token = refusal) :
    R.FailsWithin state c few (.refused ⟨refusal, some token.position, c'.source⟩) c' := by
  rw [takes.source, ← hcomplaint]
  exact .inr (.atToken used takes run stuck unfinished)

/-- The first token that is taken has no move and is refused. -/
theorem ends_refuse {α : Type} {good : α → Cursor → Prop} {refusal : Refusal}
    (takes : c.Takes [token] c₁) (stuck : R.step state token.kind = none)
    (unfinished : state ≠ R.final) (hcomplaint : R.complaint state token = refusal) :
    Reading.Ends (Reading.refuseAt token refusal) c₁ good (R.FailsWithin state c few) :=
  (Reading.ends_refuseAt token refusal).mpr (.of_token [] takes rfl stuck unfinished hcomplaint)

/-- The refusal of a whole list of tokens: it names the first token without a move, or the end
of the text if the tokens stop short of the final state. -/
inductive Rejects (R : Recognizer σ) (source : String) (tokens : List Token) :
    SyntaxError → Prop
  | atEnd {state : σ} (run : R.run R.start tokens = some state)
      (unfinished : state ≠ R.final) :
      Rejects R source tokens ⟨.endOfInput, some source.length, source⟩
  | atToken {used rest : List Token} {token : Token} {state : σ}
      (split : tokens = used ++ token :: rest) (run : R.run R.start used = some state)
      (stuck : R.step state token.kind = none) :
      Rejects R source tokens ⟨R.complaint state token, some token.position, source⟩

theorem Rejects.not_accepts {source : String} {tokens : List Token} {e : SyntaxError}
    (h : R.Rejects source tokens e) : ¬ R.Accepts tokens := by
  intro accepts
  cases h with
  | atEnd hrun unfinished => exact unfinished (Option.some.inj (hrun.symm.trans accepts))
  | atToken split hrun stuck =>
    rw [Accepts, split, run_of_stuck hrun stuck] at accepts
    cases accepts

theorem Fails.rejects {source : String} {tokens : List Token}
    (h : R.Fails R.start (.start source tokens) fault c') :
    ∃ e, fault = .refused e ∧ R.Rejects source tokens e := by
  cases h with
  | @atEnd used _ _ takes nothing hrun hopen =>
    have hused : tokens = used := by
      simpa [nothing] using takes.ahead
    exact ⟨_, rfl, .atEnd (hused ▸ hrun) hopen⟩
  | @atToken used token _ _ takes hrun hstuck _ =>
    have hsplit : tokens = used ++ token :: c'.ahead := by
      simpa using takes.ahead
    exact ⟨_, rfl, .atToken hsplit hrun hstuck⟩

end Recognizer

end Turnstile
