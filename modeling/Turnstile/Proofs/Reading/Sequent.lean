import Turnstile.Proofs.Reading.Whole

/-! Reading sequents. Before the judgment a comma or the judgment may follow a complete
assumption, behind it nothing may follow the conclusion; inside a formula the outlook is that
of formulas, so the failures of a formula are failures of the sequent around it. -/
namespace Turnstile

/-- What may come next in a sequent: a judgment or a first operand, or what the outlook of an
assumption or of the conclusion lets come. -/
inductive SequentOutlook
  | start
  | given (outlook : Outlook)
  | conclusion (outlook : Outlook)
  deriving DecidableEq

namespace SequentOutlook

def step : SequentOutlook → Kind → Option SequentOutlook
  | .start, .judgment _ => some (.conclusion (.operand 0))
  | .given (.follow 0), .comma => some (.given (.operand 0))
  | .given (.follow 0), .judgment _ => some (.conclusion (.operand 0))
  | .start, kind => (Outlook.step (.operand 0) kind).map .given
  | .given outlook, kind => (outlook.step kind).map .given
  | .conclusion outlook, kind => (outlook.step kind).map .conclusion

def complaint : SequentOutlook → Token → Refusal
  | .start, token => .unexpected token.text
  | .given (.follow 0), token => .noJudgment token.text
  | .given outlook, token => outlook.complaint token
  | .conclusion outlook, token => outlook.complaint token

theorem given_step {outlook next : Outlook} {kind : Kind} (h : outlook.step kind = some next) :
    step (.given outlook) kind = some (.given next) := by
  rcases outlook with _ | _ | _ <;> cases kind <;>
    simp_all [step, Outlook.step]

theorem given_stuck {outlook : Outlook} {kind : Kind} (h : outlook.step kind = none)
    (unfinished : outlook ≠ .follow 0) : step (.given outlook) kind = none := by
  rcases outlook with _ | _ | _ <;> cases kind <;>
    simp_all [step, Outlook.step]

theorem start_step {kind : Kind} (h : kind.judgment? = none) :
    step .start kind = step (.given (.operand 0)) kind := by
  cases kind <;> first | rfl | cases h

end SequentOutlook

def Recognizer.sequent : Recognizer SequentOutlook :=
  ⟨.start, SequentOutlook.step, .conclusion (.follow 0), SequentOutlook.complaint⟩

namespace Recognizer

variable {σ τ : Type} {R : Recognizer σ} {S : Recognizer τ} {embed : σ → τ}

/-- One recognizer does inside another what it does alone, as long as it is not finished. -/
structure Embeds (R : Recognizer σ) (S : Recognizer τ) (embed : σ → τ) : Prop where
  step : ∀ {state next kind}, R.step state kind = some next →
    S.step (embed state) kind = some (embed next)
  stuck : ∀ {state kind}, R.step state kind = none → state ≠ R.final →
    S.step (embed state) kind = none
  complaint : ∀ {state token}, state ≠ R.final →
    S.complaint (embed state) token = R.complaint state token
  final : ∀ {state}, state ≠ R.final → embed state ≠ S.final

theorem Embeds.run (h : Embeds R S embed) {state next : σ} {used : List Token}
    (hrun : R.run state used = some next) : S.run (embed state) used = some (embed next) := by
  induction used generalizing state with
  | nil =>
    cases hrun
    rfl
  | cons token rest ih =>
    cases hstep : R.step state token.kind with
    | none =>
      rw [Recognizer.run, hstep] at hrun
      cases hrun
    | some middle =>
      rw [Recognizer.run, hstep] at hrun
      rw [run_cons (h.step hstep)]
      exact ih hrun

theorem Embeds.failsWithin (h : Embeds R S embed) {state : σ} {c c' : Cursor} {few : Prop}
    {fault : Fault} (hfails : R.FailsWithin state c few fault c') :
    S.FailsWithin (embed state) c few fault c' := by
  rcases hfails with hframes | hfails
  · exact .inl hframes
  · refine .inr ?_
    cases hfails with
    | atEnd takes nothing hrun unfinished =>
      exact .atEnd takes nothing (h.run hrun) (h.final unfinished)
    | atToken used takes hrun stuck unfinished =>
      rw [← h.complaint unfinished]
      exact .atToken used takes (h.run hrun) (h.stuck stuck unfinished) (h.final unfinished)

theorem embeds_given : Embeds .formula .sequent .given where
  step := SequentOutlook.given_step
  stuck := SequentOutlook.given_stuck
  complaint := by
    rintro (_ | _ | _) token unfinished
    · rfl
    · exact absurd rfl unfinished
    · rfl
  final := nofun

theorem embeds_conclusion : Embeds .formula .sequent .conclusion where
  step h := by simp only [sequent, SequentOutlook.step]; exact congrArg _ h
  stuck h _ := by simp only [sequent, SequentOutlook.step]; exact congrArg _ h
  complaint _ := rfl
  final h heq := h (SequentOutlook.conclusion.inj heq)

end Recognizer

namespace Grammar

open Recognizer

theorem DerivesList.run {tokens : List Token} {fs : List Formula} (h : DerivesList tokens fs) :
    Recognizer.sequent.run (.given (.operand 0)) tokens = some (.given (.follow 0)) := by
  induction h with
  | single derives => exact embeds_given.run (derives.run 0)
  | cons hcomma derives _ ih =>
    rw [run_append_of_run (embeds_given.run (derives.run 0)), run_kind hcomma rfl]
    exact ih

theorem DerivesList.ne_nil {tokens : List Token} {fs : List Formula}
    (h : DerivesList tokens fs) : tokens ≠ [] := by
  cases h with
  | single derives => exact derives.ne_nil
  | cons => simp

/-- From the start, tokens that begin with no judgment lead where they lead in assumptions. -/
theorem run_start {token : Token} {rest : List Token} (h : token.kind.judgment? = none) :
    Recognizer.sequent.run .start (token :: rest) =
      Recognizer.sequent.run (.given (.operand 0)) (token :: rest) := by
  rw [Recognizer.run, Recognizer.run]
  exact congrArg (Option.bind · _) (SequentOutlook.start_step h)

theorem DerivesList.run_start {tokens : List Token} {fs : List Formula}
    (h : DerivesList tokens fs) :
    Recognizer.sequent.run .start tokens = some (.given (.follow 0)) := by
  have hrun := h.run
  cases tokens with
  | nil => exact absurd rfl h.ne_nil
  | cons token rest =>
    cases hjudgment : token.kind.judgment? with
    | none => exact (Grammar.run_start hjudgment).trans hrun
    | some j =>
      have hkind : token.kind = .judgment j := Kind.judgment?_eq_some.mp hjudgment
      rw [Recognizer.run, hkind] at hrun
      cases hrun

theorem DerivesSequent.accepts {tokens : List Token} {s : Sequent}
    (h : DerivesSequent tokens s) : Recognizer.sequent.Accepts tokens := by
  cases h with
  | bare hkind derives =>
    exact (run_kind hkind rfl).trans (embeds_conclusion.run (derives.run 0))
  | under hkind given derives =>
    refine (run_append_of_run given.run_start).trans ?_
    exact (run_kind hkind rfl).trans (embeds_conclusion.run (derives.run 0))

end Grammar

namespace Reading

open Grammar Cursor

/-- What follows a list of assumptions extends it neither by a connective nor by a comma. -/
def EndsList (rest : List Token) : Prop :=
  Closes 1 rest ∧ ∀ token ∈ rest.head?, token.kind ≠ .comma

theorem formula_ends_given (frames : Nat) (c : Cursor) (named : c.Named) :
    Ends (formula frames 1) c
      (fun f c' => Writes loosest c f c' ∧ Closes 1 c'.ahead)
      (Recognizer.sequent.FailsWithin (.given (.operand 0)) c
        (frames ≤ 3 * c.ahead.length + 1)) :=
  ((reading_ends frames).1 1 0 c named).mono (fun _ _ => id)
    (fun _ _ => Recognizer.embeds_given.failsWithin)

theorem commaSeparated_ends (frames budget : Nat) (c : Cursor) (named : c.Named)
    (enough : c.ahead.length ≤ budget) :
    Ends (commaSeparated (formula frames 1) budget) c
      (fun fs c' => (∃ used, c.Takes used c' ∧ DerivesList used fs) ∧ EndsList c'.ahead)
      (Recognizer.sequent.FailsWithin (.given (.operand 0)) c
        (frames ≤ 3 * c.ahead.length + 1)) := by
  induction budget generalizing c with
  | zero =>
    apply Ends.bind
    apply (formula_ends_given frames c named).mono _ (fun _ _ => id)
    rintro f c₁ ⟨written, -⟩
    -- a formula takes at least one token, and none is left
    have hlt := written.length_lt
    omega
  | succ budget ih =>
    rw [commaSeparated]
    apply Ends.bind
    apply (formula_ends_given frames c named).mono _ (fun _ _ => id)
    rintro f c₁ ⟨written, hcloses⟩
    have hlt := written.length_lt
    have hnamed := written.named named
    obtain ⟨used, takes, derives⟩ := written
    rw [ends_peek_bind]
    cases hahead : c₁.ahead with
    | nil =>
      refine ⟨⟨used, takes, .single derives⟩, hcloses, ?_⟩
      simp [hahead]
    | cons token rest =>
      simp only [List.head?_cons]
      by_cases hcomma : token.kind = .comma
      · rw [if_pos hcomma]
        have hstate := Recognizer.embeds_given.run (derives.run 0)
        apply ends_advance_bind
        · simp [hahead]
        · intro comma c₂ hc₂
          obtain rfl := hc₂.token_eq hahead
          have hlength := hc₂.length_succ
          apply Ends.bind
          apply (ih c₂ (hc₂.named hnamed) (by omega)).mono
          · rintro fs c₃ ⟨⟨more, hmore, hderives⟩, hends⟩
            refine ⟨⟨used ++ comma :: more, ?_, .cons hcomma derives hderives⟩, hends⟩
            exact takes.append (hc₂.append hmore)
          · intro fault c' h
            refine h.after (takes.append hc₂) ?_ (by omega)
            exact Recognizer.run_snoc hstate hcomma rfl
      · rw [if_neg hcomma]
        refine ⟨⟨used, takes, .single derives⟩, hcloses, ?_⟩
        intro next hmem
        rw [hahead, List.head?_cons, Option.mem_some] at hmem
        exact hmem ▸ hcomma

theorem failsWithin_start {c c' : Cursor} {few : Prop} {fault : Fault}
    (hhead : ∀ token ∈ c.ahead.head?, token.kind.judgment? = none)
    (h : Recognizer.sequent.FailsWithin (.given (.operand 0)) c few fault c') :
    Recognizer.sequent.FailsWithin .start c few fault c' := by
  rcases h with hframes | h
  · exact .inl hframes
  · refine .inr ?_
    cases h with
    | @atEnd used _ _ takes nothing hrun unfinished =>
      cases used with
      | nil => exact .atEnd takes nothing rfl nofun
      | cons token rest =>
        have hjudgment := hhead token (by simp [takes.ahead])
        exact .atEnd takes nothing ((run_start hjudgment).trans hrun) unfinished
    | @atToken used token _ _ takes hrun stuck unfinished =>
      cases used with
      | nil =>
        have hjudgment := hhead token (by simp [takes.ahead])
        cases hrun
        have hstuck := (SequentOutlook.start_step hjudgment).trans stuck
        exact @Recognizer.Fails.atToken _ .sequent _ _ [] _ _ .start takes rfl hstuck nofun
      | cons first rest =>
        have hjudgment := hhead first (by simp [takes.ahead])
        exact .atToken _ takes ((run_start hjudgment).trans hrun) stuck unfinished

/-- The tokens before a judgment: none, or a list of formulas that what follows cannot
extend. -/
def IsGiven (used : List Token) (fs : List Formula) (rest : List Token) : Prop :=
  used = [] ∧ fs = [] ∧ (∃ token ∈ rest.head?, ∃ j, token.kind = .judgment j) ∨
    DerivesList used fs ∧ EndsList rest

theorem IsGiven.derivesSequent {used tokens rest : List Token} {token : Token}
    {fs : List Formula} {f : Formula} {j : Judgment} (h : IsGiven used fs rest)
    (hkind : token.kind = .judgment j) (derives : Derives loosest tokens f) :
    DerivesSequent (used ++ token :: tokens) ⟨some j, fs, f⟩ := by
  rcases h with ⟨rfl, rfl, -⟩ | ⟨given, -⟩
  · exact .bare hkind derives
  · exact .under hkind given derives

/-- Behind the assumptions a judgment has a move, and any other token is refused for being
none. -/
theorem IsGiven.state {used rest : List Token} {fs : List Formula} (h : IsGiven used fs rest) :
    ∃ state, Recognizer.sequent.run .start used = some state ∧
      state ≠ Recognizer.sequent.final ∧
      (∀ j, Recognizer.sequent.step state (.judgment j) = some (.conclusion (.operand 0))) ∧
      ∀ token ∈ rest.head?, token.kind.judgment? = none →
        Recognizer.sequent.step state token.kind = none ∧
        Recognizer.sequent.complaint state token = .noJudgment token.text := by
  rcases h with ⟨rfl, -, first, hfirst, j, hj⟩ | ⟨derives, hcloses, hcomma⟩
  · refine ⟨_, rfl, nofun, fun _ => rfl, fun token hmem hjudgment => ?_⟩
    obtain rfl := Option.some.inj (hfirst.symm.trans hmem)
    rw [Kind.judgment?_eq_some.mpr hj] at hjudgment
    cases hjudgment
  · refine ⟨_, derives.run_start, nofun, fun _ => rfl, fun token hmem hjudgment => ⟨?_, rfl⟩⟩
    have hstuck := stuck_of_closes hcloses token hmem
    have hother := hcomma token hmem
    cases hkind : token.kind with
    | comma => exact absurd hkind hother
    | judgment j =>
      rw [hkind] at hjudgment
      cases hjudgment
    | binary op =>
      rw [hkind] at hstuck
      cases hstuck
    | _ => rfl

theorem assumptions_ends (frames : Nat) (c : Cursor) (named : c.Named)
    (nonempty : c.ahead ≠ []) :
    Ends (assumptions frames) c
      (fun fs c' => ∃ used, c.Takes used c' ∧ IsGiven used fs c'.ahead)
      (Recognizer.sequent.FailsWithin .start c (frames ≤ 3 * c.ahead.length + 1)) := by
  rw [assumptions, ends_peek_bind]
  cases hahead : c.ahead with
  | nil => exact absurd hahead nonempty
  | cons token rest =>
    simp only [List.head?_cons]
    cases hjudgment : token.kind.judgment? with
    | some j =>
      refine ⟨[], .refl c, .inl ⟨rfl, rfl, token, ?_, j, Kind.judgment?_eq_some.mp hjudgment⟩⟩
      simp [hahead]
    | none =>
      rw [← hahead]
      apply (commaSeparated_ends frames c.ahead.length c named (Nat.le_refl _)).mono
      · rintro fs c' ⟨⟨used, takes, derives⟩, hends⟩
        exact ⟨used, takes, .inr ⟨derives, hends⟩⟩
      · intro fault c' h
        refine failsWithin_start ?_ h
        intro first hmem
        rw [hahead, List.head?_cons, Option.mem_some] at hmem
        exact hmem ▸ hjudgment

/-- Behind the judgment the conclusion has to use up the text. -/
theorem conclusion_ends {source : String} {tokens before : List Token} {token : Token}
    {given : List Formula} {said : Judgment} {c : Cursor} (frames : Nat)
    (named : (Cursor.start source tokens).Named)
    (taken : (Cursor.start source tokens).Takes (before ++ [token]) c)
    (run : Recognizer.sequent.run .start (before ++ [token]) = some (.conclusion (.operand 0)))
    (derive : ∀ used f, Derives loosest used f →
      DerivesSequent (before ++ token :: used) ⟨some said, given, f⟩) :
    Ends (do
      let conclusion ← formula frames 1
      expectEnd
      return (⟨some said, given, conclusion⟩ : Sequent)) c
      (fun s _ => DerivesSequent tokens s)
      (fun fault _ => RejectsWithin .sequent source tokens (frames + 1 ≤ 3 * tokens.length + 2)
        fault) := by
  apply Ends.bind
  apply ((reading_ends frames).1 1 0 c (taken.named named)).mono
  · rintro f c' ⟨⟨used, takes, derives⟩, hcloses⟩
    have hrun := Recognizer.embeds_conclusion.run (derives.run 0)
    have haccepts := (Recognizer.run_append_of_run run).trans hrun
    apply ends_expectEnd (taken.append takes) haccepts
    · intro next hmem
      exact congrArg (Option.map _) (stuck_of_closes hcloses next hmem)
    · exact fun _ => rfl
    · rw [List.append_assoc]
      exact derive used f derives
  · intro fault c' h
    have hlength : tokens.length = (before ++ [token]).length + c.ahead.length := taken.length
    have hfails := Recognizer.embeds_conclusion.failsWithin h
    exact rejectsWithin_of_failsWithin (hfails.after taken run (by omega))

/-- Reading a sequent to the end of a text. -/
theorem sequent_ends {source : String} {tokens : List Token} (frames : Nat)
    (named : (Cursor.start source tokens).Named) (nonempty : tokens ≠ []) :
    Ends (sequent frames) (.start source tokens) (fun s _ => DerivesSequent tokens s)
      (fun fault _ => RejectsWithin .sequent source tokens (frames ≤ 3 * tokens.length + 2)
        fault) := by
  cases frames with
  | zero => exact .inl ⟨rfl, Nat.zero_le _⟩
  | succ frames =>
    rw [sequent]
    apply Ends.bind
    apply (assumptions_ends frames _ named nonempty).mono
    · rintro given c₁ ⟨before, hbefore, hgiven⟩
      obtain ⟨state, hstate, unfinished, hjudgment, hother⟩ := hgiven.state
      apply ends_advance_bind
      · intro hnil
        exact rejectsWithin_of_failsWithin (.of_nothing hbefore hnil hstate unfinished)
      · intro token c₂ htoken
        have htaken := hbefore.append htoken
        cases hsaid : token.kind.judgment? with
        | none =>
          obtain ⟨stuck, hcomplaint⟩ := hother token htoken.mem_head? hsaid
          rw [ends_refuseAt]
          exact rejectsWithin_of_failsWithin
            (.of_token before htaken hstate stuck unfinished hcomplaint)
        | some said =>
          have hkind := Kind.judgment?_eq_some.mp hsaid
          have hrun := Recognizer.run_snoc hstate hkind (hjudgment said)
          apply conclusion_ends frames named htaken hrun
          exact fun _ _ derives => hgiven.derivesSequent hkind derives
    · intro fault c' h
      refine rejectsWithin_of_failsWithin (h.mono fun hframes => ?_)
      rw [Cursor.start_ahead] at hframes
      omega

end Reading

end Turnstile
