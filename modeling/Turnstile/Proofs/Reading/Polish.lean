import Turnstile.Proofs.Reading.Whole

/-! Reading with operators first. All that matters of the tokens read so far is how many
operands are still needed: a literal supplies one, a connective needs one more than it
supplies. -/
namespace Turnstile

/-- The recognizer of formulas written operator first, whose state is the number of operands
still needed. -/
def Recognizer.polish : Recognizer Nat where
  start := 1
  step
    | needed + 1, .literal => some needed
    | needed + 1, .unary .negation => some (needed + 1)
    | needed + 1, .binary _ => some (needed + 2)
    | _, _ => none
  final := 0
  complaint
    | 0, token => .trailing token.text
    | _ + 1, token => .unexpected token.text

namespace Grammar

variable {token : Token} {tokens more : List Token} {f g : Formula}

theorem DerivesPolish.literal {name : Char} (hkind : token.kind = .literal)
    (htext : token.text = String.singleton name) : DerivesPolish [token] (.atom name) := by
  have hsymbol : symbol? token = some (.atom name) := by
    simp only [symbol?, hkind, variableNamed, htext, String.toList_singleton]
    rfl
  exact congrArg (fun symbol => [symbol]) hsymbol

theorem DerivesPolish.negation (hkind : token.kind = .unary .negation)
    (h : DerivesPolish tokens f) : DerivesPolish (token :: tokens) (.unary .negation f) := by
  have hsymbol : symbol? token = some (.unary .negation) := by simp only [symbol?, hkind]
  rw [DerivesPolish, Formula.toPolish_unary, List.map_cons, List.map_cons, hsymbol, h]

theorem DerivesPolish.connective {op : Connective} (hkind : token.kind = .binary op)
    (hf : DerivesPolish tokens f) (hg : DerivesPolish more g) :
    DerivesPolish (token :: (tokens ++ more)) (.binary op f g) := by
  have hsymbol : symbol? token = some (.binary op) := by simp only [symbol?, hkind]
  rw [DerivesPolish, Formula.toPolish_binary, List.map_cons, List.map_cons, List.map_append,
    List.map_append, hsymbol, hf, hg]

theorem negation?_eq_some {kind : Kind} {op : Unary} :
    Reading.negation? kind = some op ↔ kind = .unary .negation ∧ op = .negation := by
  rw [Reading.negation?, Option.ite_none_right_eq_some, Option.some.injEq, eq_comm (a := op)]

theorem DerivesPolish.applyRun {run : List Unary}
    (hrun : more.map (fun token => Reading.negation? token.kind) = run.map some)
    (h : DerivesPolish tokens f) : DerivesPolish (more ++ tokens) (f.applyRun run) := by
  refine applyRun_of_cons ?_ hrun h
  intro token op tokens f hop derives
  obtain ⟨hkind, rfl⟩ := negation?_eq_some.mp hop
  exact .negation hkind derives

theorem symbol?_eq_some {symbol : Symbol} (h : symbol? token = some symbol) :
    (∃ name, token.kind = .literal ∧ token.text = String.singleton name ∧
      symbol = .atom name) ∨
    token.kind = .unary .negation ∧ symbol = .unary .negation ∨
    ∃ op, token.kind = .binary op ∧ symbol = .binary op := by
  unfold symbol? at h
  split at h
  · next hkind =>
    obtain ⟨name, hname, rfl⟩ := Option.map_eq_some_iff.mp h
    unfold variableNamed at hname
    split at hname
    · next only htext =>
      obtain rfl := Option.some.inj hname
      refine .inl ⟨only, hkind, ?_, rfl⟩
      rw [← String.toList_inj, htext, String.toList_singleton]
    · cases hname
  · next hkind => exact .inr (.inl ⟨hkind, (Option.some.inj h).symm⟩)
  · next op hkind => exact .inr (.inr ⟨op, hkind, (Option.some.inj h).symm⟩)
  · cases h

/-- Tokens that write a formula operator first are cut like the formula. -/
@[elab_as_elim]
theorem DerivesPolish.induct
    {motive : (tokens : List Token) → (f : Formula) → DerivesPolish tokens f → Prop}
    (literal : ∀ {token name} (hkind : token.kind = .literal)
      (htext : token.text = String.singleton name),
      motive [token] (.atom name) (.literal hkind htext))
    (negation : ∀ {token tokens f} (hkind : token.kind = .unary .negation)
      (hf : DerivesPolish tokens f), motive tokens f hf →
      motive (token :: tokens) (.unary .negation f) (hf.negation hkind))
    (connective : ∀ {token op first second f g} (hkind : token.kind = .binary op)
      (hf : DerivesPolish first f) (hg : DerivesPolish second g), motive first f hf →
      motive second g hg →
      motive (token :: (first ++ second)) (.binary op f g) (.connective hkind hf hg))
    {tokens : List Token} {f : Formula} (h : DerivesPolish tokens f) : motive tokens f h := by
  induction f generalizing tokens with
  | atom name =>
    obtain ⟨token, rest, rfl, hsymbol, hrest⟩ := List.map_eq_cons_iff.mp h
    obtain rfl := List.map_eq_nil_iff.mp hrest
    rcases symbol?_eq_some hsymbol with ⟨_, hkind, htext, hatom⟩ | ⟨-, hother⟩ | ⟨_, -, hother⟩
    · cases hatom
      exact literal hkind htext
    · cases hother
    · cases hother
  | unary op operand ih =>
    obtain ⟨token, rest, rfl, hsymbol, hrest⟩ := List.map_eq_cons_iff.mp h
    rcases symbol?_eq_some hsymbol with ⟨_, -, -, hother⟩ | ⟨hkind, hop⟩ | ⟨_, -, hother⟩
    · cases hother
    · cases hop
      exact negation hkind hrest (ih hrest)
    · cases hother
  | binary op left right ihl ihr =>
    rw [DerivesPolish, Formula.toPolish_binary] at h
    obtain ⟨token, rest, rfl, hsymbol, hrest⟩ := List.map_eq_cons_iff.mp h
    rw [List.map_append] at hrest
    obtain ⟨first, second, rfl, hfirst, hsecond⟩ := List.map_eq_append_iff.mp hrest
    rcases symbol?_eq_some hsymbol with ⟨_, -, -, hother⟩ | ⟨-, hother⟩ | ⟨_, hkind, hop⟩
    · cases hother
    · cases hother
    · cases hop
      exact connective hkind hfirst hsecond (ihl hfirst) (ihr hsecond)

/-- What is derived supplies one operand. -/
theorem DerivesPolish.run (h : DerivesPolish tokens f) (needed : Nat) :
    Recognizer.polish.run (needed + 1) tokens = some needed := by
  induction h using DerivesPolish.induct generalizing needed with
  | literal hkind =>
    rw [Recognizer.run_kind hkind rfl]
    rfl
  | negation hkind _ ih =>
    rw [Recognizer.run_kind hkind rfl]
    exact ih needed
  | connective hkind _ _ ihl ihr =>
    rw [Recognizer.run_kind hkind rfl, Recognizer.run_append_of_run (ihl (needed + 1))]
    exact ihr needed

end Grammar

namespace Reading

open Grammar Cursor

variable {c c₁ : Cursor} {token : Token}

def PolishEnds (frames : Nat) : Prop :=
  ∀ (needed : Nat) (c : Cursor), c.Named →
    Ends (polish frames) c (fun f c' => ∃ used, c.Takes used c' ∧ DerivesPolish used f)
      (Recognizer.polish.FailsWithin (needed + 1) c (frames ≤ 2 * c.ahead.length + 1))

/-- What is known of reading what a token opens, unless it is a negation. -/
def PolishOperandEnds (frames : Nat) : Prop :=
  ∀ (token : Token) (needed : Nat) (c c₁ : Cursor), negation? token.kind = none →
    c.Takes [token] c₁ → c.Named →
    Ends (polishOperand frames token) c₁
      (fun f c' => ∃ used, c.Takes used c' ∧ DerivesPolish used f)
      (Recognizer.polish.FailsWithin (needed + 1) c (frames ≤ 2 * c₁.ahead.length + 2))

theorem polishOperandEnds_succ {frames : Nat} (hpolish : PolishEnds frames) :
    PolishOperandEnds (frames + 1) := by
  intro token needed c c₁ hnegation takes named
  have unfinished : needed + 1 ≠ Recognizer.polish.final := Nat.succ_ne_zero needed
  rw [polishOperand_succ]
  cases hkind : token.kind with
  | literal =>
    obtain ⟨name, htext⟩ := named token (by simp [takes.ahead]) hkind
    simp only [atomOf_eq htext, ends_pure]
    exact ⟨[token], takes, .literal hkind htext⟩
  | binary op =>
    have hopen : Recognizer.polish.run (needed + 1) [token] = some (needed + 2) :=
      Recognizer.run_kind hkind rfl
    have hnamed := takes.named named
    apply Ends.bind
    apply (hpolish (needed + 1) c₁ hnamed).mono
    · rintro left c₂ ⟨first, hfirst, hleft⟩
      have hboth := (Recognizer.run_append_of_run hopen).trans (hleft.run (needed + 1))
      have hlength := hfirst.length
      apply Ends.bind
      apply (hpolish needed c₂ (hfirst.named hnamed)).mono
      · rintro right c₃ ⟨second, hsecond, hright⟩
        refine ⟨token :: (first ++ second), ?_, hleft.connective hkind hright⟩
        exact takes.append (hfirst.append hsecond)
      · intro fault c' h
        exact h.after (takes.append hfirst) hboth (by omega)
    · intro fault c' h
      exact h.after takes hopen (by omega)
  | unary op =>
    cases op with
    | negation => simp [negation?, hkind] at hnegation
    | modal modality => exact Recognizer.ends_refuse takes (by rw [hkind]; rfl) unfinished rfl
  | leftParen => exact Recognizer.ends_refuse takes (by rw [hkind]; rfl) unfinished rfl
  | rightParen => exact Recognizer.ends_refuse takes (by rw [hkind]; rfl) unfinished rfl
  | comma => exact Recognizer.ends_refuse takes (by rw [hkind]; rfl) unfinished rfl
  | judgment j => exact Recognizer.ends_refuse takes (by rw [hkind]; rfl) unfinished rfl

theorem run_negation {run : List Unary} {used : List Token} (needed : Nat)
    (hrun : used.map (fun token => negation? token.kind) = run.map some) :
    Recognizer.polish.run (needed + 1) used = some (needed + 1) := by
  apply Recognizer.run_of_stays
  intro token hmem
  obtain ⟨op, hop⟩ := exists_of_run hrun token hmem
  rw [(negation?_eq_some.mp hop).1]
  rfl

theorem polishEnds_succ {frames : Nat} (hoperand : PolishOperandEnds frames) :
    PolishEnds (frames + 1) := by
  intro needed c named
  rw [polish, ends_countAhead_bind]
  apply Ends.bind
  apply (takeRun_ends negation? c.ahead.length c (Nat.le_refl _)).mono _ (fun _ _ => nofun)
  rintro run c₁ ⟨used, htakes, hrun, hhead⟩
  have hstate := run_negation needed hrun
  apply ends_advance_bind
  · intro hnil
    exact .of_nothing htakes hnil hstate nofun
  · intro token c₂ htoken
    have hrunLength := htakes.length
    have hlength := htoken.length_succ
    have hnegation := hhead token htoken.mem_head?
    apply Ends.bind
    apply (hoperand token needed c₁ c₂ hnegation htoken (htakes.named named)).mono
    · rintro f c₃ ⟨rest, hrest, hderives⟩
      exact ⟨used ++ rest, htakes.append hrest, hderives.applyRun hrun⟩
    · intro fault c' h
      refine h.after htakes hstate ?_
      omega

theorem polish_ends (frames : Nat) : PolishEnds frames ∧ PolishOperandEnds frames := by
  induction frames with
  | zero => exact ⟨fun _ _ _ => .inl ⟨rfl, Nat.zero_le _⟩,
      fun _ _ _ _ _ _ _ => .inl ⟨rfl, Nat.zero_le _⟩⟩
  | succ frames ih => exact ⟨polishEnds_succ ih.2, polishOperandEnds_succ ih.1⟩

/-- Reading with operators first to the end of a text. -/
theorem complete_polish_ends {source : String} {tokens : List Token} (frames : Nat)
    (named : (Cursor.start source tokens).Named) :
    Ends (polish frames).complete (.start source tokens) (fun f _ => DerivesPolish tokens f)
      (fun fault _ => RejectsWithin .polish source tokens (frames ≤ 2 * tokens.length + 1)
        fault) := by
  apply complete_ends
  · apply ((polish_ends frames).1 0 _ named).mono _ (fun _ _ => id)
    rintro f c' ⟨used, takes, derives⟩
    exact ⟨used, takes, derives, derives.run 0, fun _ _ => rfl⟩
  · exact fun _ => rfl

end Reading

end Turnstile
