import Turnstile.Proofs.Reading.Whole

/-! What nesting costs. While a group is open the reading of it holds three frames, so a text
that opens more groups inside each other than the frames can hold is not read. A chain of
conditionals without groups costs but one frame for each of them. -/
namespace Turnstile

/-- Tokens lead from one state to another, and every state on the way has a property. -/
inductive Recognizer.Passes {σ : Type} (R : Recognizer σ) (P : σ → Prop) :
    σ → List Token → σ → Prop
  | nil {state : σ} (holds : P state) : Passes R P state [] state
  | cons {state next last : σ} {token : Token} {rest : List Token} (holds : P state)
      (step : R.step state token.kind = some next) (passes : Passes R P next rest last) :
      Passes R P state (token :: rest) last

def Outlook.depth : Outlook → Nat
  | .operand depth => depth
  | .follow depth => depth

namespace Recognizer

variable {σ : Type} {R : Recognizer σ} {P Q : σ → Prop} {state middle last : σ}
  {used more : List Token} {token : Token}

theorem Passes.mono (h : R.Passes P state used last) (himp : ∀ state, P state → Q state) :
    R.Passes Q state used last := by
  induction h with
  | nil holds => exact .nil (himp _ holds)
  | cons holds step _ ih => exact .cons (himp _ holds) step ih

theorem Passes.append (h : R.Passes P state used middle) (hmore : R.Passes P middle more last) :
    R.Passes P state (used ++ more) last := by
  induction h with
  | nil => exact hmore
  | cons holds step _ ih => exact .cons holds step (ih hmore)

theorem Passes.single {kind : Kind} (hkind : token.kind = kind)
    (step : R.step state kind = some last) (holds : P state) (holds' : P last) :
    R.Passes P state [token] last := .cons holds (hkind ▸ step) (.nil holds')

theorem Passes.of_stays (holds : P state)
    (h : ∀ token ∈ used, R.step state token.kind = some state) :
    R.Passes P state used state := by
  induction used with
  | nil => exact .nil holds
  | cons token rest ih =>
    obtain ⟨hfirst, hrest⟩ := List.forall_mem_cons.mp h
    exact .cons holds hfirst (ih hrest)

theorem Passes.first (h : R.Passes P state used last) : P state := by
  cases h with
  | nil holds => exact holds
  | cons holds => exact holds

/-- The state behind some of the tokens is on the way. -/
theorem Passes.holds (h : R.Passes P state (used ++ more) last)
    (run : R.run state used = some middle) : P middle := by
  induction used generalizing state with
  | nil =>
    cases run
    exact h.first
  | cons token rest ih =>
    cases h with
    | cons _ step passes =>
      rw [run_cons step] at run
      exact ih passes run

end Recognizer

namespace Reading

open Recognizer Cursor

/-- So many frames, less some of them, hold the groups that are open besides the first ones. -/
def Holds (base frames depth : Nat) (outlook : Outlook) : Prop :=
  base + 3 * outlook.depth ≤ frames + 3 * depth

theorem Holds.mono {base base' frames frames' depth depth' : Nat} {outlook : Outlook}
    (hle : base' + 3 * depth + frames ≤ base + 3 * depth' + frames')
    (h : Holds base frames depth outlook) : Holds base' frames' depth' outlook := by
  unfold Holds at h ⊢
  omega

/-- The tokens between two cursors are an operand, and the frames hold all its groups. -/
def Costs (base frames depth : Nat) (c c' : Cursor) : Prop :=
  ∃ used, c.Takes used c' ∧ Recognizer.formula.Passes (Holds base frames depth)
    (.operand depth) used (.follow depth)

def FormulaCosts (frames : Nat) : Prop :=
  ∀ (least : Int) (depth : Nat) (c : Cursor),
    Ends (formula frames least) c (fun _ => Costs 3 frames depth c) fun _ _ => True

def TermCosts (frames : Nat) : Prop :=
  ∀ (depth : Nat) (c : Cursor),
    Ends (term frames) c (fun _ => Costs 2 frames depth c) fun _ _ => True

def PrimaryCosts (frames : Nat) : Prop :=
  ∀ (token : Token) (depth : Nat) (c c₁ : Cursor), c.Takes [token] c₁ →
    Ends (primary frames token) c₁ (fun _ => Costs 1 frames depth c) fun _ _ => True

theorem primaryCosts_succ {frames : Nat} (hformula : FormulaCosts frames) :
    PrimaryCosts (frames + 1) := by
  intro token depth c c₁ takes
  have hoperand : Holds 1 (frames + 1) depth (.operand depth) := by
    rw [Holds, Outlook.depth]
    omega
  have hfollow : Holds 1 (frames + 1) depth (.follow depth) := hoperand
  unfold primary
  cases hkind : token.kind with
  | literal =>
    dsimp only
    rw [atomOf]
    split
    · exact ⟨[token], takes, .single hkind rfl hoperand hfollow⟩
    · trivial
  | leftParen =>
    apply Ends.bind
    apply (hformula 1 (depth + 1) c₁).mono _ fun _ _ => id
    rintro f c₂ ⟨inner, htakes, hpasses⟩
    have hinner : Recognizer.formula.Passes (Holds 1 (frames + 1) depth)
        (.operand (depth + 1)) inner (.follow (depth + 1)) :=
      hpasses.mono fun _ => Holds.mono (by omega)
    have hopened : Holds 1 (frames + 1) depth (.operand (depth + 1)) := hinner.first
    apply Ends.bind
    apply ends_advance_bind (fun _ => trivial)
    intro last c₃ hlast
    split
    · next hright =>
      refine ⟨[token] ++ (inner ++ [last]), takes.append (htakes.append hlast), ?_⟩
      apply Passes.append (.single hkind rfl hoperand hopened)
      exact hinner.append (.single hright rfl hopened hfollow)
    · trivial
  | _ => trivial

theorem termCosts_succ {frames : Nat} (hprimary : PrimaryCosts frames) :
    TermCosts (frames + 1) := by
  intro depth c
  rw [term, ends_countAhead_bind]
  apply Ends.bind
  apply (takeRun_ends Kind.unary? c.ahead.length c (Nat.le_refl _)).mono _ (fun _ _ => False.elim)
  rintro run c₁ ⟨used, htakes, hrun, -⟩
  apply ends_advance_bind (fun _ => trivial)
  intro token c₂ htoken
  apply Ends.bind
  apply (hprimary token depth c₁ c₂ htoken).mono _ fun _ _ => id
  rintro f c₃ ⟨rest, hrest, hpasses⟩
  have hoperand : Recognizer.formula.Passes (Holds 2 (frames + 1) depth) (.operand depth) rest
      (.follow depth) := hpasses.mono fun _ => Holds.mono (by omega)
  refine ⟨used ++ rest, htakes.append hrest, Passes.append (.of_stays hoperand.first ?_) hoperand⟩
  intro token hmem
  obtain ⟨op, hop⟩ := exists_of_run hrun token hmem
  rw [Kind.unary?_eq_some.mp hop]
  rfl

theorem climbCosts {frames : Nat} (hformula : FormulaCosts frames) (least : Int) (depth : Nat)
    (c : Cursor) (budget : Nat) (left : Formula) (c₁ : Cursor)
    (hleft : Costs 3 (frames + 1) depth c c₁) :
    Ends (climb (formula frames) least budget left) c₁
      (fun _ => Costs 3 (frames + 1) depth c) fun _ _ => True := by
  induction budget generalizing left c₁ with
  | zero => exact hleft
  | succ budget ih =>
    rcases closes_or_connective least c₁ with hcloses | ⟨token, op, c₂, hkind, hstrong, htoken⟩
    · rw [Ends, climb_of_closes _ _ _ _ _ hcloses]
      exact hleft
    · refine Ends.of_eq ?_ (climb_of_connective budget left hkind hstrong htoken)
      obtain ⟨used, takes, hused⟩ := hleft
      apply Ends.bind
      apply (hformula op.rightStrength depth c₂).mono _ fun _ _ => id
      rintro right c₃ ⟨more, hmore, hpasses⟩
      have hright : Recognizer.formula.Passes (Holds 3 (frames + 1) depth) (.operand depth) more
          (.follow depth) := hpasses.mono fun _ => Holds.mono (by omega)
      refine ih (.binary op left right) c₃ ⟨used ++ ([token] ++ more), ?_, ?_⟩
      · exact takes.append (htoken.append hmore)
      · apply hused.append
        exact Passes.append (.single hkind rfl hused.first hright.first) hright

theorem formulaCosts_succ {frames : Nat} (hterm : TermCosts frames)
    (hformula : FormulaCosts frames) : FormulaCosts (frames + 1) := by
  intro least depth c
  rw [formula]
  apply Ends.bind
  apply (hterm depth c).mono _ fun _ _ => id
  rintro first c₁ ⟨used, takes, hpasses⟩
  rw [ends_countAhead_bind]
  apply climbCosts hformula
  exact ⟨used, takes, hpasses.mono fun _ => Holds.mono (by omega)⟩

/-- What is read has all its groups held by the frames. -/
theorem reading_costs (frames : Nat) :
    FormulaCosts frames ∧ TermCosts frames ∧ PrimaryCosts frames := by
  induction frames with
  | zero => exact ⟨fun _ _ _ => trivial, fun _ _ => trivial, fun _ _ _ _ _ => trivial⟩
  | succ frames ih =>
    obtain ⟨hformula, hterm, hprimary⟩ := ih
    exact ⟨formulaCosts_succ hterm hformula, termCosts_succ hprimary,
      primaryCosts_succ hformula⟩

variable {α : Type} {reading : Reading α} {dialect : Dialect} {text : String}
  {tokens used more : List Token} {f g : Formula}

theorem complete_eq_ok {value : α} {c c' : Cursor} :
    reading.complete c = .ok value c' ↔ reading c = .ok value c' ∧ c'.ahead = [] := by
  constructor
  · intro h
    obtain ⟨read, c₁, hread, h⟩ := bind_eq_ok h
    obtain ⟨_, c₂, hend, h⟩ := bind_eq_ok h
    cases h
    unfold expectEnd at hend
    obtain ⟨token, c₂, hpeek, hend⟩ := bind_eq_ok hend
    cases (peek_eq c₁).symm.trans hpeek
    cases hahead : c₁.ahead with
    | nil =>
      rw [hahead] at hend
      cases hend
      exact ⟨hread, hahead⟩
    | cons token rest =>
      rw [hahead] at hend
      cases hend
  · rintro ⟨hread, hahead⟩
    refine (bind_of_ok hread).trans ?_
    have hend : expectEnd c' = .ok () c' := by
      refine (bind_of_ok (peek_eq c')).trans ?_
      rw [hahead]
      rfl
    exact bind_of_ok hend

theorem ofText_eq_ok {value : α} (scanned : Token.scan dialect text = .ok tokens)
    (nonempty : tokens ≠ []) :
    reading.ofText dialect text = .ok value ↔
      ∃ c', reading (.start text tokens) = .ok value c' := by
  rw [ofText_eq_ofTokens scanned]
  cases tokens with
  | nil => exact absurd rfl nonempty
  | cons token rest =>
    rw [ofTokens]
    split
    · next read c' hread => simp [hread]
    · next c' hread => simp [hread]
    · next fault c' _ hread => simp [hread]

/-- A formula that is read has all its groups held by the frames. -/
theorem depth_le_of_ofText {frames : Nat} {outlook : Outlook}
    (scanned : Token.scan dialect text = .ok (used ++ more))
    (read : Formula.ofText frames dialect text = .ok f)
    (run : Recognizer.formula.run (.operand 0) used = some outlook) :
    3 * outlook.depth + 3 ≤ frames := by
  have nonempty : used ++ more ≠ [] := by
    intro hnil
    rw [Formula.ofText, ofText_eq_ofTokens scanned, hnil] at read
    cases read
  obtain ⟨c', hcomplete⟩ := (ofText_eq_ok scanned nonempty).mp read
  obtain ⟨hread, hahead⟩ := complete_eq_ok.mp hcomplete
  obtain ⟨taken, takes, hpasses⟩ := ((reading_costs frames).1 1 0 _).of_ok hread
  have htaken : used ++ more = taken := by
    simpa [hahead] using takes.ahead
  have hholds := (htaken ▸ hpasses).holds run
  rw [Holds] at hholds
  omega

/-- Tokens that so many frames read as a formula, where nothing extends it. -/
def ReadsWithin (needed : Nat) (tokens : List Token) (f : Formula) : Prop :=
  ∀ (frames : Nat) (least : Int) (c c' : Cursor), needed ≤ frames →
    least ≤ Connective.conditional.strength → c.Takes tokens c' → Closes least c'.ahead →
    formula frames least c = .ok f c'

theorem ReadsWithin.literal {token : Token} {name : Char} (hkind : token.kind = .literal)
    (htext : token.text = String.singleton name) : ReadsWithin 3 [token] (.atom name) := by
  intro frames least c c' hframes _ takes hcloses
  obtain ⟨frames, rfl⟩ : ∃ frames', frames = frames' + 3 := ⟨frames - 3, by omega⟩
  rw [formula_of_term least (term_of_literal hkind htext takes)]
  exact climb_of_closes _ _ _ _ _ hcloses

/-- A conditional needs one frame more than its right operand. -/
theorem ReadsWithin.conditional {needed : Nat} {left right : List Token} {token : Token}
    (hkind : token.kind = .binary .conditional) (hleft : Reads .term left f)
    (short : 3 * left.length ≤ needed) (hright : ReadsWithin needed right g) :
    ReadsWithin (needed + 1) (left ++ token :: right) (.binary .conditional f g) := by
  intro frames least c c' hframes hleast takes hcloses
  obtain ⟨frames, rfl⟩ : ∃ frames', frames = frames' + 1 := ⟨frames - 1, by omega⟩
  obtain ⟨c₁, hc₁, htail⟩ := takes.split
  obtain ⟨c₂, hc₂, hc'⟩ := htail.split_cons
  rw [formula_of_term least (hleft frames c c₁ (by omega) hc₁), hc₂.length_succ,
    climb_of_connective _ f hkind hleast hc₂]
  refine (bind_of_ok (hright frames _ c₂ c' (by omega) (Int.le_refl _) hc' ?_)).trans ?_
  · exact hcloses.mono hleast
  · exact climb_of_closes _ _ _ _ _ hcloses

theorem ReadsWithin.ne_nil {needed : Nat} (h : ReadsWithin needed tokens f) : tokens ≠ [] := by
  rintro rfl
  have hread := h needed 1 (.start "" []) (.start "" []) (Nat.le_refl _) (by decide) (.refl _) nofun
  obtain ⟨hwrites, -⟩ := ((reading_ends needed).1 1 0 (.start "" []) nofun).of_ok hread
  exact absurd hwrites.length_lt (Nat.lt_irrefl _)

theorem ofText_of_readsWithin {needed frames : Nat} (enough : needed ≤ frames)
    (scanned : Token.scan dialect text = .ok tokens) (h : ReadsWithin needed tokens f) :
    Formula.ofText frames dialect text = .ok f := by
  refine (ofText_eq_ok scanned h.ne_nil).mpr ⟨⟨text, tokens.reverse, []⟩, ?_⟩
  exact complete_eq_ok.mpr
    ⟨h frames 1 _ _ enough (by decide) (Cursor.takes_start text tokens) nofun, rfl⟩

end Reading

end Turnstile
