import Turnstile.Proofs.Reading.Operators
import Turnstile.Proofs.Reading.Outlook
import Turnstile.Proofs.Reading.Strata

/-! What reading a formula does at any cursor. If it succeeds, the tokens it took derive the
formula, and what comes next cannot extend it; if it fails, it does so where the outlook ends.
Frames run out only where they are fewer than the tokens ahead can call for. -/
namespace Turnstile

/-- No connective of the given strength or more comes next. -/
def Closes (least : Int) (rest : List Token) : Prop :=
  ∀ token ∈ rest.head?, ∀ op, token.kind = .binary op → op.strength < least

theorem Closes.mono {least least' : Int} {rest : List Token} (h : Closes least rest)
    (hle : least ≤ least') : Closes least' rest :=
  fun token hmem op hop => Int.lt_of_lt_of_le (h token hmem op hop) hle

theorem closes_of_not_binary {token : Token} {rest : List Token} (least : Int)
    (h : ∀ op, token.kind ≠ .binary op) : Closes least (token :: rest) := by
  intro token' hmem op hop
  rw [List.head?_cons, Option.mem_some] at hmem
  exact absurd hop (hmem ▸ h op)

theorem closes_of_weaker {token : Token} {rest : List Token} {op : Connective} {least : Int}
    (hkind : token.kind = .binary op) (h : op.strength < least) :
    Closes least (token :: rest) := by
  intro token' hmem op' hop
  rw [List.head?_cons, Option.mem_some] at hmem
  rw [← hmem, hkind, Kind.binary.injEq] at hop
  exact hop ▸ h

theorem Closes.not_binary {rest : List Token} (h : Closes 1 rest) :
    ∀ token ∈ rest.head?, ∀ op, token.kind ≠ .binary op := by
  intro token hmem op hop
  have hweak := h token hmem op hop
  have hpos := Grammar.strength_pos op
  omega

namespace Reading

open Grammar Cursor

def Writes (s : Stratum) (c : Cursor) (f : Formula) (c' : Cursor) : Prop :=
  ∃ used, c.Takes used c' ∧ Derives s used f

def FormulaEnds (frames : Nat) : Prop :=
  ∀ (least : Int) (depth : Nat) (c : Cursor), c.Named →
    Ends (formula frames least) c
      (fun f c' => Writes (stratumFrom least) c f c' ∧ Closes least c'.ahead)
      (Recognizer.formula.FailsWithin (.operand depth) c (frames ≤ 3 * c.ahead.length + 1))

def TermEnds (frames : Nat) : Prop :=
  ∀ (depth : Nat) (c : Cursor), c.Named →
    Ends (term frames) c (Writes .term c)
      (Recognizer.formula.FailsWithin (.operand depth) c (frames ≤ 3 * c.ahead.length))

/-- What is known of reading what a token opens, unless it is a unary operator, with so many
frames. -/
def PrimaryEnds (frames : Nat) : Prop :=
  ∀ (token : Token) (depth : Nat) (c c₁ : Cursor), token.kind.unary? = none →
    c.Takes [token] c₁ → c.Named →
    Ends (primary frames token) c₁ (Writes .term c)
      (Recognizer.formula.FailsWithin (.operand depth) c (frames ≤ 3 * c₁.ahead.length + 2))

theorem Writes.loosen {s t : Stratum} {c c' : Cursor} {f : Formula} (h : Writes s c f c')
    (hrank : t.rank ≤ s.rank) : Writes t c f c' := by
  obtain ⟨used, takes, derives⟩ := h
  exact ⟨used, takes, derives.loosen hrank⟩

theorem Writes.length_lt {s : Stratum} {c c' : Cursor} {f : Formula} (h : Writes s c f c') :
    c'.ahead.length < c.ahead.length := by
  obtain ⟨used, takes, derives⟩ := h
  have hlength := takes.length
  have hpos := List.length_pos_iff.mpr derives.ne_nil
  omega

theorem Writes.named {s : Stratum} {c c' : Cursor} {f : Formula} (h : Writes s c f c')
    (named : c.Named) : c'.Named := by
  obtain ⟨used, takes, -⟩ := h
  exact takes.named named

theorem primaryEnds_zero : PrimaryEnds 0 :=
  fun _ _ _ _ _ _ _ => .inl ⟨rfl, Nat.zero_le _⟩

theorem termEnds_zero : TermEnds 0 := fun _ _ _ => .inl ⟨rfl, Nat.zero_le _⟩

theorem formulaEnds_zero : FormulaEnds 0 := fun _ _ _ _ => .inl ⟨rfl, Nat.zero_le _⟩

theorem primaryEnds_succ {frames : Nat} (hformula : FormulaEnds frames) :
    PrimaryEnds (frames + 1) := by
  intro token depth c c₁ hunary takes named
  have unfinished := Outlook.operand_ne_final depth
  unfold primary
  cases hkind : token.kind with
  | literal =>
    obtain ⟨name, htext⟩ := named token (by simp [takes.ahead]) hkind
    simp only [atomOf_eq htext, ends_pure]
    exact ⟨[token], takes, .literal hkind htext⟩
  | leftParen =>
    have hopen : Recognizer.formula.run (.operand depth) [token] =
        some (.operand (depth + 1)) := Recognizer.run_kind hkind rfl
    apply Ends.bind
    apply (hformula 1 (depth + 1) c₁ (takes.named named)).mono
    · rintro f c₂ ⟨⟨inner, htakes, hderives⟩, hcloses⟩
      have hrun := hderives.run (depth + 1)
      have hboth := (Recognizer.run_append_of_run hopen).trans hrun
      apply Ends.bind
      apply ends_advance_bind
      · intro hnil
        exact .of_nothing (takes.append htakes) hnil hboth (Outlook.follow_succ_ne_final depth)
      · intro last c₃ hlast
        by_cases hright : last.kind = .rightParen
        · rw [if_pos hright]
          refine ⟨[token] ++ inner ++ [last], ?_, .group hkind hright hderives⟩
          exact (takes.append htakes).append hlast
        · rw [if_neg hright, ends_refuseAt]
          refine .of_token ([token] ++ inner) ?_ hboth ?_ (Outlook.follow_succ_ne_final depth) rfl
          · exact (takes.append htakes).append hlast
          · cases hother : last.kind with
            | binary op => exact absurd hother (hcloses.not_binary last hlast.mem_head? op)
            | rightParen => exact absurd hother hright
            | _ => rfl
    · intro fault c' h
      exact h.after takes hopen (by omega)
  | unary op => simp only [hkind, Kind.unary?, reduceCtorEq] at hunary
  | binary op => exact Recognizer.ends_refuse takes (by rw [hkind]; rfl) unfinished rfl
  | rightParen => exact Recognizer.ends_refuse takes (by rw [hkind]; rfl) unfinished rfl
  | comma => exact Recognizer.ends_refuse takes (by rw [hkind]; rfl) unfinished rfl
  | judgment j => exact Recognizer.ends_refuse takes (by rw [hkind]; rfl) unfinished rfl

theorem run_unary {run : List Unary} {used : List Token} (depth : Nat)
    (hrun : used.map (fun token => token.kind.unary?) = run.map some) :
    Recognizer.formula.run (.operand depth) used = some (.operand depth) := by
  apply Recognizer.run_of_stays
  intro token hmem
  obtain ⟨op, hop⟩ := exists_of_run hrun token hmem
  rw [Kind.unary?_eq_some.mp hop]
  rfl

theorem termEnds_succ {frames : Nat} (hprimary : PrimaryEnds frames) :
    TermEnds (frames + 1) := by
  intro depth c named
  rw [term, ends_countAhead_bind]
  apply Ends.bind
  apply (takeRun_ends Kind.unary? c.ahead.length c (Nat.le_refl _)).mono _ (fun _ _ => nofun)
  rintro run c₁ ⟨used, htakes, hrun, hhead⟩
  have hstate := run_unary depth hrun
  apply ends_advance_bind
  · intro hnil
    exact .of_nothing htakes hnil hstate (Outlook.operand_ne_final depth)
  · intro token c₂ htoken
    have hunary := hhead token (by simp [htoken.ahead])
    have hrunLength := htakes.length
    have hlength := htoken.length_succ
    apply Ends.bind
    apply (hprimary token depth c₁ c₂ hunary htoken (htakes.named named)).mono
    · rintro f c₃ ⟨rest, hrest, hderives⟩
      exact ⟨used ++ rest, htakes.append hrest, hderives.applyRun hrun⟩
    · intro fault c' h
      refine h.after htakes hstate ?_
      omega

/-- Either nothing that comes next extends a left operand, or a connective does. -/
theorem closes_or_connective (least : Int) (c : Cursor) :
    Closes least c.ahead ∨ ∃ token op c', token.kind = .binary op ∧ least ≤ op.strength ∧
      c.Takes [token] c' := by
  cases hahead : c.ahead with
  | nil => exact .inl (by simp [Closes])
  | cons token rest =>
    cases hconnective : token.kind.connective? with
    | none =>
      refine .inl (closes_of_not_binary least (fun op hop => ?_))
      rw [Kind.connective?_eq_some.mpr hop] at hconnective
      cases hconnective
    | some op =>
      have hkind := Kind.connective?_eq_some.mp hconnective
      by_cases hstrong : least ≤ op.strength
      · exact .inr ⟨token, op, _, hkind, hstrong, takes_of_ahead hahead⟩
      · exact .inl (closes_of_weaker hkind (by omega))

theorem climb_of_closes (operand : Int → Reading Formula) (least : Int) (budget : Nat)
    (left : Formula) (c : Cursor) (h : Closes least c.ahead) :
    climb operand least budget left c = .ok left c := by
  cases budget with
  | zero => rfl
  | succ budget =>
    rw [climb_succ]
    refine (bind_of_ok (peek_eq c)).trans ?_
    cases hahead : c.ahead with
    | nil => rfl
    | cons token rest =>
      simp only [List.head?_cons]
      cases hconnective : token.kind.connective? with
      | none => rfl
      | some op =>
        have hweak := h token (by simp [hahead]) op (Kind.connective?_eq_some.mp hconnective)
        simp only [if_pos hweak]
        rfl

theorem climb_of_connective {operand : Int → Reading Formula} {least : Int} {token : Token}
    {op : Connective} {c c' : Cursor} (budget : Nat) (left : Formula)
    (hkind : token.kind = .binary op) (strong : least ≤ op.strength)
    (takes : c.Takes [token] c') :
    climb operand least (budget + 1) left c =
      (operand op.rightStrength >>= fun right =>
        climb operand least budget (.binary op left right)) c' := by
  have hhead : c.ahead.head? = some token := takes.mem_head?
  have hconnective : token.kind.connective? = some op := Kind.connective?_eq_some.mpr hkind
  rw [climb_succ]
  refine (bind_of_ok (peek_eq c)).trans ?_
  simp only [hhead, hconnective, if_neg (Int.not_lt.mpr strong)]
  exact bind_of_ok (advance_of_takes takes)

/-- The loop over connectives, behind a left operand in a stratum that suits both the strength
asked for and any connective that comes next. -/
theorem climb_ends {frames : Nat} (hformula : FormulaEnds frames) (least : Int) (depth : Nat)
    (c : Cursor) (named : c.Named) (budget : Nat) (s : Stratum) (left : Formula) (c₁ : Cursor)
    (written : Writes s c left c₁) (enough : c₁.ahead.length ≤ budget)
    (hrank : (stratumFrom least).rank ≤ s.rank)
    (hnext : ∀ token ∈ c₁.ahead.head?, ∀ op, token.kind = .binary op →
      (leftStratum op).rank ≤ s.rank) :
    Ends (climb (formula frames) least budget left) c₁
      (fun f c' => Writes (stratumFrom least) c f c' ∧ Closes least c'.ahead)
      (Recognizer.formula.FailsWithin (.operand depth) c (frames ≤ 3 * c.ahead.length)) := by
  -- Each round makes a left operand of the stratum of its connective. What comes next is then
  -- weaker than the connective asked of its right operand, so the next round may go on from it.
  induction budget generalizing s left c₁ with
  | zero =>
    have hnil : c₁.ahead = [] := List.length_eq_zero_iff.mp (by omega)
    exact ⟨written.loosen hrank, by simp [Closes, hnil]⟩
  | succ budget ih =>
    rcases closes_or_connective least c₁ with hcloses | ⟨token, op, c₂, hkind, hstrong, htoken⟩
    · rw [Ends, climb_of_closes _ _ _ _ _ hcloses]
      exact ⟨written.loosen hrank, hcloses⟩
    · refine Ends.of_eq ?_ (climb_of_connective budget left hkind hstrong htoken)
      have hlt := written.length_lt
      have hnamed := htoken.named (written.named named)
      have hlength := htoken.length_succ
      obtain ⟨used, takes, derives⟩ := written
      apply Ends.bind
      apply (hformula op.rightStrength depth c₂ hnamed).mono
      · rintro right c₃ ⟨⟨more, hmore, hright⟩, hcloses⟩
        have hmoreLength := hmore.length
        refine ih (.level op) (.binary op left right) c₃ ?_ (by omega) ?_ ?_
        · refine ⟨used ++ token :: more, ?_, ?_⟩
          · exact takes.append (htoken.append hmore)
          · have hleft := derives.loosen (hnext token htoken.mem_head? op hkind)
            exact .join hkind hleft hright
        · exact rank_stratumFrom_le hstrong
        · intro next hmem other hother
          exact rank_leftStratum_le_strength (hcloses next hmem other hother)
      · intro fault c' h
        refine h.after (takes.append htoken) ?_ (by omega)
        exact Recognizer.run_snoc (derives.run depth) hkind rfl

theorem formulaEnds_succ {frames : Nat} (hterm : TermEnds frames)
    (hformula : FormulaEnds frames) : FormulaEnds (frames + 1) := by
  intro least depth c named
  rw [formula]
  apply Ends.bind
  apply (hterm depth c named).mono
  · intro first c₁ written
    rw [ends_countAhead_bind]
    apply (climb_ends hformula least depth c named _ .term first c₁ written (Nat.le_refl _)
      (rank_le _) ?_).mono (fun _ _ => id)
    · intro fault c' h
      exact h.mono (by omega)
    · intro token _ op _
      exact Int.le_trans (rank_leftStratum_le op) (by decide)
  · intro fault c' h
    exact h.mono (by omega)

/-- Reading at any number of frames, by induction on the frames. -/
theorem reading_ends (frames : Nat) :
    FormulaEnds frames ∧ TermEnds frames ∧ PrimaryEnds frames := by
  induction frames with
  | zero => exact ⟨formulaEnds_zero, termEnds_zero, primaryEnds_zero⟩
  | succ frames ih =>
    obtain ⟨hformula, hterm, hprimary⟩ := ih
    exact ⟨formulaEnds_succ hterm hformula, termEnds_succ hprimary, primaryEnds_succ hformula⟩

end Reading

end Turnstile
