import Turnstile.Proofs.Reading.Formula

/-! Every derivation is read. Where tokens of a stratum are followed by nothing that extends
them, reading with any strength that the stratum has arrives behind them, at the loop over
connectives, with the derived formula as left operand. So the grammar is unambiguous: there is
but one outcome. -/
namespace Turnstile.Reading

open Grammar Cursor

/-- Tokens that are read in a stratum, by enough frames, as the given formula. -/
def Reads : Stratum → List Token → Formula → Prop
  | .term, used, f => ∀ (frames : Nat) (c c' : Cursor), 3 * used.length ≤ frames →
      c.Takes used c' → term frames c = .ok f c'
  | .level op, used, f => ∀ (frames : Nat) (least : Int) (c c' : Cursor),
      3 * used.length ≤ frames → least ≤ op.strength → c.Takes used c' →
      Closes op.rightStrength c'.ahead →
      ∃ budget, c'.ahead.length ≤ budget ∧
        formula (frames + 1) least c = climb (formula frames) least budget f c'

theorem formula_of_term {frames : Nat} {f : Formula} {c c' : Cursor} (least : Int)
    (h : term frames c = .ok f c') :
    formula (frames + 1) least c =
      climb (formula frames) least c'.ahead.length f c' := by
  rw [formula]
  refine (bind_of_ok h).trans ?_
  exact bind_of_ok (countAhead_eq c')

theorem Reads.lift {op : Connective} {used : List Token} {f : Formula}
    (h : Reads (tighter op) used f) : Reads (.level op) used f := by
  intro frames least c c' hframes hleast takes hcloses
  rcases tighter_eq_term_or_level op with hterm | ⟨other, hother, hstrength, hright⟩
  · rw [hterm] at h
    exact ⟨_, Nat.le_refl _, formula_of_term least (h frames c c' hframes takes)⟩
  · rw [hother] at h
    exact h frames least c c' hframes (Int.le_trans hleast hstrength) takes
      (hcloses.mono hright)

/-- The left operand of a connective, read up to that connective. -/
theorem Reads.leftOperand {op : Connective} {used : List Token} {f : Formula} {token : Token}
    {frames : Nat} {least : Int} {c c₁ c₂ : Cursor} (h : Reads (leftStratum op) used f)
    (hframes : 3 * used.length ≤ frames) (hleast : least ≤ op.strength)
    (takes : c.Takes used c₁) (hkind : token.kind = .binary op) (htoken : c₁.Takes [token] c₂) :
    ∃ budget, c₂.ahead.length ≤ budget ∧
      formula (frames + 1) least c = climb (formula frames) least (budget + 1) f c₁ := by
  obtain ⟨other, hother, hstrength, hright⟩ := leftStratum_eq_level op
  rw [hother] at h
  have hcloses : Closes other.rightStrength c₁.ahead := by
    rw [htoken.ahead]
    exact closes_of_weaker hkind hright
  obtain ⟨budget, henough, heq⟩ :=
    h frames least c c₁ hframes (Int.le_trans hleast hstrength) takes hcloses
  have hlength := htoken.length_succ
  obtain ⟨budget, rfl⟩ : ∃ budget', budget = budget' + 1 := ⟨budget - 1, by omega⟩
  exact ⟨budget, by omega, heq⟩

/-- The right operand of a connective, read to its end. -/
theorem Reads.rightOperand {op : Connective} {used : List Token} {f : Formula} {frames : Nat}
    {c c' : Cursor} (h : Reads (stratumFrom op.rightStrength) used f)
    (hframes : 3 * used.length ≤ frames) (takes : c.Takes used c')
    (hcloses : Closes op.rightStrength c'.ahead) :
    formula (frames + 1) op.rightStrength c = .ok f c' := by
  rcases rightStratum_eq_term_or_level op with hterm | ⟨other, hother, hstrength, hright⟩
  · rw [hterm] at h
    refine (formula_of_term _ (h frames c c' hframes takes)).trans ?_
    exact climb_of_closes _ _ _ _ _ hcloses
  · rw [hother] at h
    obtain ⟨_, -, heq⟩ := h frames _ c c' hframes hstrength takes (hcloses.mono hright)
    exact heq.trans (climb_of_closes _ _ _ _ _ hcloses)

theorem Reads.join {op : Connective} {left right : List Token} {token : Token} {f g : Formula}
    (hkind : token.kind = .binary op) (hleft : Reads (leftStratum op) left f)
    (hright : Reads (stratumFrom op.rightStrength) right g) :
    Reads (.level op) (left ++ token :: right) (.binary op f g) := by
  intro frames least c c' hframes hleast takes hcloses
  simp only [List.length_append, List.length_cons] at hframes
  obtain ⟨c₁, hc₁, htail⟩ := takes.split
  obtain ⟨c₂, hc₂, hc'⟩ := htail.split_cons
  have hleftFrames : 3 * left.length ≤ frames := by omega
  obtain ⟨budget, henough, heq⟩ := hleft.leftOperand hleftFrames hleast hc₁ hkind hc₂
  have hlength := hc'.length
  obtain ⟨frames, rfl⟩ : ∃ frames', frames = frames' + 1 := ⟨frames - 1, by omega⟩
  refine ⟨budget, by omega, ?_⟩
  rw [heq, climb_of_connective budget f hkind hleast hc₂]
  exact bind_of_ok (hright.rightOperand (by omega) hc' hcloses)

/-- A token that is no unary operator opens the operand of an empty run. -/
theorem term_of_primary {frames : Nat} {token : Token} {c c₁ : Cursor}
    (hunary : token.kind.unary? = none) (takes : c.Takes [token] c₁) :
    term (frames + 1) c = primary frames token c₁ := by
  have hrun : takeRun Kind.unary? c.ahead.length c = .ok [] c := by
    rw [takes.ahead, List.singleton_append, List.length_cons, takeRun]
    refine (bind_of_ok (peek_eq c)).trans ?_
    simp only [takes.ahead, List.singleton_append, List.head?_cons, hunary]
    rfl
  rw [term]
  refine (bind_of_ok (countAhead_eq c)).trans ?_
  refine (bind_of_ok hrun).trans ?_
  refine (bind_of_ok (advance_of_takes takes)).trans ?_
  exact congrFun (bind_pure (primary frames token)) c₁

/-- A literal takes a frame for the term and one for itself. -/
theorem term_of_literal {frames : Nat} {token : Token} {name : Char} {c c' : Cursor}
    (hkind : token.kind = .literal) (htext : token.text = String.singleton name)
    (takes : c.Takes [token] c') : term (frames + 2) c = .ok (.atom name) c' := by
  rw [term_of_primary (by rw [hkind]; rfl) takes]
  simp only [primary, hkind, atomOf_eq htext]
  rfl

theorem bind_eq_ok {α β : Type} {reading : Reading α} {next : α → Reading β} {c c' : Cursor}
    {value : β} (h : (reading >>= next) c = .ok value c') :
    ∃ first c₁, reading c = .ok first c₁ ∧ next first c₁ = .ok value c' := by
  cases hr : reading c with
  | ok first c₁ => exact ⟨first, c₁, rfl, (bind_of_ok hr).symm.trans h⟩
  | error fault c₁ => cases (bind_of_error hr).symm.trans h

theorem advance_eq_ok_iff {token : Token} {c c' : Cursor} :
    advance c = .ok token c' ↔ c.Takes [token] c' := by
  refine ⟨fun h => ?_, advance_of_takes⟩
  rw [advance] at h
  split at h
  · cases h
  · next hahead =>
    cases h
    exact Cursor.takes_of_ahead hahead

theorem expect_eq_ok_iff {kind : Kind} {token : Token} {c c' : Cursor} :
    expect kind c = .ok token c' ↔ token.kind = kind ∧ c.Takes [token] c' := by
  constructor
  · intro h
    obtain ⟨next, c₁, hadvance, h⟩ := bind_eq_ok h
    split at h
    · next hkind =>
      cases h
      exact ⟨hkind, advance_eq_ok_iff.mp hadvance⟩
    · cases h
  · rintro ⟨hkind, takes⟩
    refine (bind_of_ok (advance_of_takes takes)).trans ?_
    rw [if_pos hkind]
    rfl

/-- A unary operator before a term joins the run before its operand. -/
theorem term_of_unary {frames : Nat} {token : Token} {op : Unary} {f : Formula}
    {c c₁ c' : Cursor} (hkind : token.kind = .unary op) (takes : c.Takes [token] c₁)
    (h : term frames c₁ = .ok f c') : term frames c = .ok (.unary op f) c' := by
  cases frames with
  | zero => cases h
  | succ frames =>
    rw [term] at h ⊢
    obtain ⟨run, c₂, hrun, h⟩ := bind_eq_ok ((bind_of_ok (countAhead_eq c₁)).symm.trans h)
    obtain ⟨opening, c₃, hopening, h⟩ := bind_eq_ok h
    obtain ⟨operand, c₄, hoperand, h⟩ := bind_eq_ok h
    have hlonger : takeRun Kind.unary? c.ahead.length c = .ok (op :: run) c₂ := by
      rw [takes.ahead, List.singleton_append, List.length_cons, takeRun]
      refine (bind_of_ok (peek_eq c)).trans ?_
      have hunary : token.kind.unary? = some op := Kind.unary?_eq_some.mpr hkind
      simp only [takes.ahead, List.singleton_append, List.head?_cons, hunary]
      refine (bind_of_ok (advance_of_takes takes)).trans ?_
      exact bind_of_ok hrun
    refine (bind_of_ok (countAhead_eq c)).trans ?_
    refine (bind_of_ok hlonger).trans ?_
    refine (bind_of_ok hopening).trans ?_
    refine (bind_of_ok hoperand).trans ?_
    cases h
    rfl

theorem Reads.group {first last : Token} {tokens : List Token} {f : Formula}
    (hfirst : first.kind = .leftParen) (hlast : last.kind = .rightParen)
    (h : Reads loosest tokens f) : Reads .term (first :: tokens ++ [last]) f := by
  intro frames c c' hframes takes
  simp only [List.cons_append, List.length_cons, List.length_append, List.length_nil] at hframes
  obtain ⟨c₁, hc₁, htail⟩ := takes.split_cons
  obtain ⟨c₂, hc₂, hc'⟩ := htail.split
  obtain ⟨frames, rfl⟩ : ∃ frames', frames = frames' + 3 := ⟨frames - 3, by omega⟩
  have hcloses (least : Int) : Closes least c₂.ahead := by
    rw [hc'.ahead]
    exact closes_of_not_binary least (fun op hop => by rw [hlast] at hop; cases hop)
  have hinner : formula (frames + 1) 1 c₁ = .ok f c₂ := by
    obtain ⟨_, -, heq⟩ := h frames 1 c₁ c₂ (by omega) (by decide) hc₂ (hcloses _)
    exact heq.trans (climb_of_closes _ _ _ _ _ (hcloses 1))
  have hexpect : expect .rightParen c₂ = .ok last c' := expect_eq_ok_iff.mpr ⟨hlast, hc'⟩
  rw [term_of_primary (by rw [hfirst]; rfl) hc₁]
  simp only [primary, hfirst]
  refine (bind_of_ok hinner).trans ?_
  exact bind_of_ok hexpect

theorem Reads.literal {token : Token} {name : Char} (hkind : token.kind = .literal)
    (htext : token.text = String.singleton name) : Reads .term [token] (.atom name) := by
  intro frames c c' hframes takes
  simp only [List.length_singleton] at hframes
  obtain ⟨frames, rfl⟩ : ∃ frames', frames = frames' + 2 := ⟨frames - 2, by omega⟩
  exact term_of_literal hkind htext takes

/-- Every derivation is read as what it derives. -/
theorem reads_of_derives {s : Stratum} {tokens : List Token} {f : Formula}
    (h : Derives s tokens f) : Reads s tokens f := by
  induction h with
  | lift _ ih => exact ih.lift
  | joinLeft hop hkind _ _ ihl ihr =>
    exact .join hkind (leftStratum_of_ne hop ▸ ihl) (stratumFrom_rightStrength hop ▸ ihr)
  | joinRight hkind _ _ ihl ihr => exact .join hkind ihl ihr
  | unary hkind _ ih =>
    intro frames c c' hframes takes
    obtain ⟨c₁, hc₁, hc'⟩ := takes.split_cons
    simp only [List.length_cons] at hframes
    exact term_of_unary hkind hc₁ (ih frames c₁ c' (by omega) hc')
  | group hfirst hlast _ ih => exact .group hfirst hlast ih
  | literal hkind htext => exact .literal hkind htext

end Turnstile.Reading
