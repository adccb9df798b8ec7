import Turnstile.Proofs.Reading.Walk

/-! Reading a formula is local. Behind its first term the loop makes a round for every connective
that is strong enough, and how many tokens are left makes no difference to the rounds. So a formula
is decided by the tokens that it takes, as long as nothing extends it; and with a larger least
strength the same rounds are made, up to the first connective that is then too weak. -/
namespace Turnstile

def Cursor.before (source : String) (tokens : List Token) (index : Nat) : Cursor :=
  ⟨source, (tokens.take index).reverse, tokens.drop index⟩

namespace Cursor

variable {source : String} {tokens used rest : List Token} {index : Nat} {c : Cursor}

theorem takes_before (source : String) (h : tokens.drop index = used ++ rest) :
    (before source tokens index).Takes used (before source tokens (index + used.length)) where
  source := rfl
  passed := by simp [before, List.take_add, h]
  ahead := by simp [before, ← List.drop_drop, h]

theorem Takes.eq_before (h : (before source tokens index).Takes used c) :
    c = before source tokens (index + used.length) := h.unique (takes_before source h.ahead)

theorem Takes.index_le_length (h : (before source tokens index).Takes used c)
    (nonempty : 0 < used.length) : index + used.length ≤ tokens.length := by
  have hlength : tokens.length - index = used.length + c.ahead.length := by
    rw [← h.length, before, List.length_drop]
  omega

/-- The same tokens are taken if others stand behind them. -/
theorem Takes.replace (h : (before source tokens index).Takes used c) (nonempty : 0 < used.length)
    (source' : String) (rest : List Token) :
    (before source' (tokens.take (index + used.length) ++ rest) index).Takes used
      (before source' (tokens.take (index + used.length) ++ rest) (index + used.length)) := by
  have hle := h.index_le_length nonempty
  have htake : tokens.take (index + used.length) = tokens.take index ++ used := by
    have hahead : tokens.drop index = used ++ c.ahead := h.ahead
    rw [List.take_add, hahead, List.take_left]
  have hdrop : (tokens.take (index + used.length) ++ rest).drop index = used ++ rest := by
    rw [htake, List.append_assoc]
    exact List.drop_left' (List.length_take_of_le (by omega))
  exact takes_before source' hdrop

theorem ahead_before_take_append (source : String) (rest : List Token)
    (h : index ≤ tokens.length) : (before source (tokens.take index ++ rest) index).ahead = rest :=
  List.drop_left' (List.length_take_of_le h)

end Cursor

theorem Closes.replace {least : Int} {used rest rest' : List Token}
    (h : Closes least (used ++ rest)) (h' : Closes least rest') : Closes least (used ++ rest') := by
  cases used with
  | nil => exact h'
  | cons token used => exact h

theorem Connective.strength_le_rightStrength (op : Connective) : op.strength ≤ op.rightStrength := by
  cases op <;> decide

namespace Reading

variable {α : Type} {frames : Nat} {least least' : Int} {left f : Formula} {c c' : Cursor}

/-- The rounds of the loop over connectives, from a left operand to where nothing extends it. The
right operands are read with so many frames. -/
inductive Rounds (frames : Nat) (least : Int) : Formula → Cursor → Formula → Cursor → Prop
  | done {f : Formula} {c : Cursor} (closes : Closes least c.ahead) : Rounds frames least f c f c
  | round {token : Token} {op : Connective} {left right f : Formula} {c c₁ c₂ c' : Cursor}
      (hkind : token.kind = .binary op) (strong : least ≤ op.strength) (takes : c.Takes [token] c₁)
      (reads : formula frames op.rightStrength c₁ = .ok right c₂)
      (more : Rounds frames least (.binary op left right) c₂ f c') : Rounds frames least left c f c'

theorem formula_takes (h : formula frames least c = .ok f c') :
    ∃ used, c.Takes used c' ∧ 0 < used.length := ((advances_reading frames).1 least c).of_ok h

/-- The loop makes its rounds, if it may make as many as there are tokens. -/
theorem rounds_of_climb {budget : Nat} (enough : c.ahead.length ≤ budget)
    (h : climb (formula frames) least budget left c = .ok f c') :
    Rounds frames least left c f c' := by
  induction budget generalizing left c with
  | zero =>
    have hnil : c.ahead = [] := List.length_eq_zero_iff.mp (by omega)
    cases h
    exact .done (by simp [Closes, hnil])
  | succ budget ih =>
    rcases closes_or_connective least c with hcloses | ⟨token, op, c₁, hkind, strong, takes⟩
    · cases (climb_of_closes _ _ _ _ _ hcloses).symm.trans h
      exact .done hcloses
    · obtain ⟨right, c₂, reads, h⟩ :=
        bind_eq_ok ((climb_of_connective budget left hkind strong takes).symm.trans h)
      obtain ⟨used, hused, -⟩ := formula_takes reads
      have hlength := takes.length_succ
      have hshorter := hused.length
      exact .round hkind strong takes reads (ih (by omega) h)

theorem Rounds.climb_eq (h : Rounds frames least left c f c') {budget : Nat}
    (enough : c.ahead.length ≤ budget) :
    climb (formula frames) least budget left c = .ok f c' := by
  induction h generalizing budget with
  | done closes => exact climb_of_closes _ _ _ _ _ closes
  | round hkind strong takes reads _ ih =>
    obtain ⟨used, hused, -⟩ := formula_takes reads
    have hlength := takes.length_succ
    have hshorter := hused.length
    obtain ⟨budget, rfl⟩ : ∃ budget', budget = budget' + 1 := ⟨budget - 1, by omega⟩
    refine (climb_of_connective budget _ hkind strong takes).trans ?_
    exact (bind_of_ok reads).trans (ih (by omega))

/-- A formula is a term and the rounds behind it. -/
theorem formula_eq_ok_iff : formula (frames + 1) least c = .ok f c' ↔
    ∃ first c₁, term frames c = .ok first c₁ ∧ Rounds frames least first c₁ f c' := by
  constructor
  · intro h
    rw [formula] at h
    obtain ⟨first, c₁, hterm, h⟩ := bind_eq_ok h
    have hclimb := (bind_of_ok (countAhead_eq c₁)).symm.trans h
    exact ⟨first, c₁, hterm, rounds_of_climb (Nat.le_refl _) hclimb⟩
  · rintro ⟨first, c₁, hterm, rounds⟩
    exact (formula_of_term least hterm).trans (rounds.climb_eq (Nat.le_refl _))

/-- A value is decided by the tokens that are taken for it, wherever they stand, if what comes
next meets a condition. -/
def Local (reading : Reading α) (fits : List Token → Prop) : Prop :=
  ∀ c value c', reading c = .ok value c' → ∃ used, c.Takes used c' ∧ fits c'.ahead ∧
    ∀ d d', d.Takes used d' → fits d'.ahead → reading d = .ok value d'

theorem Rounds.takes (h : Rounds frames least left c f c') : ∃ used, c.Takes used c' := by
  induction h with
  | done => exact ⟨[], .refl _⟩
  | round _ _ takes reads _ ih =>
    obtain ⟨used, hused, -⟩ := formula_takes reads
    obtain ⟨later, hlater⟩ := ih
    exact ⟨_, takes.append (hused.append hlater)⟩

theorem Rounds.closes (h : Rounds frames least left c f c') : Closes least c'.ahead := by
  induction h with
  | done closes => exact closes
  | round _ _ _ _ _ ih => exact ih

/-- What ends the rounds also ends the right operand of the last one, and the right operands before
it end at connectives, which stay. -/
theorem Rounds.replay (operands : ∀ least, Local (formula frames least) (Closes least))
    (h : Rounds frames least left c f c') :
    ∃ used, c.Takes used c' ∧ ∀ d d', d.Takes used d' → Closes least d'.ahead →
      Rounds frames least left d f d' := by
  induction h with
  | done =>
    refine ⟨[], .refl _, fun d d' takes hcloses => ?_⟩
    cases takes.unique (.refl d)
    exact .done hcloses
  | @round token op _ right _ _ _ c₂ _ hkind strong takes reads _ ih =>
    obtain ⟨more, hmore, hclosesRight, hright⟩ := operands _ _ _ _ reads
    obtain ⟨later, hlater, hrounds⟩ := ih
    refine ⟨token :: (more ++ later), takes.append (hmore.append hlater), fun d d' h hcloses => ?_⟩
    obtain ⟨d₁, hd₁, htail⟩ := h.split_cons
    obtain ⟨d₂, hd₂, hd'⟩ := htail.split
    have hcloses₂ : Closes op.rightStrength d₂.ahead := by
      rw [hlater.ahead] at hclosesRight
      rw [hd'.ahead]
      exact hclosesRight.replace (hcloses.mono (strong.trans op.strength_le_rightStrength))
    exact .round hkind strong hd₁ (hright d₁ d₂ hd₂ hcloses₂) (hrounds d₂ d' hd' hcloses)

theorem formula_local_succ (hterm : Local (term frames) fun _ => True)
    (operands : ∀ least, Local (formula frames least) (Closes least)) (least : Int) :
    Local (formula (frames + 1) least) (Closes least) := by
  intro c f c' h
  obtain ⟨first, c₁, hfirst, rounds⟩ := formula_eq_ok_iff.mp h
  obtain ⟨used, takes, -, hread⟩ := hterm c first c₁ hfirst
  obtain ⟨later, hlater, hrounds⟩ := rounds.replay operands
  refine ⟨used ++ later, takes.append hlater, rounds.closes, fun d d' h hcloses => ?_⟩
  obtain ⟨d₁, hd₁, hd'⟩ := h.split
  exact formula_eq_ok_iff.mpr ⟨first, d₁, hread d d₁ hd₁ trivial, hrounds d₁ d' hd' hcloses⟩

/-- The operators of a run join the term behind them. -/
theorem term_of_run {run : List Unary} {used tokens : List Token}
    (hrun : used.map (fun token => token.kind.unary?) = run.map some)
    (h : ∀ c, c.Takes tokens c' → term frames c = .ok f c') :
    ∀ c, c.Takes (used ++ tokens) c' → term frames c = .ok (f.applyRun run) c' := by
  refine @Grammar.applyRun_of_cons Kind.unary?
    (fun tokens f => ∀ c, c.Takes tokens c' → term frames c = .ok f c') ?_ _ _ _ _ hrun h
  intro token op tokens f hop ih c takes
  obtain ⟨c₁, hc₁, hc'⟩ := takes.split_cons
  exact term_of_unary (Kind.unary?_eq_some.mp hop) hc₁ (ih c₁ hc')

theorem term_local_succ (hprimary : ∀ token, Local (primary frames token) fun _ => True) :
    Local (term (frames + 1)) fun _ => True := by
  intro c f c' h
  rw [term] at h
  obtain ⟨run, c₁, hrun, h⟩ := bind_eq_ok ((bind_of_ok (countAhead_eq c)).symm.trans h)
  obtain ⟨token, c₂, hadvance, h⟩ := bind_eq_ok h
  obtain ⟨operand, c₃, hoperand, h⟩ := bind_eq_ok h
  cases h
  obtain ⟨used, hused, hmap, hhead⟩ :=
    (takeRun_ends Kind.unary? _ c (Nat.le_refl _)).of_ok hrun
  have htoken := advance_eq_ok_iff.mp hadvance
  obtain ⟨more, hmore, -, hread⟩ := hprimary token _ _ _ hoperand
  refine ⟨used ++ token :: more, hused.append (htoken.append hmore), trivial, ?_⟩
  refine fun d d' takes _ => term_of_run hmap (fun d₁ hd₁ => ?_) d takes
  obtain ⟨d₂, hd₂, hd'⟩ := hd₁.split_cons
  exact (term_of_primary (hhead token htoken.mem_head?) hd₂).trans (hread d₂ d' hd' trivial)

theorem primary_local_succ (hformula : Local (formula frames 1) (Closes 1)) (token : Token) :
    Local (primary (frames + 1) token) fun _ => True := by
  intro c f c' h
  unfold primary at h ⊢
  cases hkind : token.kind with
  | literal =>
    simp only [hkind, atomOf] at h ⊢
    cases hnamed : Formula.named token.text with
    | error e =>
      rw [hnamed] at h
      cases h
    | ok atom =>
      rw [hnamed] at h
      cases h
      refine ⟨[], .refl c, trivial, fun d d' takes _ => ?_⟩
      cases takes.unique (.refl d)
      rfl
  | leftParen =>
    simp only [hkind] at h ⊢
    obtain ⟨inner, c₁, hinner, h⟩ := bind_eq_ok h
    obtain ⟨last, c₂, hlast, h⟩ := bind_eq_ok h
    cases h
    obtain ⟨used, takes, -, hread⟩ := hformula _ _ _ hinner
    obtain ⟨hright, htake⟩ := expect_eq_ok_iff.mp hlast
    refine ⟨used ++ [last], takes.append htake, trivial, fun d d' h _ => ?_⟩
    obtain ⟨d₁, hd₁, hd'⟩ := h.split
    have hcloses : Closes 1 d₁.ahead := by
      rw [hd'.ahead]
      exact closes_of_not_binary 1 (by simp [hright])
    refine (bind_of_ok (hread d d₁ hd₁ hcloses)).trans ?_
    exact bind_of_ok (expect_eq_ok_iff.mpr ⟨hright, hd'⟩)
  | _ =>
    simp only [hkind] at h
    cases h

theorem reading_local (frames : Nat) :
    (∀ least, Local (formula frames least) (Closes least)) ∧
    Local (term frames) (fun _ => True) ∧
    ∀ token, Local (primary frames token) fun _ => True := by
  -- all three at once, as each calls the next with one frame less
  induction frames with
  | zero =>
    refine ⟨fun least c f c' h => ?_, fun c f c' h => ?_, fun token c f c' h => ?_⟩
    · rw [formula] at h
      cases h
    · rw [term] at h
      cases h
    · rw [primary] at h
      cases h
  | succ frames ih =>
    obtain ⟨hformula, hterm, hprimary⟩ := ih
    exact ⟨formula_local_succ hterm hformula, term_local_succ hprimary,
      primary_local_succ (hformula 1)⟩

/-- With a larger least strength the first rounds are the same, and there may be fewer of them. -/
theorem Rounds.raise (h : Rounds frames least left c f c') (hle : least ≤ least') :
    ∃ f' c'' skipped, Rounds frames least' left c f' c'' ∧ c''.Takes skipped c' ∧
      (skipped = [] → f' = f) := by
  induction h with
  | done closes => exact ⟨_, _, [], .done (closes.mono hle), .refl _, fun _ => rfl⟩
  | @round token op left right f c c₁ c₂ c' hkind strong takes reads more ih =>
    by_cases strong' : least' ≤ op.strength
    · obtain ⟨f', c'', skipped, rounds, hskipped⟩ := ih
      exact ⟨f', c'', skipped, .round hkind strong' takes reads rounds, hskipped⟩
    · have hcloses : Closes least' c.ahead := by
        rw [takes.ahead]
        exact closes_of_weaker hkind (Int.not_le.mp strong')
      obtain ⟨used, hused, -⟩ := formula_takes reads
      obtain ⟨later, hlater⟩ := more.takes
      exact ⟨left, c, _, .done hcloses, takes.append (hused.append hlater), nofun⟩

theorem formula_raise (h : formula frames least c = .ok f c') (hle : least ≤ least') :
    ∃ f' c'' skipped, formula frames least' c = .ok f' c'' ∧ c''.Takes skipped c' ∧
      (skipped = [] → f' = f) := by
  cases frames with
  | zero =>
    rw [formula] at h
    cases h
  | succ frames =>
    obtain ⟨first, c₁, hterm, rounds⟩ := formula_eq_ok_iff.mp h
    obtain ⟨f', c'', skipped, hrounds, hskipped⟩ := rounds.raise hle
    exact ⟨f', c'', skipped, formula_eq_ok_iff.mpr ⟨first, c₁, hterm, hrounds⟩, hskipped⟩

/-- A formula ends where no connective of the least strength extends it. It is the same formula and
ends at the same place if anything that does not extend it either stands behind it, in whatever
text. With a larger least strength a formula is read from the same place that ends no later, and if
it does not end earlier it is the same one. All this takes no further frames. -/
theorem formula_local (frames : Nat) (least : Int) (source : String) (tokens : List Token)
    (start : Nat) (f : Formula) (c : Cursor)
    (reads : formula frames least (.before source tokens start) = .ok f c) :
    ∃ stop, start < stop ∧ stop ≤ tokens.length ∧ c = .before source tokens stop ∧
      Closes least (tokens.drop stop) ∧
      (∀ source' rest, Closes least rest →
        formula frames least (.before source' (tokens.take stop ++ rest) start) =
          .ok f (.before source' (tokens.take stop ++ rest) stop)) ∧
      ∀ least', least < least' → ∃ f' stop', stop' ≤ stop ∧ (stop' = stop → f' = f) ∧
        formula frames least' (.before source tokens start) =
          .ok f' (.before source tokens stop') := by
  obtain ⟨used, takes, hcloses, hread⟩ := (reading_local frames).1 least _ _ _ reads
  have nonempty : 0 < used.length := by
    obtain ⟨used', takes', nonempty⟩ := formula_takes reads
    have hlength := takes.length
    have hlength' := takes'.length
    omega
  have hle := takes.index_le_length nonempty
  refine ⟨start + used.length, by omega, hle, takes.eq_before, ?_, fun source' rest hrest => ?_,
    fun least' hlt => ?_⟩
  · rwa [takes.eq_before] at hcloses
  · apply hread _ _ (takes.replace nonempty source' rest)
    rwa [Cursor.ahead_before_take_append source' rest hle]
  · obtain ⟨f', c', skipped, hraised, hskipped, hsame⟩ := formula_raise reads (Int.le_of_lt hlt)
    obtain ⟨used', takes', -⟩ := formula_takes hraised
    have hlength := takes.length
    have hlength' := (takes'.append hskipped).length
    rw [List.length_append] at hlength'
    refine ⟨f', start + used'.length, by omega, fun hstop => ?_, takes'.eq_before ▸ hraised⟩
    exact hsame (List.length_eq_zero_iff.mp (by omega))

def descendingText : String := "p ^ q v r -> s"

/-- Ever looser connectives. -/
def descendingTokens : List Token :=
  [⟨.literal, "p", 0⟩, ⟨.binary .conjunction, "^", 2⟩, ⟨.literal, "q", 4⟩,
    ⟨.binary .disjunction, "v", 6⟩, ⟨.literal, "r", 8⟩, ⟨.binary .conditional, "->", 10⟩,
    ⟨.literal, "s", 13⟩]

def descendingFormula : Formula :=
  .binary .disjunction (.binary .conjunction (.atom 'p') (.atom 'q')) (.atom 'r')

/-- The same tokens with a parenthesis in place of the conditional. -/
def closedTokens : List Token := descendingTokens.take 5 ++ [⟨.rightParen, ")", 9⟩]

theorem formula_local_descending :
    formula 6 3 (.before descendingText descendingTokens 0) =
      .ok descendingFormula (.before descendingText descendingTokens 5) ∧
    formula 6 3 (.before "p ^ q v r)" closedTokens 0) =
      .ok descendingFormula (.before "p ^ q v r)" closedTokens 5) ∧
    ∃ f' stop', stop' ≤ 5 ∧ formula 6 4 (.before descendingText descendingTokens 0) =
      .ok f' (.before descendingText descendingTokens stop') := by
  have hread : formula 6 3 (.before descendingText descendingTokens 0) =
      .ok descendingFormula (.before descendingText descendingTokens 5) := by cbv
  obtain ⟨stop, -, hle, hstop, -, hreplaced, hraised⟩ := formula_local 6 3 _ _ 0 _ _ hread
  have hfive : stop = 5 := by
    have hindex := congrArg Cursor.index hstop
    simp only [Cursor.index, Cursor.before, List.length_reverse, List.length_take] at hindex
    have hlength : descendingTokens.length = 7 := rfl
    omega
  subst hfive
  obtain ⟨f', stop', hearlier, -, hread'⟩ := hraised 4 (by decide)
  have hcloses : Closes 3 [⟨.rightParen, ")", 9⟩] := closes_of_not_binary 3 (by simp)
  exact ⟨hread, hreplaced _ _ hcloses, f', stop', hearlier, hread'⟩

end Reading

end Turnstile
