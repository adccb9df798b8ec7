import Turnstile.Reading.Cursor

/-! How readings end. `Takes` says which tokens lie between two cursors, `Ends` what is known
of the outcome of a reading at a cursor, be it a value or a fault. A sequence of readings is
followed step by step, and every operation on a cursor has one rule. -/
namespace Turnstile

/-- A literal is spelled by one character, the name of its variable. -/
def Token.Named (token : Token) : Prop :=
  token.kind = .literal → ∃ name, token.text = String.singleton name

namespace Cursor

/-- The second cursor stands behind the first by just these tokens. -/
structure Takes (c : Cursor) (used : List Token) (c' : Cursor) : Prop where
  source : c'.source = c.source
  passed : c'.passed = used.reverse ++ c.passed
  ahead : c.ahead = used ++ c'.ahead

def Named (c : Cursor) : Prop := ∀ token ∈ c.ahead, token.Named

variable {c c₁ c₂ : Cursor} {used more : List Token} {token : Token}

theorem Takes.refl (c : Cursor) : c.Takes [] c := ⟨rfl, rfl, rfl⟩

theorem takes_start (source : String) (tokens : List Token) :
    (start source tokens).Takes tokens ⟨source, tokens.reverse, []⟩ := ⟨rfl, by simp, by simp⟩

theorem Takes.append (h : c.Takes used c₁) (h' : c₁.Takes more c₂) :
    c.Takes (used ++ more) c₂ where
  source := h'.source.trans h.source
  passed := by rw [h'.passed, h.passed, List.reverse_append, List.append_assoc]
  ahead := by rw [h.ahead, h'.ahead, List.append_assoc]

theorem Takes.split (h : c.Takes (used ++ more) c₂) :
    ∃ c₁, c.Takes used c₁ ∧ c₁.Takes more c₂ := by
  refine ⟨⟨c.source, used.reverse ++ c.passed, more ++ c₂.ahead⟩, ⟨rfl, rfl, ?_⟩, ?_⟩
  · rw [h.ahead, List.append_assoc]
  · refine ⟨h.source, ?_, rfl⟩
    rw [h.passed, List.reverse_append, List.append_assoc]

theorem Takes.split_cons (h : c.Takes (token :: more) c₂) :
    ∃ c₁, c.Takes [token] c₁ ∧ c₁.Takes more c₂ := by
  rw [← List.singleton_append] at h
  exact h.split

theorem Takes.unique (h : c.Takes used c₁) (h' : c.Takes used c₂) : c₁ = c₂ := by
  obtain ⟨source₁, passed₁, ahead₁⟩ := c₁
  obtain ⟨source₂, passed₂, ahead₂⟩ := c₂
  have hsource : source₁ = source₂ := h.source.trans h'.source.symm
  have hpassed : passed₁ = passed₂ := h.passed.trans h'.passed.symm
  have hahead : ahead₁ = ahead₂ := List.append_cancel_left (h.ahead.symm.trans h'.ahead)
  rw [hsource, hpassed, hahead]

theorem Takes.length (h : c.Takes used c₁) :
    c.ahead.length = used.length + c₁.ahead.length := by
  rw [h.ahead, List.length_append]

theorem Takes.length_succ (h : c.Takes [token] c₁) :
    c.ahead.length = c₁.ahead.length + 1 := by
  rw [h.length, List.length_singleton, Nat.add_comm]

theorem Takes.named (h : c.Takes used c₁) (named : c.Named) : c₁.Named := by
  intro token mem
  apply named
  rw [h.ahead]
  exact List.mem_append_right used mem

theorem Takes.mem_head? (h : c.Takes [token] c₁) : token ∈ c.ahead.head? := by
  simp [h.ahead]

theorem Takes.token_eq {next : Token} {rest : List Token} (h : c.Takes [token] c₁)
    (hahead : c.ahead = next :: rest) : token = next := by
  rw [h.ahead] at hahead
  exact (List.cons.inj hahead).1

theorem takes_of_ahead {rest : List Token} (h : c.ahead = token :: rest) :
    c.Takes [token] ⟨c.source, token :: c.passed, rest⟩ := ⟨rfl, rfl, h⟩

end Cursor

namespace Reading

variable {α β : Type} {c c' : Cursor} {reading : Reading α} {next : α → Reading β}

/-- The outcome of a reading at a cursor: a value at a cursor that are `good` together, or a
fault at one that are `bad`. -/
def Ends (reading : Reading α) (c : Cursor) (good : α → Cursor → Prop)
    (bad : Fault → Cursor → Prop) : Prop :=
  match reading c with
  | .ok value c' => good value c'
  | .error fault c' => bad fault c'

theorem Ends.of_ok {good : α → Cursor → Prop} {bad : Fault → Cursor → Prop} {value : α}
    (h : Ends reading c good bad) (ok : reading c = .ok value c') : good value c' := by
  simpa only [Ends, ok] using h

theorem Ends.of_error {good : α → Cursor → Prop} {bad : Fault → Cursor → Prop} {fault : Fault}
    (h : Ends reading c good bad) (error : reading c = .error fault c') : bad fault c' := by
  simpa only [Ends, error] using h

theorem Ends.mono {good good' : α → Cursor → Prop} {bad bad' : Fault → Cursor → Prop}
    (h : Ends reading c good bad) (hgood : ∀ value c', good value c' → good' value c')
    (hbad : ∀ fault c', bad fault c' → bad' fault c') : Ends reading c good' bad' := by
  unfold Ends at h ⊢
  cases hr : reading c with
  | ok value c' => rw [hr] at h; exact hgood value c' h
  | error fault c' => rw [hr] at h; exact hbad fault c' h

/-- Readings with one outcome end alike. -/
theorem Ends.of_eq {good : α → Cursor → Prop} {bad : Fault → Cursor → Prop}
    {reading' : Reading α} (h : Ends reading' c' good bad) (heq : reading c = reading' c') :
    Ends reading c good bad := by
  unfold Ends at h ⊢
  rw [heq]
  exact h

theorem bind_of_ok {value : α} (h : reading c = .ok value c') :
    (reading >>= next) c = next value c' := by
  change EStateM.bind reading next c = _
  simp only [EStateM.bind, h]

theorem bind_of_error {fault : Fault} (h : reading c = .error fault c') :
    (reading >>= next) c = .error fault c' := by
  change EStateM.bind reading next c = _
  simp only [EStateM.bind, h]

theorem Ends.bind {good : β → Cursor → Prop} {bad : Fault → Cursor → Prop}
    (h : Ends reading c (fun value c' => Ends (next value) c' good bad) bad) :
    Ends (reading >>= next) c good bad := by
  unfold Ends at h ⊢
  cases hr : reading c with
  | ok value c' => rw [hr] at h; rw [bind_of_ok hr]; exact h
  | error fault c' => rw [hr] at h; rw [bind_of_error hr]; exact h

section Operations

variable {good : α → Cursor → Prop} {bad : Fault → Cursor → Prop}

@[simp] theorem ends_pure (value : α) : Ends (pure value) c good bad ↔ good value c := Iff.rfl

@[simp] theorem ends_refuseAt (token : Token) (refusal : Refusal) :
    Ends (refuseAt token refusal : Reading α) c good bad ↔
      bad (.refused ⟨refusal, some token.position, c.source⟩) c := Iff.rfl

@[simp] theorem ends_peek_bind (next : Option Token → Reading α) :
    Ends (peek >>= next) c good bad ↔ Ends (next c.ahead.head?) c good bad := Iff.rfl

@[simp] theorem ends_countAhead_bind (next : Nat → Reading α) :
    Ends (countAhead >>= next) c good bad ↔ Ends (next c.ahead.length) c good bad := Iff.rfl

@[simp] theorem peek_eq (c : Cursor) : peek c = .ok c.ahead.head? c := rfl

@[simp] theorem countAhead_eq (c : Cursor) : countAhead c = .ok c.ahead.length c := rfl

/-- Taking a token fails at the end of the text only. -/
theorem ends_advance_bind {next : Token → Reading α}
    (last : c.ahead = [] → bad (.refused ⟨.endOfInput, some c.source.length, c.source⟩) c)
    (more : ∀ token c', c.Takes [token] c' → Ends (next token) c' good bad) :
    Ends (advance >>= next) c good bad := by
  apply Ends.bind
  unfold Ends advance
  cases h : c.ahead with
  | nil => exact last h
  | cons token rest => exact more token _ (Cursor.takes_of_ahead h)

theorem advance_of_takes {token : Token} (h : c.Takes [token] c') :
    advance c = .ok token c' := by
  have hc : c' = ⟨c.source, token :: c.passed, c'.ahead⟩ :=
    h.unique (Cursor.takes_of_ahead (by simpa using h.ahead))
  simp only [advance, h.ahead, List.singleton_append]
  rw [← hc]

end Operations

/-- What a run of tokens leaves behind: the items that their kinds are, and a next token, if
any, whose kind is none. -/
theorem takeRun_ends (want : Kind → Option α) (budget : Nat) (c : Cursor)
    (enough : c.ahead.length ≤ budget) :
    Ends (takeRun want budget) c
      (fun items c' => ∃ used, c.Takes used c' ∧
        used.map (fun token => want token.kind) = items.map some ∧
        ∀ token ∈ c'.ahead.head?, want token.kind = none)
      (fun _ _ => False) := by
  induction budget generalizing c with
  | zero =>
    have hnil : c.ahead = [] := List.length_eq_zero_iff.mp (by omega)
    exact ⟨[], .refl c, rfl, by simp [hnil]⟩
  | succ budget ih =>
    rw [takeRun, ends_peek_bind]
    cases h : c.ahead with
    | nil => exact ⟨[], .refl c, rfl, by simp [h]⟩
    | cons token rest =>
      cases hw : want token.kind with
      | none =>
        simp only [List.head?_cons, hw, ends_pure]
        exact ⟨[], .refl c, rfl, by simpa [h] using hw⟩
      | some item =>
        simp only [List.head?_cons, hw]
        apply ends_advance_bind
        · simp [h]
        · intro token' c₁ htake
          obtain rfl := htake.token_eq h
          have hlength := htake.length_succ
          apply Ends.bind
          apply (ih c₁ (by omega)).mono _ (fun _ _ => id)
          rintro items c₂ ⟨used, hused, hitems, hhead⟩
          exact ⟨token' :: used, htake.append hused, by simp [hw, hitems], hhead⟩

theorem exists_of_run {want : Kind → Option α} {used : List Token} {items : List α}
    (h : used.map (fun token => want token.kind) = items.map some) :
    ∀ token ∈ used, ∃ item, want token.kind = some item := by
  intro token hmem
  have hwant : want token.kind ∈ items.map some := h ▸ List.mem_map_of_mem hmem
  obtain ⟨item, -, hitem⟩ := List.mem_map.mp hwant
  exact ⟨item, hitem.symm⟩

/-- The atom of a literal that names a variable. -/
theorem atomOf_eq {token : Token} {name : Char} (h : token.text = String.singleton name) :
    atomOf token = pure (.atom name) := by
  have hnamed : Formula.named token.text = .ok (.atom name) := by
    simp only [Formula.named, variableNamed, h, String.toList_singleton]
    rfl
  simp only [atomOf, hnamed]

end Reading

end Turnstile
