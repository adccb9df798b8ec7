import Mathlib
import Turnstile.Proofs.Printing.Spelled
import Turnstile.Proofs.Reading.Polish
import Turnstile.Proofs.Reading.Sequent
import Turnstile.Proofs.Token.Extent
import Turnstile.Reader

/-! What a larger number of frames changes. A reading that does not run out of frames has the same
outcome with more of them: two runs are followed side by side, and every operation keeps the first
from going on differently. Each frame but the first few is paid for by a token, so a text has a
number of frames that is enough. -/
namespace Turnstile

open Grammar

namespace Reading

variable {α β : Type} {reading reading' : Reading α} {next next' : α → Reading β}

/-- Wherever the first reading does not run out of frames, the second has its outcome. -/
def Refines (reading reading' : Reading α) : Prop :=
  ∀ c, (∃ c', reading c = .error .outOfFrames c') ∨ reading' c = reading c

theorem Refines.refl (reading : Reading α) : Refines reading reading := fun _ => .inr rfl

theorem refines_outOfFrames (reading : Reading α) : Refines (throw .outOfFrames) reading :=
  fun c => .inl ⟨c, rfl⟩

theorem Refines.bind (h : Refines reading reading')
    (hnext : ∀ value, Refines (next value) (next' value)) :
    Refines (reading >>= next) (reading' >>= next') := by
  intro c
  rcases h c with ⟨c', hframes⟩ | hsame
  · exact .inl ⟨c', bind_of_error hframes⟩
  · cases hread : reading c with
    | ok value c' =>
      rw [bind_of_ok hread, bind_of_ok (hsame.trans hread)]
      exact hnext value c'
    | error fault c' =>
      rw [bind_of_error hread, bind_of_error (hsame.trans hread)]
      exact .inr rfl

/-- The two runs differ behind the first reading only. -/
theorem refines_bind (hnext : ∀ value, Refines (next value) (next' value)) :
    Refines (reading >>= next) (reading >>= next') := (Refines.refl reading).bind hnext

theorem Refines.complete (h : Refines reading reading') :
    Refines reading.complete reading'.complete := h.bind fun _ => .refl _

theorem refines_climb {operand operand' : Int → Reading Formula}
    (h : ∀ least, Refines (operand least) (operand' least)) (least : Int) (budget : Nat)
    (left : Formula) : Refines (climb operand least budget left)
      (climb operand' least budget left) := by
  induction budget generalizing left with
  | zero => exact .refl _
  | succ budget ih =>
    rw [climb_succ, climb_succ]
    apply refines_bind
    intro peeked
    split
    · exact .refl _
    · next token =>
      split
      · exact .refl _
      · next op _ =>
        split
        · exact .refl _
        · apply refines_bind
          intro _
          exact (h op.rightStrength).bind fun right => ih (.binary op left right)

/-- With no fewer frames formulas, terms and what a token opens are read as they are with few. -/
theorem refines_reading {frames frames' : Nat} (more : frames ≤ frames') :
    (∀ least, Refines (formula frames least) (formula frames' least)) ∧
    Refines (term frames) (term frames') ∧
    ∀ token, Refines (primary frames token) (primary frames' token) := by
  -- each reading calls the next with one frame less, in the second run as in the first
  induction frames generalizing frames' with
  | zero =>
    refine ⟨fun least => ?_, ?_, fun token => ?_⟩
    · rw [formula]
      exact refines_outOfFrames _
    · rw [term]
      exact refines_outOfFrames _
    · rw [primary]
      exact refines_outOfFrames _
  | succ frames ih =>
    obtain ⟨frames', rfl⟩ := Nat.exists_eq_add_of_le' (Nat.one_le_of_lt more)
    obtain ⟨hformula, hterm, hprimary⟩ := ih (Nat.le_of_succ_le_succ more)
    refine ⟨fun least => ?_, ?_, fun token => ?_⟩
    · rw [formula, formula]
      apply hterm.bind
      intro first
      apply refines_bind
      intro budget
      exact refines_climb hformula least budget first
    · rw [term, term]
      apply refines_bind
      intro budget
      apply refines_bind
      intro run
      apply refines_bind
      intro token
      exact (hprimary token).bind fun _ => .refl _
    · rw [primary, primary]
      cases token.kind with
      | leftParen => exact (hformula 1).bind fun _ => .refl _
      | _ => exact .refl _

/-- The same for formulas with the operators first. -/
theorem refines_polish {frames frames' : Nat} (more : frames ≤ frames') :
    Refines (polish frames) (polish frames') ∧
    ∀ token, Refines (polishOperand frames token) (polishOperand frames' token) := by
  induction frames generalizing frames' with
  | zero =>
    refine ⟨?_, fun token => ?_⟩
    · rw [polish]
      exact refines_outOfFrames _
    · rw [polishOperand]
      exact refines_outOfFrames _
  | succ frames ih =>
    obtain ⟨frames', rfl⟩ := Nat.exists_eq_add_of_le' (Nat.one_le_of_lt more)
    obtain ⟨hpolish, hoperand⟩ := ih (Nat.le_of_succ_le_succ more)
    refine ⟨?_, fun token => ?_⟩
    · rw [polish, polish]
      apply refines_bind
      intro budget
      apply refines_bind
      intro run
      apply refines_bind
      intro token
      exact (hoperand token).bind fun _ => .refl _
    · rw [polishOperand_succ, polishOperand_succ]
      cases token.kind with
      | binary op => exact hpolish.bind fun _ => hpolish.bind fun _ => .refl _
      | _ => exact .refl _

theorem refines_commaSeparated (h : Refines reading reading') (budget : Nat) :
    Refines (commaSeparated reading budget) (commaSeparated reading' budget) := by
  induction budget with
  | zero =>
    rw [commaSeparated, commaSeparated]
    exact h.bind fun _ => .refl _
  | succ budget ih =>
    rw [commaSeparated, commaSeparated]
    apply h.bind
    intro first
    apply refines_bind
    intro peeked
    split
    · exact .refl _
    · split
      · apply refines_bind
        intro _
        exact ih.bind fun _ => .refl _
      · exact .refl _

theorem refines_assumptions {frames frames' : Nat} (more : frames ≤ frames') :
    Refines (assumptions frames) (assumptions frames') := by
  apply refines_bind
  intro peeked
  split
  · exact .refl _
  · split
    · exact .refl _
    · apply refines_bind
      intro budget
      exact refines_commaSeparated ((refines_reading more).1 1) budget

theorem refines_sequent {frames frames' : Nat} (more : frames ≤ frames') :
    Refines (sequent frames) (sequent frames') := by
  cases frames with
  | zero => exact refines_outOfFrames _
  | succ frames =>
    obtain ⟨frames', rfl⟩ := Nat.exists_eq_add_of_le' (Nat.one_le_of_lt more)
    have hmore := Nat.le_of_succ_le_succ more
    rw [sequent, sequent]
    apply (refines_assumptions hmore).bind
    intro given
    apply refines_bind
    intro token
    split
    · exact .refl _
    · exact ((refines_reading hmore).1 1).bind fun _ => .refl _

/-- What such a reading makes of a text. -/
theorem Refines.ofText (h : Refines reading reading') (dialect : Dialect) (source : String) :
    reading.ofText dialect source = .error (tooDeep source) ∨
      reading'.ofText dialect source = reading.ofText dialect source := by
  simp only [Reading.ofText]
  cases Cursor.ofText dialect source with
  | error e => exact .inr rfl
  | ok cursor =>
    rcases h cursor with ⟨c', hframes⟩ | hsame
    · simp only [hframes]
      exact .inl rfl
    · exact .inr (by simp only [hsame])

/-- A value, or a refusal that more frames could not have averted. -/
def Settled (outcome : Except Fault α) : Prop :=
  (∃ value, outcome = .ok value) ∨ ∃ e, outcome = .error (.refused e) ∧ e.refusal ≠ .tooDeep

theorem Settled.map {outcome : Except Fault α} (h : Settled outcome) (f : α → β) :
    Settled (outcome.map f) := by
  rcases h with ⟨value, rfl⟩ | ⟨e, rfl, shallow⟩
  · exact .inl ⟨f value, rfl⟩
  · exact .inr ⟨e, rfl, shallow⟩

theorem scan_error_shallow {dialect : Dialect} {source : String} {e : SyntaxError}
    (h : Token.scan dialect source = .error e) : e.refusal ≠ .tooDeep := by
  rw [Token.scan_eq_within, Token.Extent.within] at h
  split at h
  · cases h
    simp
  · rw [Token.Extent.outcome] at h
    split at h
    · cases h
    · cases h
      simp

/-- A reading that keeps to a recognizer settles a text, given three frames for every character and
a few more. -/
theorem settled_of_ends {σ : Type} (R : Recognizer σ) (Written : List Token → α → Prop)
    {frames : Nat} {dialect : Dialect} {source : String}
    (complaint : ∀ state token, R.complaint state token ≠ .tooDeep)
    (ends : ∀ tokens, (Cursor.start source tokens).Named → tokens ≠ [] →
      Ends reading (.start source tokens) (fun value _ => Written tokens value)
        (fun fault _ => RejectsWithin R source tokens (frames ≤ 3 * tokens.length + 2) fault))
    (enough : 3 * source.length + 3 ≤ frames) : Settled (reading.ofText dialect source) := by
  cases scanned : Token.scan dialect source with
  | error e =>
    exact .inr ⟨e, by simp only [Reading.ofText, Cursor.ofText, scanned], scan_error_shallow scanned⟩
  | ok tokens =>
    by_cases hempty : tokens = []
    · subst hempty
      exact .inr ⟨_, ofText_eq_ofTokens scanned, by simp⟩
    · have hlength := Token.length_le_of_scan scanned
      rcases ofText_cases scanned hempty (ends tokens (named_start scanned) hempty) with
        ⟨value, hok, -⟩ | ⟨-, hfew⟩ | ⟨e, herror, rejects⟩
      · exact .inl ⟨value, hok⟩
      · -- too few frames for the tokens would be too few for the characters
        omega
      · refine .inr ⟨e, herror, ?_⟩
        cases rejects with
        | atEnd => simp
        | atToken => exact complaint _ _

theorem formula_settled {frames : Nat} {source : String}
    (enough : 3 * source.length + 3 ≤ frames) (dialect : Dialect) :
    Settled (Formula.ofText frames dialect source) := by
  refine settled_of_ends .formula (Derives loosest) ?_ (fun tokens named _ => ?_) enough
  · rintro (_ | _ | _) _ <;> simp [Recognizer.formula, Outlook.complaint]
  · exact (complete_formula_ends frames named).mono (fun _ _ => id)
      fun _ _ => .mono (by omega)

theorem polish_settled {frames : Nat} {source : String}
    (enough : 3 * source.length + 3 ≤ frames) (dialect : Dialect) :
    Settled (Formula.ofPolishText frames dialect source) := by
  refine settled_of_ends .polish DerivesPolish ?_ (fun tokens named _ => ?_) enough
  · rintro (_ | _) _ <;> simp [Recognizer.polish]
  · exact (complete_polish_ends frames named).mono (fun _ _ => id)
      fun _ _ => .mono (by omega)

theorem sequent_settled {frames : Nat} {source : String}
    (enough : 3 * source.length + 3 ≤ frames) (dialect : Dialect) :
    Settled (Sequent.ofText frames dialect source) := by
  refine settled_of_ends .sequent DerivesSequent ?_
    (fun tokens named nonempty => sequent_ends frames named nonempty) enough
  rintro (_ | (_ | _ | _) | (_ | _ | _)) _ <;>
    simp [Recognizer.sequent, SequentOutlook.complaint, Outlook.complaint]

end Reading

namespace Reader

open Reading

theorem map_of_refines {α β : Type} {read read' : Except Fault α} {source : String}
    (h : read = .error (tooDeep source) ∨ read' = read) (f : α → β) :
    read.map f = .error (tooDeep source) ∨ read'.map f = read.map f := by
  rcases h with rfl | rfl
  · exact .inl rfl
  · exact .inr rfl

/-- With no fewer frames a text is read as before, unless it was nested too deeply. -/
theorem readWithin_of_le {frames frames' : Nat} (more : frames ≤ frames') (reader : Reader)
    (source : String) :
    reader.readWithin frames source = .error (tooDeep source) ∨
      reader.readWithin frames' source = reader.readWithin frames source := by
  obtain ⟨form, dialect⟩ := reader
  cases form with
  | formula =>
    have hrefines := ((refines_reading more).1 1).complete
    exact map_of_refines (hrefines.ofText dialect source) _
  | polish =>
    have hrefines := (refines_polish more).1.complete
    exact map_of_refines (hrefines.ofText dialect source) _
  | sequent => exact map_of_refines ((refines_sequent more).ofText dialect source) _

theorem readWithin_settled {frames : Nat} {source : String}
    (enough : 3 * source.length + 3 ≤ frames) (reader : Reader) :
    Settled (reader.readWithin frames source) := by
  obtain ⟨form, dialect⟩ := reader
  cases form with
  | formula => exact (formula_settled enough dialect).map _
  | polish => exact (polish_settled enough dialect).map _
  | sequent => exact (sequent_settled enough dialect).map _

/-- A bound on the frames can do no more than to replace what a reader makes of a text by the error
of a text that is nested too deeply, and it does not do that once there are enough of them for the
length of the text. -/
theorem readWithin_limit (reader : Reader) (source : String) :
    (∀ frames frames', frames ≤ frames' →
      reader.readWithin frames source ≠ .error (tooDeep source) →
      reader.readWithin frames' source = reader.readWithin frames source) ∧
    ∀ frames, 3 * source.length + 3 ≤ frames →
      (∃ statement, reader.readWithin frames source = .ok statement) ∨
      ∃ e, reader.readWithin frames source = .error (.refused e) ∧ e.refusal ≠ .tooDeep :=
  ⟨fun _ _ more shallow => (reader.readWithin_of_le more source).resolve_left shallow,
    fun _ enough => reader.readWithin_settled enough⟩

/-- Three frames for the variable and three for each group. -/
theorem readWithin_limit_groups :
    Reader.classical.readWithin 8 "((p))" = .error (tooDeep "((p))") ∧
    ∀ frames, 9 ≤ frames →
      Reader.classical.readWithin frames "((p))" = .ok (.formula (.atom 'p')) := by
  have hread : Reader.classical.readWithin 9 "((p))" = .ok (.formula (.atom 'p')) := by cbv
  refine ⟨by cbv, fun frames more => ?_⟩
  have hshallow : Reader.classical.readWithin 9 "((p))" ≠ .error (tooDeep "((p))") := by
    rw [hread]
    simp
  exact ((readWithin_limit .classical "((p))").1 9 frames more hshallow).trans hread

end Reader

end Turnstile
