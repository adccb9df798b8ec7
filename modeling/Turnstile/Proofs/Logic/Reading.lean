import Turnstile.Logic
import Turnstile.Proofs.Decision
import Turnstile.Proofs.Printing.Sequent
import Turnstile.Proofs.Reading.Fallback
import Turnstile.Proofs.Reading.Shortfall
import Turnstile.Proofs.Reading.Vocabulary
import Turnstile.Proofs.TruthTable

/-! What a logic reads. Journals are only written to, so a computation has one outcome for all
of them. A logic reads a text or refuses it, what it reads it can print, and a text that prints
a statement is read as that statement unless it is nested too deeply. -/
namespace Turnstile

open Grammar Reading

namespace Journaled

variable {α β : Type} {x : Journaled α} {next : α → Journaled β} {value : α}
  {outcome outcome' : Except LogicError α} {result : Except LogicError β} {e : LogicError}

/-- The computation has an outcome, whatever the journal holds. -/
def Yields (x : Journaled α) : Except LogicError α → Prop
  | .ok value => ∀ entries, ∃ later, x entries = .ok value later
  | .error e => ∀ entries, ∃ later, x entries = .error e later

theorem Yields.unique (h : x.Yields outcome) (h' : x.Yields outcome') : outcome = outcome' := by
  cases outcome <;> cases outcome' <;>
    · obtain ⟨_, hx⟩ := h []
      obtain ⟨_, hx'⟩ := h' []
      cases hx.symm.trans hx'
      try rfl

theorem yields_pure (value : α) : Yields (pure value) (.ok value) := fun entries => ⟨entries, rfl⟩

theorem yields_throw (e : LogicError) : Yields (throw e : Journaled α) (.error e) :=
  fun entries => ⟨entries, rfl⟩

theorem yields_note (channel : Channel) (message : String) :
    (note channel message).Yields (.ok ()) :=
  fun entries => ⟨entries ++ [⟨channel, message⟩], rfl⟩

theorem Yields.bind (h : x.Yields (.ok value)) (hnext : (next value).Yields result) :
    (x >>= next).Yields result := by
  cases result with
  | ok last =>
    intro entries
    obtain ⟨middle, hx⟩ := h entries
    obtain ⟨later, hlast⟩ := hnext middle
    exact ⟨later, by simp only [Bind.bind, EStateM.bind, hx, hlast]⟩
  | error e =>
    intro entries
    obtain ⟨middle, hx⟩ := h entries
    obtain ⟨later, he⟩ := hnext middle
    exact ⟨later, by simp only [Bind.bind, EStateM.bind, hx, he]⟩

theorem Yields.bind_error (h : x.Yields (.error e)) : (x >>= next).Yields (.error e) := by
  intro entries
  obtain ⟨later, hx⟩ := h entries
  exact ⟨later, by simp only [Bind.bind, EStateM.bind, hx]⟩

theorem yields_noteRejections (source : Datum) (rejections : List Reader.Rejection) :
    (noteRejections source rejections).Yields (.ok ()) := by
  induction rejections with
  | nil => exact yields_pure ()
  | cons rejection rest ih => exact (yields_note _ _).bind ih

theorem yields_ofEvaluation (value : α) : (ofEvaluation (.ok value)).Yields (.ok value) :=
  yields_pure value

end Journaled

open Journaled

theorem Grammar.root?_negatedAtom (count : Nat) (name : Char) :
    (negatedAtom count name).root? = none := by
  cases count <;> rfl

variable {frames : Nat}

theorem Reader.writes_of_read {reader : Reader} {text : String} {statement : Statement}
    (h : reader.read frames (.ofText text) = .ok statement) :
    ∃ tokens, Token.scan reader.dialect text = .ok tokens ∧
      reader.form.Writes tokens statement := writes_of_readWithin h

/-- What a reader makes of a printed formula is written by the tokens that spell the formula. -/
theorem Reader.writes_of_printsAs {reader : Reader} {text : String} {f : Formula}
    {statement : Statement} (h : PrintsAs .classical loosest text f)
    (hread : reader.read frames (.ofText text) = .ok statement) :
    ∃ tokens, (Cursor.start text tokens).Named ∧
      Derives loosest tokens f ∧ reader.form.Writes tokens statement := by
  obtain ⟨tokens, hspelled, derives⟩ := h 0
  obtain ⟨tokens', hscan, hwrites⟩ := Reader.writes_of_read hread
  obtain rfl := Token.scan_unique (hspelled.scanFrom_eq text) hscan
  exact ⟨tokens, named_start hscan, derives, hwrites⟩

/-- A text that writes a sequent writes no formula. -/
theorem Formula.ofText_ne_ok_of_sequent {dialect : Dialect} {frames' : Nat} {text : String}
    {s : Sequent} {f : Formula} (h : Sequent.ofText frames dialect text = .ok s) :
    Formula.ofText frames' dialect text ≠ .ok f := by
  intro h'
  have hread : Reader.readWithin frames ⟨.sequent, dialect⟩ text = .ok (.sequent s) :=
    congrArg (Except.map _) h
  have hread' : Reader.readWithin frames' ⟨.formula, dialect⟩ text = .ok (.formula f) :=
    congrArg (Except.map _) h'
  cases Reader.readWithin_unique hread hread'

namespace ClassicalLogic

variable {l : ClassicalLogic} {source : Datum} {text : String} {f : Formula}

theorem read_of_ok (h : Reader.readFirst (frames - 1) l.readers source = .ok (.formula f)) :
    (l.read frames source).Yields (.ok f) := by
  rw [Reader.readFirst] at h
  cases htry : Reader.tryEach (frames - 1) source none l.readers with
  | mk result rejections =>
    obtain rfl : result = .ok (.formula f) := by rw [← h, htry]
    rw [read, htry]
    exact (yields_noteRejections source rejections).bind (yields_pure f)

theorem read_of_refused {e : SyntaxError}
    (h : Reader.readFirst (frames - 1) l.readers source = .error (.fault (.refused e))) :
    (l.read frames source).Yields (.error (.reading (.fault (.refused e)))) := by
  rw [Reader.readFirst] at h
  cases htry : Reader.tryEach (frames - 1) source none l.readers with
  | mk result rejections =>
    obtain rfl : result = .error (.fault (.refused e)) := by rw [← h, htry]
    rw [read, htry]
    refine (yields_noteRejections source rejections).bind ?_
    exact (yields_note _ _).bind (yields_throw _)

theorem readers_ne_nil (l : ClassicalLogic) : l.readers ≠ [] := List.cons_ne_nil _ _

theorem eq_of_mem_readers {reader : Reader} (h : reader ∈ l.readers) :
    reader = .classical ∨ reader = .polish := by
  rcases List.mem_cons.mp h with rfl | hpolish
  · exact .inl rfl
  · split at hpolish
    · exact .inr (List.mem_singleton.mp hpolish)
    · cases hpolish

theorem exists_formula_of_read {reader : Reader} {statement : Statement}
    (hmem : reader ∈ l.readers) (h : reader.read frames source = .ok statement) :
    ∃ f, statement = .formula f ∧ f.Printable .classical := by
  rcases source with (_ | _ | _ | _ | text) | _ | _
  case scalar.text =>
    obtain ⟨tokens, hscan, hwrites⟩ := Reader.writes_of_read h
    have hof := Token.isOf_of_scan hscan
    rcases eq_of_mem_readers hmem with rfl | rfl
    · cases hwrites with
      | formula derives => exact ⟨_, rfl, derives.printable hof⟩
    · cases hwrites with
      | polish derives => exact ⟨_, rfl, (derives.printable hof).classical_of_reversePolish⟩
  all_goals cases h

/-- Classical logic reads a formula that it can print, or refuses the text. -/
theorem read_cases (frames : Nat) (l : ClassicalLogic) (source : Datum) :
    (∃ f, (l.read frames source).Yields (.ok f) ∧ f.Printable .classical) ∨
      ∃ e, (l.read frames source).Yields (.error (.reading (.fault (.refused e)))) := by
  rcases Reader.readFirst_outcome (frames - 1) l.readers source l.readers_ne_nil with
    ⟨statement, hfirst, reader, hmem, hread⟩ | ⟨⟨e, hfirst, -⟩, -⟩
  · obtain ⟨f, rfl, printable⟩ := exists_formula_of_read hmem hread
    exact .inl ⟨f, read_of_ok hfirst, printable⟩
  · exact .inr ⟨e, read_of_refused hfirst⟩

theorem ofText_of_refused {reader : Reader} {e : SyntaxError} (hhead : reader ∈ l.readers.head?)
    (h : reader.read frames (.ofText text) = .error (.refused e)) :
    Formula.ofText frames .classical text = .error (.refused e) := by
  obtain rfl : Reader.classical = reader := Option.some.inj hhead
  exact error_of_map_error h

/-- A text that prints a formula is read as that formula, whatever readers are tried, given
frames enough for its length. -/
theorem read_of_printsAs (frames : Nat) (l : ClassicalLogic)
    (h : PrintsAs .classical loosest text f) :
    (l.read frames (.ofText text)).Yields (.ok f) ∨
      (l.read frames (.ofText text)).Yields (.error (.reading (.fault (tooDeep text)))) ∧
        frames ≤ 3 * text.length + 3 := by
  rcases Reader.readFirst_outcome (frames - 1) l.readers (.ofText text) l.readers_ne_nil with
    ⟨statement, hfirst, reader, -, hread⟩ | ⟨⟨e, hfirst, reader, hhead, hread⟩, -⟩
  · obtain ⟨tokens, named, derives, hwrites⟩ := Reader.writes_of_printsAs h hread
    have hstatement : statement = .formula f := hwrites.unique named (.formula derives)
    exact .inl (read_of_ok (hstatement ▸ hfirst))
  · have herror := ofText_of_refused hhead hread
    rcases ofText_of_printsAs_within (frames - 1 - 1) h with hok | ⟨hdeep, hfew⟩
    · cases hok.symm.trans herror
    · have he : Fault.refused e = tooDeep text := Except.error.inj (herror.symm.trans hdeep)
      exact .inr ⟨he ▸ read_of_refused hfirst, by omega⟩

/-- A text that is nested too deeply is refused for that, though operators may come first in
other texts: what has a connective at its root cannot be read so. -/
theorem read_of_tooDeep (l : ClassicalLogic) {op : Connective}
    (h : PrintsAs .classical loosest text f) (root : f.root? = some op)
    (deep : Formula.ofText (frames - 1 - 1) .classical text = .error (tooDeep text)) :
    (l.read frames (.ofText text)).Yields (.error (.reading (.fault (tooDeep text)))) := by
  rcases Reader.readFirst_outcome (frames - 1) l.readers (.ofText text) l.readers_ne_nil with
    ⟨statement, -, reader, hmem, hread⟩ | ⟨⟨e, hfirst, reader, hhead, hread⟩, -⟩
  · rcases eq_of_mem_readers hmem with rfl | rfl
    · have hmap : (Formula.ofText (frames - 1 - 1) .classical text).map .formula =
          .ok statement := hread
      rw [deep] at hmap
      cases hmap
    · obtain ⟨tokens, named, derives, hwrites⟩ := Reader.writes_of_printsAs h hread
      cases hwrites with
      | polish derives' =>
        obtain ⟨-, negations, _, name, -, -, rfl⟩ := derives.eq_of_derivesPolish named derives'
        rw [root?_negatedAtom] at root
        cases root
  · have he : Fault.refused e = tooDeep text :=
      Except.error.inj ((ofText_of_refused hhead hread).symm.trans deep)
    exact he ▸ read_of_refused hfirst

/-- The answer of a validation is that to the formula read. -/
theorem validate_of_read {answer : Bool} (h : (l.read (frames - 1) source).Yields (.ok f))
    (decided : f.isTautology = .ok answer) :
    (l.validate frames source).Yields (.ok (f.render l.glyphs, answer)) := by
  have hanswer : (ofEvaluation f.isTautology).Yields (.ok answer) :=
    decided ▸ yields_ofEvaluation answer
  exact h.bind ((yields_note _ _).bind (hanswer.bind (yields_pure _)))

theorem validate_of_refused {e : LogicError} (h : (l.read (frames - 1) source).Yields (.error e)) :
    (l.validate frames source).Yields (.error e) := h.bind_error

theorem analyze_of_read {table : TruthTable} (h : (l.read (frames - 1) source).Yields (.ok f))
    (tabled : TruthTable.ofFormula f = .ok table) :
    (l.analyze frames source).Yields (.ok table) := by
  have htable : (ofEvaluation (TruthTable.ofFormula f)).Yields (.ok table) :=
    tabled ▸ yields_ofEvaluation table
  exact h.bind (htable.bind ((yields_note _ _).bind (yields_pure _)))

/-- A validation with an answer has read a formula, and the answer is about that formula. -/
theorem read_of_validate {answer : String × Bool}
    (h : (l.validate frames source).Yields (.ok answer)) :
    ∃ f, (l.read (frames - 1) source).Yields (.ok f) ∧ f.Printable .classical ∧
      f.render l.glyphs = answer.1 ∧ f.isTautology = .ok answer.2 := by
  rcases l.read_cases (frames - 1) source with ⟨f, hread, printable⟩ | ⟨e, hread⟩
  · obtain ⟨decision, hdecision⟩ := Formula.isTautology_of_isClassical printable.isClassical
    cases h.unique (validate_of_read hread hdecision)
    exact ⟨f, hread, printable, rfl, hdecision⟩
  · cases h.unique (validate_of_refused hread)

/-- An analysis with a table has read a formula, and the table is that of the formula. -/
theorem read_of_analyze {table : TruthTable} (h : (l.analyze frames source).Yields (.ok table)) :
    ∃ f, (l.read (frames - 1) source).Yields (.ok f) ∧ f.Printable .classical ∧
      TruthTable.ofFormula f = .ok table := by
  rcases l.read_cases (frames - 1) source with ⟨f, hread, printable⟩ | ⟨e, hread⟩
  · have htable := TruthTable.ofFormula_eq_ofTruth printable.isClassical
    cases h.unique (analyze_of_read hread htable)
    exact ⟨f, hread, printable, htable⟩
  · have hrefused : (l.analyze frames source).Yields (.error _) := hread.bind_error
    cases h.unique hrefused

end ClassicalLogic

namespace ModalLogic

variable {text : String} {source : Datum} {s : Sequent}

theorem read_of_ok (h : source.onText (sequentOf frames) = .ok s) :
    (read frames source).Yields (.ok s) := by
  rw [read, h]
  exact yields_pure s

theorem read_of_refused {e : SyntaxError}
    (h : source.onText (sequentOf frames) = .error (.refused e)) :
    (read frames source).Yields (.error (.reading (.fault (.refused e)))) := by
  rw [read, h]
  exact (yields_note _ _).bind (yields_throw _)

theorem sequentOf_of_sequent (h : Sequent.ofText frames .modal text = .ok s) :
    sequentOf frames text = .ok s := by
  rw [sequentOf, h]

/-- A text that writes a formula is no sequent; it stands for the one that proves the formula. -/
theorem sequentOf_of_formula {f : Formula}
    (h : Formula.ofText (frames - 1) .modal text = .ok f) :
    sequentOf frames text = .ok ⟨some .proves, [], f⟩ := by
  cases hsequent : Sequent.ofText frames .modal text with
  | ok s => exact absurd h (Formula.ofText_ne_ok_of_sequent hsequent)
  | error fault =>
    obtain ⟨e, rfl⟩ := Recognizer.governs_sequent.refused hsequent
    rw [sequentOf, hsequent, h]

theorem sequentOf_of_refused {e e' : SyntaxError}
    (h : Sequent.ofText frames .modal text = .error (.refused e))
    (h' : Formula.ofText (frames - 1) .modal text = .error (.refused e')) :
    sequentOf frames text = .error (.refused e) := by
  rw [sequentOf, h, h']

/-- A text that some frames read as a formula stands for the sequent that proves it, unless there
are no more frames than those and it is nested too deeply for them. -/
theorem sequentOf_formula_or_tooDeep {f : Formula} (h : Formula.ofText frames .modal text = .ok f)
    (frames' : Nat) : sequentOf frames' text = .ok ⟨some .proves, [], f⟩ ∨
      frames' ≤ frames ∧ Sequent.ofText frames' .modal text = .error (tooDeep text) ∧
        sequentOf frames' text = .error (tooDeep text) := by
  rcases ofText_formula_or_tooDeep h frames' with hok | ⟨hfew, hformula, hsequent⟩
  · exact .inl (sequentOf_of_formula hok)
  · exact .inr ⟨hfew, hsequent, sequentOf_of_refused hsequent hformula⟩

/-- A text stands for a sequent that can be printed, or is refused. -/
theorem sequentOf_cases (frames : Nat) (text : String) :
    (∃ s, sequentOf frames text = .ok s ∧ ∀ f ∈ s.formulas, f.Printable .modal) ∨
      ∃ e, sequentOf frames text = .error (.refused e) := by
  cases hsequent : Sequent.ofText frames .modal text with
  | ok s =>
    obtain ⟨tokens, hscan, derives⟩ := Recognizer.governs_sequent.written_of_ofText hsequent
    exact .inl ⟨s, sequentOf_of_sequent hsequent, derives.printable (Token.isOf_of_scan hscan)⟩
  | error fault =>
    obtain ⟨e, rfl⟩ := Recognizer.governs_sequent.refused hsequent
    cases hformula : Formula.ofText (frames - 1) .modal text with
    | ok f =>
      obtain ⟨tokens, hscan, derives⟩ := Recognizer.governs_formula.written_of_ofText hformula
      refine .inl ⟨⟨some .proves, [], f⟩, sequentOf_of_formula hformula, ?_⟩
      exact List.forall_mem_singleton.mpr (derives.printable (Token.isOf_of_scan hscan))
    | error fault' =>
      obtain ⟨e', rfl⟩ := Recognizer.governs_formula.refused hformula
      exact .inr ⟨e, sequentOf_of_refused hsequent hformula⟩

/-- A text that prints a sequent stands for it, unless it is nested too deeply. -/
theorem sequentOf_of_prints (frames : Nat) (h : Prints .modal text (DerivesSequent · s)) :
    sequentOf frames text = .ok s ∨ sequentOf frames text = .error (tooDeep text) ∧
      frames ≤ 3 * text.length + 2 := by
  rcases Sequent.ofText_of_prints frames h with hok | ⟨hdeep, hfew⟩
  · exact .inl (sequentOf_of_sequent hok)
  · refine .inr ⟨?_, hfew⟩
    cases hformula : Formula.ofText (frames - 1) .modal text with
    | ok f =>
      -- a text of a sequent is no formula
      obtain ⟨tokens, hscan, derives⟩ := Recognizer.governs_formula.written_of_ofText hformula
      obtain ⟨tokens', hspelled, hsequent⟩ := h 0
      obtain rfl := Except.ok.inj (hscan.symm.trans (hspelled.scanFrom_eq text))
      exact absurd hsequent derives.not_derivesSequent
    | error fault =>
      obtain ⟨e, rfl⟩ := Recognizer.governs_formula.refused hformula
      exact sequentOf_of_refused hdeep hformula

/-- Modal logic reads a sequent that it can print, or refuses the text. -/
theorem read_cases (frames : Nat) (source : Datum) :
    (∃ s, (read frames source).Yields (.ok s) ∧ ∀ f ∈ s.formulas, f.Printable .modal) ∨
      ∃ e, (read frames source).Yields (.error (.reading (.fault (.refused e)))) := by
  rcases source with (_ | _ | _ | _ | text) | _ | _
  case scalar.text =>
    rcases sequentOf_cases frames text with ⟨s, hok, printable⟩ | ⟨e, herror⟩
    · exact .inl ⟨s, read_of_ok hok, printable⟩
    · exact .inr ⟨e, read_of_refused herror⟩
  all_goals exact .inr ⟨_, read_of_refused rfl⟩

theorem validate_of_read {l : ModalLogic} (h : (read (frames - 1) source).Yields (.ok s)) :
    (l.validate frames source).Yields (.ok (s.render l.glyphs, true)) := h.bind (yields_pure _)

theorem validate_of_refused {l : ModalLogic} {e : LogicError}
    (h : (read (frames - 1) source).Yields (.error e)) :
    (l.validate frames source).Yields (.error e) := h.bind_error

/-- A validation with an answer has read a sequent, and the answer shows that sequent. -/
theorem read_of_validate {l : ModalLogic} {answer : String × Bool}
    (h : (l.validate frames source).Yields (.ok answer)) :
    ∃ s : Sequent, (∀ f ∈ s.formulas, f.Printable .modal) ∧
      answer = (s.render l.glyphs, true) := by
  rcases read_cases (frames - 1) source with ⟨s, hread, printable⟩ | ⟨e, hread⟩
  · exact ⟨s, printable, Except.ok.inj (h.unique (validate_of_read hread))⟩
  · cases h.unique (validate_of_refused hread)

end ModalLogic

end Turnstile
