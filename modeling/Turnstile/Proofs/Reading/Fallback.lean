import Mathlib
import Turnstile.Proofs.Reading.Earliest
import Turnstile.Proofs.Reading.Overlap
import Turnstile.Proofs.Token.Layout

/-! Trying readers in turn. Every reader accepts a text or refuses it, and those that accept it
agree on its statement, so the order of the readers only decides whose refusal is reported. -/
namespace Turnstile

open Grammar Reading

namespace Reader

variable {frames frames' : Nat} {reader reader' : Reader} {text : String}
  {statement statement' : Statement}

theorem readWithin_outcome (frames : Nat) (reader : Reader) (text : String) :
    (∃ statement tokens, reader.readWithin frames text = .ok statement ∧
      Token.scan reader.dialect text = .ok tokens ∧ reader.form.Writes tokens statement) ∨
    ∃ e, reader.readWithin frames text = .error (.refused e) := by
  obtain ⟨form, dialect⟩ := reader
  cases form with
  | formula =>
    rcases Recognizer.governs_formula.outcome frames dialect text with
      ⟨f, tokens, hread, hscan, derives⟩ | ⟨e, herror⟩
    · exact .inl ⟨.formula f, tokens, congrArg (Except.map _) hread, hscan, .formula derives⟩
    · exact .inr ⟨e, congrArg (Except.map _) herror⟩
  | polish =>
    rcases Recognizer.governs_polish.outcome frames dialect text with
      ⟨f, tokens, hread, hscan, derives⟩ | ⟨e, herror⟩
    · exact .inl ⟨.formula f, tokens, congrArg (Except.map _) hread, hscan, .polish derives⟩
    · exact .inr ⟨e, congrArg (Except.map _) herror⟩
  | sequent =>
    rcases Recognizer.governs_sequent.outcome frames dialect text with
      ⟨s, tokens, hread, hscan, derives⟩ | ⟨e, herror⟩
    · exact .inl ⟨.sequent s, tokens, congrArg (Except.map _) hread, hscan, .sequent derives⟩
    · exact .inr ⟨e, congrArg (Except.map _) herror⟩

theorem writes_of_readWithin (h : reader.readWithin frames text = .ok statement) :
    ∃ tokens, Token.scan reader.dialect text = .ok tokens ∧
      reader.form.Writes tokens statement := by
  rcases readWithin_outcome frames reader text with ⟨other, tokens, hread, hscan, hwrites⟩ | ⟨e, he⟩
  · cases h.symm.trans hread
    exact ⟨tokens, hscan, hwrites⟩
  · cases h.symm.trans he

/-- Readers that accept a text agree on it, whatever their forms, dialects and frames. -/
theorem readWithin_unique (h : reader.readWithin frames text = .ok statement)
    (h' : reader'.readWithin frames' text = .ok statement') : statement = statement' := by
  obtain ⟨tokens, hscan, hwrites⟩ := writes_of_readWithin h
  obtain ⟨tokens', hscan', hwrites'⟩ := writes_of_readWithin h'
  obtain rfl := Token.scan_unique hscan hscan'
  exact hwrites.unique (named_start hscan) hwrites'

variable {source : Datum} {readers : List Reader}

theorem read_outcome (frames : Nat) (reader : Reader) (source : Datum) :
    (∃ statement, reader.read frames source = .ok statement) ∨
      ∃ e, reader.read frames source = .error (.refused e) := by
  rcases source with (_ | _ | _ | _ | text) | _ | _
  case scalar.text =>
    rcases readWithin_outcome frames reader text with ⟨statement, -, hread, -⟩ | ⟨e, herror⟩
    · exact .inl ⟨statement, hread⟩
    · exact .inr ⟨e, herror⟩
  all_goals exact .inr ⟨_, rfl⟩

theorem read_unique (h : reader.read frames source = .ok statement)
    (h' : reader'.read frames' source = .ok statement') : statement = statement' := by
  rcases source with (_ | _ | _ | _ | text) | _ | _
  case scalar.text => exact readWithin_unique h h'
  all_goals cases h

theorem tryEach_of_accepted (first : Option SyntaxError)
    (h : ∀ reader ∈ readers, reader.read (frames - 1) source = .ok statement ∨
      ∃ e, reader.read (frames - 1) source = .error (.refused e))
    (accepted : ∃ reader ∈ readers, reader.read (frames - 1) source = .ok statement) :
    (tryEach frames source first readers).1 = .ok statement := by
  induction readers generalizing first with
  | nil => obtain ⟨reader, hmem, -⟩ := accepted; cases hmem
  | cons reader rest ih =>
    obtain ⟨hreader, hrest⟩ := List.forall_mem_cons.mp h
    rcases hreader with hok | ⟨e, herror⟩
    · simp only [tryEach, hok]
    · simp only [tryEach, herror]
      apply ih _ hrest
      obtain ⟨other, hmem, hok⟩ := accepted
      rcases List.mem_cons.mp hmem with rfl | hmem
      · cases herror.symm.trans hok
      · exact ⟨other, hmem, hok⟩

theorem tryEach_of_refused (e : SyntaxError)
    (h : ∀ reader ∈ readers, ∃ e, reader.read (frames - 1) source = .error (.refused e)) :
    (tryEach frames source (some e) readers).1 = .error (.fault (.refused e)) := by
  induction readers with
  | nil => rfl
  | cons reader rest ih =>
    obtain ⟨⟨e', herror⟩, hrest⟩ := List.forall_mem_cons.mp h
    simpa only [tryEach, herror, Option.some_or] using ih hrest

/-- Several readers give the statement that any of them accepts; if none does, the refusal of
the first of them. -/
theorem readFirst_outcome (frames : Nat) (readers : List Reader) (source : Datum)
    (nonempty : readers ≠ []) :
    (∃ statement, readFirst frames readers source = .ok statement ∧
      ∃ reader ∈ readers, reader.read (frames - 1) source = .ok statement) ∨
    (∃ e, readFirst frames readers source = .error (.fault (.refused e)) ∧
      ∃ reader ∈ readers.head?, reader.read (frames - 1) source = .error (.refused e)) ∧
    ∀ reader ∈ readers, ∃ e, reader.read (frames - 1) source = .error (.refused e) := by
  by_cases haccepted : ∃ reader ∈ readers, ∃ statement,
      reader.read (frames - 1) source = .ok statement
  · obtain ⟨reader, hmem, statement, hread⟩ := haccepted
    refine .inl ⟨statement, tryEach_of_accepted none ?_ ⟨reader, hmem, hread⟩, reader, hmem, hread⟩
    intro other _
    rcases read_outcome (frames - 1) other source with ⟨statement', hother⟩ | hrefused
    · exact .inl (read_unique hread hother ▸ hother)
    · exact .inr hrefused
  · have hrefused : ∀ reader ∈ readers, ∃ e,
        reader.read (frames - 1) source = .error (.refused e) := by
      intro reader hmem
      refine (read_outcome (frames - 1) reader source).resolve_left fun ⟨statement, hread⟩ => ?_
      exact haccepted ⟨reader, hmem, statement, hread⟩
    refine .inr ⟨?_, hrefused⟩
    cases readers with
    | nil => exact absurd rfl nonempty
    | cons reader rest =>
      obtain ⟨⟨e, herror⟩, hrest⟩ := List.forall_mem_cons.mp hrefused
      refine ⟨e, ?_, reader, rfl, herror⟩
      simpa only [readFirst, tryEach, herror, Option.none_or] using tryEach_of_refused e hrest

/-- A text that writes a formula in both forms is a literal behind negations. -/
theorem negatedLiteral_of_ofText {dialect dialect' : Dialect} {f g : Formula}
    (hf : Formula.ofText frames dialect text = .ok f)
    (hg : Formula.ofPolishText frames' dialect' text = .ok g) :
    f = g ∧ ∃ tokens negations literal name, Token.scan dialect text = .ok tokens ∧
      NegatedLiteral tokens negations literal ∧ literal.text = String.singleton name ∧
      f = negatedAtom negations.length name := by
  have hread : Reader.readWithin frames ⟨.formula, dialect⟩ text = .ok (.formula f) :=
    congrArg (Except.map _) hf
  have hread' : Reader.readWithin frames' ⟨.polish, dialect'⟩ text = .ok (.formula g) :=
    congrArg (Except.map _) hg
  obtain ⟨tokens, hscan, hwrites⟩ := writes_of_readWithin hread
  obtain ⟨tokens', hscan', hwrites'⟩ := writes_of_readWithin hread'
  obtain rfl := Token.scan_unique hscan hscan'
  cases hwrites with | formula derives =>
  cases hwrites' with | polish derives' =>
  obtain ⟨heq, negations, literal, name, hform⟩ :=
    derives.eq_of_derivesPolish (named_start hscan) derives'
  exact ⟨heq, tokens, negations, literal, name, hscan, hform⟩

/-- The order and the repetition of readers do not matter for what is accepted, and with it for
its statement, which one of them reads; a refusal is that of the first of them, and all of them
refuse the text then. A text that writes a formula both with connectives between operands and with
operators first is a literal behind negations. -/
theorem readFirst_eq_of_mem_iff (frames : Nat) (first second : List Reader) (source : Datum)
    (nonempty : first ≠ []) (same : ∀ reader, reader ∈ first ↔ reader ∈ second) :
    ((∃ statement, readFirst frames first source = .ok statement ∧
        readFirst frames second source = .ok statement ∧
        ∃ reader ∈ first, reader.read (frames - 1) source = .ok statement) ∨
      (∃ e e', readFirst frames first source = .error (.fault (.refused e)) ∧
        readFirst frames second source = .error (.fault (.refused e')) ∧
        (∃ reader ∈ first.head?, reader.read (frames - 1) source = .error (.refused e)) ∧
        ∃ reader ∈ second.head?, reader.read (frames - 1) source = .error (.refused e')) ∧
      ∀ reader ∈ first, ∃ e, reader.read (frames - 1) source = .error (.refused e)) ∧
    ∀ frames' dialect dialect' text f g, Formula.ofText frames dialect text = .ok f →
      Formula.ofPolishText frames' dialect' text = .ok g →
      f = g ∧ ∃ tokens negations literal name, Token.scan dialect text = .ok tokens ∧
        NegatedLiteral tokens negations literal ∧ literal.text = String.singleton name ∧
        f = negatedAtom negations.length name := by
  constructor
  · have nonempty' : second ≠ [] := by
      rintro rfl
      exact nonempty (List.eq_nil_iff_forall_not_mem.mpr fun reader hmem =>
        List.not_mem_nil ((same reader).mp hmem))
    rcases readFirst_outcome frames first source nonempty with
      ⟨statement, hfirst, reader, hmem, hread⟩ | ⟨⟨e, hfirst, hhead⟩, hrefused⟩
    · rcases readFirst_outcome frames second source nonempty' with
        ⟨statement', hsecond, reader', -, hread'⟩ | ⟨-, hrefused⟩
      · exact .inl ⟨statement, hfirst, read_unique hread hread' ▸ hsecond, reader, hmem, hread⟩
      · obtain ⟨e, herror⟩ := hrefused reader ((same reader).mp hmem)
        cases hread.symm.trans herror
    · rcases readFirst_outcome frames second source nonempty' with
        ⟨statement', -, reader', hmem', hread'⟩ | ⟨⟨e', hsecond, hhead'⟩, -⟩
      · obtain ⟨e', herror⟩ := hrefused reader' ((same reader').mpr hmem')
        cases hread'.symm.trans herror
      · exact .inr ⟨⟨e, e', hfirst, hsecond, hhead, hhead'⟩, hrefused⟩
  · exact fun frames' dialect dialect' text f g hf hg => negatedLiteral_of_ofText hf hg

def negatedText : Datum := .scalar (.text "~~p")

/-- Readers in another order, one of them twice, give one statement. -/
theorem readFirst_negated :
    readFirst 1000 [.sequent, .polish, .classical] negatedText =
      .ok (.formula (negatedAtom 2 'p')) ∧
    readFirst 1000 [.classical, .sequent, .classical, .polish] negatedText =
      .ok (.formula (negatedAtom 2 'p')) := by
  have hfirst : readFirst 1000 [.sequent, .polish, .classical] negatedText =
      .ok (.formula (negatedAtom 2 'p')) := by cbv
  rcases (readFirst_eq_of_mem_iff 1000 [.sequent, .polish, .classical]
    [.classical, .sequent, .classical, .polish] negatedText (by simp)
    (by intro reader; simp only [List.mem_cons, List.not_mem_nil, or_false]; tauto)).1 with
    ⟨statement, hok, hsecond, -⟩ | ⟨⟨e, -, herror, -⟩, -⟩
  · cases hfirst.symm.trans hok
    exact ⟨hfirst, hsecond⟩
  · cases hfirst.symm.trans herror

end Reader

end Turnstile
