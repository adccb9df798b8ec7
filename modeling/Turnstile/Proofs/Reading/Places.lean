import Turnstile.Proofs.Reading.Fallback
import Turnstile.Proofs.Reading.Respelling
import Turnstile.Proofs.Reading.Vocabulary

/-! What readers give back. What is read has letters for names; what is refused is refused with an
error that quotes the text and points into it. The places of errors behind the scan come from
reading a text beside itself: the error is about one of its tokens, or about its end. -/
namespace Turnstile

open Grammar

/-- The text has a character at the place, and it is not blank. -/
def Text.VisibleAt (text : String) (place : Nat) : Prop :=
  ∃ c, text.toList[place]? = some c ∧ isBlank c = false

/-- The error quotes the text and points where its refusal says: nowhere for a text that is nested
too deeply, behind the text if more is needed, before it if it is empty, and else at a character
that is not blank. -/
structure SyntaxError.PlacedIn (text : String) (e : SyntaxError) : Prop where
  source : e.source = text
  position : match e.refusal with
    | .tooDeep => e.position = none
    | .endOfInput => e.position = some text.length
    | .empty => e.position = some 0
    | _ => ∃ place, e.position = some place ∧ Text.VisibleAt text place

variable {dialect : Dialect} {text : String} {position frames : Nat} {cs : List Char} {c : Char}
  {token : Token} {tokens : List Token} {e e' : SyntaxError} {form : Form}
  {statement : Statement}

theorem Text.visibleAt_of_drop (hdrop : text.toList.drop position = c :: cs)
    (visible : Text.isBlank c = false) : Text.VisibleAt text position := by
  refine ⟨c, ?_, visible⟩
  rw [← List.head?_drop, hdrop, List.head?_cons]

namespace Token

/-- A scan fails at a character that is not blank. -/
theorem placedIn_of_scanFrom (h : scanFrom dialect text position cs = .error e)
    (hdrop : text.toList.drop position = cs) : e.PlacedIn text ∧ e.refusal ≠ .empty := by
  fun_induction scanFrom dialect text position cs with
  | case1 => cases h
  | case2 position c rest _ ih =>
    refine ih h ?_
    rw [← List.tail_drop, hdrop, List.tail_cons]
  | case3 position c rest hvisible =>
    cases h
    have hplace := Text.visibleAt_of_drop hdrop (Bool.eq_false_iff.mpr hvisible)
    exact ⟨⟨rfl, position, rfl, hplace⟩, by simp⟩
  | case4 position c rest _ spelling _ _ ih =>
    cases hrest : scanFrom dialect text (position + spelling.length)
        (rest.drop spelling.others.length) with
    | ok later => rw [hrest] at h; cases h
    | error other =>
      rw [hrest] at h
      cases h
      refine ih hrest ?_
      rw [Spelling.length, Nat.add_comm spelling.others.length, ← Nat.add_assoc, ← List.drop_drop,
        ← List.tail_drop, hdrop, List.tail_cons]
  | case5 position c rest hvisible =>
    cases h
    have hplace := Text.visibleAt_of_drop hdrop (Bool.eq_false_iff.mpr hvisible)
    exact ⟨⟨rfl, position, rfl, hplace⟩, by simp⟩

/-- A token stands at a character that is not blank. -/
theorem visibleAt_of_mem (scanned : scan dialect text = .ok tokens) (hmem : token ∈ tokens) :
    Text.VisibleAt text token.position := by
  obtain ⟨spelling, more, known, -, hdrop⟩ := exists_spelling_of_mem scanned hmem
  exact Text.visibleAt_of_drop hdrop known.first_not_blank

end Token

def Respelling.same (text : String) (tokens : List Token) : Respelling where
  source := text
  source' := text
  tokens := tokens
  tokens' := tokens
  respells := List.forall₂_same.mpr fun _ _ => ⟨rfl, fun _ => rfl⟩

/-- What refuses a text beside itself points into it, and calls it empty only if no tokens are
there. -/
theorem Respelling.RefusedAlike.placedIn (scanned : Token.scan dialect text = .ok tokens)
    (h : (Respelling.same text tokens).RefusedAlike e e') :
    e.PlacedIn text ∧ (e.refusal = .empty → tokens = []) := by
  cases h with
  | empty nothing => exact ⟨⟨rfl, rfl⟩, fun _ => nothing⟩
  | tooDeep => exact ⟨⟨rfl, rfl⟩, nofun⟩
  | endOfInput => exact ⟨⟨rfl, rfl⟩, nofun⟩
  | @atToken token _ complaint pair =>
    obtain ⟨index, here, -⟩ := pair
    have hplace := Token.visibleAt_of_mem scanned (List.mem_of_getElem? here)
    cases complaint <;> exact ⟨⟨rfl, token.position, rfl, hplace⟩, nofun⟩

theorem Sequent.mem_names (x : Char) (s : Sequent) :
    x ∈ s.names ↔ ∃ f ∈ s.formulas, f.Mentions x := by
  have general (fs : List Formula) (found : List Char) :
      x ∈ fs.foldl (fun found f => insertNames f.names found) found ↔
        (∃ f ∈ fs, f.Mentions x) ∨ x ∈ found := by
    induction fs generalizing found with
    | nil => simp
    | cons f rest ih => simp [ih, mem_insertNames, Formula.mem_names, or_assoc, or_left_comm]
  simpa [names] using general s.formulas []

/-- The names in what tokens write are letters. -/
theorem Form.Writes.isLiteral (h : form.Writes tokens statement)
    (of : ∀ token ∈ tokens, token.IsOf dialect) :
    ∀ name ∈ statement.names, Spelling.isLiteral name = true := by
  intro name hname
  cases h with
  | formula derives =>
    have hmentions := (Formula.mem_names _ _).mp hname
    exact (derives.printable of).spellable name hmentions
  | polish derives =>
    have hmentions := (Formula.mem_names _ _).mp hname
    exact (derives.printable of).spellable name hmentions
  | sequent derives =>
    obtain ⟨f, hmem, hmentions⟩ := (Sequent.mem_names _ _).mp hname
    exact (derives.printable of f hmem).spellable name hmentions

namespace Reader

/-- Where no cursor can be placed, every form of reading refuses the text. -/
theorem readWithin_of_cursor_error {reader : Reader}
    (h : Cursor.ofText reader.dialect text = .error e) :
    reader.readWithin frames text = .error (.refused e) := by
  obtain ⟨form, dialect⟩ := reader
  cases form <;>
    simp only [readWithin, Formula.ofText, Formula.ofPolishText, Sequent.ofText, Reading.ofText, h,
      Except.map]

/-- A refusal points into the text, and calls it empty only if it is blank. -/
theorem placedIn_of_readWithin {reader : Reader}
    (h : reader.readWithin frames text = .error (.refused e)) :
    e.PlacedIn text ∧ (e.refusal = .empty → ∀ c ∈ text.toList, Text.isBlank c = true) := by
  cases hscan : Token.scan reader.dialect text with
  | error other =>
    have hcursor : Cursor.ofText reader.dialect text = .error other := by
      rw [Cursor.ofText, hscan]
    cases h.symm.trans (readWithin_of_cursor_error hcursor)
    obtain ⟨placed, hrefusal⟩ := Token.placedIn_of_scanFrom hscan List.drop_zero
    exact ⟨placed, fun hempty => absurd hempty hrefusal⟩
  | ok tokens =>
    rcases (Respelling.same text tokens).readAlike frames reader.form hscan hscan with
      ⟨statement, hok, -⟩ | ⟨other, _, herror, -, alike⟩
    · cases h.symm.trans hok
    · cases h.symm.trans herror
      obtain ⟨placed, hempty⟩ := alike.placedIn hscan
      exact ⟨placed, fun hrefusal => Token.scan_eq_nil_iff.mp (hempty hrefusal ▸ hscan)⟩

/-- Every reader, in whatever dialect, gives a statement whose names are letters, or an error that
points into the text; it calls just the blank texts empty. -/
theorem readWithin_wellFormed (frames : Nat) (reader : Reader) (text : String) :
    ((∃ statement, reader.readWithin frames text = .ok statement ∧
        ∀ name ∈ statement.names, Spelling.isLiteral name = true) ∨
      ∃ e, reader.readWithin frames text = .error (.refused e) ∧ e.PlacedIn text) ∧
    ((∃ e, reader.readWithin frames text = .error (.refused e) ∧ e.refusal = .empty) ↔
      ∀ c ∈ text.toList, Text.isBlank c = true) := by
  refine ⟨?_, ?_, fun blank => ?_⟩
  · rcases readWithin_outcome frames reader text with
      ⟨statement, tokens, hread, hscan, hwrites⟩ | ⟨e, herror⟩
    · exact .inl ⟨statement, hread, hwrites.isLiteral (Token.isOf_of_scan hscan)⟩
    · exact .inr ⟨e, herror, (placedIn_of_readWithin herror).1⟩
  · rintro ⟨e, herror, hempty⟩
    exact (placedIn_of_readWithin herror).2 hempty
  · have hcursor : Cursor.ofText reader.dialect text = .error ⟨.empty, some 0, text⟩ := by
      rw [Cursor.ofText, Token.scan_eq_nil_iff.mpr blank]
    exact ⟨_, readWithin_of_cursor_error hcursor, rfl⟩

end Reader

end Turnstile
