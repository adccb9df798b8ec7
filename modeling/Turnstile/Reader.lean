import Turnstile.Reading.Polish
import Turnstile.Reading.Sequent
import Turnstile.Statement

/-! Readers: a written form together with a dialect, turned into a function from texts to
statements. A text is scanned as a whole first, then read with a bound on the nesting, and has
to be used up. Several readers can be tried in turn, the first error standing for all.

The number of frames given to an operation is what a reader called in its place would have for a
text; an operation that calls readers itself leaves them one less for each call in between. -/
namespace Turnstile

/-- The cursor before the first token of a text, which has to have one. -/
def Cursor.ofText (dialect : Dialect) (source : String) : Except SyntaxError Cursor :=
  match Token.scan dialect source with
  | .error e => .error e
  | .ok [] => .error ⟨.empty, some 0, source⟩
  | .ok tokens => .ok (.start source tokens)

/-- What a reading makes of a text, a lack of frames being a refusal of the text. -/
def Reading.ofText {α : Type} (reading : Reading α) (dialect : Dialect) (source : String) :
    Except Fault α :=
  match Cursor.ofText dialect source with
  | .error e => .error (.refused e)
  | .ok cursor =>
    match reading cursor with
    | .ok value _ => .ok value
    | .error .outOfFrames _ => .error (.refused ⟨.tooDeep, none, source⟩)
    | .error fault _ => .error fault

def Reading.complete {α : Type} (reading : Reading α) : Reading α := do
  let value ← reading
  expectEnd
  return value

def Formula.ofText (frames : Nat) (dialect : Dialect) (source : String) : Except Fault Formula :=
  (Reading.formula frames 1).complete.ofText dialect source

def Formula.ofPolishText (frames : Nat) (dialect : Dialect) (source : String) :
    Except Fault Formula :=
  (Reading.polish frames).complete.ofText dialect source

def Sequent.ofText (frames : Nat) (dialect : Dialect) (source : String) :
    Except Fault Sequent :=
  (Reading.sequent frames).ofText dialect source

def Datum.onText {α : Type} (source : Datum) (read : String → Except Fault α) : Except Fault α :=
  match source with
  | .scalar (.text s) => read s
  | other => .error (.refused (.notText other.shape))

inductive Form
  | formula
  | polish
  | sequent
  deriving DecidableEq

/-- A way to write statements, in the tokens of a dialect. -/
structure Reader where
  form : Form
  dialect : Dialect

namespace Reader

def classical : Reader := ⟨.formula, .classical⟩
def modal : Reader := ⟨.formula, .modal⟩
def polish : Reader := ⟨.polish, .reversePolish⟩
def sequent : Reader := ⟨.sequent, .modal⟩

def name (reader : Reader) : String :=
  match reader.form with
  | .formula => "parse_infix"
  | .polish => "parse_reverse_polish"
  | .sequent => "parse_sequent"

/-- The statement that a text makes, if so many frames are enough for it. -/
def readWithin (frames : Nat) (reader : Reader) (source : String) : Except Fault Statement :=
  match reader.form with
  | .formula => (Formula.ofText frames reader.dialect source).map .formula
  | .polish => (Formula.ofPolishText frames reader.dialect source).map .formula
  | .sequent => (Sequent.ofText frames reader.dialect source).map .sequent

def read (frames : Nat) (reader : Reader) (source : Datum) : Except Fault Statement :=
  source.onText (reader.readWithin frames)

/-- The refusal of a text, without the statement that an accepted one makes. -/
def validate (frames : Nat) (reader : Reader) (source : Datum) :
    Except Fault (Option SyntaxError) :=
  match reader.read frames source with
  | .ok _ => .ok none
  | .error (.refused e) => .ok (some e)
  | .error fault => .error fault

structure Rejection where
  reader : Reader
  error : SyntaxError

inductive FallbackError
  | noReaders
  | fault (fault : Fault)

def FallbackError.message : FallbackError → String
  | .noReaders => "No parsers given"
  | .fault f => f.message

/-- Tries readers in turn after `first`, the first error so far, and gives the statement of
the one that accepts, with the rejections before it. -/
def tryEach (frames : Nat) (source : Datum) (first : Option SyntaxError) :
    List Reader → Except FallbackError Statement × List Rejection
  | [] =>
    match first with
    | none => (.error .noReaders, [])
    | some e => (.error (.fault (.refused e)), [])
  | reader :: rest =>
    -- a frame is taken by the trial itself
    match reader.read (frames - 1) source with
    | .ok statement => (.ok statement, [])
    | .error (.refused e) =>
      let later := tryEach frames source (first.or (some e)) rest
      (later.1, ⟨reader, e⟩ :: later.2)
    | .error fault => (.error (.fault fault), [])

/-- The statement of the first reader that accepts a text; if none does, the error of the
first. -/
def readFirst (frames : Nat) (readers : List Reader) (source : Datum) :
    Except FallbackError Statement :=
  (tryEach frames source none readers).1

end Reader

end Turnstile
