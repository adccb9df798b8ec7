import Turnstile.Data.Display
import Turnstile.Journal
import Turnstile.Reader
import Turnstile.TruthTable

/-! Logics: each reads a line of text, shows it in canonical form and tells whether it is
valid. Classical logic decides formulas by their truth tables; modal logic reads sequents, a
bare formula standing for the sequent that proves it, and holds every sequent for valid. To
validate or to analyze a text takes a frame more than to read it. -/
namespace Turnstile

inductive LogicError
  | reading (error : Reader.FallbackError)
  | notFormula (error : Statement.NotFormula)
  | evaluation (error : EvaluationError)

/-- A computation that keeps a journal, also when it fails. -/
abbrev Journaled (α : Type) := EStateM LogicError (List JournalEntry) α

namespace Journaled

def note (channel : Channel) (message : String) : Journaled Unit :=
  modify fun entries => entries ++ [⟨channel, message⟩]

def noteRejections (source : Datum) : List Reader.Rejection → Journaled Unit
  | [] => return ()
  | rejection :: rest => do
    note .reading (rejection.reader.name ++ " rejected " ++ source.display ++ ": " ++
      rejection.error.message)
    noteRejections source rest

def ofEvaluation {α : Type} : Except EvaluationError α → Journaled α
  | .ok value => return value
  | .error e => throw (.evaluation e)

end Journaled

/-- Propositional logic, which shows formulas by its glyphs and may read them operator first
if they cannot be read otherwise. -/
structure ClassicalLogic where
  glyphs : Glyphs := .unicode
  polishFallback : Bool := true

namespace ClassicalLogic

open Journaled

def readers (l : ClassicalLogic) : List Reader :=
  .classical :: (if l.polishFallback then [.polish] else [])

def read (frames : Nat) (l : ClassicalLogic) (source : Datum) : Journaled Formula := do
  let (result, rejections) := Reader.tryEach (frames - 1) source none l.readers
  noteRejections source rejections
  match result with
  | .ok statement =>
    match statement.asFormula with
    | .ok f => return f
    | .error e => throw (.notFormula e)
  | .error (.fault (.refused e)) =>
    note .logic ("classical parse error for " ++ source.display ++ ": " ++ e.message)
    throw (.reading (.fault (.refused e)))
  | .error e => throw (.reading e)

def validate (frames : Nat) (l : ClassicalLogic) (source : Datum) :
    Journaled (String × Bool) := do
  let f ← l.read (frames - 1) source
  note .decision ("checking tautology over " ++ toString f.names.length ++ " variable(s)")
  let valid ← ofEvaluation f.isTautology
  return (f.render l.glyphs, valid)

def analyze (frames : Nat) (l : ClassicalLogic) (source : Datum) : Journaled TruthTable := do
  let f ← l.read (frames - 1) source
  let table ← ofEvaluation (TruthTable.ofFormula f)
  note .table ("analyzed " ++ table.expression ++ ": " ++ toString table.rows.length ++
    " rows, " ++ table.verdict.word)
  return table

end ClassicalLogic

structure ModalLogic where
  glyphs : Glyphs := .unicode

namespace ModalLogic

open Journaled

/-- The sequent that a text writes, or that proves the formula it writes without assumptions;
if it writes neither, the error is that of the sequent. -/
def sequentOf (frames : Nat) (source : String) : Except Fault Sequent :=
  match Sequent.ofText frames .modal source with
  | .error (.refused e) =>
    -- the reader of formulas is called by the logic, that of sequents is the logic's own
    match Formula.ofText (frames - 1) .modal source with
    | .ok f => .ok ⟨some .proves, [], f⟩
    | .error (.refused _) => .error (.refused e)
    | .error fault => .error fault
  | outcome => outcome

def read (frames : Nat) (source : Datum) : Journaled Sequent := do
  match source.onText (sequentOf frames) with
  | .ok s => return s
  | .error fault =>
    if let .refused e := fault then
      note .logic ("modal parse error for " ++ source.display ++ ": " ++ e.message)
    throw (.reading (.fault fault))

/-- The canonical text of a sequent, which is always held for valid. -/
def validate (frames : Nat) (l : ModalLogic) (source : Datum) : Journaled (String × Bool) := do
  let s ← read (frames - 1) source
  return (s.render l.glyphs, true)

end ModalLogic

inductive Logic
  | classical (logic : ClassicalLogic)
  | modal (logic : ModalLogic)

inductive SelectionError
  | unknown (name : String)
  | notKind (name : String)
  | mismatch (selected wanted : LogicKind)

def SelectionError.message : SelectionError → String
  | .unknown name =>
    "Unknown logic: " ++ Text.quote name ++ ". Expected one of ['classical', 'modal']"
  | .notKind name => Text.quote name ++ " is not a valid LogicKind"
  | .mismatch selected wanted =>
    "Configuration selects " ++ Text.quote selected.name ++ ", not " ++ Text.quote wanted.name

namespace Logic

def kind : Logic → LogicKind
  | .classical _ => .classical
  | .modal _ => .modal

def heading : Logic → String
  | .classical _ => "ClassicalLogic"
  | .modal _ => "ModalLogic"

def title : Logic → String
  | .classical _ => "Classical"
  | .modal _ => "Modal Logic"

/-- The logic of a kind, everything else at its default. -/
def ofKind : LogicKind → Logic
  | .classical => .classical {}
  | .modal => .modal {}

def ofName (name : String) : Except SelectionError Logic :=
  match LogicKind.ofName? name with
  | some kind => .ok (ofKind kind)
  | none => .error (.unknown name)

def ofSettings (s : Settings) : Logic :=
  match s.logic with
  | .classical => .classical ⟨s.script.glyphs, s.polishFallback⟩
  | .modal => .modal ⟨s.script.glyphs⟩

/-- The logic that settings choose, which has to be of the wanted kind. -/
def ofSettingsFor (wanted : LogicKind) (s : Settings) : Except SelectionError Logic :=
  if s.logic = wanted then .ok (ofSettings s) else .error (.mismatch s.logic wanted)

def read (frames : Nat) (l : Logic) (source : Datum) : Journaled Statement :=
  match l with
  | .classical c => do
    let f ← c.read frames source
    return .formula f
  | .modal _ => do
    let s ← ModalLogic.read frames source
    return .sequent s

def validate (frames : Nat) (l : Logic) (source : Datum) : Journaled (String × Bool) :=
  match l with
  | .classical c => c.validate frames source
  | .modal m => m.validate frames source

end Logic

end Turnstile
