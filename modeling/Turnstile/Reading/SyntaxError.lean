import Turnstile.Data.Datum
import Turnstile.Text.Quoted
import Turnstile.Token.Kind

/-! Syntax errors: why a text says nothing, the place where that shows, and the text. The
wording of every cause is given here; `report` is the error as it is shown. -/
namespace Turnstile

inductive Refusal
  | notText (shape : Shape)
  | unrecognized (c : Char)
  | notAllowed (spelling dialect : String)
  | empty
  | endOfInput
  | unexpected (found : String)
  | trailing (found : String)
  | expected (kind : Kind) (found : String)
  | noJudgment (found : String)
  | tooDeep
  deriving DecidableEq

def Refusal.detail : Refusal → String
  | .notText shape => "Expected string expression, got " ++ shape.word
  | .unrecognized c => "unrecognized character " ++ Text.quote (String.singleton c)
  | .notAllowed spelling dialect =>
    Text.quote spelling ++ " is not allowed in " ++ dialect ++ " formulas"
  | .empty => "empty expression"
  | .endOfInput => "unexpected end of input"
  | .unexpected found => "unexpected " ++ Text.quote found
  | .trailing found => "unexpected trailing " ++ Text.quote found
  | .expected kind found => "expected " ++ kind.word ++ ", found " ++ Text.quote found
  | .noJudgment found => "expected a judgment, found " ++ Text.quote found
  | .tooDeep => "expression nested too deeply"

/-- A refusal, the position that shows it, if one does, and the text refused. -/
structure SyntaxError where
  refusal : Refusal
  position : Option Nat
  source : String
  deriving DecidableEq

structure SyntaxReport where
  detail : String := "could not parse"
  position : Option Int := none
  source : String := ""

/-- The detail, followed by the position if there is one. -/
def SyntaxReport.message (r : SyntaxReport) : String :=
  match r.position with
  | none => r.detail
  | some position => r.detail ++ " (at position " ++ toString position ++ ")"

namespace SyntaxError

def report (e : SyntaxError) : SyntaxReport :=
  ⟨e.refusal.detail, e.position.map Int.ofNat, e.source⟩

def message (e : SyntaxError) : String := e.report.message

/-- Nothing but a text can be read. -/
def notText (shape : Shape) : SyntaxError := ⟨.notText shape, none, ""⟩

end SyntaxError

end Turnstile
