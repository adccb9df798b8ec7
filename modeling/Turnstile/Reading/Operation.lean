import Turnstile.Reading.Polish
import Turnstile.Reading.Sequent
import Turnstile.Statement

/-! Single operations on a cursor, for whoever walks over the tokens of a text step by step.
Each is one of the readings, with its result as a value of one type. -/
namespace Turnstile.Reading

inductive Operation
  | peek
  | advance
  | expect (kind : Kind)
  | atEnd
  | expectEnd
  | formula (least : Int)
  | term
  | polish
  | sequent
  | join (kind : Kind) (left right : Formula)

inductive Outcome
  | nothing
  | token (token : Token)
  | flag (value : Bool)
  | statement (s : Statement)

/-- Takes a step, which may use so many frames. -/
def Operation.perform (frames : Nat) : Operation → Reading Outcome
  | .peek => do
    match ← Reading.peek with
    | some token => return .token token
    | none => return .nothing
  | .advance => return .token (← Reading.advance)
  | .expect kind => return .token (← Reading.expect kind)
  | .atEnd => return .flag (← Reading.atEnd)
  | .expectEnd => do
    Reading.expectEnd
    return .nothing
  | .formula least => return .statement (.formula (← Reading.formula frames least))
  | .term => return .statement (.formula (← Reading.term frames))
  | .polish => return .statement (.formula (← Reading.polish frames))
  | .sequent => return .statement (.sequent (← Reading.sequent frames))
  | .join kind left right =>
    return .statement (.formula (← Reading.join kind left right))

end Turnstile.Reading
