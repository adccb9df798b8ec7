import Turnstile.Token.Scan

/-! Cursors over the tokens of a text, and readings: computations that move a cursor and
either give a value or fail. A failed reading leaves the cursor behind the last token it took,
so the tokens it consumed stay consumed. -/
namespace Turnstile

/-- A text with its tokens, those behind the cursor (the latest first) and those ahead. -/
structure Cursor where
  source : String
  passed : List Token
  ahead : List Token

namespace Cursor

def start (source : String) (tokens : List Token) : Cursor := ⟨source, [], tokens⟩

@[simp] theorem start_passed (source : String) (tokens : List Token) :
    (start source tokens).passed = [] := rfl

@[simp] theorem start_ahead (source : String) (tokens : List Token) :
    (start source tokens).ahead = tokens := rfl

def tokens (c : Cursor) : List Token := c.passed.reverse ++ c.ahead

def index (c : Cursor) : Nat := c.passed.length

end Cursor

/-- Why a reading fails: a refusal of the text, too few frames for its nesting, a kind that a
table lacks, or a token that is missing or no node can be made of. -/
inductive Fault
  | refused (error : SyntaxError)
  | outOfFrames
  | noPrecedence (kind : Kind)
  | notConnective (kind : Kind)
  | badName (error : BadName)
  | noToken
  deriving DecidableEq

def Fault.message : Fault → String
  | .refused e => e.message
  | .outOfFrames => Refusal.tooDeep.detail
  | .noPrecedence kind => "<TokenKind." ++ kind.label ++ ": " ++ Text.quote kind.word ++ ">"
  | .notConnective kind => "cannot fold operator TokenKind." ++ kind.label
  | .badName e => e.message
  | .noToken => "no token to read"

abbrev Reading (α : Type) := EStateM Fault Cursor α

namespace Reading

def refuseAt {α : Type} (token : Token) (refusal : Refusal) : Reading α := fun c =>
  .error (.refused ⟨refusal, some token.position, c.source⟩) c

def peek : Reading (Option Token) := fun c => .ok c.ahead.head? c

def countAhead : Reading Nat := fun c => .ok c.ahead.length c

def advance : Reading Token := fun c =>
  match c.ahead with
  | [] => .error (.refused ⟨.endOfInput, some c.source.length, c.source⟩) c
  | token :: rest => .ok token ⟨c.source, token :: c.passed, rest⟩

/-- Takes a token of the given kind; one of another kind is taken and refused. -/
def expect (kind : Kind) : Reading Token := do
  let token ← advance
  if token.kind = kind then return token
  else refuseAt token (.expected kind token.text)

def atEnd : Reading Bool := fun c => .ok c.ahead.isEmpty c

def expectEnd : Reading Unit := do
  match ← peek with
  | none => return ()
  | some token => refuseAt token (.trailing token.text)

def atomOf (token : Token) : Reading Formula :=
  match Formula.named token.text with
  | .ok f => return f
  | .error e => throw (.badName e)

def precedenceOf (kind : Kind) : Reading Precedence :=
  match kind.precedence? with
  | some precedence => return precedence
  | none => throw (.noPrecedence kind)

def join (kind : Kind) (left right : Formula) : Reading Formula :=
  match kind.connective? with
  | some op => return .binary op left right
  | none => throw (.notConnective kind)

/-- Takes the tokens at the cursor as long as their kinds are wanted, at most `budget` many. -/
def takeRun {α : Type} (want : Kind → Option α) : (budget : Nat) → Reading (List α)
  | 0 => return []
  | budget + 1 => do
    match ← peek with
    | none => return []
    | some token =>
      match want token.kind with
      | none => return []
      | some item =>
        let _ ← advance
        let rest ← takeRun want budget
        return item :: rest

end Reading

end Turnstile
