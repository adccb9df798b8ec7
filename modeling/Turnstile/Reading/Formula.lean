import Turnstile.Reading.Cursor

/-! Reading a formula with its connectives between the operands. A term is followed by
connectives that bind at least as tightly as asked, each with a right operand read at its own
strength; a conditional groups to the right and the others to the left. Every nested call
costs a frame, runs of unary operators and chains to the left cost none. -/
namespace Turnstile.Reading

/-- Extends a left operand by the connectives at the cursor, as long as they are at least as
strong as asked. Each takes a token, so as many rounds as tokens are enough. -/
def climb (operand : Int → Reading Formula) (least : Int) :
    (budget : Nat) → Formula → Reading Formula
  | 0, left => return left
  | budget + 1, left => do
    match ← peek with
    | none => return left
    | some token =>
      -- three tables are asked, and each of the two later ones may lack the kind
      if token.kind ∈ Kind.binaryOperators then
        let precedence ← precedenceOf token.kind
        if precedence.strength < least then return left
        else
          let _ ← advance
          let right ← operand precedence.rightStrength
          let joined ← join token.kind left right
          climb operand least budget joined
      else return left

mutual
def formula : (frames : Nat) → (least : Int) → Reading Formula
  | 0, _ => throw .outOfFrames
  | frames + 1, least => do
    let first ← term frames
    let budget ← countAhead
    climb (formula frames) least budget first

def term : (frames : Nat) → Reading Formula
  | 0 => throw .outOfFrames
  | frames + 1 => do
    let budget ← countAhead
    let run ← takeRun Kind.unary? budget
    let token ← advance
    let operand ← primary frames token
    return operand.applyRun run

/-- Reads what a token opens: an atom, or a formula in parentheses. -/
def primary : (frames : Nat) → Token → Reading Formula
  | 0, _ => throw .outOfFrames
  | frames + 1, token =>
    match token.kind with
    | .literal => atomOf token
    | .leftParen => do
      let inner ← formula frames 1
      let _ ← expect .rightParen
      return inner
    | _ => refuseAt token (.unexpected token.text)
end

end Turnstile.Reading
