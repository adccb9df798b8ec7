import Turnstile.Reading.Cursor

/-! Reading a formula with its operators before the operands, where no strength and no
grouping is needed. A connective costs two frames while an operand of it is being read, a run
of negations costs none. -/
namespace Turnstile.Reading

def negation? (kind : Kind) : Option Unary :=
  if kind = .unary .negation then some .negation else none

mutual
/-- Reads a run of negations and what they stand before. -/
def polish : (frames : Nat) → Reading Formula
  | 0 => throw .outOfFrames
  | frames + 1 => do
    let budget ← countAhead
    let run ← takeRun negation? budget
    let token ← advance
    let operand ← polishOperand frames token
    return operand.applyRun run

def polishOperand : (frames : Nat) → Token → Reading Formula
  | 0, _ => throw .outOfFrames
  | frames + 1, token =>
    match token.kind with
    | .literal => atomOf token
    | kind =>
      match kind.connective? with
      | some op => do
        let left ← polish frames
        let right ← polish frames
        return .binary op left right
      | none => refuseAt token (.unexpected token.text)
end

end Turnstile.Reading
