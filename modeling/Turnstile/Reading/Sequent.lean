import Turnstile.Reading.Formula

/-! Reading a sequent: formulas separated by commas, a judgment, and the conclusion, with
nothing after it. A sequent may begin with its judgment and then has no assumptions. -/
namespace Turnstile.Reading

/-- Reads one item and, after every comma, one more. -/
def commaSeparated {α : Type} (item : Reading α) : (budget : Nat) → Reading (List α)
  | 0 => do
    let only ← item
    return [only]
  | budget + 1 => do
    let first ← item
    match ← peek with
    | none => return [first]
    | some token =>
      if token.kind = .comma then
        let _ ← advance
        let rest ← commaSeparated item budget
        return first :: rest
      else return [first]

/-- Reads the formulas before a judgment; none if the judgment comes first. -/
def assumptions (frames : Nat) : Reading (List Formula) := do
  match ← peek with
  | none => throw .noToken
  | some token =>
    match token.kind.judgment? with
    | some _ => return []
    | none =>
      let budget ← countAhead
      commaSeparated (formula frames 1) budget

def sequent : (frames : Nat) → Reading Sequent
  | 0 => throw .outOfFrames
  | frames + 1 => do
    let given ← assumptions frames
    let token ← advance
    match token.kind.judgment? with
    | none => refuseAt token (.noJudgment token.text)
    | some said =>
      let conclusion ← formula frames 1
      expectEnd
      return ⟨some said, given, conclusion⟩

end Turnstile.Reading
