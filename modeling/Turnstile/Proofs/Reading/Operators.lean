import Turnstile.Reading.Polish
import Turnstile.Reading.Formula

/-! The tables of operators agree: a kind that may stand between operands has a precedence and a
node, and no other kind has either. So no lookup fails, and the readings may be taken to know the
connective as soon as they see its kind. -/
namespace Turnstile

namespace Kind

variable {kind : Kind} {op : Connective}

@[simp] theorem mem_binaryOperators : kind ∈ binaryOperators ↔ ∃ op, kind = .binary op := by
  constructor
  · intro h
    simp only [binaryOperators, List.mem_cons, List.not_mem_nil, or_false] at h
    rcases h with rfl | rfl | rfl | rfl <;> exact ⟨_, rfl⟩
  · rintro ⟨op, rfl⟩
    cases op <;> decide

@[simp] theorem connective?_binary (op : Connective) : (binary op).connective? = some op := by
  cases op <;> rfl

/-- The precedence of a connective holds the strengths by which it is read. -/
theorem precedence?_binary (op : Connective) :
    ∃ precedence, (binary op).precedence? = some precedence ∧
      precedence.strength = op.strength ∧ precedence.rightStrength = op.rightStrength := by
  cases op <;> exact ⟨_, rfl, rfl, rfl⟩

theorem connective?_eq_some : kind.connective? = some op ↔ kind = .binary op := by
  constructor
  · intro h
    rcases kind with _ | (_ | (_ | _)) | other | _ | _ | _ | (_ | _)
    case binary => rw [connective?_binary] at h; rw [Option.some.inj h]
    all_goals cases h
  · rintro rfl
    exact connective?_binary op

theorem connective?_eq_none (h : kind ∉ binaryOperators) : kind.connective? = none := by
  cases hop : kind.connective? with
  | none => rfl
  | some op => exact absurd (mem_binaryOperators.mpr ⟨op, connective?_eq_some.mp hop⟩) h

end Kind

namespace Reading

variable {frames budget : Nat} {kind : Kind} {op : Connective}

@[simp] theorem join_binary (op : Connective) (left right : Formula) :
    join (.binary op) left right = return .binary op left right := by
  rw [join, Kind.connective?_binary]

/-- A round of the loop over connectives looks up nothing that is not there. -/
theorem climb_succ (operand : Int → Reading Formula) (least : Int) (budget : Nat)
    (left : Formula) : climb operand least (budget + 1) left = (do
      match ← peek with
      | none => return left
      | some token =>
        match token.kind.connective? with
        | none => return left
        | some op =>
          if op.strength < least then return left
          else
            let _ ← advance
            let right ← operand op.rightStrength
            climb operand least budget (.binary op left right)) := by
  rw [climb]
  congr 1
  funext peeked
  cases peeked with
  | none => rfl
  | some token =>
    by_cases hmem : token.kind ∈ Kind.binaryOperators
    · obtain ⟨op, hkind⟩ := Kind.mem_binaryOperators.mp hmem
      obtain ⟨precedence, hprecedence, hstrength, hright⟩ := Kind.precedence?_binary op
      rw [hkind] at hmem
      simp only [hkind, hmem, if_true, precedenceOf, hprecedence, hstrength, hright, pure_bind,
        join_binary, Kind.connective?_binary]
    · simp only [hmem, Kind.connective?_eq_none hmem, if_false]

/-- What a token opens where operators come first. -/
theorem polishOperand_succ (frames : Nat) (token : Token) :
    polishOperand (frames + 1) token = match token.kind with
      | .literal => atomOf token
      | .binary op => do
        let left ← polish frames
        let right ← polish frames
        return .binary op left right
      | _ => refuseAt token (.unexpected token.text) := by
  rw [polishOperand]
  rcases token.kind with _ | (_ | (_ | _)) | (_ | _ | _ | _) | _ | _ | _ | (_ | _) <;> rfl

end Reading

end Turnstile
