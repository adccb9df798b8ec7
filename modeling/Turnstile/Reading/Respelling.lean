import Mathlib.Data.List.Forall2
import Turnstile.Reading.Cursor

/-! Respelling: two texts with tokens of the same kinds and the same names, whatever blanks stand
between the tokens and whichever spellings the operators have. Refusals of the two are alike if
they have one cause at one place among the tokens; where the texts are quoted they differ. -/
namespace Turnstile

/-- The tokens are of one kind, and of one name if they are literals. -/
@[mk_iff]
structure Token.Respells (token token' : Token) : Prop where
  kind : token'.kind = token.kind
  name : token.kind = .literal → token'.text = token.text

/-- Two texts with tokens that agree one by one. -/
structure Respelling where
  source : String
  source' : String
  tokens : List Token
  tokens' : List Token
  respells : List.Forall₂ Token.Respells tokens tokens'

/-- What is wrong with a token, apart from how it is spelled. -/
inductive Complaint
  | unexpected
  | trailing
  | expected (kind : Kind)
  | noJudgment
  deriving DecidableEq

def Complaint.about : Complaint → (found : String) → Refusal
  | .unexpected, found => .unexpected found
  | .trailing, found => .trailing found
  | .expected kind, found => .expected kind found
  | .noJudgment, found => .noJudgment found

namespace Respelling

/-- The tokens have one place among those of the two texts. -/
def Pairs (R : Respelling) (token token' : Token) : Prop :=
  ∃ index : Nat, R.tokens[index]? = some token ∧ R.tokens'[index]? = some token'

/-- The two texts are refused for one cause at one place among their tokens. -/
inductive RefusedAlike (R : Respelling) : SyntaxError → SyntaxError → Prop
  | empty (nothing : R.tokens = []) :
      RefusedAlike R ⟨.empty, some 0, R.source⟩ ⟨.empty, some 0, R.source'⟩
  | tooDeep : RefusedAlike R ⟨.tooDeep, none, R.source⟩ ⟨.tooDeep, none, R.source'⟩
  | endOfInput :
      RefusedAlike R ⟨.endOfInput, some R.source.length, R.source⟩
        ⟨.endOfInput, some R.source'.length, R.source'⟩
  | atToken {token token' : Token} (complaint : Complaint) (pair : R.Pairs token token') :
      RefusedAlike R ⟨complaint.about token.text, some token.position, R.source⟩
        ⟨complaint.about token'.text, some token'.position, R.source'⟩

def ReadAlike {α : Type} (R : Respelling) (read read' : Except Fault α) : Prop :=
  (∃ value, read = .ok value ∧ read' = .ok value) ∨
    ∃ e e', read = .error (.refused e) ∧ read' = .error (.refused e') ∧ R.RefusedAlike e e'

end Respelling

end Turnstile
