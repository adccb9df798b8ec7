import Turnstile.Token.Scan

/-! Counting operands. In front of a formula that is written operator first one operand is
needed; a literal supplies one, a connective needs one more than the one it is itself, a negation
changes nothing. -/
namespace Turnstile

/-- By how much a token of a kind changes the number of operands needed. -/
def Kind.demand : Kind → Int
  | .literal => -1
  | .binary _ => 1
  | _ => 0

def operandsNeeded (tokens : List Token) : Int :=
  tokens.foldl (fun needed token => needed + token.kind.demand) 1

/-- Behind the tokens no operand is needed, for the first time. -/
structure FirstMet (tokens : List Token) : Prop where
  met : operandsNeeded tokens = 0
  first : ∀ used more, tokens = used ++ more → more ≠ [] → operandsNeeded used ≠ 0

/-- At every place among the tokens and behind them operands are needed. -/
def NeverMet (tokens : List Token) : Prop :=
  ∀ used more, tokens = used ++ more → operandsNeeded used ≠ 0

end Turnstile
