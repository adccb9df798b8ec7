import Turnstile.Token.Kind

/-! Dialects: the kinds of token that a logic lets its formulas use, under a name for
messages. -/
namespace Turnstile

structure Dialect where
  name : String
  kinds : List Kind

namespace Dialect

def allows (dialect : Dialect) (kind : Kind) : Bool := decide (kind ∈ dialect.kinds)

/-- The literals, negation and the connectives, which every dialect here has. -/
def coreKinds : List Kind :=
  [.literal, .unary .negation, .binary .conjunction, .binary .disjunction,
    .binary .conditional, .binary .biconditional]

def classical : Dialect := ⟨"classical", coreKinds ++ [.leftParen, .rightParen]⟩

/-- Propositional formulas written operator first, which need no grouping. -/
def reversePolish : Dialect := ⟨"classical-reverse-polish", coreKinds⟩

def modal : Dialect :=
  ⟨"modal", classical.kinds ++
    [.unary (.modal .necessity), .unary (.modal .possibility), .comma, .judgment .proves,
      .judgment .doesNotProve]⟩

end Dialect

end Turnstile
