import Turnstile.Sequent

/-! Kinds of token. A reader that meets a connective looks it up in three tables: one of the kinds
after which a formula may go on, one of how tightly each of them binds, and one of the nodes to
build. Nothing but the tables themselves makes them agree. -/
namespace Turnstile

inductive Kind
  | literal
  | unary (op : Unary)
  | binary (op : Connective)
  | leftParen
  | rightParen
  | comma
  | judgment (judgment : Judgment)
  deriving DecidableEq

/-- The side to which a chain of one operator groups. -/
inductive Grouping
  | left
  | right
  deriving DecidableEq

/-- How tightly an operator binds, and how it groups. -/
structure Precedence where
  strength : Int
  grouping : Grouping
  deriving DecidableEq

/-- The least strength of the operators in a right operand. -/
def Precedence.rightStrength (p : Precedence) : Int :=
  match p.grouping with
  | .left => p.strength + 1
  | .right => p.strength

namespace Kind

def all : List Kind :=
  [.literal, .unary .negation, .binary .conjunction, .binary .disjunction, .binary .conditional,
    .binary .biconditional, .unary (.modal .necessity), .unary (.modal .possibility), .leftParen,
    .rightParen, .comma, .judgment .proves, .judgment .doesNotProve]

theorem mem_all (kind : Kind) : kind ∈ all := by
  rcases kind with _ | (_ | (_ | _)) | (_ | _ | _ | _) | _ | _ | _ | (_ | _) <;> simp [all]

def word : Kind → String
  | .literal => "literal"
  | .unary .negation => "not"
  | .unary (.modal .necessity) => "necessary"
  | .unary (.modal .possibility) => "possible"
  | .binary .conjunction => "and"
  | .binary .disjunction => "or"
  | .binary .conditional => "conditional"
  | .binary .biconditional => "biconditional"
  | .leftParen => "lparen"
  | .rightParen => "rparen"
  | .comma => "comma"
  | .judgment .proves => "proves"
  | .judgment .doesNotProve => "does_not_prove"

def ofWord? (word : String) : Option Kind := all.find? fun kind => kind.word == word

/-- The short name of a kind that was taken for an operator. -/
def label : Kind → String
  | .literal => "LITERAL"
  | .unary .negation => "NOT"
  | .unary (.modal .necessity) => "NEC"
  | .unary (.modal .possibility) => "POS"
  | .binary .conjunction => "AND"
  | .binary .disjunction => "OR"
  | .binary .conditional => "COND"
  | .binary .biconditional => "BICOND"
  | .leftParen => "LPAREN"
  | .rightParen => "RPAREN"
  | .comma => "COMMA"
  | .judgment .proves => "PROVES"
  | .judgment .doesNotProve => "NOT_PROVES"

def unary? : Kind → Option Unary
  | .unary op => some op
  | _ => none

/-- The kinds that may stand between two operands. -/
def binaryOperators : List Kind :=
  [.binary .conjunction, .binary .disjunction, .binary .conditional, .binary .biconditional]

/-- How tightly the kinds bind, the loosest first; unary operators bind tighter than any. -/
def precedences : List (Kind × Precedence) :=
  [(.binary .biconditional, ⟨1, .left⟩), (.binary .conditional, ⟨2, .right⟩),
    (.binary .disjunction, ⟨3, .left⟩), (.binary .conjunction, ⟨4, .left⟩)]

def precedence? (kind : Kind) : Option Precedence := precedences.lookup kind

/-- The nodes that the kinds build. -/
def connectives : List (Kind × Connective) :=
  [(.binary .conjunction, .conjunction), (.binary .disjunction, .disjunction),
    (.binary .conditional, .conditional), (.binary .biconditional, .biconditional)]

def connective? (kind : Kind) : Option Connective := connectives.lookup kind

def judgment? : Kind → Option Judgment
  | .judgment j => some j
  | _ => none

end Kind

namespace Connective

/-- How tightly a connective binds; unary operators bind tighter than any. -/
def strength : Connective → Int
  | .biconditional => 1
  | .conditional => 2
  | .disjunction => 3
  | .conjunction => 4

/-- The least strength of the connectives in the right operand of this one: conditionals group
to the right, the rest to the left. -/
def rightStrength : Connective → Int
  | .conditional => Connective.conditional.strength
  | op => op.strength + 1

end Connective

end Turnstile
