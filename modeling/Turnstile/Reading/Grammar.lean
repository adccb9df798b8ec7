import Turnstile.Formula.Polish
import Turnstile.Token.Scan

/-! The grammars of the written forms, as relations between lists of tokens and what they
write. With connectives between operands there is one stratum for each connective, from the
loosest to the tightest, and one for terms; a conditional takes its own stratum on the right,
the others on the left. -/
namespace Turnstile.Grammar

inductive Stratum
  | level (op : Connective)
  | term
  deriving DecidableEq

def tighter : Connective → Stratum
  | .biconditional => .level .conditional
  | .conditional => .level .disjunction
  | .disjunction => .level .conjunction
  | .conjunction => .term

def loosest : Stratum := .level .biconditional

/-- The tokens write a formula in a stratum. -/
inductive Derives : Stratum → List Token → Formula → Prop
  | lift {op : Connective} {tokens : List Token} {f : Formula} :
      Derives (tighter op) tokens f → Derives (.level op) tokens f
  | joinLeft {op : Connective} {left right : List Token} {token : Token} {f g : Formula} :
      op ≠ .conditional → token.kind = .binary op → Derives (.level op) left f →
      Derives (tighter op) right g →
      Derives (.level op) (left ++ token :: right) (.binary op f g)
  | joinRight {left right : List Token} {token : Token} {f g : Formula} :
      token.kind = .binary .conditional → Derives (tighter .conditional) left f →
      Derives (.level .conditional) right g →
      Derives (.level .conditional) (left ++ token :: right) (.binary .conditional f g)
  | unary {op : Unary} {tokens : List Token} {token : Token} {f : Formula} :
      token.kind = .unary op → Derives .term tokens f →
      Derives .term (token :: tokens) (.unary op f)
  | group {tokens : List Token} {first last : Token} {f : Formula} :
      first.kind = .leftParen → last.kind = .rightParen → Derives loosest tokens f →
      Derives .term (first :: tokens ++ [last]) f
  | literal {token : Token} {name : Char} :
      token.kind = .literal → token.text = String.singleton name →
      Derives .term [token] (.atom name)

/-- The symbol that a token is in a formula written operator first. -/
def symbol? (token : Token) : Option Symbol :=
  match token.kind with
  | .literal => (variableNamed token.text).toOption.map .atom
  | .unary .negation => some (.unary .negation)
  | .binary op => some (.binary op)
  | _ => none

def DerivesPolish (tokens : List Token) (f : Formula) : Prop :=
  tokens.map symbol? = f.toPolish.map some

inductive DerivesList : List Token → List Formula → Prop
  | single {tokens : List Token} {f : Formula} :
      Derives loosest tokens f → DerivesList tokens [f]
  | cons {tokens rest : List Token} {comma : Token} {f : Formula} {fs : List Formula} :
      comma.kind = .comma → Derives loosest tokens f → DerivesList rest fs →
      DerivesList (tokens ++ comma :: rest) (f :: fs)

inductive DerivesSequent : List Token → Sequent → Prop
  | bare {tokens : List Token} {token : Token} {j : Judgment} {f : Formula} :
      token.kind = .judgment j → Derives loosest tokens f →
      DerivesSequent (token :: tokens) ⟨some j, [], f⟩
  | under {given tokens : List Token} {token : Token} {j : Judgment} {fs : List Formula}
      {f : Formula} :
      token.kind = .judgment j → DerivesList given fs → Derives loosest tokens f →
      DerivesSequent (given ++ token :: tokens) ⟨some j, fs, f⟩

theorem Derives.ne_nil {s : Stratum} {tokens : List Token} {f : Formula}
    (h : Derives s tokens f) : tokens ≠ [] := by
  induction h with
  | lift _ ih => exact ih
  | joinLeft => simp
  | joinRight => simp
  | unary => simp
  | group => simp
  | literal => simp

end Turnstile.Grammar
