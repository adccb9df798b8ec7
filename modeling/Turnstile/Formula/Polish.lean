import Turnstile.Formula.Basic

/-! Polish order: a formula as the list of its symbols, every operator before its operands.
`ofPolish?_toPolish` says that the list determines the formula; it is read from its right end,
where each symbol finds its operands ready on a stack. -/
namespace Turnstile

/-- A node of a formula without its operands. -/
inductive Symbol
  | atom (name : Char)
  | unary (op : Unary)
  | binary (op : Connective)
  deriving DecidableEq

def Symbol.word : Symbol → String
  | .atom name => String.singleton name
  | .unary .negation => "not"
  | .unary (.modal .necessity) => "nec"
  | .unary (.modal .possibility) => "pos"
  | .binary .conjunction => "and"
  | .binary .disjunction => "or"
  | .binary .conditional => "cond"
  | .binary .biconditional => "iff"

/-- The symbol that a word stands for; a word that is no operator's names a variable. -/
def Symbol.ofWord (word : String) : Except BadName Symbol :=
  match word with
  | "not" => .ok (.unary .negation)
  | "nec" => .ok (.unary (.modal .necessity))
  | "pos" => .ok (.unary (.modal .possibility))
  | "and" => .ok (.binary .conjunction)
  | "or" => .ok (.binary .disjunction)
  | "cond" => .ok (.binary .conditional)
  | "iff" => .ok (.binary .biconditional)
  | name => (variableNamed name).map .atom

/-- Replaces the operands of a symbol on top of a stack by the formula it makes of them. -/
def Symbol.build? : Symbol → List Formula → Option (List Formula)
  | .atom name, stack => some (.atom name :: stack)
  | .unary op, operand :: stack => some (.unary op operand :: stack)
  | .binary op, left :: right :: stack => some (.binary op left right :: stack)
  | _, _ => none

inductive PolishError
  | badName (error : BadName)
  | malformed

namespace Formula

def polishOnto : Formula → List Symbol → List Symbol
  | .atom name, rest => .atom name :: rest
  | .unary op operand, rest => .unary op :: operand.polishOnto rest
  | .binary op left right, rest => .binary op :: left.polishOnto (right.polishOnto rest)

def toPolish (f : Formula) : List Symbol := f.polishOnto []

theorem polishOnto_eq_append (f : Formula) (rest : List Symbol) :
    f.polishOnto rest = f.toPolish ++ rest := by
  induction f generalizing rest with
  | atom name => rfl
  | unary op operand ih =>
    simp only [toPolish, polishOnto]
    rw [ih rest, ih [], List.append_nil, List.cons_append]
  | binary op left right ihl ihr =>
    simp only [toPolish, polishOnto]
    rw [ihl (right.polishOnto rest), ihl (right.polishOnto []), ihr rest, ihr [],
      List.append_nil, List.cons_append, List.append_assoc]

@[simp] theorem toPolish_unary (op : Unary) (operand : Formula) :
    (Formula.unary op operand).toPolish = .unary op :: operand.toPolish := rfl

@[simp] theorem toPolish_binary (op : Connective) (left right : Formula) :
    (Formula.binary op left right).toPolish =
      .binary op :: (left.toPolish ++ right.toPolish) := by
  rw [toPolish, polishOnto, polishOnto_eq_append left]
  rfl

/-- The stack that remains after reading symbols from the right. -/
def stackOfPolish? (symbols : List Symbol) : Option (List Formula) :=
  symbols.foldr (fun symbol stack => stack.bind symbol.build?) (some [])

@[simp] theorem stackOfPolish?_cons (symbol : Symbol) (rest : List Symbol) :
    stackOfPolish? (symbol :: rest) = (stackOfPolish? rest).bind symbol.build? := rfl

def ofPolish? (symbols : List Symbol) : Option Formula :=
  match stackOfPolish? symbols with
  | some [f] => some f
  | _ => none

theorem stackOfPolish?_polishOnto (f : Formula) (rest : List Symbol) (stack : List Formula)
    (h : stackOfPolish? rest = some stack) :
    stackOfPolish? (f.polishOnto rest) = some (f :: stack) := by
  induction f generalizing rest stack with
  | atom name => simp [polishOnto, h, Symbol.build?]
  | unary op operand ih => simp [polishOnto, ih rest stack h, Symbol.build?]
  | binary op left right ihl ihr =>
    have hleft := ihl _ _ (ihr rest stack h)
    simp [polishOnto, hleft, Symbol.build?]

theorem ofPolish?_toPolish (f : Formula) : ofPolish? f.toPolish = some f := by
  simp only [ofPolish?, toPolish, stackOfPolish?_polishOnto f [] [] rfl]

/-- The symbols that words stand for, read from the right; so the rightmost word that is no
symbol is the one reported. -/
def symbolsOfWords (words : List String) : Except BadName (List Symbol) :=
  words.foldr
    (fun word rest => do
      let symbols ← rest
      let symbol ← Symbol.ofWord word
      return symbol :: symbols)
    (.ok [])

def ofWords (words : List String) : Except PolishError Formula :=
  match symbolsOfWords words with
  | .error e => .error (.badName e)
  | .ok symbols =>
    match ofPolish? symbols with
    | some f => .ok f
    | none => .error .malformed

def toWords (f : Formula) : List String := f.toPolish.map Symbol.word

end Formula

end Turnstile
