import Turnstile.Decision
import Turnstile.Printing.Render

/-! Truth tables: the value of a formula under every assignment of its variables, and the
verdict that the values give. A table can also be made by hand and edited; its verdicts are
always those of its present rows. -/
namespace Turnstile

structure TableRow where
  assignment : List (String × Bool)
  value : Bool
  deriving DecidableEq

structure TruthTable where
  expression : String
  names : List String
  rows : List TableRow
  deriving DecidableEq

inductive TableEdit
  | addRow (row : TableRow)
  | dropLastRow
  | setNames (names : List String)

/-- What the rows of a table say of its expression; a table without rows says nothing. -/
inductive Verdict
  | empty
  | tautology
  | contradiction
  | contingent
  deriving DecidableEq

def Verdict.word : Verdict → String
  | .empty => "empty"
  | .tautology => "tautology"
  | .contradiction => "contradiction"
  | .contingent => "contingent"

structure MissingVariable where
  name : String
  deriving DecidableEq

def MissingVariable.message (e : MissingVariable) : String := Text.quote e.name

def truthSign (value : Bool) : String := if value then "T" else "F"

def TableRow.cells (row : TableRow) : List String → Except MissingVariable (List String)
  | [] => .ok []
  | name :: rest =>
    match row.assignment.lookup name with
    | none => .error ⟨name⟩
    | some value => (row.cells rest).map (truthSign value :: ·)

/-- A heading and a value side by side, or the value alone if the heading is empty. -/
def besideHeading (heading value : String) : String :=
  if heading.isEmpty then value else heading ++ " | " ++ value

namespace TruthTable

def isTautology (t : TruthTable) : Bool := !t.rows.isEmpty && t.rows.all (·.value)

def isSatisfiable (t : TruthTable) : Bool := t.rows.any (·.value)

def isContradiction (t : TruthTable) : Bool := !t.rows.isEmpty && !t.isSatisfiable

def counterexample (t : TruthTable) : Option (List (String × Bool)) :=
  (t.rows.find? fun row => !row.value).map (·.assignment)

def verdict (t : TruthTable) : Verdict :=
  if t.rows.isEmpty then .empty
  else if t.isTautology then .tautology
  else if t.isContradiction then .contradiction
  else .contingent

def rowLine (t : TruthTable) (row : TableRow) : Except MissingVariable String :=
  (row.cells t.names).map fun cells =>
    besideHeading (" ".intercalate cells) (truthSign row.value)

/-- The table as text: a heading, a line for each row, and the verdict. -/
def summary (t : TruthTable) : Except MissingVariable String :=
  (t.rows.mapM t.rowLine).map fun lines =>
    "\n".intercalate
      (besideHeading (" ".intercalate t.names) t.expression ::
        lines ++ ["Result: " ++ t.verdict.word])

/-- A table without rows, to be filled by hand. -/
def blank (expression : String) (names : List String) : TruthTable :=
  ⟨expression, names, []⟩

def edit (t : TruthTable) : TableEdit → TruthTable
  | .addRow row => ⟨t.expression, t.names, t.rows ++ [row]⟩
  | .dropLastRow => ⟨t.expression, t.names, t.rows.dropLast⟩
  | .setNames names => ⟨t.expression, names, t.rows⟩

def rowOf (names : List Char) (trues : List Char) (value : Bool) : TableRow :=
  ⟨names.map fun name => (String.singleton name, trues.contains name), value⟩

/-- The table of a formula, one row for each assignment in the order of enumeration. -/
def ofFormula (f : Formula) : Except EvaluationError TruthTable :=
  f.evaluateAll.map fun values =>
    ⟨f.render .unicode, f.names.map String.singleton,
      values.map fun entry => rowOf f.names entry.1 entry.2⟩

end TruthTable

end Turnstile
