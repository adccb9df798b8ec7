import Turnstile.Formula.Basic

/-! The variables of a formula: each name that occurs in it, once, in code point order. They are
collected with a stack of formulas still to visit; `collectNames_eq` unfolds the stack into a
recursion on the formula, and `mem_names` says that the list holds just the names that occur. -/
namespace Turnstile

/-- Puts a name into an ascending list unless it is there already. -/
def insertName (name : Char) : List Char → List Char
  | [] => [name]
  | head :: tail =>
    if name < head then name :: head :: tail
    else if name = head then head :: tail
    else head :: insertName name tail

@[simp] theorem mem_insertName (x name : Char) (names : List Char) :
    x ∈ insertName name names ↔ x = name ∨ x ∈ names := by
  induction names with
  | nil => simp [insertName]
  | cons head tail ih =>
    simp only [insertName]
    split
    · simp
    · split
      · next h => subst h; simp
      · simp only [List.mem_cons, ih]
        constructor <;> rintro (h | h | h) <;> simp [h]

def insertNames (names found : List Char) : List Char := names.foldr insertName found

@[simp] theorem mem_insertNames (x : Char) (names found : List Char) :
    x ∈ insertNames names found ↔ x ∈ names ∨ x ∈ found := by
  induction names with
  | nil => simp [insertNames]
  | cons name rest ih =>
    rw [insertNames] at ih ⊢
    simp [ih, or_assoc]

namespace Formula

/-- A name stands at some atom of the formula. -/
@[simp] def Mentions (name : Char) : Formula → Prop
  | .atom other => name = other
  | .unary _ operand => operand.Mentions name
  | .binary _ left right => left.Mentions name ∨ right.Mentions name

/-- Adds the names of the pending formulas to an ascending list. The formula on top goes
first, and a connective leaves its right side on top of its left. -/
def collectNames : List Formula → List Char → List Char
  | [], found => found
  | .atom name :: rest, found => collectNames rest (insertName name found)
  | .unary _ operand :: rest, found => collectNames (operand :: rest) found
  | .binary _ left right :: rest, found => collectNames (right :: left :: rest) found
termination_by pending => totalSize pending
decreasing_by all_goals simp only [totalSize, size]; omega

def names (f : Formula) : List Char := collectNames [f] []

def namesOnto : Formula → List Char → List Char
  | .atom name, found => insertName name found
  | .unary _ operand, found => operand.namesOnto found
  | .binary _ left right, found => left.namesOnto (right.namesOnto found)

/-- The loop leaves on the list what the recursion gives, one pending formula after another. -/
theorem collectNames_eq (pending : List Formula) (found : List Char) :
    collectNames pending found = pending.foldl (fun found f => f.namesOnto found) found := by
  fun_induction collectNames pending found with
  | case1 found => rfl
  | case2 name rest found ih => exact ih
  | case3 op operand rest found ih => exact ih
  | case4 op left right rest found ih => exact ih

theorem names_eq_namesOnto (f : Formula) : f.names = f.namesOnto [] := collectNames_eq [f] []

@[simp] theorem mem_namesOnto (x : Char) (f : Formula) (found : List Char) :
    x ∈ f.namesOnto found ↔ f.Mentions x ∨ x ∈ found := by
  induction f generalizing found with
  | atom name => simp [namesOnto]
  | unary op operand ih => simp [namesOnto, ih]
  | binary op left right ihl ihr => simp [namesOnto, ihl, ihr, or_assoc]

@[simp] theorem mem_names (x : Char) (f : Formula) : x ∈ f.names ↔ f.Mentions x := by
  simp [names_eq_namesOnto]

end Formula

end Turnstile
