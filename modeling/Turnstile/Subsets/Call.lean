import Turnstile.Subsets

/-! Calls on an enumeration of subsets: for the next subset, for the number of subsets, and for
the enumeration itself, so that it can be walked over. The first of them moves it on. -/
namespace Turnstile.Subsets

inductive Call
  | next
  | size
  | itself
  deriving DecidableEq

/-- What an enumeration gives: a subset, the news that none is left, a number or that it does not
fit into a word, or the enumeration. -/
inductive Answer (α : Type)
  | subset (items : List α)
  | exhausted
  | size (total : Nat)
  | tooLarge
  | itself
  deriving DecidableEq

variable {α : Type}

def call (s : Subsets α) : Call → Answer α × Subsets α
  | .next =>
    match s.next? with
    | some (subset, later) => (.subset subset, later)
    | none => (.exhausted, s)
  | .size =>
    match s.size? with
    | some total => (.size total, s)
    | none => (.tooLarge, s)
  | .itself => (.itself, s)

def after (s : Subsets α) (calls : List Call) : Subsets α :=
  calls.foldl (fun s call => (s.call call).2) s

end Turnstile.Subsets
