/-! The subsets of a finite list of items, produced one at a time by counting in binary: the
flags of the chosen items are the digits of the count, the first item's the least significant.
`next?` gives the subset of the present count and moves on; after the full set nothing is
left. -/
namespace Turnstile

/-- The items of a list without repetitions, each where it occurs first. -/
def distinct {α : Type} [DecidableEq α] : List α → List α
  | [] => []
  | x :: rest => x :: (distinct rest).filter fun y => decide (y ≠ x)

/-- A flag for every item, and whether the count has run off their end. -/
structure Subsets (α : Type) where
  flags : List (Bool × α)
  finished : Bool

namespace Subsets

variable {α : Type}

/-- The number whose binary digits are the flags. -/
def count : List (Bool × α) → Nat
  | [] => 0
  | (chosen, _) :: rest => chosen.toNat + 2 * count rest

/-- Adds one to the count: clears the leading run of set flags and sets the next one. The second
part says that there was none to set. -/
def increment : List (Bool × α) → List (Bool × α) × Bool
  | [] => ([], true)
  | (false, x) :: rest => ((true, x) :: rest, false)
  | (true, x) :: rest => ((false, x) :: (increment rest).1, (increment rest).2)

def chosen (flags : List (Bool × α)) : List α :=
  flags.filterMap fun flag => if flag.1 then some flag.2 else none

def ofList [DecidableEq α] (items : List α) : Subsets α :=
  ⟨(distinct items).map fun x => (false, x), false⟩

/-- The number of subsets, those already produced included. -/
def total (s : Subsets α) : Nat := Nat.pow 2 s.flags.length

/-- The number of subsets, as long as it fits into a signed word of 64 bits. -/
def size? (s : Subsets α) : Option Nat :=
  if s.total < 0x8000000000000000 then some s.total else none

def next? (s : Subsets α) : Option (List α × Subsets α) :=
  if s.finished then none
  else some (chosen s.flags, ⟨(increment s.flags).1, (increment s.flags).2⟩)

def remaining (s : Subsets α) : Nat := if s.finished then 0 else s.total - count s.flags

theorem count_lt (flags : List (Bool × α)) : count flags < Nat.pow 2 flags.length := by
  induction flags with
  | nil => exact Nat.one_pos
  | cons flag rest ih =>
    obtain ⟨chosen, x⟩ := flag
    have h := Bool.toNat_le chosen
    have double : Nat.pow 2 (rest.length + 1) = Nat.pow 2 rest.length * 2 := rfl
    simp only [count, List.length_cons]
    omega

@[simp] theorem length_increment (flags : List (Bool × α)) :
    (increment flags).1.length = flags.length := by
  fun_induction increment flags with
  | case1 => rfl
  | case2 x rest => rfl
  | case3 x rest ih => simp [ih]

/-- Addition of one with its carry, which weighs as much as a place behind the last. -/
theorem count_increment (flags : List (Bool × α)) :
    count (increment flags).1 + (increment flags).2.toNat * Nat.pow 2 flags.length =
      count flags + 1 := by
  fun_induction increment flags with
  | case1 => rfl
  | case2 x rest => simp [count]; omega
  | case3 x rest ih =>
    have double : Nat.pow 2 (rest.length + 1) = Nat.pow 2 rest.length * 2 := rfl
    simp only [count, List.length_cons, double, Bool.toNat_true, Bool.toNat_false]
    rw [← Nat.mul_assoc]
    omega

/-- Every step uses one subset up. -/
theorem remaining_of_next? {s s' : Subsets α} {subset : List α}
    (h : s.next? = some (subset, s')) : s.remaining = s'.remaining + 1 := by
  have hlt := count_lt s.flags
  have hsum := count_increment s.flags
  unfold next? at h
  split at h
  · cases h
  · next hopen =>
    cases h
    have hbound := count_lt (increment s.flags).1
    rw [length_increment] at hbound
    simp only [remaining, total, hopen, length_increment, Bool.false_eq_true, if_false]
    cases hcarry : (increment s.flags).2 with
    | false =>
      rw [hcarry, Bool.toNat_false, Nat.zero_mul] at hsum
      simp only [Bool.false_eq_true, if_false]
      omega
    | true =>
      rw [hcarry, Bool.toNat_true, Nat.one_mul] at hsum
      simp only [if_true]
      omega

theorem remaining_next? (s s' : Subsets α) (subset : List α)
    (h : s.next? = some (subset, s')) : s'.remaining < s.remaining := by
  rw [remaining_of_next? h]
  exact Nat.lt_succ_self _

def toList (s : Subsets α) : List (List α) :=
  match _h : s.next? with
  | none => []
  | some (subset, later) => subset :: later.toList
termination_by s.remaining
decreasing_by exact remaining_next? s later subset _h

/-- The first subset still to come that passes a test, none if all fail it. The test of a
subset is made only after those before it have failed. -/
def find? {ε : Type} (test : List α → Except ε Bool) (s : Subsets α) :
    Except ε (Option (List α)) :=
  match _h : s.next? with
  | none => .ok none
  | some (subset, later) =>
    match test subset with
    | .error e => .error e
    | .ok true => .ok (some subset)
    | .ok false => later.find? test
termination_by s.remaining
decreasing_by exact remaining_next? s later subset _h

end Subsets

end Turnstile
