import Turnstile.Subsets

/-! Enumeration of subsets. The flags are the digits of the count, so counting on from a state
meets every later choice of flags once; a search over the subsets is a search of that list. -/
namespace Turnstile

@[simp] theorem mem_distinct {α : Type} [DecidableEq α] {x : α} {items : List α} :
    x ∈ distinct items ↔ x ∈ items := by
  induction items with
  | nil => rfl
  | cons head rest ih =>
    simp only [distinct, List.mem_cons, List.mem_filter, decide_eq_true_eq, ih]
    by_cases hx : x = head
    · simp [hx]
    · simp [hx]

namespace Subsets

variable {α ε : Type} {s later : Subsets α} {subset : List α}

def flagsAt : List α → Nat → List (Bool × α)
  | [], _ => []
  | x :: rest, n => (n.testBit 0, x) :: flagsAt rest (n / 2)

theorem flagsAt_count (flags : List (Bool × α)) :
    flagsAt (flags.map Prod.snd) (count flags) = flags := by
  induction flags with
  | nil => rfl
  | cons flag rest ih =>
    obtain ⟨chosen, x⟩ := flag
    have hbound := Bool.toNat_le chosen
    have hhalf : (chosen.toNat + 2 * count rest) / 2 = count rest := by omega
    have hodd : (chosen.toNat + 2 * count rest).testBit 0 = chosen := by
      cases chosen <;> simp [Nat.testBit_zero]
    simp only [List.map_cons, flagsAt, count, hhalf, hodd, ih]

@[simp] theorem map_snd_increment (flags : List (Bool × α)) :
    (increment flags).1.map Prod.snd = flags.map Prod.snd := by
  fun_induction increment flags with
  | case1 => rfl
  | case2 x rest => rfl
  | case3 x rest ih => simp [ih]

/-- One step produces the chosen items, keeps the items, and either counts on or was the last. -/
theorem next?_eq_some (h : s.next? = some (subset, later)) :
    subset = chosen s.flags ∧ later.flags.map Prod.snd = s.flags.map Prod.snd ∧
      s.remaining = later.remaining + 1 ∧
      (later.remaining = 0 ∨ count later.flags = count s.flags + 1) := by
  have hremaining := remaining_of_next? h
  have hsum := count_increment s.flags
  unfold next? at h
  split at h
  · cases h
  · cases h
    refine ⟨rfl, map_snd_increment _, hremaining, ?_⟩
    cases hcarry : (increment s.flags).2 with
    | false => exact .inr (by simpa [hcarry] using hsum)
    | true => exact .inl rfl

theorem remaining_of_next?_eq_none (h : s.next? = none) : s.remaining = 0 := by
  unfold next? at h
  split at h
  · next hfinished => rw [remaining, if_pos hfinished]
  · cases h

theorem toList_of_next? (h : s.next? = some (subset, later)) :
    s.toList = subset :: later.toList := by
  rw [toList]
  split
  · next hnone => cases hnone.symm.trans h
  · next other rest hsome =>
    cases h.symm.trans hsome
    rfl

/-- The subsets still to come are those of the numbers from the present count on. -/
theorem toList_eq (s : Subsets α) :
    s.toList = (List.range' (count s.flags) s.remaining).map fun n =>
      chosen (flagsAt (s.flags.map Prod.snd) n) := by
  fun_induction toList s with
  | case1 s h => rw [remaining_of_next?_eq_none h]; rfl
  | case2 s subset later h ih =>
    obtain ⟨rfl, hitems, hremaining, hlater⟩ := next?_eq_some h
    rw [hremaining, List.range'_succ, List.map_cons, flagsAt_count, ih, hitems]
    rcases hlater with hlast | hcount
    · rw [hlast]
      rfl
    · rw [hcount]

theorem chosen_map (p : α → Bool) (items : List α) :
    chosen (items.map fun x => (p x, x)) = items.filter p := by
  induction items with
  | nil => rfl
  | cons x rest ih =>
    rw [chosen] at ih
    cases hx : p x <;> simp [chosen, hx, ih]

theorem map_snd_map (p : α → Bool) (items : List α) :
    (items.map fun x => (p x, x)).map Prod.snd = items := by
  simp [Function.comp_def]

@[simp] theorem count_ofList [DecidableEq α] (items : List α) : count (ofList items).flags = 0 := by
  simp only [ofList]
  induction distinct items with
  | nil => rfl
  | cons x rest ih => simp only [List.map_cons, count, ih, Bool.toNat_false]

@[simp] theorem map_snd_ofList [DecidableEq α] (items : List α) :
    (ofList items).flags.map Prod.snd = distinct items := map_snd_map _ _

/-- A search with a test that never fails searches the list. -/
theorem find?_of_ok {test : List α → Except ε Bool} {p : List α → Bool}
    (h : ∀ subset, test subset = .ok (p subset)) :
    s.find? test = .ok (s.toList.find? p) := by
  fun_induction find? test s with
  | case1 s hnext =>
    have hdone := remaining_of_next?_eq_none hnext
    rw [toList_eq, hdone]
    rfl
  | case2 s subset later hnext e htest => cases (h subset).symm.trans htest
  | case3 s subset later hnext htest =>
    have hpass : p subset = true := Except.ok.inj ((h subset).symm.trans htest)
    rw [toList_of_next? hnext, List.find?_cons_of_pos hpass]
  | case4 s subset later hnext htest ih =>
    have hfail : p subset = false := Except.ok.inj ((h subset).symm.trans htest)
    rw [toList_of_next? hnext, List.find?_cons_of_neg (by simp [hfail]), ih]

theorem find?_of_error {test : List α → Except ε Bool} {e : ε} (hopen : s.finished = false)
    (h : ∀ subset, test subset = .error e) : s.find? test = .error e := by
  fun_induction find? test s with
  | case1 s hnext =>
    have hlt := count_lt s.flags
    have hdone := remaining_of_next?_eq_none hnext
    simp only [remaining, total, hopen, Bool.false_eq_true, if_false] at hdone
    omega
  | case2 s subset later hnext e' htest =>
    cases htest.symm.trans (h subset)
    rfl
  | case3 s subset later hnext htest => cases (h subset).symm.trans htest
  | case4 s subset later hnext htest ih => cases (h subset).symm.trans htest

end Subsets

end Turnstile
