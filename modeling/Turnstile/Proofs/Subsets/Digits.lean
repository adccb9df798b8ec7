import Mathlib
import Turnstile.Proofs.Subsets

/-! Subsets and numbers. Among items in some order a number selects those at the places of its
binary digits 1, and a selection weighs the sum of the powers of two at its places; without
repetitions of items neither loses anything. The enumeration goes through the numbers in order. -/
namespace Turnstile

section Distinct

variable {α : Type} [DecidableEq α]

/-- The distinct items stand in the order in which they occur first. -/
theorem pairwise_distinct (items : List α) :
    (distinct items).Pairwise fun x y => items.idxOf x < items.idxOf y := by
  induction items with
  | nil => exact .nil
  | cons head rest ih =>
    have hother {x : α} (hx : x ∈ (distinct rest).filter fun y => decide (y ≠ head)) :
        (head :: rest).idxOf x = rest.idxOf x + 1 := by
      have hne : x ≠ head := of_decide_eq_true (List.mem_filter.mp hx).2
      exact List.idxOf_cons_ne rest hne.symm
    rw [distinct, List.pairwise_cons]
    constructor
    · intro x hx
      rw [hother hx, List.idxOf_cons_self]
      exact Nat.succ_pos _
    · refine (ih.filter _).imp_of_mem fun hx hy hlt => ?_
      rw [hother hx, hother hy]
      exact Nat.succ_lt_succ hlt

theorem nodup_distinct (items : List α) : (distinct items).Nodup := by
  refine (pairwise_distinct items).imp fun hlt heq => ?_
  rw [heq] at hlt
  exact Nat.lt_irrefl _ hlt

theorem distinct_of_nodup {items : List α} (h : items.Nodup) : distinct items = items := by
  induction items with
  | nil => rfl
  | cons head rest ih =>
    obtain ⟨hhead, hrest⟩ := List.nodup_cons.mp h
    rw [distinct, ih hrest, List.filter_eq_self.mpr]
    intro x hx
    exact decide_eq_true fun heq => hhead (heq ▸ hx)

end Distinct

namespace Subsets

variable {α : Type} {items : List α} {number number' : Nat} {x : α}

/-- The items at the places where a number has the binary digit 1, the first place being that of
the least significant digit. -/
def subsetAt (items : List α) (number : Nat) : List α :=
  (items.zipIdx.filter fun item => number.testBit item.2).map Prod.fst

/-- The sum of the powers of two at the places of the items that pass a test. -/
def weight (items : List α) (test : α → Bool) : Nat :=
  ∑ i : Fin items.length, if test items[i] then 2 ^ i.val else 0

theorem mem_subsetAt : x ∈ subsetAt items number ↔
    ∃ i : Nat, items[i]? = some x ∧ number.testBit i = true := by
  simp [subsetAt, List.mem_zipIdx_iff_getElem?]

theorem mem_of_mem_subsetAt (h : x ∈ subsetAt items number) : x ∈ items := by
  obtain ⟨i, hi, -⟩ := mem_subsetAt.mp h
  exact List.mem_of_getElem? hi

theorem subsetAt_cons (x : α) (rest : List α) (number : Nat) :
    subsetAt (x :: rest) number =
      (if number.testBit 0 then [x] else []) ++ subsetAt rest (number / 2) := by
  have hplaces : ((x :: rest).zipIdx 0) =
      (x, 0) :: rest.zipIdx.map fun item => (item.1, item.2 + 1) := by
    rw [List.zipIdx_cons, List.zipIdx_succ]
  simp only [subsetAt, hplaces, List.filter_cons, List.filter_map, Function.comp_def,
    Nat.testBit_add_one]
  split <;> simp [Function.comp_def]

theorem chosen_flagsAt (items : List α) (number : Nat) :
    chosen (flagsAt items number) = subsetAt items number := by
  induction items generalizing number with
  | nil => rfl
  | cons x rest ih =>
    rw [subsetAt_cons, ← ih, flagsAt]
    cases hdigit : number.testBit 0 <;> simp [chosen]

theorem weight_eq_count (items : List α) (test : α → Bool) :
    weight items test = count (items.map fun x => (test x, x)) := by
  induction items with
  | nil => rfl
  | cons x rest ih =>
    have hrest : weight (x :: rest) test = (test x).toNat + 2 * weight rest test := by
      simp only [weight, List.length_cons, Fin.sum_univ_succ, Finset.mul_sum]
      congr 1
      · cases hx : test x <;> simp [hx]
      · refine Finset.sum_congr rfl fun i _ => ?_
        simp [pow_succ, Nat.mul_comm]
    rw [hrest, ih, List.map_cons, count]

theorem weight_lt (items : List α) (test : α → Bool) :
    weight items test < 2 ^ items.length := by
  have hlt := count_lt (items.map fun x => (test x, x))
  rwa [List.length_map, ← weight_eq_count] at hlt

/-- The number that a selection weighs selects it again. -/
theorem subsetAt_weight (items : List α) (test : α → Bool) :
    subsetAt items (weight items test) = items.filter test := by
  have hflags := flagsAt_count (items.map fun x => (test x, x))
  rw [map_snd_map] at hflags
  rw [← chosen_flagsAt, weight_eq_count, hflags, chosen_map]

theorem mem_subsetAt_iff (nodup : items.Nodup) {i : Nat} (hi : items[i]? = some x) :
    x ∈ subsetAt items number ↔ number.testBit i = true := by
  rw [mem_subsetAt]
  constructor
  · rintro ⟨j, hj, hdigit⟩
    have hlt := (List.getElem?_eq_some_iff.mp hi).1
    rwa [(List.getElem?_inj hlt nodup).mp (hi.trans hj.symm)]
  · exact fun hdigit => ⟨i, hi, hdigit⟩

/-- Numbers that select the same items are equal, as far as there are places. -/
theorem eq_of_mem_subsetAt_iff (nodup : items.Nodup) (hlt : number < 2 ^ items.length)
    (hlt' : number' < 2 ^ items.length)
    (same : ∀ x, x ∈ subsetAt items number ↔ x ∈ subsetAt items number') :
    number = number' := by
  apply Nat.eq_of_testBit_eq
  intro i
  by_cases hi : i < items.length
  · have hplace := List.getElem?_eq_getElem hi
    rw [Bool.eq_iff_iff, ← mem_subsetAt_iff nodup hplace, ← mem_subsetAt_iff nodup hplace]
    exact same items[i]
  · have hpow : 2 ^ items.length ≤ 2 ^ i := Nat.pow_le_pow_right (by decide) (by omega)
    rw [Nat.testBit_lt_two_pow (hlt.trans_le hpow), Nat.testBit_lt_two_pow (hlt'.trans_le hpow)]

@[simp] theorem subsetAt_zero (items : List α) : subsetAt items 0 = [] := by
  simp [subsetAt]

theorem subsetAt_last (items : List α) : subsetAt items (2 ^ items.length - 1) = items := by
  have hall : ∀ item ∈ items.zipIdx, (2 ^ items.length - 1).testBit item.2 = true := by
    intro item hitem
    have hlt := (List.getElem?_eq_some_iff.mp (List.mem_zipIdx_iff_getElem?.mp hitem)).1
    rw [Nat.testBit_two_pow_sub_one]
    exact decide_eq_true hlt
  rw [subsetAt, List.filter_eq_self.mpr hall, List.zipIdx_map_fst]

/-- Every set of items is selected by just one number, and nothing else is selected. -/
theorem subset_iff_existsUnique [DecidableEq α] (nodup : items.Nodup) (S : Finset α) :
    S ⊆ items.toFinset ↔
      ∃! number, number < 2 ^ items.length ∧ (subsetAt items number).toFinset = S := by
  constructor
  · intro hS
    refine ⟨weight items fun x => decide (x ∈ S), ⟨weight_lt items _, ?_⟩, ?_⟩
    · rw [subsetAt_weight]
      ext x
      simp only [List.mem_toFinset, List.mem_filter, decide_eq_true_eq]
      exact and_iff_right_of_imp fun hx => List.mem_toFinset.mp (hS hx)
    · rintro number ⟨hlt, rfl⟩
      apply eq_of_mem_subsetAt_iff nodup hlt (weight_lt items _)
      intro x
      simp only [subsetAt_weight, List.mem_filter, List.mem_toFinset, decide_eq_true_eq]
      exact (and_iff_right_of_imp mem_of_mem_subsetAt).symm
  · rintro ⟨number, ⟨-, rfl⟩, -⟩ x hx
    exact List.mem_toFinset.mpr (mem_of_mem_subsetAt (List.mem_toFinset.mp hx))

/-- What a number selects weighs that number. -/
theorem weight_subsetAt [DecidableEq α] (nodup : items.Nodup)
    (hlt : number < 2 ^ items.length) :
    weight items (fun x => (subsetAt items number).contains x) = number := by
  apply eq_of_mem_subsetAt_iff nodup (weight_lt items _) hlt
  intro x
  rw [subsetAt_weight, List.mem_filter, List.contains_iff_mem]
  exact and_iff_right_of_imp mem_of_mem_subsetAt

@[simp] theorem remaining_ofList [DecidableEq α] (items : List α) :
    (ofList items).remaining = 2 ^ (distinct items).length := by
  rw [remaining, count_ofList, total]
  simp [ofList]

/-- The enumeration selects by one number after the other. -/
theorem toList_ofList [DecidableEq α] (items : List α) :
    (ofList items).toList =
      (List.range (2 ^ (distinct items).length)).map (subsetAt (distinct items)) := by
  rw [toList_eq, count_ofList, remaining_ofList, map_snd_ofList, List.range_eq_range']
  simp only [chosen_flagsAt]

/-- However items are selected, that subset comes up. -/
theorem filter_mem_toList [DecidableEq α] (items : List α) (test : α → Bool) :
    (distinct items).filter test ∈ (ofList items).toList := by
  rw [toList_ofList, List.mem_map]
  exact ⟨weight (distinct items) test, List.mem_range.mpr (weight_lt _ test),
    subsetAt_weight _ test⟩

end Subsets

end Turnstile
