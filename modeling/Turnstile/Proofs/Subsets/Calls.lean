import Mathlib
import Turnstile.Proofs.Subsets.Digits
import Turnstile.Subsets.Call

/-! Enumeration by calls. The flags of an enumeration are the digits of the number of subsets it
was asked for, until none is left; no other call changes it. So what a call gives depends on the
items and on how often the next subset was asked for before, and on nothing else. -/
namespace Turnstile

namespace Subsets

variable {α : Type} {s later : Subsets α} {subset items : List α} {asked : Nat}

/-- The enumeration of some items after the next subset was asked for so many times. -/
structure Asked (items : List α) (asked : Nat) (s : Subsets α) : Prop where
  kept : s.flags.map Prod.snd = items
  remaining : s.remaining = 2 ^ items.length - asked
  count : asked < 2 ^ items.length → count s.flags = asked

theorem asked_ofList [DecidableEq α] (items : List α) :
    Asked (distinct items) 0 (ofList items) where
  kept := map_snd_ofList items
  remaining := remaining_ofList items
  count _ := count_ofList items

theorem Asked.total (h : Asked items asked s) : s.total = 2 ^ items.length := by
  rw [Subsets.total, ← h.kept, List.length_map]
  rfl

theorem Asked.size?_eq (h : Asked items asked s) :
    s.size? = if items.length < 63 then some (2 ^ items.length) else none := by
  have hword : 2 ^ items.length < 0x8000000000000000 ↔ items.length < 63 :=
    Nat.pow_lt_pow_iff_right (m := 63) (by decide)
  simp only [size?, h.total, hword]

/-- As long as subsets are left, the next one is that of the number of those before it. -/
theorem Asked.next?_of_lt (h : Asked items asked s) (left : asked < 2 ^ items.length) :
    ∃ later, s.next? = some (subsetAt items asked, later) ∧ Asked items (asked + 1) later := by
  cases hnext : s.next? with
  | none =>
    have hremaining := (remaining_of_next?_eq_none hnext).symm.trans h.remaining
    omega
  | some result =>
    obtain ⟨subset, later⟩ := result
    obtain ⟨hsubset, hitems, hremaining, hlater⟩ := next?_eq_some hnext
    rw [h.remaining] at hremaining
    refine ⟨later, ?_, ⟨hitems.trans h.kept, by omega, fun hleft => ?_⟩⟩
    · rw [hsubset, ← chosen_flagsAt, ← h.count left, ← h.kept, flagsAt_count]
    · rcases hlater with hlast | hcount
      · omega
      · rw [hcount, h.count left]

theorem Asked.next?_of_le (h : Asked items asked s) (none_left : 2 ^ items.length ≤ asked) :
    s.next? = none := by
  cases hnext : s.next? with
  | none => rfl
  | some result =>
    obtain ⟨-, -, hremaining, -⟩ := next?_eq_some hnext
    rw [h.remaining] at hremaining
    omega

/-- Asking once more changes nothing when none is left. -/
theorem Asked.exhausted (h : Asked items asked s) (none_left : 2 ^ items.length ≤ asked) :
    Asked items (asked + 1) s where
  kept := h.kept
  remaining := by
    rw [h.remaining]
    omega
  count hlt := by omega

def answerAt (items : List α) (asked : Nat) : Call → Answer α
  | .next =>
    if asked < 2 ^ items.length then .subset (subsetAt items asked) else .exhausted
  | .size => if items.length < 63 then .size (2 ^ items.length) else .tooLarge
  | .itself => .itself

/-- A call is answered by the number of subsets asked for, and is counted if it asks for one. -/
theorem Asked.call (h : Asked items asked s) (c : Call) :
    (s.call c).1 = answerAt items asked c ∧
      Asked items (asked + [c].count .next) (s.call c).2 := by
  cases c with
  | next =>
    by_cases hleft : asked < 2 ^ items.length
    · obtain ⟨later, hnext, hlater⟩ := h.next?_of_lt hleft
      have hcall : s.call .next = (.subset (subsetAt items asked), later) := by
        simp only [Subsets.call, hnext]
      rw [hcall, answerAt, if_pos hleft]
      exact ⟨rfl, hlater⟩
    · have hcall : s.call .next = (.exhausted, s) := by
        simp only [Subsets.call, h.next?_of_le (Nat.le_of_not_lt hleft)]
      rw [hcall, answerAt, if_neg hleft]
      exact ⟨rfl, h.exhausted (Nat.le_of_not_lt hleft)⟩
  | size =>
    by_cases hfits : items.length < 63
    · have hcall : s.call .size = (.size (2 ^ items.length), s) := by
        simp only [Subsets.call, h.size?_eq, if_pos hfits]
      rw [hcall, answerAt, if_pos hfits]
      exact ⟨rfl, h⟩
    · have hcall : s.call .size = (.tooLarge, s) := by
        simp only [Subsets.call, h.size?_eq, if_neg hfits]
      rw [hcall, answerAt, if_neg hfits]
      exact ⟨rfl, h⟩
  | itself => exact ⟨rfl, h⟩

theorem Asked.after (h : Asked items asked s) (calls : List Call) :
    Asked items (asked + calls.count .next) (s.after calls) := by
  induction calls generalizing s asked with
  | nil => exact h
  | cons c rest ih =>
    have hrest := ih (h.call c).2
    rw [Nat.add_assoc, ← List.count_append] at hrest
    exact hrest

/-- Behind any calls, an enumeration has the size that it had before them, and gives the subset of
the number that counts how often the next one was asked for, or none if the numbers of so many
digits are used up. So every set of the items comes up once, the empty one first and the full one
last. -/
theorem call_after [DecidableEq α] (items : List α) :
    ((∀ x, x ∈ distinct items ↔ x ∈ items) ∧
      (distinct items).Pairwise fun x y => items.idxOf x < items.idxOf y) ∧
    (∀ calls : List Call, ((ofList items).after calls).total = 2 ^ (distinct items).length ∧
      ∀ c, (((ofList items).after calls).call c).1 =
        answerAt (distinct items) (calls.count .next) c) ∧
    (∀ S : Finset α, S ⊆ items.toFinset ↔ ∃! number, number < 2 ^ (distinct items).length ∧
      (subsetAt (distinct items) number).toFinset = S) ∧
    subsetAt (distinct items) 0 = [] ∧
    subsetAt (distinct items) (2 ^ (distinct items).length - 1) = distinct items := by
  refine ⟨⟨fun _ => mem_distinct, pairwise_distinct items⟩, fun calls => ?_, fun S => ?_,
    subsetAt_zero _, subsetAt_last _⟩
  · have hasked := (asked_ofList items).after calls
    rw [Nat.zero_add] at hasked
    exact ⟨hasked.total, fun c => (hasked.call c).1⟩
  · have hitems : items.toFinset = (distinct items).toFinset := by
      ext x
      simp only [List.mem_toFinset, mem_distinct]
    rw [hitems]
    exact subset_iff_existsUnique (nodup_distinct items) S

example : (((ofList ['p', 'q', 'p']).after [.next, .size, .next, .itself]).call .next).1 =
    .subset ['q'] := by cbv

end Subsets

end Turnstile
