import Mathlib.Logic.Relation

/-! Tasks over a stack of results. Each takes some results off the stack and leaves one. Tasks are
supplied if every one of them will find what it takes; that stays so when a task is carried out, and
when a task that takes nothing is put off until its parts are done. -/
namespace Turnstile

/-- What is still to do, and the results so far, the last one on top. -/
structure StackState (τ ρ : Type) where
  tasks : List τ
  results : List ρ

variable {τ ρ : Type} {takes : τ → Nat} {height final : Nat} {task last : τ} {tasks rest : List τ}

/-- On a stack of some height every task finds the results that it takes, and so many results are
left in the end. -/
def Supplied (takes : τ → Nat) : (height : Nat) → List τ → (final : Nat) → Prop
  | height, [], final => height = final
  | height, task :: rest, final =>
    takes task ≤ height ∧ Supplied takes (height - takes task + 1) rest final

/-- Tasks that take nothing leave a result each. -/
theorem Supplied.append_left (zero : ∀ task ∈ tasks, takes task = 0)
    (h : Supplied takes (height + tasks.length) rest final) :
    Supplied takes height (tasks ++ rest) final := by
  induction tasks generalizing height with
  | nil => exact h
  | cons task tasks ih =>
    obtain ⟨hfirst, hrest⟩ := List.forall_mem_cons.mp zero
    refine ⟨hfirst ▸ Nat.zero_le height, ih hrest ?_⟩
    rw [hfirst, Nat.sub_zero, Nat.add_assoc, Nat.add_comm 1]
    exact h

/-- A task that takes nothing may be replaced by others that do not either, with one behind them
that takes all their results. -/
theorem Supplied.put_off (tasks : List τ) (h : Supplied takes height (task :: rest) final)
    (zero : takes task = 0) (zeros : ∀ task ∈ tasks, takes task = 0)
    (all : takes last = tasks.length) :
    Supplied takes height (tasks ++ last :: rest) final := by
  obtain ⟨-, hlater⟩ := h
  rw [zero, Nat.sub_zero] at hlater
  refine .append_left zeros ⟨all ▸ Nat.le_add_left _ _, ?_⟩
  rw [all, Nat.add_sub_cancel]
  exact hlater

namespace StackState

/-- The next task finds the results that it takes; if no task is left, there is one result. -/
structure Sound (takes : τ → Nat) (s : StackState τ ρ) : Prop where
  enough : ∀ task ∈ s.tasks.head?, takes task ≤ s.results.length
  single : s.tasks = [] → s.results.length = 1

/-- The tasks are supplied with what is on the stack, and leave one result. -/
def Balanced (takes : τ → Nat) (s : StackState τ ρ) : Prop :=
  Supplied takes s.results.length s.tasks 1

theorem Balanced.sound {s : StackState τ ρ} (h : s.Balanced takes) : s.Sound takes := by
  obtain ⟨tasks, results⟩ := s
  cases tasks with
  | nil => exact ⟨nofun, fun _ => h⟩
  | cons task rest => exact ⟨fun first hmem => Option.some.inj hmem ▸ h.1, nofun⟩

/-- If every step of a machine leaves the tasks balanced, the machine is sound wherever it comes to
from a single task that takes nothing. -/
theorem sound_of_reaches {Step : StackState τ ρ → StackState τ ρ → Prop}
    (keeps : ∀ s s', Step s s' → s.Balanced takes → s'.Balanced takes) (zero : takes task = 0)
    {s : StackState τ ρ} (h : Relation.ReflTransGen Step ⟨[task], []⟩ s) : s.Sound takes := by
  apply Balanced.sound
  induction h with
  | refl =>
    refine ⟨zero ▸ Nat.le_refl 0, ?_⟩
    rw [zero]
    rfl
  | tail _ step ih => exact keeps _ _ step ih

end StackState

end Turnstile
