import Mathlib
import Turnstile.Proofs.Formula.Nesting

/-! The frontier of a chain. The loop that unfolds a chain keeps a list of formulas to visit; what it
has found, followed by the frontier of what it is still to visit, never changes, so it finds the
operands from left to right. There is one more of them than there are nodes in the chain, and they
tell chains of one connective apart up to the grouping. -/
namespace Turnstile

namespace Formula

/-- One formula becomes the other by moving the grouping inside the chain of a connective that it
is. The operands of the chain stay as they are. -/
inductive Reassociates (op : Connective) : Formula → Formula → Prop
  | refl (f : Formula) : Reassociates op f f
  | symm {f g : Formula} : Reassociates op f g → Reassociates op g f
  | trans {f g h : Formula} : Reassociates op f g → Reassociates op g h → Reassociates op f h
  | assoc (f g h : Formula) :
      Reassociates op (.binary op f (.binary op g h)) (.binary op (.binary op f g) h)
  | binary {f f' g g' : Formula} : Reassociates op f f' → Reassociates op g g' →
      Reassociates op (.binary op f g) (.binary op f' g')

/-- The number of nodes that join a chain and are reached from the root through such nodes only. -/
def joints (joins : Connective → Bool) : Formula → Nat
  | .binary op left right => if joins op then left.joints joins + right.joints joins + 1 else 0
  | _ => 0

variable {joins : Connective → Bool} {op : Connective} {f f' g left right : Formula}
  {fs rest : List Formula}

theorem rootJoins_binary : (Formula.binary op left right).rootJoins joins = joins op := rfl

theorem frontier_cons_of_joins (h : joins op = true) :
    frontier joins (.binary op left right :: rest) = frontier joins (left :: right :: rest) := by
  rw [frontier, if_pos h]

/-- The formulas to visit, as the loop takes them. -/
theorem frontier_induction {motive : List Formula → Prop} (joins : Connective → Bool)
    (nil : motive [])
    (node : ∀ op left right rest, joins op = true → motive (left :: right :: rest) →
      motive (.binary op left right :: rest))
    (operand : ∀ f rest, f.rootJoins joins = false → motive rest → motive (f :: rest))
    (pending : List Formula) : motive pending := by
  fun_induction frontier joins pending with
  | case1 => exact nil
  | case2 op left right rest h ih => exact node op left right rest h ih
  | case3 op left right rest h ih => exact operand _ rest (Bool.not_eq_true _ ▸ h) ih
  | case4 name rest ih => exact operand _ rest rfl ih
  | case5 op inner rest ih => exact operand _ rest rfl ih

/-- Unfolding by recursion. -/
theorem flatten_eq (joins : Connective → Bool) (f : Formula) : f.flatten joins =
    match f with
    | .binary op left right =>
      if joins op then left.flatten joins ++ right.flatten joins else [.binary op left right]
    | other => [other] := by
  cases f with
  | atom name => exact flatten_of_not_joins rfl
  | unary op operand => exact flatten_of_not_joins rfl
  | binary op left right =>
    cases h : joins op with
    | true =>
      simp only [h, if_true]
      exact flatten_binary joins op left right h
    | false =>
      simp only [h, Bool.false_eq_true, if_false]
      exact flatten_of_not_joins (rootJoins_binary.trans h)

/-- No operand of a chain is a node of it. -/
theorem rootJoins_of_mem_frontier (h : f ∈ frontier joins fs) : f.rootJoins joins = false := by
  induction fs using frontier_induction joins with
  | nil =>
    rw [frontier] at h
    cases h
  | node op left right rest hop ih =>
    rw [frontier_cons_of_joins hop] at h
    exact ih h
  | operand g rest hg ih =>
    rw [frontier_cons_of_not_joins hg] at h
    rcases List.mem_cons.mp h with rfl | h
    · exact hg
    · exact ih h

theorem length_flatten (joins : Connective → Bool) (f : Formula) :
    (f.flatten joins).length = f.joints joins + 1 := by
  induction f with
  | atom name =>
    rw [flatten_of_not_joins rfl]
    rfl
  | unary op operand =>
    rw [flatten_of_not_joins rfl]
    rfl
  | binary op left right ihl ihr =>
    cases h : joins op with
    | true =>
      rw [flatten_binary joins op left right h, List.length_append, ihl, ihr, joints, if_pos h]
      omega
    | false =>
      rw [flatten_of_not_joins (rootJoins_binary.trans h), joints, h]
      rfl

/-- A chain grouped to the left, its operands as they are. -/
def joinLeft (op : Connective) (first : Formula) (rest : List Formula) : Formula :=
  rest.foldl (.binary op) first

theorem Reassociates.joinLeft (h : Reassociates op f f') (rest : List Formula) :
    Reassociates op (joinLeft op f rest) (joinLeft op f' rest) := by
  induction rest generalizing f f' with
  | nil => exact h
  | cons g rest ih => exact ih (.binary h (.refl g))

theorem reassociates_joinLeft (op : Connective) (f g : Formula) (rest : List Formula) :
    Reassociates op (.binary op f (joinLeft op g rest)) (joinLeft op (.binary op f g) rest) := by
  induction rest generalizing g with
  | nil => exact .refl _
  | cons next rest ih => exact .trans (ih (.binary op g next)) (.joinLeft (.assoc f g next) rest)

/-- The grouping can be moved to the left in every chain. -/
theorem exists_reassociates_joinLeft (op : Connective) (f : Formula) :
    ∃ first rest, f.chain op = first :: rest ∧ Reassociates op f (joinLeft op first rest) := by
  have single {f : Formula} (h : f.root? ≠ some op) :
      ∃ first rest, f.chain op = first :: rest ∧ Reassociates op f (joinLeft op first rest) :=
    ⟨f, [], chain_of_root_ne h, .refl f⟩
  induction f with
  | atom name => exact single nofun
  | unary op' operand => exact single nofun
  | binary other left right ihl ihr =>
    by_cases h : other = op
    · subst h
      obtain ⟨first, rest, hleft, hfirst⟩ := ihl
      obtain ⟨second, more, hright, hsecond⟩ := ihr
      have hjoined : joinLeft other first (rest ++ second :: more) =
          joinLeft other (.binary other (joinLeft other first rest) second) more :=
        List.foldl_append
      refine ⟨first, rest ++ second :: more, ?_, ?_⟩
      · rw [chain_binary, hleft, hright, List.cons_append]
      · rw [hjoined]
        exact .trans (.binary hfirst hsecond) (reassociates_joinLeft ..)
    · exact single fun hroot => h (Option.some.inj hroot)

theorem Reassociates.chain_eq (h : Reassociates op f g) : f.chain op = g.chain op := by
  induction h with
  | refl => rfl
  | symm _ ih => exact ih.symm
  | trans _ _ ih ih' => exact ih.trans ih'
  | assoc f g h => simp only [chain_binary, List.append_assoc]
  | binary _ _ ihl ihr => rw [chain_binary, chain_binary, ihl, ihr]

theorem chain_eq_iff : f.chain op = g.chain op ↔ Reassociates op f g := by
  refine ⟨fun h => ?_, Reassociates.chain_eq⟩
  -- both come to the one formula that has these operands grouped to the left
  obtain ⟨first, rest, hf, hfirst⟩ := exists_reassociates_joinLeft op f
  obtain ⟨first', rest', hg, hfirst'⟩ := exists_reassociates_joinLeft op g
  obtain ⟨rfl, rfl⟩ := List.cons.inj (hf.symm.trans (h.trans hg))
  exact .trans hfirst (.symm hfirst')

end Formula

/-- The loop that unfolds a chain, between two rounds: the formulas to visit, the next one first,
and the operands found so far. -/
structure Unfolding where
  pending : List Formula
  found : List Formula

namespace Unfolding

open Formula

def start (f : Formula) : Unfolding := ⟨[f], []⟩

/-- A round takes the next formula: a node of the chain gives way to its two sides, and anything
else is an operand. -/
inductive Step (joins : Connective → Bool) : Unfolding → Unfolding → Prop
  | node {op : Connective} {left right : Formula} {rest found : List Formula}
      (h : joins op = true) :
      Step joins ⟨.binary op left right :: rest, found⟩ ⟨left :: right :: rest, found⟩
  | operand {f : Formula} {rest found : List Formula} (h : f.rootJoins joins = false) :
      Step joins ⟨f :: rest, found⟩ ⟨rest, found ++ [f]⟩

abbrev Reaches (joins : Connective → Bool) : Unfolding → Unfolding → Prop :=
  Relation.ReflTransGen (Step joins)

/-- The operands found, and behind them the frontier of what is to be visited. -/
def operands (joins : Connective → Bool) (s : Unfolding) : List Formula :=
  s.found ++ frontier joins s.pending

variable {joins : Connective → Bool} {s s' : Unfolding}

theorem Step.operands_eq (h : Step joins s s') : s'.operands joins = s.operands joins := by
  cases h with
  | node h => rw [operands, operands, frontier_cons_of_joins h]
  | operand h =>
    rw [operands, operands, frontier_cons_of_not_joins h, List.append_assoc, List.singleton_append]

theorem operands_eq_of_reaches (h : Reaches joins s s') :
    s'.operands joins = s.operands joins := by
  induction h with
  | refl => rfl
  | tail _ step ih => exact step.operands_eq.trans ih

theorem Step.totalSize_lt (h : Step joins s s') : totalSize s'.pending < totalSize s.pending := by
  cases h with
  | node =>
    simp only [totalSize, size]
    omega
  | @operand f =>
    have hpos := f.size_pos
    simp only [totalSize]
    omega

/-- The loop does not go on for ever. -/
theorem wellFounded_step (joins : Connective → Bool) :
    WellFounded fun s' s : Unfolding => Step joins s s' :=
  Subrelation.wf (fun h => h.totalSize_lt) (measure fun s : Unfolding => totalSize s.pending).wf

theorem Step.reaches_operands (step : Step joins s s')
    (h : Reaches joins s' ⟨[], s'.operands joins⟩) : Reaches joins s ⟨[], s.operands joins⟩ :=
  step.operands_eq ▸ .head step h

/-- The rounds lead to the end, and what is found then is what was to be found. -/
theorem reaches_operands (joins : Connective → Bool) (pending found : List Formula) :
    Reaches joins ⟨pending, found⟩ ⟨[], operands joins ⟨pending, found⟩⟩ := by
  induction pending using frontier_induction joins generalizing found with
  | nil => rw [operands, Formula.frontier, List.append_nil]
  | node op left right rest h ih => exact (Step.node h).reaches_operands (ih found)
  | operand f rest h ih => exact (Step.operand h).reaches_operands (ih (found ++ [f]))

end Unfolding

namespace Formula

open Unfolding

/-- Unfolding a chain ends with its operands from left to right, which recursion would give as well.
They are one more than the nodes of the chain, and none of them is such a node; and two formulas have
the same operands of one connective just if they differ in the grouping of its chain. -/
theorem flatten_frontier (joins : Connective → Bool) :
    (∀ f : Formula, f.flatten joins ≠ [] ∧ (∀ g ∈ f.flatten joins, g.rootJoins joins = false) ∧
      (f.flatten joins).length = f.joints joins + 1 ∧
      f.flatten joins = match f with
        | .binary op left right =>
          if joins op then left.flatten joins ++ right.flatten joins else [.binary op left right]
        | other => [other]) ∧
    ((WellFounded fun s' s : Unfolding => Step joins s s') ∧
      ∀ f s, Reaches joins (start f) s → Reaches joins s ⟨[], f.flatten joins⟩) ∧
    ∀ op f g, f.flatten (fun other => decide (other = op)) =
      g.flatten (fun other => decide (other = op)) ↔ Reassociates op f g := by
  refine ⟨fun f => ⟨?_, fun g => rootJoins_of_mem_frontier, length_flatten joins f,
    flatten_eq joins f⟩, ⟨wellFounded_step joins, fun f s h => ?_⟩, fun op f g => chain_eq_iff⟩
  · rw [← List.length_pos_iff, length_flatten]
    exact Nat.succ_pos _
  · have hoperands : s.operands joins = f.flatten joins := operands_eq_of_reaches h
    exact hoperands ▸ reaches_operands joins s.pending s.found

def leaning : Formula :=
  .binary .conjunction (.atom 'p')
    (.binary .conjunction (.binary .disjunction (.atom 'q') (.atom 'r')) (.atom 's'))

theorem flatten_frontier_leaning :
    leaning.flatten (fun _ => true) = [.atom 'p', .atom 'q', .atom 'r', .atom 's'] ∧
    (leaning.flatten fun _ => true).length = leaning.joints (fun _ => true) + 1 ∧
    (∀ g ∈ leaning.flatten fun _ => true, g.rootJoins (fun _ => true) = false) ∧
    Reaches (fun _ => true) ⟨[.atom 's'], [.atom 'p', .atom 'q', .atom 'r']⟩
      ⟨[], [.atom 'p', .atom 'q', .atom 'r', .atom 's']⟩ ∧
    Reassociates .conjunction leaning (.binary .conjunction
      (.binary .conjunction (.atom 'p') (.binary .disjunction (.atom 'q') (.atom 'r')))
      (.atom 's')) := by
  obtain ⟨hfrontier, ⟨-, hreaches⟩, hchain⟩ := flatten_frontier fun _ => true
  obtain ⟨-, hoperands, hlength, -⟩ := hfrontier leaning
  have hflatten : leaning.flatten (fun _ => true) = [.atom 'p', .atom 'q', .atom 'r', .atom 's'] := by
    cbv
  refine ⟨hflatten, hlength, hoperands, ?_, (hchain _ _ _).mp (by cbv)⟩
  rw [← hflatten]
  apply hreaches
  exact .head (.node rfl) <| .head (.operand rfl) <| .head (.node rfl) <| .head (.node rfl) <|
    .head (.operand rfl) <| .single (.operand rfl)

end Formula

end Turnstile
