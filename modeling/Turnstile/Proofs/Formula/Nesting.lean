import Turnstile.Formula.Chain
import Turnstile.Formula.Regrouping

/-! Left-nested formulas. Grouping to the left joins the operands of a chain one by one, in the
order in which the unfolding of the chain lists them; a formula is left as it is just if no
chained connective has a right operand of its own. -/
namespace Turnstile.Formula

variable {op : Connective} {f left first acc acc' : Formula} {rest : List Formula}

@[simp] def root? : Formula → Option Connective
  | .binary op _ _ => some op
  | _ => none

def rootJoins (joins : Connective → Bool) (f : Formula) : Bool := f.root?.any joins

theorem frontier_cons_of_not_joins {joins : Connective → Bool} (h : f.rootJoins joins = false)
    (rest : List Formula) : frontier joins (f :: rest) = f :: frontier joins rest := by
  cases f with
  | atom name => rw [frontier]
  | unary op operand => rw [frontier]
  | binary op left right => rw [frontier, if_neg (Bool.not_eq_true _ ▸ h)]

theorem flatten_of_not_joins {joins : Connective → Bool} (h : f.rootJoins joins = false) :
    f.flatten joins = [f] := by
  rw [flatten, frontier_cons_of_not_joins h, frontier]

def chain (op : Connective) (f : Formula) : List Formula :=
  f.flatten fun other => decide (other = op)

theorem chain_of_root_ne (h : f.root? ≠ some op) : f.chain op = [f] := by
  apply flatten_of_not_joins
  rw [rootJoins, Option.any_eq_false]
  rintro other hroot
  exact decide_eq_false fun heq => h (heq ▸ hroot)

theorem chain_binary (op : Connective) (left right : Formula) :
    (Formula.binary op left right).chain op = left.chain op ++ right.chain op :=
  flatten_binary _ op left right (decide_eq_true rfl)

theorem joinNested_of_root_ne (left : Formula) (h : f.root? ≠ some op) :
    joinNested op left f = .binary op left f := by
  cases f with
  | atom name => rfl
  | unary op' operand => rfl
  | binary other first last =>
    have hother : other ≠ op := by simpa using h
    rw [joinNested, if_neg hother]

theorem joinNested_of_root (left first last : Formula) :
    joinNested op left (.binary op first last) = .binary op (joinNested op left first) last := by
  rw [joinNested, if_pos rfl]

@[simp] theorem root?_joinNested (op : Connective) (left f : Formula) :
    (joinNested op left f).root? = some op := by
  by_cases h : f.root? = some op
  · cases f with
    | atom name => cases h
    | unary op' operand => cases h
    | binary other first last =>
      cases h
      rw [joinNested_of_root, root?]
  · rw [joinNested_of_root_ne left h, root?]

@[simp] theorem root?_leftNested (f : Formula) : f.leftNested.root? = f.root? := by
  cases f with
  | atom name => rfl
  | unary op operand => rfl
  | binary op left right =>
    rw [leftNested]
    by_cases h : op.isChained = true
    · rw [if_pos h, root?_joinNested, root?]
    · rw [if_neg h, root?, root?]

/-- Joins further operands to a formula, one by one. -/
def joinAll (op : Connective) (first : Formula) (rest : List Formula) : Formula :=
  rest.foldl (fun joined f => .binary op joined f.leftNested) first

theorem joinAll_append (first : Formula) (fs more : List Formula) :
    joinAll op first (fs ++ more) = joinAll op (joinAll op first fs) more := List.foldl_append

theorem joinNested_joinAll (h : joinNested op left acc = acc') :
    joinNested op left (joinAll op acc rest) = joinAll op acc' rest := by
  induction rest generalizing acc acc' with
  | nil => exact h
  | cons f rest ih =>
    apply ih
    rw [joinNested_of_root, h]

/-- A chain grouped to the left joins its operands one by one. -/
theorem leftNested_eq_joinAll (chained : op.isChained = true) (f : Formula) :
    ∃ first rest, f.chain op = first :: rest ∧ first.root? ≠ some op ∧
      f.leftNested = joinAll op first.leftNested rest := by
  have single {f : Formula} (h : f.root? ≠ some op) :
      ∃ first rest, f.chain op = first :: rest ∧ first.root? ≠ some op ∧
        f.leftNested = joinAll op first.leftNested rest :=
    ⟨f, [], chain_of_root_ne h, h, rfl⟩
  induction f with
  | atom name => exact single nofun
  | unary op' operand => exact single nofun
  | binary other left right ihl ihr =>
    by_cases h : other = op
    · subst h
      obtain ⟨first, rest, hleft, hroot, hfirst⟩ := ihl
      obtain ⟨second, more, hright, hother, hsecond⟩ := ihr
      have hjoin : joinNested other left.leftNested second.leftNested =
          .binary other left.leftNested second.leftNested := by
        apply joinNested_of_root_ne
        rw [root?_leftNested]
        exact hother
      refine ⟨first, rest ++ second :: more, ?_, hroot, ?_⟩
      · rw [chain_binary, hleft, hright, List.cons_append]
      · rw [leftNested, if_pos chained, hsecond, joinNested_joinAll hjoin, joinAll_append,
          ← hfirst]
        rfl
    · apply single
      simpa using h

/-- No chained connective has a right operand of its own. -/
def GroupsLeft : Formula → Prop
  | .atom _ => True
  | .unary _ operand => operand.GroupsLeft
  | .binary op left right => left.GroupsLeft ∧ right.GroupsLeft ∧
    (op.isChained = true → right.root? ≠ some op)

@[simp] theorem size_joinNested (op : Connective) (left f : Formula) :
    (joinNested op left f).size = left.size + f.size + 1 := by
  induction f with
  | atom name => rfl
  | unary op' operand => rfl
  | binary other first last ihFirst ihLast =>
    rw [joinNested]
    split
    · simp [ihFirst]
      omega
    · rfl

@[simp] theorem size_leftNested (f : Formula) : f.leftNested.size = f.size := by
  induction f with
  | atom name => rfl
  | unary op operand ih => simp [leftNested, ih]
  | binary op left right ihl ihr =>
    rw [leftNested]
    split
    · simp [ihl, ihr]
    · simp [ihl, ihr]

/-- Just the formulas that are grouped to the left already are left as they are. -/
theorem leftNested_eq_self_iff (f : Formula) : f.leftNested = f ↔ f.GroupsLeft := by
  induction f with
  | atom name => simp only [leftNested, GroupsLeft]
  | unary op operand ih => simp only [leftNested, GroupsLeft, unary.injEq, true_and, ih]
  | binary op left right ihl ihr =>
    rw [leftNested, GroupsLeft, ← ihl, ← ihr]
    by_cases chained : op.isChained = true
    · rw [if_pos chained]
      by_cases hroot : right.root? = some op
      · -- the left operand would have to contain itself
        have hne : joinNested op left.leftNested right.leftNested ≠ .binary op left right := by
          rw [← root?_leftNested] at hroot
          cases hright : right.leftNested with
          | atom name => rw [hright] at hroot; cases hroot
          | unary op' operand => rw [hright] at hroot; cases hroot
          | binary other first last =>
            rw [hright] at hroot
            cases hroot
            rw [joinNested_of_root]
            intro heq
            have hsize := congrArg size (binary.inj heq).2.1
            rw [size_joinNested, size_leftNested] at hsize
            omega
        exact iff_of_false hne fun h => h.2.2 chained hroot
      · have hnested : right.leftNested.root? ≠ some op := by rwa [root?_leftNested]
        rw [joinNested_of_root_ne _ hnested]
        simp only [binary.injEq, true_and]
        exact ⟨fun h => ⟨h.1, h.2, fun _ => hroot⟩, fun h => ⟨h.1, h.2.1⟩⟩
    · rw [if_neg chained]
      simp only [binary.injEq, true_and, chained, false_implies, and_true, Bool.false_eq_true]

end Turnstile.Formula
