import Mathlib
import Turnstile.TruthTable.Inquiry

/-! Tables changed by hand. Every reply of a table goes by its present rows and variables, so the
replies agree with each other whatever changes came before; and as no inquiry is a change, one that
fails is as if it had never been made. -/
namespace Turnstile

namespace TableRow

variable {row : TableRow} {names : List String} {name : String}

def Assigns (row : TableRow) (name : String) : Prop := ∃ value, (name, value) ∈ row.assignment

def missing? (row : TableRow) (names : List String) : Option String :=
  names.find? fun name => (row.assignment.lookup name).isNone

def line (row : TableRow) (names : List String) : String :=
  besideHeading
    (" ".intercalate (names.map fun name => truthSign (row.assignment.lookup name == some true)))
    (truthSign row.value)

theorem lookup_isNone_iff : (row.assignment.lookup name).isNone = true ↔ ¬ row.Assigns name := by
  rw [Option.isNone_iff_eq_none, List.lookup_eq_none_iff, Assigns]
  constructor
  · rintro h ⟨value, hmem⟩
    simpa using h (name, value) hmem
  · intro h entry hmem
    rw [bne_iff_ne]
    rintro rfl
    exact h ⟨entry.2, hmem⟩

theorem missing?_eq_none : row.missing? names = none ↔ ∀ name ∈ names, row.Assigns name := by
  simp only [missing?, List.find?_eq_none, lookup_isNone_iff, not_not]

theorem missing?_eq_some : row.missing? names = some name ↔ ¬ row.Assigns name ∧
    ∃ earlier later, names = earlier ++ name :: later ∧ ∀ other ∈ earlier, row.Assigns other := by
  simp only [missing?, List.find?_eq_some_iff_append, lookup_isNone_iff, Bool.not_eq_true',
    ← Bool.not_eq_true, not_not]

/-- The cells of a row, unless a variable is missing. -/
theorem cells_eq (row : TableRow) (names : List String) : row.cells names =
    match row.missing? names with
    | none => .ok (names.map fun name => truthSign (row.assignment.lookup name == some true))
    | some name => .error ⟨name⟩ := by
  induction names with
  | nil => rfl
  | cons name rest ih =>
    rw [cells, missing?, List.find?_cons]
    cases hlookup : row.assignment.lookup name with
    | none => rfl
    | some value =>
      simp only [ih, missing?, Option.isNone_some]
      cases rest.find? fun name => (row.assignment.lookup name).isNone with
      | none => cases value <;> simp [Except.map, hlookup]
      | some missing => rfl

end TableRow

theorem Verdict.word_inj (verdict other : Verdict) :
    verdict.word = other.word ↔ verdict = other := by
  cases verdict <;> cases other <;> decide

namespace TruthTable

variable {t : TruthTable} {name : String}

theorem rowLine_eq (t : TruthTable) (row : TableRow) : t.rowLine row =
    match row.missing? t.names with
    | none => .ok (row.line t.names)
    | some name => .error ⟨name⟩ := by
  rw [rowLine, row.cells_eq]
  cases row.missing? t.names <;> rfl

/-- The lines of some rows, unless a variable is missing in one of them. -/
theorem mapM_rowLine (t : TruthTable) (rows : List TableRow) : rows.mapM t.rowLine =
    match rows.findSome? fun row => row.missing? t.names with
    | none => .ok (rows.map fun row => row.line t.names)
    | some name => .error ⟨name⟩ := by
  induction rows with
  | nil => rfl
  | cons row rest ih =>
    rw [List.mapM_cons, ih, rowLine_eq, List.findSome?_cons]
    cases row.missing? t.names with
    | some name => rfl
    | none => cases rest.findSome? fun row => row.missing? t.names <;> rfl

/-- Some row gives no value to the variable but gives one to every variable listed before it, and
the rows above give a value to every variable. -/
def FirstMissing (t : TruthTable) (name : String) : Prop :=
  ∃ above row below, t.rows = above ++ row :: below ∧
    (¬ row.Assigns name ∧ ∃ earlier later, t.names = earlier ++ name :: later ∧
      ∀ other ∈ earlier, row.Assigns other) ∧
    ∀ other ∈ above, ∀ name ∈ t.names, other.Assigns name

def fullText (t : TruthTable) : String :=
  "\n".intercalate
    (besideHeading (" ".intercalate t.names) t.expression ::
      t.rows.map (fun row => row.line t.names) ++ ["Result: " ++ t.verdict.word])

/-- The replies of a table agree with each other and with its rows. -/
structure Consistent (t : TruthTable) : Prop where
  isTautology : t.isTautology = true ↔ t.rows ≠ [] ∧ ∀ row ∈ t.rows, row.value = true
  isSatisfiable : t.isSatisfiable = true ↔ ∃ row ∈ t.rows, row.value = true
  isContradiction : t.isContradiction = true ↔ t.rows ≠ [] ∧ ∀ row ∈ t.rows, row.value = false
  exclusive : ¬ (t.isTautology = true ∧ t.isContradiction = true)
  empty : t.verdict.word = "empty" ↔ t.rows = []
  tautology : t.verdict.word = "tautology" ↔ t.isTautology = true
  contradiction : t.verdict.word = "contradiction" ↔ t.isContradiction = true
  contingent : t.verdict.word = "contingent" ↔
    (∃ row ∈ t.rows, row.value = true) ∧ ∃ row ∈ t.rows, row.value = false
  unrefuted : t.counterexample = none ↔ ∀ row ∈ t.rows, row.value = true
  refuted : ∀ found, t.counterexample = some found ↔
    ∃ above row below, t.rows = above ++ row :: below ∧ (∀ other ∈ above, other.value = true) ∧
      row.value = false ∧ row.assignment = found
  complete : (∃ content, t.summary = .ok content) ↔
    ∀ row ∈ t.rows, ∀ name ∈ t.names, row.Assigns name
  content : ∀ content, t.summary = .ok content → content = t.fullText
  missing : ∀ name, t.summary = .error ⟨name⟩ ↔ t.FirstMissing name

theorem isTautology_iff :
    t.isTautology = true ↔ t.rows ≠ [] ∧ ∀ row ∈ t.rows, row.value = true := by
  simp [isTautology]

theorem isSatisfiable_iff : t.isSatisfiable = true ↔ ∃ row ∈ t.rows, row.value = true := by
  simp [isSatisfiable]

theorem isContradiction_iff :
    t.isContradiction = true ↔ t.rows ≠ [] ∧ ∀ row ∈ t.rows, row.value = false := by
  simp [isContradiction, isSatisfiable]

theorem not_isTautology_and_isContradiction :
    ¬ (t.isTautology = true ∧ t.isContradiction = true) := by
  rw [isTautology_iff, isContradiction_iff]
  rintro ⟨⟨hrows, htrue⟩, -, hfalse⟩
  obtain ⟨row, hrow⟩ := List.exists_mem_of_ne_nil t.rows hrows
  simpa [htrue row hrow] using hfalse row hrow

theorem verdict_eq_empty : t.verdict = .empty ↔ t.rows = [] := by
  unfold verdict
  split_ifs with hrows <;> simp_all

theorem verdict_eq_tautology : t.verdict = .tautology ↔ t.isTautology = true := by
  unfold verdict
  split_ifs with hrows htautology <;> simp_all [isTautology_iff]

theorem verdict_eq_contradiction : t.verdict = .contradiction ↔ t.isContradiction = true := by
  unfold verdict
  split_ifs with hrows htautology hcontradiction
  · simp_all [isContradiction_iff]
  · have hnot : ¬ t.isContradiction = true := fun hcontradiction =>
      not_isTautology_and_isContradiction ⟨htautology, hcontradiction⟩
    simp [hnot]
  · simp [hcontradiction]
  · simp [hcontradiction]

theorem verdict_eq_contingent : t.verdict = .contingent ↔
    (∃ row ∈ t.rows, row.value = true) ∧ ∃ row ∈ t.rows, row.value = false := by
  unfold verdict
  split_ifs with hrows htautology hcontradiction
  · simp_all
  · simp_all [isTautology_iff]
  · simp_all [isContradiction_iff]
  · have hrows' : t.rows ≠ [] := by simpa using hrows
    have hfalse : ∃ row ∈ t.rows, row.value = false := by
      simpa [isTautology_iff, hrows'] using htautology
    have htrue : ∃ row ∈ t.rows, row.value = true := by
      simpa [isContradiction_iff, hrows'] using hcontradiction
    simp only [htrue, hfalse, and_self]

theorem counterexample_eq_none :
    t.counterexample = none ↔ ∀ row ∈ t.rows, row.value = true := by
  simp [counterexample]

theorem counterexample_eq_some {found : List (String × Bool)} : t.counterexample = some found ↔
    ∃ above row below, t.rows = above ++ row :: below ∧ (∀ other ∈ above, other.value = true) ∧
      row.value = false ∧ row.assignment = found := by
  simp only [counterexample, Option.map_eq_some_iff, List.find?_eq_some_iff_append,
    Bool.not_eq_true', Bool.not_not]
  constructor
  · rintro ⟨row, ⟨hvalue, above, below, hrows, habove⟩, hfound⟩
    exact ⟨above, row, below, hrows, habove, hvalue, hfound⟩
  · rintro ⟨above, row, below, hrows, habove, hvalue, hfound⟩
    exact ⟨row, ⟨hvalue, above, below, hrows, habove⟩, hfound⟩

theorem summary_eq (t : TruthTable) : t.summary =
    match t.rows.findSome? fun row => row.missing? t.names with
    | none => .ok t.fullText
    | some name => .error ⟨name⟩ := by
  rw [summary, t.mapM_rowLine]
  cases t.rows.findSome? fun row => row.missing? t.names <;> rfl

theorem summary_eq_ok_iff {content : String} : t.summary = .ok content ↔
    content = t.fullText ∧ ∀ row ∈ t.rows, ∀ name ∈ t.names, row.Assigns name := by
  simp only [← TableRow.missing?_eq_none, ← List.findSome?_eq_none_iff]
  rw [summary_eq]
  cases t.rows.findSome? fun row => row.missing? t.names <;> simp [eq_comm]

theorem firstMissing_iff : t.FirstMissing name ↔
    (t.rows.findSome? fun row => row.missing? t.names) = some name := by
  rw [FirstMissing, List.findSome?_eq_some_iff]
  simp only [TableRow.missing?_eq_some, TableRow.missing?_eq_none]

theorem summary_eq_error_iff : t.summary = .error ⟨name⟩ ↔ t.FirstMissing name := by
  rw [firstMissing_iff, summary_eq]
  cases t.rows.findSome? fun row => row.missing? t.names <;> simp

/-- Every table is consistent: nothing is kept that a change could make stale. -/
theorem consistent (t : TruthTable) : t.Consistent where
  isTautology := isTautology_iff
  isSatisfiable := isSatisfiable_iff
  isContradiction := isContradiction_iff
  exclusive := not_isTautology_and_isContradiction
  empty := (Verdict.word_inj _ .empty).trans verdict_eq_empty
  tautology := (Verdict.word_inj _ .tautology).trans verdict_eq_tautology
  contradiction := (Verdict.word_inj _ .contradiction).trans verdict_eq_contradiction
  contingent := (Verdict.word_inj _ .contingent).trans verdict_eq_contingent
  unrefuted := counterexample_eq_none
  refuted _ := counterexample_eq_some
  complete := by simp only [summary_eq_ok_iff, exists_eq_left]
  content _ h := (summary_eq_ok_iff.mp h).1
  missing _ := summary_eq_error_iff

/-- The change that a step makes, if it makes one. -/
def Step.edit? : Step → Option TableEdit
  | .change edit => some edit
  | .ask _ => none

theorem after_append (t : TruthTable) (steps more : List Step) :
    t.after (steps ++ more) = (t.after steps).after more := List.foldl_append

/-- Only the changes matter for the table behind some steps. -/
theorem after_eq_foldl (t : TruthTable) (steps : List Step) :
    t.after steps = (steps.filterMap Step.edit?).foldl edit t := by
  induction steps generalizing t with
  | nil => rfl
  | cons step rest ih =>
    cases step with
    | change edit => exact ih (t.edit edit)
    | ask inquiry => exact ih t

theorem replies_append (t : TruthTable) (steps more : List Step) :
    t.replies (steps ++ more) = t.replies steps ++ (t.after steps).replies more := by
  induction steps generalizing t with
  | nil => rfl
  | cons step rest ih =>
    simp only [List.cons_append, replies, ih, List.append_assoc]
    rfl

/-- However a table is changed and asked, it is what the changes alone make of it, its replies agree
with its rows, and an inquiry has its own reply and leaves the others as they are. -/
theorem after_consistent (start : TruthTable) (steps : List Step) :
    start.after steps = (steps.filterMap Step.edit?).foldl edit start ∧
    (start.after steps).Consistent ∧
    ∀ (inquiry : Inquiry) (more : List Step),
      start.after (steps ++ .ask inquiry :: more) = start.after (steps ++ more) ∧
      start.replies (steps ++ more) =
        start.replies steps ++ (start.after steps).replies more ∧
      start.replies (steps ++ .ask inquiry :: more) =
        start.replies steps ++
          (start.after steps).reply inquiry :: (start.after steps).replies more := by
  refine ⟨start.after_eq_foldl steps, consistent _, fun inquiry more => ⟨?_, ?_, ?_⟩⟩
  · rw [after_append, after_append]
    rfl
  · exact start.replies_append steps more
  · rw [replies_append]
    rfl

/-- A summary fails for a variable that the row lacks, and goes through once it is not listed. -/
example : (blank "p" ["p", "q"]).replies
    [.change (.addRow ⟨[("p", true)], true⟩), .ask .summary, .change (.setNames ["p"]),
      .ask .summary] =
    [.failure ⟨"q"⟩, .text "p | p\nT | T\nResult: tautology"] := by cbv

end TruthTable

end Turnstile
