import Turnstile.TruthTable

/-! Tables in use: changes by hand, and inquiries between them. The reply to an inquiry goes by the
rows as they are; a summary may fail, and what comes after it goes on with the same table. -/
namespace Turnstile.TruthTable

inductive Inquiry
  | isTautology
  | isSatisfiable
  | isContradiction
  | counterexample
  | classification
  | summary
  deriving DecidableEq

inductive Reply
  | flag (value : Bool)
  | assignment (found : Option (List (String × Bool)))
  | text (content : String)
  | failure (missing : MissingVariable)
  deriving DecidableEq

inductive Step
  | change (edit : TableEdit)
  | ask (inquiry : Inquiry)

def reply (t : TruthTable) : Inquiry → Reply
  | .isTautology => .flag t.isTautology
  | .isSatisfiable => .flag t.isSatisfiable
  | .isContradiction => .flag t.isContradiction
  | .counterexample => .assignment t.counterexample
  | .classification => .text t.verdict.word
  | .summary =>
    match t.summary with
    | .ok content => .text content
    | .error missing => .failure missing

/-- The reply to a step, if it is an inquiry, and the table behind it. -/
def take (t : TruthTable) : Step → Option Reply × TruthTable
  | .change edit => (none, t.edit edit)
  | .ask inquiry => (some (t.reply inquiry), t)

def after (t : TruthTable) (steps : List Step) : TruthTable :=
  steps.foldl (fun t step => (t.take step).2) t

def replies (t : TruthTable) : List Step → List Reply
  | [] => []
  | step :: rest => (t.take step).1.toList ++ replies (t.take step).2 rest

end Turnstile.TruthTable
