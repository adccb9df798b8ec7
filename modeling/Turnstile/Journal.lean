import Turnstile.Settings.Basic

/-! The journal: records of what happened on the way to an answer, each under the name of the
part that wrote it. All records are for debugging, so a level above that keeps none. -/
namespace Turnstile

inductive Channel
  | reading
  | logic
  | decision
  | table
  deriving DecidableEq

/-- The name above all channels, whose level holds for all of them. -/
def Channel.rootName : String := "backend.gottlob"

def Channel.name : Channel → String
  | .reading => rootName ++ ".logic.parser"
  | .logic => rootName ++ ".logic.engine"
  | .decision => rootName ++ ".logic.evaluator"
  | .table => rootName ++ ".logic.analyzer"

structure JournalEntry where
  channel : Channel
  message : String
  deriving DecidableEq

namespace JournalEntry

def level : LogLevel := .debug

def kept (threshold : LogLevel) (entries : List JournalEntry) : List JournalEntry :=
  if threshold.severity ≤ level.severity then entries else []

end JournalEntry

end Turnstile
