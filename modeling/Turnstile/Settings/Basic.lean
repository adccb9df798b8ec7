import Turnstile.Printing.Glyphs

/-! Settings: which logic reads a text, in which script formulas are shown, whether formulas
may be written operator first, and how much the journal tells. -/
namespace Turnstile

inductive LogicKind
  | classical
  | modal
  deriving DecidableEq

namespace LogicKind

def name : LogicKind → String
  | .classical => "classical"
  | .modal => "modal"

def ofName? (name : String) : Option LogicKind :=
  match name with
  | "classical" => some .classical
  | "modal" => some .modal
  | _ => none

end LogicKind

/-- How grave a record must be to be kept, from the least to the most. -/
inductive LogLevel
  | debug
  | info
  | warning
  | error
  | critical
  deriving DecidableEq

namespace LogLevel

def all : List LogLevel := [.debug, .info, .warning, .error, .critical]

def name : LogLevel → String
  | .debug => "DEBUG"
  | .info => "INFO"
  | .warning => "WARNING"
  | .error => "ERROR"
  | .critical => "CRITICAL"

def ofName? (name : String) : Option LogLevel := all.find? fun level => level.name == name

def severity : LogLevel → Nat
  | .debug => 10
  | .info => 20
  | .warning => 30
  | .error => 40
  | .critical => 50

end LogLevel

/-- The choices of a user; each has a default. -/
structure Settings where
  logic : LogicKind := .classical
  script : Script := .unicode
  polishFallback : Bool := true
  logLevel : LogLevel := .warning
  deriving DecidableEq

def Settings.standard : Settings where

end Turnstile
