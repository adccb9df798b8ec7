import Turnstile.Data.Datum
import Turnstile.Settings.Basic
import Turnstile.Text.Blank
import Turnstile.Text.LetterCase

/-! A validator of fields, one that settings can be made with. Every field is checked on its own,
and all that fail are reported together, in the order of their names. -/
namespace Turnstile

inductive Problem
  | notLogic
  | notScript
  | notText
  | unknownLevel
  | unreadableFlag
  | notFlag
  | unknownField
  deriving DecidableEq

namespace Problem

def code : Problem → String
  | .notLogic => "literal_error"
  | .notScript => "literal_error"
  | .notText => "string_type"
  | .unknownLevel => "value_error"
  | .unreadableFlag => "bool_parsing"
  | .notFlag => "bool_type"
  | .unknownField => "extra_forbidden"

def message : Problem → String
  | .notLogic => "Input should be 'classical' or 'modal'"
  | .notScript => "Input should be 'unicode' or 'ascii'"
  | .notText => "Input should be a valid string"
  | .unknownLevel =>
    "Value error, log_level must be one of " ++ ", ".intercalate (LogLevel.all.map (·.name))
  | .unreadableFlag => "Input should be a valid boolean, unable to interpret input"
  | .notFlag => "Input should be a valid boolean"
  | .unknownField => "Extra inputs are not permitted"

end Problem

structure Violation where
  field : String
  problem : Problem
  deriving DecidableEq

namespace Settings

/-- A choice by its name, of which case and blanks around do not matter. -/
def readChoice {α : Type} (ofName? : String → Option α) (problem : Problem) :
    Datum → Except Problem α
  | .scalar (.text s) =>
    match ofName? (Text.lowerCase (Text.trim s)) with
    | some choice => .ok choice
    | none => .error problem
  | _ => .error problem

def readLogic : Datum → Except Problem LogicKind := readChoice LogicKind.ofName? .notLogic

def readScript : Datum → Except Problem Script :=
  readChoice (fun name => (Script.ofName name).toOption) .notScript

def readLevel : Datum → Except Problem LogLevel
  | .scalar (.text s) =>
    match LogLevel.ofName? (Text.upperCase (Text.trim s)) with
    | some level => .ok level
    | none => .error .unknownLevel
  | _ => .error .notText

def flagOfWord? (word : String) : Option Bool :=
  if ["1", "on", "t", "true", "y", "yes"].contains word then some true
  else if ["0", "off", "f", "false", "n", "no"].contains word then some false
  else none

/-- A flag as a number: zero or one. Any other number that fits a signed word of 64 bits is
an attempt at a flag that cannot be read. -/
def readFlagNumber (value : Int) : Except Problem Bool :=
  if value = 0 then .ok false
  else if value = 1 then .ok true
  else if -0x8000000000000000 ≤ value ∧ value < 0x8000000000000000 then .error .unreadableFlag
  else .error .notFlag

/-- A flag: a truth value, a number without a fractional part, or a word for it. A numeral
with twenty zeros at its end is beyond any word, so it is not written out. -/
def readFlag : Datum → Except Problem Bool
  | .scalar (.flag value) => .ok value
  | .scalar (.integer value) => readFlagNumber value
  | .scalar (.decimal value) =>
    if 20 ≤ value.exponent then .error .notFlag
    else
      match value.integer? with
      | some n => readFlagNumber n
      | none => .error .notFlag
  | .scalar (.text s) =>
    match flagOfWord? (Text.lowerAscii s) with
    | some value => .ok value
    | none => .error .unreadableFlag
  | _ => .error .notFlag

def fieldOr {α : Type} (default : α) (read : Datum → Except Problem α) (name : String)
    (fields : List (String × Datum)) : Except Violation α :=
  match fields.lookup name with
  | none => .ok default
  | some d =>
    match read d with
    | .ok value => .ok value
    | .error problem => .error ⟨name, problem⟩

def fieldNames : List String := ["logic", "notation", "reverse_polish_fallback", "log_level"]

def violation? {α : Type} : Except Violation α → Option Violation
  | .ok _ => none
  | .error v => some v

/-- The settings that fields make, or all that is wrong with them in the order of their
names. -/
def ofFields (fields : List (String × Datum)) : Except (List Violation) Settings :=
  let logic := fieldOr standard.logic readLogic "logic" fields
  let script := fieldOr standard.script readScript "notation" fields
  let fallback :=
    fieldOr standard.polishFallback readFlag "reverse_polish_fallback" fields
  let level := fieldOr standard.logLevel readLevel "log_level" fields
  let unknown := fields.filterMap fun field =>
    if fieldNames.contains field.1 then none else some ⟨field.1, .unknownField⟩
  match logic, script, fallback, level, unknown with
  | .ok l, .ok s, .ok f, .ok v, [] => .ok ⟨l, s, f, v⟩
  | _, _, _, _, _ =>
    let known := [violation? logic, violation? script, violation? fallback, violation? level]
    .error ((known.filterMap id ++ unknown).mergeSort fun a b => decide (a.field ≤ b.field))

end Settings

end Turnstile
