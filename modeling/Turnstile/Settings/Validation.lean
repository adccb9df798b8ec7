import Turnstile.Data.Datum
import Turnstile.Settings.Basic

/-! Settings from a datum. They are the datum itself or what it holds under one particular key. The
fields are checked by a validator that is left open here, as is the error by which it refuses them. -/
namespace Turnstile

/-- Why there are no settings, with the path of their source where it is known. -/
inductive SettingsError (ε : Type)
  | notFound (path : String)
  | malformed (detail path : String)
  | notMapping (path : String)
  | invalid (error : ε) (path : String)
  | keyNotText

structure SettingsReport where
  summary : String := "Invalid configuration."
  path : String := ""

def SettingsReport.message (r : SettingsReport) : String :=
  if r.path.isEmpty then r.summary else r.summary ++ " [" ++ r.path ++ "]"

variable {ε : Type}

/-- The message of an error; the validator's errors are shown by their own text. -/
def SettingsError.message (shown : ε → String) : SettingsError ε → String
  | .notFound path => SettingsReport.message ⟨"Config file not found", path⟩
  | .malformed detail path => SettingsReport.message ⟨"YAML parse error: " ++ detail, path⟩
  | .notMapping path => SettingsReport.message ⟨"Config must be a mapping", path⟩
  | .invalid error path => SettingsReport.message ⟨"Invalid configuration: " ++ shown error, path⟩
  | .keyNotText => "keywords must be strings"

namespace Settings

def sectionKey : String := "gottlob"

/-- The datum that holds the settings: what stands under the section key, an empty mapping if
that says nothing, or the datum itself. -/
def unwrap (d : Datum) : Datum :=
  match d.field? sectionKey with
  | none => d
  | some inner => if inner.isVacant then .mapping [] else inner

def textEntries? (entries : List (Scalar × Datum)) : Option (List (String × Datum)) :=
  entries.mapM fun entry =>
    match entry.1 with
    | .text name => some (name, entry.2)
    | _ => none

/-- The settings that a datum makes; `path` tells where it comes from. -/
def ofDatum (validate : List (String × Datum) → Except ε Settings) (d : Datum) (path : String) :
    Except (SettingsError ε) Settings :=
  match unwrap d with
  | .mapping entries =>
    match textEntries? entries with
    | none => .error .keyNotText
    | some fields =>
      match validate fields with
      | .ok settings => .ok settings
      | .error e => .error (.invalid e path)
  | _ => .error (.notMapping path)

end Settings

end Turnstile
