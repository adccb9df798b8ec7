import Turnstile.Settings.Validation

/-! Sources of settings: nothing at all, a file that is not there, or a file with its text. How a
document is read is left open; one that says nothing leaves every setting at its default. -/
namespace Turnstile.Settings

inductive Source
  | unset
  | missing (path : String)
  | document (path text : String)

def load {ε : Type} (readDocument : String → Except String Datum)
    (validate : List (String × Datum) → Except ε Settings) :
    Source → Except (SettingsError ε) Settings
  | .unset => .ok standard
  | .missing path => .error (.notFound path)
  | .document path text =>
    match readDocument text with
    | .error detail => .error (.malformed detail path)
    | .ok d => ofDatum validate (if d.isVacant then .mapping [] else d) path

end Turnstile.Settings
