import Mathlib
import Turnstile.Settings.Fields
import Turnstile.Settings.Validation

/-! Settings in a section of their own. What stands under the section key is taken for what it is by
itself, unless it says nothing: then every setting is left at its default, whatever the shape of the
datum, while by itself a datum that is no mapping is refused. All that is assumed of the validator is
that it makes the defaults of no fields. -/
namespace Turnstile.Settings

variable {ε : Type} {validate : List (String × Datum) → Except ε Settings} {d : Datum}

def inSection (d : Datum) : Datum := .mapping [(.text sectionKey, d)]

theorem unwrap_inSection (d : Datum) :
    unwrap (inSection d) = if d.isVacant then .mapping [] else d := by
  simp [unwrap, inSection, Datum.field?]

theorem unwrap_of_free (free : d.field? sectionKey = none) : unwrap d = d := by
  rw [unwrap, free]

/-- Only what is left of a datum behind the section key matters. -/
theorem ofDatum_congr {d' : Datum} (h : unwrap d = unwrap d') (path : String) :
    ofDatum validate d path = ofDatum validate d' path := by
  rw [ofDatum, ofDatum, h]

theorem ofDatum_nil (defaults : validate [] = .ok standard) (path : String) :
    ofDatum validate (.mapping []) path = .ok standard := by
  have hunwrap : unwrap (.mapping []) = .mapping [] := rfl
  have hentries : textEntries? [] = some [] := rfl
  simp only [ofDatum, hunwrap, hentries, defaults]

theorem ofDatum_of_shape_ne (h : d.shape ≠ .mapping) (path : String) :
    ofDatum validate d path = .error (.notMapping path) := by
  cases d with
  | mapping entries => exact absurd rfl h
  | _ => rfl

theorem ofDatum_inSection_of_vacant (defaults : validate [] = .ok standard)
    (vacant : d.isVacant = true) (path : String) :
    ofDatum validate (inSection d) path = .ok standard := by
  have h : unwrap (inSection d) = unwrap (.mapping []) := by
    rw [unwrap_inSection, vacant]
    rfl
  exact (ofDatum_congr h path).trans (ofDatum_nil defaults path)

theorem ofDatum_inSection_of_not_vacant (free : d.field? sectionKey = none)
    (told : d.isVacant = false) (path : String) :
    ofDatum validate (inSection d) path = ofDatum validate d path := by
  have h : unwrap (inSection d) = unwrap d := by
    rw [unwrap_inSection, told, unwrap_of_free free]
    rfl
  exact ofDatum_congr h path

/-- A vacant mapping has no entries. -/
theorem eq_nil_of_vacant (vacant : d.isVacant = true) (mapping : d.shape = .mapping) :
    d = .mapping [] := by
  cases d with
  | scalar value => cases value <;> simp [Datum.shape, Scalar.shape] at mapping
  | sequence items => simp [Datum.shape] at mapping
  | mapping entries =>
    have hentries : entries = [] := by simpa [Datum.isVacant] using vacant
    rw [hentries]

/-- Whatever the validator, a datum without the section key makes under it what it makes by itself,
just if it says something or is a mapping. By itself no datum of another shape is accepted, and under
the key just those are that say nothing. -/
theorem ofDatum_inSection {ε : Type} (validate : List (String × Datum) → Except ε Settings)
    (defaults : validate [] = .ok standard) (d : Datum) (path : String)
    (free : d.field? sectionKey = none) :
    (ofDatum validate (inSection d) path = ofDatum validate d path ↔
      (d.isVacant = true → d.shape = .mapping)) ∧
    (d.shape ≠ .mapping →
      ofDatum validate d path = .error (.notMapping path) ∧
      ofDatum validate (inSection d) path =
        if d.isVacant then .ok standard else .error (.notMapping path)) := by
  cases vacant : d.isVacant with
  | false =>
    have heq : ofDatum validate (inSection d) path = ofDatum validate d path :=
      ofDatum_inSection_of_not_vacant free vacant path
    refine ⟨by simp [heq], fun hshape => ?_⟩
    have hrefused : ofDatum validate d path = .error (.notMapping path) :=
      ofDatum_of_shape_ne hshape path
    exact ⟨hrefused, heq.trans hrefused⟩
  | true =>
    have hstandard := ofDatum_inSection_of_vacant defaults vacant path
    refine ⟨⟨fun heq _ => ?_, fun hshape => ?_⟩, fun hshape => ?_⟩
    · by_contra hshape
      rw [hstandard, ofDatum_of_shape_ne hshape path] at heq
      cases heq
    · rw [hstandard, eq_nil_of_vacant vacant (hshape rfl), ofDatum_nil defaults]
    · exact ⟨ofDatum_of_shape_ne hshape path, hstandard⟩

/-- A choice is read in both places. -/
theorem ofDatum_inSection_ascii : ofFields [] = .ok standard ∧
    ofDatum ofFields (inSection (.mapping [(.text "notation", .ofText "ASCII")]))
      "settings.yaml" =
      ofDatum ofFields (.mapping [(.text "notation", .ofText "ASCII")]) "settings.yaml" ∧
    ofDatum ofFields (.mapping [(.text "notation", .ofText "ASCII")]) "settings.yaml" =
      .ok ⟨.classical, .ascii, true, .warning⟩ := by
  have defaults : ofFields [] = .ok standard := by cbv
  refine ⟨defaults, ?_, by cbv⟩
  exact (ofDatum_inSection ofFields defaults _ _ (by decide)).1.mpr fun _ => rfl

/-- An empty sequence is refused by itself, and makes the defaults under the key. -/
theorem ofDatum_emptySequence :
    ofDatum ofFields (.sequence []) "settings.yaml" = .error (.notMapping "settings.yaml") ∧
    ofDatum ofFields (inSection (.sequence [])) "settings.yaml" = .ok standard ∧
    ofDatum ofFields (inSection (.sequence [])) "settings.yaml" ≠
      ofDatum ofFields (.sequence []) "settings.yaml" :=
  ⟨rfl, rfl, nofun⟩

end Turnstile.Settings
