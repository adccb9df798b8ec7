import Turnstile.Proofs.Formula.Nesting
import Turnstile.Proofs.Printing.Canonical
import Turnstile.Proofs.Reading.Whole

/-! What canonical text writes. The glyphs have to be spellings of what they show; then the text
of a formula spells tokens that derive the formula with its chains grouped to the left, since
the operands of a chain stand side by side. -/
namespace Turnstile

open Grammar

/-- Every glyph is a spelling of the operator or judgment that it shows. -/
structure Glyphs.Spelled (g : Glyphs) : Prop where
  unary : ∀ op, ∃ s ∈ Spelling.symbols, s.kind = .unary op ∧ s.text = g.ofUnary op
  connective : ∀ op, ∃ s ∈ Spelling.symbols, s.kind = .binary op ∧ s.text = g.ofConnective op
  judgment : ∀ j, ∃ s ∈ Spelling.symbols, s.kind = .judgment j ∧ s.text = g.ofJudgment j

theorem Glyphs.spelled_unicode : Glyphs.unicode.Spelled where
  unary := by rintro (_ | _ | _) <;> decide
  connective := by rintro (_ | _ | _ | _) <;> decide
  judgment := by rintro (_ | _) <;> decide

theorem Glyphs.spelled_ascii : Glyphs.ascii.Spelled where
  unary := by rintro (_ | _ | _) <;> decide
  connective := by rintro (_ | _ | _ | _) <;> decide
  judgment := by rintro (_ | _) <;> decide

namespace Token

variable {dialect : Dialect} {position : Nat} {gap cs more : List Char} {tokens later : List Token}

theorem Spelled.append_blanks (blank : ∀ c ∈ gap, Text.isBlank c = true)
    (h : Spelled dialect (position + gap.length) cs tokens) :
    Spelled dialect position (gap ++ cs) tokens := by
  induction gap generalizing position with
  | nil => exact h
  | cons c gap ih =>
    apply Spelled.cons_blank (blank c List.mem_cons_self)
    apply ih fun d hd => blank d (List.mem_cons_of_mem c hd)
    rw [List.length_cons] at h
    have hposition : position + 1 + gap.length = position + (gap.length + 1) := by omega
    exact hposition ▸ h

/-- Texts that stand one behind the other spell the tokens of both. -/
theorem Spelled.append (h : Spelled dialect position cs tokens)
    (hlater : Spelled dialect (position + cs.length) more later) :
    Spelled dialect position (cs ++ more) (tokens ++ later) := by
  induction h with
  | blanks blank => exact .append_blanks blank hlater
  | @token position gap rest spelling tokens blank known allowed _ ih =>
    rw [List.append_assoc]
    refine .token blank known allowed (ih ?_)
    have hlength : position + (gap ++ spelling.letters ++ rest).length =
        position + gap.length + spelling.length + rest.length := by
      simp
      omega
    exact hlength ▸ hlater

/-- Every token takes a character at least. -/
theorem Spelled.length_le (h : Spelled dialect position cs tokens) :
    tokens.length ≤ cs.length := by
  induction h with
  | blanks => exact Nat.zero_le _
  | token _ _ _ _ ih =>
    simp [Spelling.length]
    omega

theorem length_le_of_scan {source : String} (scanned : scan dialect source = .ok tokens) :
    tokens.length ≤ source.length := by
  rw [← String.length_toList]
  exact (spelled_of_scanFrom scanned).length_le

end Token

/-- Wherever the text stands, it spells tokens with a property. -/
def Prints (dialect : Dialect) (text : String) (P : List Token → Prop) : Prop :=
  ∀ position, ∃ tokens, Token.Spelled dialect position text.toList tokens ∧ P tokens

section

variable {dialect : Dialect} {first second text : String} {P Q R : List Token → Prop}

theorem Prints.mono (h : Prints dialect text P) (himp : ∀ tokens, P tokens → Q tokens) :
    Prints dialect text Q := by
  intro position
  obtain ⟨tokens, hspelled, hp⟩ := h position
  exact ⟨tokens, hspelled, himp tokens hp⟩

/-- What two texts print alike has the properties of both. -/
theorem Prints.and (h : Prints dialect text P) (h' : Prints dialect text Q) :
    ∃ tokens, P tokens ∧ Q tokens := by
  obtain ⟨tokens, hspelled, hp⟩ := h 0
  obtain ⟨tokens', hspelled', hq⟩ := h' 0
  have hscan := (hspelled.scanFrom_eq text).symm.trans (hspelled'.scanFrom_eq text)
  obtain rfl := Except.ok.inj hscan
  exact ⟨tokens, hp, hq⟩

theorem Prints.append (hfirst : Prints dialect first P) (hsecond : Prints dialect second Q)
    (join : ∀ tokens later, P tokens → Q later → R (tokens ++ later)) :
    Prints dialect (first ++ second) R := by
  intro position
  obtain ⟨tokens, hspelled, hp⟩ := hfirst position
  obtain ⟨later, hlater, hq⟩ := hsecond (position + first.toList.length)
  refine ⟨tokens ++ later, ?_, join tokens later hp hq⟩
  rw [String.toList_append]
  exact hspelled.append hlater

def IsOne (kind : Kind) (tokens : List Token) : Prop :=
  ∃ token : Token, tokens = [token] ∧ token.kind = kind

theorem prints_spelling {s : Spelling} (known : s.IsKnown)
    (allowed : dialect.allows s.kind = true) :
    Prints dialect s.text fun tokens => ∃ position, tokens = [⟨s.kind, s.text, position⟩] := by
  intro position
  refine ⟨_, ?_, position, rfl⟩
  have hspelled := Token.Spelled.spelling known allowed
    (@Token.Spelled.blanks dialect (position + s.length) [] nofun)
  rwa [List.append_nil, ← String.toList_ofList (l := s.letters)] at hspelled

theorem prints_symbol {kind : Kind} (allowed : dialect.allows kind = true)
    (h : ∃ s ∈ Spelling.symbols, s.kind = kind ∧ s.text = text) :
    Prints dialect text (IsOne kind) := by
  obtain ⟨s, hmem, rfl, rfl⟩ := h
  apply (prints_spelling (.inl hmem) allowed).mono
  rintro _ ⟨position, rfl⟩
  exact ⟨_, rfl, rfl⟩

theorem prints_gap (blank : ∀ c ∈ text.toList, Text.isBlank c = true) :
    Prints dialect text (· = []) := fun _ => ⟨[], .blanks blank, rfl⟩

theorem prints_blank : Prints dialect " " (· = []) :=
  prints_gap (List.forall_mem_singleton.mpr rfl)

/-- A sign before a blank is one token as well. -/
theorem prints_before_blank {kind : Kind} (hsign : Prints dialect text (IsOne kind)) :
    Prints dialect (text ++ " ") (IsOne kind) := by
  apply hsign.append prints_blank
  rintro tokens _ hone rfl
  rwa [List.append_nil]

/-- Text, sign and text print what the tokens of all three make. -/
theorem Prints.join {kind : Kind} {sign : String} (hfirst : Prints dialect first P)
    (hsign : Prints dialect sign (IsOne kind)) (hsecond : Prints dialect second Q)
    (join : ∀ left right token, token.kind = kind → P left → Q right →
      R (left ++ token :: right)) :
    Prints dialect (first ++ sign ++ second) R := by
  have hboth : Prints dialect (first ++ sign) fun tokens => ∃ left token,
      tokens = left ++ [token] ∧ token.kind = kind ∧ P left := by
    apply hfirst.append hsign
    rintro left _ hleft ⟨token, rfl, hkind⟩
    exact ⟨left, token, rfl, hkind, hleft⟩
  apply hboth.append hsecond
  rintro _ right ⟨left, token, rfl, hkind, hleft⟩ hright
  rw [List.append_assoc]
  exact join left right token hkind hleft hright

end

end Turnstile
