import Mathlib.Tactic.SplitIfs
import Turnstile.Reading.Grammar

/-! The strata of formulas in order. A formula of a tighter stratum is one of every looser
stratum, and `Derives.join` puts two formulas together under any connective, whichever side
it groups to. `stratumFrom` is the stratum that reading with a least strength reads. -/
namespace Turnstile

theorem Kind.unary?_eq_some {kind : Kind} {op : Unary} :
    kind.unary? = some op ↔ kind = .unary op := by
  cases kind <;> simp [Kind.unary?]

theorem Kind.judgment?_eq_some {kind : Kind} {j : Judgment} :
    kind.judgment? = some j ↔ kind = .judgment j := by
  cases kind <;> simp [Kind.judgment?]

namespace Grammar

/-- The strength of the loosest connectives that may stand at the root in a stratum. -/
def Stratum.rank : Stratum → Int
  | .level op => op.strength
  | .term => 5

theorem rank_level (op : Connective) : (Stratum.level op).rank = op.strength := rfl

theorem strength_pos (op : Connective) : 1 ≤ op.strength := by cases op <;> decide

theorem rank_le (s : Stratum) : s.rank ≤ 5 := by
  rcases s with (_ | _ | _ | _) | _ <;> decide

theorem rank_tighter (op : Connective) : (tighter op).rank = op.strength + 1 := by
  cases op <;> rfl

theorem rank_injective {s t : Stratum} (h : s.rank = t.rank) : s = t := by
  rcases s with (_ | _ | _ | _) | _ <;> rcases t with (_ | _ | _ | _) | _ <;>
    first | rfl | exact absurd h (by decide)

/-- What a stratum derives, every looser one derives. -/
theorem Derives.loosen {s t : Stratum} {tokens : List Token} {f : Formula}
    (h : Derives s tokens f) (hrank : t.rank ≤ s.rank) : Derives t tokens f := by
  -- by induction on the number of strata in between
  obtain ⟨gap, hgap⟩ : ∃ gap : Nat, s.rank = t.rank + gap := ⟨(s.rank - t.rank).toNat, by omega⟩
  induction gap generalizing t with
  | zero =>
    have hst : s = t := rank_injective (by simpa using hgap)
    exact hst ▸ h
  | succ gap ih =>
    cases t with
    | term =>
      have hs := rank_le s
      have ht : Stratum.term.rank = 5 := rfl
      omega
    | level op =>
      have ht := rank_tighter op
      rw [rank_level] at hgap
      exact .lift (ih (by omega) (by omega))

/-- The stratum of the formulas that may stand to the left of a connective. -/
def leftStratum : Connective → Stratum
  | .conditional => tighter .conditional
  | op => .level op

/-- The stratum of formulas whose connectives all have at least the given strength. -/
def stratumFrom (least : Int) : Stratum :=
  if least ≤ 1 then .level .biconditional
  else if least ≤ 2 then .level .conditional
  else if least ≤ 3 then .level .disjunction
  else if least ≤ 4 then .level .conjunction
  else .term

theorem rank_stratumFrom (least : Int) : (stratumFrom least).rank = max 1 (min 5 least) := by
  unfold stratumFrom
  split_ifs <;> simp only [Stratum.rank, Connective.strength] <;> omega

theorem rank_stratumFrom_le {op : Connective} {least : Int} (h : least ≤ op.strength) :
    (stratumFrom least).rank ≤ op.strength := by
  have hpos := strength_pos op
  rw [rank_stratumFrom]
  omega

theorem rank_leftStratum_le (op : Connective) : (leftStratum op).rank ≤ 4 := by
  cases op <;> decide

theorem leftStratum_eq_level (op : Connective) :
    ∃ other, leftStratum op = .level other ∧ op.strength ≤ other.strength ∧
      op.strength < other.rightStrength := by
  cases op <;> exact ⟨_, rfl, by decide, by decide⟩

theorem tighter_eq_term_or_level (op : Connective) :
    tighter op = .term ∨ ∃ other, tighter op = .level other ∧
      op.strength ≤ other.strength ∧ op.rightStrength ≤ other.rightStrength := by
  cases op with
  | conjunction => exact .inl rfl
  | _ => exact .inr ⟨_, rfl, by decide, by decide⟩

theorem rightStratum_eq_term_or_level (op : Connective) :
    stratumFrom op.rightStrength = .term ∨
      ∃ other, stratumFrom op.rightStrength = .level other ∧
        op.rightStrength ≤ other.strength ∧ op.rightStrength ≤ other.rightStrength := by
  cases op with
  | conjunction => exact .inl rfl
  | _ => exact .inr ⟨_, rfl, by decide, by decide⟩

theorem stratumFrom_rightStrength {op : Connective} (h : op ≠ .conditional) :
    stratumFrom op.rightStrength = tighter op := by
  cases op with
  | conditional => exact absurd rfl h
  | _ => rfl

theorem leftStratum_of_ne {op : Connective} (h : op ≠ .conditional) :
    leftStratum op = .level op := by
  cases op with
  | conditional => exact absurd rfl h
  | _ => rfl

/-- A connective that is weaker than another asks of its right operand may follow it. -/
theorem rank_leftStratum_le_strength {op other : Connective}
    (h : other.strength < op.rightStrength) : (leftStratum other).rank ≤ op.strength := by
  cases op <;> cases other <;>
    first | decide | exact absurd h (by decide)

/-- Two formulas of the strata beside a connective make one of its own stratum. -/
theorem Derives.join {op : Connective} {left right : List Token} {token : Token}
    {f g : Formula} (hkind : token.kind = .binary op) (hleft : Derives (leftStratum op) left f)
    (hright : Derives (stratumFrom op.rightStrength) right g) :
    Derives (.level op) (left ++ token :: right) (.binary op f g) := by
  cases op with
  | conditional => exact .joinRight hkind hleft hright
  | conjunction => exact .joinLeft (by decide) hkind hleft hright
  | disjunction => exact .joinLeft (by decide) hkind hleft hright
  | biconditional => exact .joinLeft (by decide) hkind hleft hright

/-- Operators before what writes a formula write them applied to it, if one at a time does. -/
theorem applyRun_of_cons {want : Kind → Option Unary} {Written : List Token → Formula → Prop}
    (step : ∀ {token op tokens f}, want token.kind = some op → Written tokens f →
      Written (token :: tokens) (.unary op f))
    {run : List Unary} {used tokens : List Token} {f : Formula}
    (hrun : used.map (fun token => want token.kind) = run.map some) (h : Written tokens f) :
    Written (used ++ tokens) (f.applyRun run) := by
  induction used generalizing run with
  | nil =>
    have hnil : run = [] := by simpa using hrun.symm
    exact hnil ▸ h
  | cons token used ih =>
    cases run with
    | nil => simp at hrun
    | cons op run =>
      simp only [List.map_cons, List.cons.injEq] at hrun
      exact step hrun.1 (ih hrun.2)

theorem Derives.applyRun {run : List Unary} {used tokens : List Token} {f : Formula}
    (hrun : used.map (fun token => token.kind.unary?) = run.map some)
    (h : Derives .term tokens f) : Derives .term (used ++ tokens) (f.applyRun run) :=
  applyRun_of_cons (fun hop => .unary (Kind.unary?_eq_some.mp hop)) hrun h

end Grammar

end Turnstile
