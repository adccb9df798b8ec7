import Turnstile.Proofs.Reading.Recognizer
import Turnstile.Reading.Grammar

/-! The outlook of a reader of formulas: whether an operand is due or something behind one, and
how many groups are open. Nothing more is needed to tell which tokens may come next, for the
strength of connectives never makes a token impossible. -/
namespace Turnstile

/-- What may come next, inside some number of open groups. -/
inductive Outlook
  | operand (depth : Nat)
  | follow (depth : Nat)
  deriving DecidableEq

namespace Outlook

def step : Outlook → Kind → Option Outlook
  | .operand depth, .literal => some (.follow depth)
  | .operand depth, .unary _ => some (.operand depth)
  | .operand depth, .leftParen => some (.operand (depth + 1))
  | .follow depth, .binary _ => some (.operand depth)
  | .follow (depth + 1), .rightParen => some (.follow depth)
  | _, _ => none

def complaint : Outlook → Token → Refusal
  | .operand _, token => .unexpected token.text
  | .follow 0, token => .trailing token.text
  | .follow (_ + 1), token => .expected .rightParen token.text

end Outlook

def Recognizer.formula : Recognizer Outlook :=
  ⟨.operand 0, Outlook.step, .follow 0, Outlook.complaint⟩

namespace Outlook

theorem operand_ne_final (depth : Nat) : operand depth ≠ Recognizer.formula.final := nofun

theorem follow_succ_ne_final (depth : Nat) :
    follow (depth + 1) ≠ Recognizer.formula.final := nofun

end Outlook

namespace Grammar

open Recognizer

/-- What is derived is an operand, whatever groups are open. -/
theorem Derives.run {s : Stratum} {tokens : List Token} {f : Formula} (h : Derives s tokens f)
    (depth : Nat) : Recognizer.formula.run (.operand depth) tokens = some (.follow depth) := by
  induction h generalizing depth with
  | lift _ ih => exact ih depth
  | joinLeft _ hkind _ _ ihl ihr =>
    rw [run_append_of_run (ihl depth), run_kind hkind rfl]
    exact ihr depth
  | joinRight hkind _ _ ihl ihr =>
    rw [run_append_of_run (ihl depth), run_kind hkind rfl]
    exact ihr depth
  | unary hkind _ ih =>
    rw [run_kind hkind rfl]
    exact ih depth
  | group hfirst hlast _ ih =>
    rw [List.cons_append, run_kind hfirst rfl, run_append_of_run (ih (depth + 1)),
      run_kind hlast rfl]
    rfl
  | literal hkind =>
    rw [run_kind hkind rfl]
    rfl

theorem Derives.accepts {tokens : List Token} {f : Formula} (h : Derives loosest tokens f) :
    Recognizer.formula.Accepts tokens := h.run 0

end Grammar

end Turnstile
