import Turnstile.Reader

/-! Parts of a text: some of its tokens, read by themselves. A sequent is cut at its judgment,
and what stands before that at the commas, so that every part is one formula. -/
namespace Turnstile

/-- What a reading makes of some tokens of a text, of which there have to be some. -/
def Reading.ofTokens {α : Type} (reading : Reading α) (source : String) :
    List Token → Except Fault α
  | [] => .error (.refused ⟨.empty, some 0, source⟩)
  | token :: rest =>
    match reading (.start source (token :: rest)) with
    | .ok value _ => .ok value
    | .error .outOfFrames _ => .error (.refused ⟨.tooDeep, none, source⟩)
    | .error fault _ => .error fault

def Formula.ofTokens (frames : Nat) (source : String) (tokens : List Token) :
    Except Fault Formula :=
  (Reading.formula frames 1).complete.ofTokens source tokens

/-- What stands between the commas of some tokens. -/
def commaParts (tokens : List Token) : List (List Token) :=
  tokens.splitOnP fun token => decide (token.kind = .comma)

namespace Sequent

/-- The tokens are cut at a judgment, the only one they contain. -/
structure CutAt (tokens before : List Token) (j : Judgment) (after : List Token) : Prop where
  split : ∃ token : Token, token.kind = .judgment j ∧ tokens = before ++ token :: after
  only : ∀ token ∈ before ++ after, token.kind.judgment? = none

/-- The parts between the commas before a judgment; none if nothing stands there. -/
def givenParts (before : List Token) : List (List Token) :=
  if before = [] then [] else commaParts before

end Sequent

end Turnstile
