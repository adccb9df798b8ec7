import Turnstile.Reading.Operation

/-! Walks over the tokens of a text: operations on a cursor one after another. Each goes on from
where the one before it left the cursor, whether that one succeeded or failed. -/
namespace Turnstile

namespace Reading

/-- The cursor behind an operation, whatever came of it. -/
def Operation.after (frames : Nat) (operation : Operation) (c : Cursor) : Cursor :=
  match operation.perform frames c with
  | .ok _ c' => c'
  | .error _ c' => c'

def walk (frames : Nat) (operations : List Operation) (c : Cursor) : Cursor :=
  operations.foldl (fun c operation => operation.after frames c) c

/-- An operation that looks at the cursor, or builds something from what it is given. -/
def Operation.isStill : Operation → Bool
  | .peek | .atEnd | .expectEnd | .join _ _ _ => true
  | _ => false

/-- How a successful operation moves the index of the cursor: by one token if it takes one, and by
some tokens if it reads something. -/
def Operation.Moves : Operation → (before after : Nat) → Prop
  | .advance, before, after | .expect _, before, after => after = before + 1
  | .formula _, before, after | .term, before, after | .polish, before, after
  | .sequent, before, after => before < after
  | _, before, after => after = before

end Reading

/-- Where a refusal leaves the cursor: at the end of the text if more is needed, before a token that
is left over, and else behind the token that it is about. -/
def SyntaxError.LeavesAt (e : SyntaxError) (c : Cursor) : Prop :=
  e.source = c.source ∧
    match e.refusal with
    | .endOfInput => c.index = c.tokens.length ∧ e.position = some c.source.length
    | .trailing found => ∃ token, c.tokens[c.index]? = some token ∧ found = token.text ∧
        e.position = some token.position
    | _ => ∃ (before : Nat) (token : Token), c.index = before + 1 ∧
        c.tokens[before]? = some token ∧ e.position = some token.position

namespace Reading

structure Operation.Sound (frames : Nat) (operation : Operation) (c : Cursor) : Prop where
  source : (operation.after frames c).source = c.source
  tokens : (operation.after frames c).tokens = c.tokens
  forward : c.index ≤ (operation.after frames c).index
  within : (operation.after frames c).index ≤ c.tokens.length
  still : operation.isStill = true → operation.after frames c = c
  moves : ∀ outcome c', operation.perform frames c = .ok outcome c' →
    operation.Moves c.index c'.index
  refused : ∀ e c', operation.perform frames c = .error (.refused e) c' → e.LeavesAt c'

end Reading

end Turnstile
