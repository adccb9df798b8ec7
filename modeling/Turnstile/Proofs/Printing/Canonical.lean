import Turnstile.Printing.Canonical

/-! Rendering computes the canonical text. A visit leaves the canonical text of its formula on
top of the finished parts; the operands of a node are visited in order, so their texts lie in
reverse where the composition of the node takes them up. -/
namespace Turnstile

namespace Formula

variable {g : Glyphs}

theorem canonical_atom (name : Char) :
    (Formula.atom name).canonical g = String.singleton name := by
  rw [canonical]

theorem canonical_negation (operand : Formula) :
    (Formula.unary .negation operand).canonical g = g.negation ++
      (if operand.isModal then "(" ++ operand.canonical g ++ ")" else operand.canonical g) := by
  rw [canonical]

theorem canonical_modal (modality : Modality) (operand : Formula) :
    (Formula.unary (.modal modality) operand).canonical g =
      g.ofUnary (.modal modality) ++ operand.canonical g := by
  rw [canonical]

theorem canonical_binary (op : Connective) (left right : Formula) :
    (Formula.binary op left right).canonical g =
      "(" ++ (" " ++ g.ofConnective op ++ " ").intercalate
        ((Formula.binary op left right).operands.map (canonical g)) ++ ")" := by
  rw [canonical, List.attach_map_val]

end Formula

namespace Rendering

open Formula

variable {g : Glyphs} {f : Formula} {fs : List Formula}

/-- A node is composed from the canonical texts of its operands to its own. -/
theorem compose_operands (g : Glyphs) (f : Formula) :
    compose g f (f.operands.map (canonical g)) = f.canonical g := by
  cases f with
  | atom name => rw [compose, canonical_atom]
  | unary op operand =>
    cases op with
    | modal modality =>
      rw [canonical_modal]
      rfl
    | negation =>
      rw [canonical_negation]
      cases operand with
      | unary op inner =>
        cases op with
        | negation => rfl
        | modal modality =>
          simp only [compose, operands, List.map_cons, List.headD_cons, isModal, if_true,
            String.append_assoc]
      | atom name => rfl
      | binary op left right => rfl
  | binary op left right => rw [compose, canonical_binary]

theorem run_compose (rest : List Task) (parts : List String) :
    run g (.compose f :: rest) ((f.operands.map (canonical g)).reverse ++ parts) =
      run g rest (f.canonical g :: parts) := by
  have hlength : (f.operands.map (canonical g)).reverse.length = f.operands.length := by simp
  rw [run, ← hlength, List.take_left, List.drop_left, List.reverse_reverse, compose_operands]

/-- Visiting a formula adds its canonical text to the finished parts. -/
def Visits (g : Glyphs) (f : Formula) : Prop :=
  ∀ rest parts, run g (.visit f :: rest) parts = run g rest (f.canonical g :: parts)

theorem run_visits (h : ∀ f ∈ fs, Visits g f) (rest : List Task) (parts : List String) :
    run g (fs.map .visit ++ rest) parts =
      run g rest ((fs.map (canonical g)).reverse ++ parts) := by
  induction fs generalizing parts with
  | nil => rfl
  | cons f fs ih =>
    have hrest := ih (fun x hx => h x (List.mem_cons_of_mem f hx)) (f.canonical g :: parts)
    rw [List.map_cons, List.cons_append, h f List.mem_cons_self, hrest]
    simp only [List.map_cons, List.reverse_cons, List.append_assoc, List.singleton_append]

theorem visits (g : Glyphs) (f : Formula) : Visits g f := by
  -- the operands of a chain lie deeper than its children, so the induction is on the size
  induction hsize : f.size using Nat.strongRecOn generalizing f with
  | ind n ih =>
    intro rest parts
    have hoperands : ∀ x ∈ f.operands, Visits g x := fun x hx =>
      ih x.size (hsize ▸ size_lt_of_mem_operands f x hx) x rfl
    cases f with
    | atom name => rw [run, canonical_atom]
    | unary op operand => rw [run, run_visits hoperands, run_compose]
    | binary op left right => rw [run, run_visits hoperands, run_compose]

end Rendering

/-- Rendering gives the canonical text. -/
theorem Formula.render_eq_canonical (g : Glyphs) (f : Formula) : f.render g = f.canonical g := by
  rw [render, Rendering.visits, Rendering.run, List.headD_cons]

end Turnstile
