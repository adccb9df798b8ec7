import Turnstile.Proofs.Printing.Regrouping
import Turnstile.Proofs.Supply

/-! Rendering by recursion and by steps. A text for every formula that is put together from the
texts of the formulas under its root is determined by the glyphs. The machine computes just these
texts: before every step each task finds as many parts as it takes, which for a chain are all of
its operands, and the last step leaves one. -/
namespace Turnstile

namespace Formula

def links (op : Connective) : Formula → List Formula
  | .binary other left right =>
    if other = op then left.links op ++ right.links op else [.binary other left right]
  | f => [f]

theorem chain_eq_links (op : Connective) (f : Formula) : f.chain op = f.links op := by
  induction f with
  | atom name => exact chain_of_root_ne nofun
  | unary op' operand => exact chain_of_root_ne nofun
  | binary other left right ihl ihr =>
    rw [links]
    split
    · next h =>
      subst h
      rw [chain_binary, ihl, ihr]
    · next h => exact chain_of_root_ne fun hroot => h (Option.some.inj hroot)

/-- A text for every formula, put together from the texts of what stands under its root. -/
structure ByRecursion (g : Glyphs) (text : Formula → String) : Prop where
  atom : ∀ name, text (.atom name) = String.singleton name
  negation : ∀ operand, text (.unary .negation operand) =
    g.negation ++ if operand.isModal then "(" ++ text operand ++ ")" else text operand
  modal : ∀ modality operand,
    text (.unary (.modal modality) operand) = g.ofUnary (.modal modality) ++ text operand
  conditional : ∀ left right, text (.binary .conditional left right) =
    "(" ++ text left ++ " " ++ g.conditional ++ " " ++ text right ++ ")"
  chain : ∀ op left right, op.isChained = true → text (.binary op left right) =
    "(" ++ (" " ++ g.ofConnective op ++ " ").intercalate
      (((Formula.binary op left right).links op).map text) ++ ")"

variable {g : Glyphs} {op : Connective}

theorem operands_of_isChained (chained : op.isChained = true) (left right : Formula) :
    (Formula.binary op left right).operands = (Formula.binary op left right).links op := by
  rw [← chain_eq_links, operands, if_pos chained, chain]

theorem intercalate_conditional (text : Formula → String) (left right : Formula) :
    (" " ++ g.ofConnective .conditional ++ " ").intercalate
      ((Formula.binary .conditional left right).operands.map text) =
    text left ++ " " ++ g.conditional ++ " " ++ text right := by
  simp [operands, Connective.isChained, Glyphs.ofConnective, String.append_assoc]

theorem byRecursion_canonical (g : Glyphs) : ByRecursion g (canonical g) where
  atom := canonical_atom
  negation := canonical_negation
  modal := canonical_modal
  conditional left right := by
    rw [canonical_binary, intercalate_conditional]
    simp only [String.append_assoc]
  chain op left right chained := by rw [canonical_binary, operands_of_isChained chained]

theorem ByRecursion.binary {text : Formula → String} (h : ByRecursion g text) (op : Connective)
    (left right : Formula) : text (.binary op left right) =
      "(" ++ (" " ++ g.ofConnective op ++ " ").intercalate
        ((Formula.binary op left right).operands.map text) ++ ")" := by
  by_cases chained : op.isChained = true
  · rw [h.chain op left right chained, operands_of_isChained chained]
  · cases op with
    | conditional =>
      rw [h.conditional, intercalate_conditional]
      simp only [String.append_assoc]
    | _ => exact absurd rfl chained

/-- The recursion determines the texts. -/
theorem ByRecursion.eq_canonical {text : Formula → String} (h : ByRecursion g text) (f : Formula) :
    text f = f.canonical g := by
  -- the operands of a chain lie deeper than its children, so the induction is on the size
  induction hsize : f.size using Nat.strongRecOn generalizing f with
  | ind n ih =>
    subst hsize
    cases f with
    | atom name => rw [h.atom, canonical_atom]
    | unary op operand =>
      have hoperand := ih operand.size (Nat.lt_succ_self _) operand rfl
      cases op with
      | negation => rw [h.negation, canonical_negation, hoperand]
      | modal modality => rw [h.modal, canonical_modal, hoperand]
    | binary op left right =>
      have hoperands : ∀ x ∈ (Formula.binary op left right).operands, text x = x.canonical g :=
        fun x hx => ih x.size (size_lt_of_mem_operands _ x hx) x rfl
      rw [h.binary, canonical_binary, List.map_congr_left hoperands]

end Formula

namespace Rendering

open Formula

def Task.takes : Task → Nat
  | .visit _ => 0
  | .compose f => f.operands.length

abbrev State := StackState Task String

def start (f : Formula) : State := ⟨[.visit f], []⟩

inductive Step (g : Glyphs) : State → State → Prop
  | atom {name : Char} {rest : List Task} {parts : List String} :
      Step g ⟨.visit (.atom name) :: rest, parts⟩ ⟨rest, String.singleton name :: parts⟩
  | operands {f : Formula} {rest : List Task} {parts : List String}
      (compound : ∀ name, f ≠ .atom name) :
      Step g ⟨.visit f :: rest, parts⟩ ⟨f.operands.map .visit ++ .compose f :: rest, parts⟩
  | compose {f : Formula} {rest : List Task} {parts : List String} :
      Step g ⟨.compose f :: rest, parts⟩
        ⟨rest, compose g f (parts.take f.operands.length).reverse ::
          parts.drop f.operands.length⟩

abbrev Reaches (g : Glyphs) : State → State → Prop := Relation.ReflTransGen (Step g)

variable {g : Glyphs} {s s' : State}

/-- The steps lead to what the run leaves. -/
theorem reaches_run (g : Glyphs) (tasks : List Task) (parts : List String) :
    Reaches g ⟨tasks, parts⟩ ⟨[], run g tasks parts⟩ := by
  fun_induction run g tasks parts with
  | case1 parts => exact .refl
  | case2 name rest parts ih => exact .head .atom ih
  | case3 op operand rest parts ih => exact .head (.operands nofun) ih
  | case4 op left right rest parts ih => exact .head (.operands nofun) ih
  | case5 f rest parts count ih => exact .head .compose ih

/-- A step leaves every task supplied that was. -/
theorem Step.balanced (h : Step g s s') (balanced : s.Balanced Task.takes) :
    s'.Balanced Task.takes := by
  cases h with
  | atom => exact balanced.2
  | @operands f rest parts =>
    have hlength : (Task.compose f).takes = (f.operands.map Task.visit).length :=
      (List.length_map _).symm
    exact balanced.put_off _ rfl (by simp [Task.takes]) hlength
  | compose =>
    have hlater := balanced.2
    simpa only [StackState.Balanced, List.length_cons, List.length_drop, Task.takes] using hlater

/-- Rendering computes the texts that recursion gives, whatever the glyphs. On the way every node
finds the parts of its operands, and the text is the only part that is left. So regrouping, which
moves no operand of a chain, leaves the text as it is. -/
theorem render_by_recursion (g : Glyphs) :
    (∀ text, ByRecursion g text ↔ text = Formula.render g) ∧
    (∀ f, Reaches g (start f) ⟨[], [f.render g]⟩ ∧
      ∀ s, Reaches g (start f) s → s.Sound Task.takes) ∧
    ∀ f f', Regroups f f' → f.render g = f'.render g := by
  have hcanonical : canonical g = Formula.render g :=
    funext fun f => (f.render_eq_canonical g).symm
  refine ⟨fun text => ⟨fun h => ?_, ?_⟩, fun f => ⟨?_, fun s h => ?_⟩, fun f f' h => h.render_eq⟩
  · rw [← hcanonical]
    exact funext h.eq_canonical
  · rintro rfl
    exact hcanonical ▸ byRecursion_canonical g
  · have hreaches := reaches_run g [.visit f] []
    rwa [visits, run, ← f.render_eq_canonical] at hreaches
  · exact StackState.sound_of_reaches (fun _ _ => Step.balanced) rfl h

/-- No operator has a sign. -/
def muted : Glyphs := ⟨"", "", "", "", "", "", "", "", ""⟩

theorem render_by_recursion_muted :
    ByRecursion muted (Formula.render muted) ∧
    Reaches muted (start rightGrouped) ⟨[], ["(p  q  (r))"]⟩ ∧
    rightGrouped.render muted = rightGrouped.leftNested.render muted := by
  obtain ⟨hunique, hrun, hregroups⟩ := render_by_recursion muted
  have htext : rightGrouped.render muted = "(p  q  (r))" := by cbv
  exact ⟨(hunique _).mpr rfl, htext ▸ (hrun rightGrouped).1,
    hregroups _ _ (regroups_leftNested rightGrouped)⟩

end Rendering

end Turnstile
