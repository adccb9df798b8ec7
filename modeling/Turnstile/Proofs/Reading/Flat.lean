import Mathlib
import Turnstile.Proofs.Reading.Nesting
import Turnstile.Reading.Flat
import Turnstile.Token.Extent

/-! Flat formulas take few frames, however long they are. While the right operand of a connective
is read, that of a tighter one may be read inside it, but never that of one as loose: for this the
loop goes on at the outer call. So no more calls are nested than there are strengths, and a run of
unary operators is taken by one. -/
namespace Turnstile

namespace FlatShape

variable {kind : Kind} {run : List Unary} {others : List (Connective × List Unary)}

theorem joinedKinds_cons (op : Connective) (run : List Unary)
    (others : List (Connective × List Unary)) :
    joinedKinds ((op, run) :: others) = .binary op :: (termKinds run ++ joinedKinds others) := by
  simp [joinedKinds]

theorem length_le_joinedKinds (others : List (Connective × List Unary)) :
    others.length ≤ (joinedKinds others).length := by
  induction others with
  | nil => simp
  | cons joined rest ih =>
    rw [joinedKinds_cons]
    simp only [List.length_cons, List.length_append]
    omega

theorem mem_termKinds (h : kind ∈ termKinds run) :
    kind = .literal ∨ ∃ op ∈ run, kind = .unary op := by
  simp only [termKinds, List.mem_append, List.mem_map, List.mem_singleton] at h
  obtain ⟨op, hop, rfl⟩ | hliteral := h
  · exact .inr ⟨op, hop, rfl⟩
  · exact .inl hliteral

/-- A flat formula has literals, connectives, and the unary operators of its runs. -/
theorem mem_kinds {shape : FlatShape} (h : kind ∈ shape.kinds) :
    kind = .literal ∨ (∃ run ∈ shape.runs, ∃ op ∈ run, kind = .unary op) ∨
      ∃ op, kind = .binary op := by
  have hterm {run : List Unary} (hrun : run ∈ shape.runs) (hkind : kind ∈ termKinds run) :
      kind = .literal ∨ (∃ run ∈ shape.runs, ∃ op ∈ run, kind = .unary op) ∨
        ∃ op, kind = .binary op :=
    (mem_termKinds hkind).imp_right fun hop => .inl ⟨run, hrun, hop⟩
  simp only [kinds, joinedKinds, List.mem_append, List.mem_flatMap, List.mem_cons] at h
  obtain hfirst | ⟨joined, hmem, hop | hrun⟩ := h
  · exact hterm (by simp [runs]) hfirst
  · exact .inr (.inr ⟨joined.1, hop⟩)
  · exact hterm (List.mem_cons_of_mem _ (List.mem_map_of_mem hmem)) hrun

theorem modal_allows_of_mem_kinds {shape : FlatShape} (h : kind ∈ shape.kinds) :
    Dialect.modal.allows kind = true := by
  obtain rfl | ⟨_, _, op, _, rfl⟩ | ⟨op, rfl⟩ := mem_kinds h
  · decide
  · obtain _ | (_ | _) := op <;> decide
  · cases op <;> decide

theorem classical_allows_of_mem_kinds {shape : FlatShape}
    (negations : ∀ run ∈ shape.runs, ∀ op ∈ run, op = .negation) (h : kind ∈ shape.kinds) :
    Dialect.classical.allows kind = true := by
  obtain rfl | ⟨run, hrun, op, hop, rfl⟩ | ⟨op, rfl⟩ := mem_kinds h
  · decide
  · rw [negations run hrun op hop]
    decide
  · cases op <;> decide

end FlatShape

namespace Cursor

/-- The tokens ahead have the given kinds, and the literals among them name variables. -/
structure Awaits (c : Cursor) (kinds : List Kind) : Prop where
  named : c.Named
  kinds : c.ahead.map Token.kind = kinds

theorem Awaits.next {c : Cursor} {kind : Kind} {kinds : List Kind} (h : c.Awaits (kind :: kinds)) :
    ∃ token c', token.kind = kind ∧ token.Named ∧ c.Takes [token] c' ∧ c'.Awaits kinds := by
  obtain ⟨token, rest, hahead, hkind, hrest⟩ := List.map_eq_cons_iff.mp h.kinds
  have takes := takes_of_ahead hahead
  refine ⟨token, _, hkind, h.named token ?_, takes, takes.named h.named, hrest⟩
  simp [hahead]

theorem Awaits.ahead_eq_nil {c : Cursor} (h : c.Awaits []) : c.ahead = [] :=
  List.map_eq_nil_iff.mp h.kinds

theorem Awaits.length {c : Cursor} {kinds : List Kind} (h : c.Awaits kinds) :
    c.ahead.length = kinds.length := by
  rw [← h.kinds, List.length_map]

end Cursor

namespace Reading

open FlatShape Grammar

variable {c : Cursor} {kinds : List Kind} {run : List Unary}
  {others : List (Connective × List Unary)} {frames : Nat} {least : Int} {dialect : Dialect}
  {text : String} {tokens : List Token} {shape : FlatShape}

/-- Two frames read a term without groups, whatever the length of its run. -/
theorem term_of_awaits (h : c.Awaits (termKinds run ++ kinds)) :
    ∃ f c', term (frames + 2) c = .ok f c' ∧ c'.Awaits kinds := by
  induction run generalizing c with
  | nil =>
    obtain ⟨token, c', hkind, named, takes, hrest⟩ := h.next
    obtain ⟨name, htext⟩ := named hkind
    exact ⟨.atom name, c', term_of_literal hkind htext takes, hrest⟩
  | cons op run ih =>
    obtain ⟨token, c₁, hkind, -, takes, hrest⟩ := h.next
    obtain ⟨f, c', hterm, hawaits⟩ := ih hrest
    exact ⟨_, c', term_of_unary hkind takes hterm, hawaits⟩

/-- The frames of a flat formula whose connectives have at least the given strength: two for a
term, and one for every call that may be open at once, the strengths being 1, 3 and 4. -/
def flatFrames (least : Int) : Nat :=
  if least ≤ 1 then 6 else if least ≤ 3 then 5 else if least ≤ 4 then 4 else 3

theorem three_le_flatFrames (least : Int) : 3 ≤ flatFrames least := by
  unfold flatFrames
  split_ifs <;> omega

theorem flatFrames_anti {least' : Int} (h : least ≤ least') :
    flatFrames least' ≤ flatFrames least := by
  unfold flatFrames
  split_ifs <;> omega

/-- The right operand of a connective takes a frame less. -/
theorem flatFrames_rightStrength {op : Connective} (hop : op ≠ .conditional)
    (strong : least ≤ op.strength) : flatFrames op.rightStrength + 1 ≤ flatFrames least := by
  have hop' : flatFrames op.rightStrength + 1 ≤ flatFrames op.strength := by
    cases op with
    | conditional => exact absurd rfl hop
    | _ => decide
  exact hop'.trans (flatFrames_anti strong)

/-- So many frames read a term and what is joined to it, up to a connective that is too weak. -/
def ReadsFlat (frames : Nat) (least : Int) : Prop :=
  ∀ (c : Cursor) (run : List Unary) (others : List (Connective × List Unary)),
    (∀ joined ∈ others, joined.1 ≠ .conditional) → c.Awaits (termKinds run ++ joinedKinds others) →
    ∃ f c' later, formula frames least c = .ok f c' ∧ later <:+ others ∧
      c'.Awaits (joinedKinds later) ∧ Closes least c'.ahead

/-- The loop over connectives, where the frames suffice for every right operand. -/
theorem climb_of_awaits
    (operands : ∀ op : Connective, op ≠ .conditional → least ≤ op.strength →
      ReadsFlat frames op.rightStrength)
    (unconditional : ∀ joined ∈ others, joined.1 ≠ .conditional) (budget : Nat)
    (enough : others.length ≤ budget) (left : Formula) (h : c.Awaits (joinedKinds others)) :
    ∃ f c' later, climb (formula frames) least budget left c = .ok f c' ∧ later <:+ others ∧
      c'.Awaits (joinedKinds later) ∧ Closes least c'.ahead := by
  induction budget generalizing others left c with
  | zero =>
    have hnil : others = [] := List.length_eq_zero_iff.mp (by omega)
    subst hnil
    exact ⟨left, c, [], rfl, List.suffix_rfl, h, by simp [Closes, h.ahead_eq_nil]⟩
  | succ budget ih =>
    cases others with
    | nil =>
      have hcloses : Closes least c.ahead := by simp [Closes, h.ahead_eq_nil]
      exact ⟨left, c, [], climb_of_closes _ _ _ _ _ hcloses, List.suffix_rfl, h, hcloses⟩
    | cons joined rest =>
      obtain ⟨op, run⟩ := joined
      obtain ⟨hop, hrest⟩ := List.forall_mem_cons.mp unconditional
      have hawaits := h
      rw [joinedKinds_cons] at hawaits
      obtain ⟨token, c₁, hkind, -, takes, hoperand⟩ := hawaits.next
      by_cases strong : least ≤ op.strength
      · obtain ⟨right, c₂, middle, hread, hmiddle, hbehind, -⟩ :=
          operands op hop strong c₁ run rest hrest hoperand
        have hshorter := hmiddle.length_le
        simp only [List.length_cons] at enough
        obtain ⟨f, c', later, hclimb, hlater, hend⟩ :=
          ih (fun joined hmem => hrest joined (hmiddle.subset hmem)) (by omega)
            (.binary op left right) hbehind
        refine ⟨f, c', later, ?_, (hlater.trans hmiddle).trans (List.suffix_cons _ _), hend⟩
        exact (climb_of_connective budget left hkind strong takes).trans
          ((bind_of_ok hread).trans hclimb)
      · have hcloses : Closes least c.ahead := by
          rw [takes.ahead]
          exact closes_of_weaker hkind (Int.not_le.mp strong)
        exact ⟨left, c, _, climb_of_closes _ _ _ _ _ hcloses, List.suffix_rfl, h, hcloses⟩

theorem readsFlat_succ
    (operands : ∀ op : Connective, op ≠ .conditional → least ≤ op.strength →
      ReadsFlat (frames + 2) op.rightStrength) : ReadsFlat (frames + 3) least := by
  intro c run others unconditional h
  obtain ⟨first, c₁, hterm, hbehind⟩ := term_of_awaits h
  have hlength := length_le_joinedKinds others
  rw [← hbehind.length] at hlength
  obtain ⟨f, c', later, hclimb, hend⟩ :=
    climb_of_awaits operands unconditional _ hlength first hbehind
  exact ⟨f, c', later, (formula_of_term least hterm).trans hclimb, hend⟩

theorem readsFlat (enough : flatFrames least ≤ frames) : ReadsFlat frames least := by
  induction frames generalizing least with
  | zero =>
    have hthree := three_le_flatFrames least
    omega
  | succ frames ih =>
    have hthree := three_le_flatFrames least
    obtain ⟨frames, rfl⟩ : ∃ frames', frames = frames' + 2 := ⟨frames - 2, by omega⟩
    apply readsFlat_succ
    intro op hop strong
    have hless := flatFrames_rightStrength hop strong
    exact ih (by omega)

/-- A flat text is read with six frames, in every dialect that has its tokens. -/
theorem ofText_of_flat (scanned : Token.scan dialect text = .ok tokens)
    (hkinds : tokens.map Token.kind = shape.kinds) (enough : 6 ≤ frames) :
    ∃ f, Formula.ofText frames dialect text = .ok f ∧ Derives loosest tokens f := by
  have named := named_start scanned
  have reads : ReadsFlat frames 1 := readsFlat enough
  obtain ⟨f, c', later, hread, -, hawaits, hcloses⟩ :=
    reads (.start text tokens) shape.first shape.others
      shape.unconditional ⟨named, hkinds⟩
  -- what is left begins with no connective, so nothing is left
  have hahead : c'.ahead = [] := by
    cases later with
    | nil => exact hawaits.ahead_eq_nil
    | cons joined rest =>
      obtain ⟨token, _, hkind, -, takes, -⟩ := hawaits.next
      exact absurd hkind (hcloses.not_binary token takes.mem_head? joined.1)
  have hcomplete : (formula frames 1).complete (.start text tokens) = .ok f c' :=
    complete_eq_ok.mpr ⟨hread, hahead⟩
  have derives := (complete_formula_ends frames named).of_ok hcomplete
  exact ⟨f, (ofText_eq_ok scanned derives.ne_nil).mpr ⟨c', hcomplete⟩, derives⟩

end Reading

namespace Reader

open FlatShape Grammar

/-- A flat formula of any length is read with six frames by the modal reader, and by the classical
reader too if its unary operators are all negations. What is read is the formula that its tokens
derive. -/
theorem readWithin_flat (shape : FlatShape) (text : String) (tokens : List Token)
    (scanned : Token.scan .every text = .ok tokens)
    (hkinds : tokens.map Token.kind = shape.kinds) :
    ∃ f, Derives loosest tokens f ∧ ∀ frames, 6 ≤ frames →
      modal.readWithin frames text = .ok (.formula f) ∧
      ((∀ run ∈ shape.runs, ∀ op ∈ run, op = .negation) →
        classical.readWithin frames text = .ok (.formula f)) := by
  have hmem {token : Token} (h : token ∈ tokens) : token.kind ∈ shape.kinds :=
    hkinds ▸ List.mem_map_of_mem h
  have hmodal : Token.scan .modal text = .ok tokens :=
    Token.scan_of_allows scanned fun _ h => modal_allows_of_mem_kinds (hmem h)
  obtain ⟨f, -, derives⟩ := Reading.ofText_of_flat hmodal hkinds (Nat.le_refl 6)
  have hread {dialect : Dialect} (hscan : Token.scan dialect text = .ok tokens) {frames : Nat}
      (enough : 6 ≤ frames) : readWithin frames ⟨.formula, dialect⟩ text = .ok (.formula f) := by
    obtain ⟨g, hg, hderives⟩ := Reading.ofText_of_flat hscan hkinds enough
    obtain rfl := hderives.unique derives
    simp only [readWithin, hg, Except.map]
  refine ⟨f, derives, fun frames enough => ⟨hread hmodal enough, fun negations => ?_⟩⟩
  have hclassical : Token.scan .classical text = .ok tokens :=
    Token.scan_of_allows scanned fun _ h => classical_allows_of_mem_kinds negations (hmem h)
  exact hread hclassical enough

def tightening : FlatShape where
  first := [.negation, .negation]
  others := [(.biconditional, []), (.disjunction, [.negation]), (.conjunction, [])]
  unconditional := by simp

/-- Five frames are too few for ever tighter connectives. -/
theorem readWithin_tightening :
    classical.readWithin 5 "~~p <-> q v ~r ^ s" = .error (tooDeep "~~p <-> q v ~r ^ s") ∧
    ∃ f, ∀ frames, 6 ≤ frames →
      modal.readWithin frames "~~p <-> q v ~r ^ s" = .ok (.formula f) ∧
      classical.readWithin frames "~~p <-> q v ~r ^ s" = .ok (.formula f) := by
  have hscan : Token.scan .every "~~p <-> q v ~r ^ s" = .ok
      [⟨.unary .negation, "~", 0⟩, ⟨.unary .negation, "~", 1⟩, ⟨.literal, "p", 2⟩,
        ⟨.binary .biconditional, "<->", 4⟩, ⟨.literal, "q", 8⟩, ⟨.binary .disjunction, "v", 10⟩,
        ⟨.unary .negation, "~", 12⟩, ⟨.literal, "r", 13⟩, ⟨.binary .conjunction, "^", 15⟩,
        ⟨.literal, "s", 17⟩] := by cbv
  have hnegations : ∀ run ∈ tightening.runs, ∀ op ∈ run, op = .negation := by decide
  obtain ⟨f, -, hread⟩ := readWithin_flat tightening _ _ hscan rfl
  refine ⟨by cbv, f, fun frames enough => ?_⟩
  exact ⟨(hread frames enough).1, (hread frames enough).2 hnegations⟩

end Reader

end Turnstile
