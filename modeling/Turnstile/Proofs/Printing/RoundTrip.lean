import Mathlib
import Turnstile.Formula.Names
import Turnstile.Formula.Truth
import Turnstile.Proofs.Printing.Spelled

/-! Reading what was rendered. The canonical text of a formula is a term, whatever the formula,
and deriving it gives the formula with its chains grouped to the left; reading it back gives
that formula, and the same one just if it was grouped so. -/
namespace Turnstile

open Grammar

/-- The text prints tokens that derive a formula. -/
abbrev PrintsAs (dialect : Dialect) (s : Stratum) (text : String) (f : Formula) : Prop :=
  Prints dialect text (Derives s · f)

section

variable {dialect : Dialect} {s : Stratum} {sign first second text glue : String}
  {f f' : Formula} {op : Connective}

theorem PrintsAs.loosen (hf : PrintsAs dialect .term text f) : PrintsAs dialect s text f :=
  hf.mono fun _ derives => derives.loosen (rank_le s)

theorem printsAs_atom {name : Char} (allowed : dialect.allows .literal = true)
    (literal : Spelling.isLiteral name = true) :
    PrintsAs dialect .term (String.singleton name) (.atom name) := by
  apply (prints_spelling (s := ⟨name, [], .literal⟩) (.inr ⟨rfl, rfl, literal⟩) allowed).mono
  rintro _ ⟨position, rfl⟩
  exact .literal rfl rfl

theorem PrintsAs.unary {op : Unary} (hsign : Prints dialect sign (IsOne (.unary op)))
    (hf : PrintsAs dialect .term text f) :
    PrintsAs dialect .term (sign ++ text) (.unary op f) := by
  apply hsign.append hf
  rintro _ tokens ⟨token, rfl, hkind⟩ derives
  exact .unary hkind derives

theorem PrintsAs.group (opening : dialect.allows .leftParen = true)
    (closing : dialect.allows .rightParen = true) (hf : PrintsAs dialect loosest text f) :
    PrintsAs dialect .term ("(" ++ text ++ ")") f := by
  have hopening : Prints dialect "(" (IsOne .leftParen) :=
    prints_symbol opening (by decide)
  have hclosing : Prints dialect ")" (IsOne .rightParen) :=
    prints_symbol closing (by decide)
  have hopened : Prints dialect ("(" ++ text) fun tokens => ∃ first used,
      tokens = first :: used ∧ first.kind = .leftParen ∧ Derives loosest used f := by
    apply hopening.append hf
    rintro _ used ⟨first, rfl, hkind⟩ derives
    exact ⟨first, used, rfl, hkind, derives⟩
  apply hopened.append hclosing
  rintro _ _ ⟨first, used, rfl, hfirst, derives⟩ ⟨last, rfl, hlast⟩
  exact .group hfirst hlast derives

/-- A sign with blanks around it is one token as well. -/
theorem prints_glue {kind : Kind} (hsign : Prints dialect sign (IsOne kind)) :
    Prints dialect (" " ++ sign ++ " ") (IsOne kind) := by
  apply prints_before_blank
  apply prints_blank.append hsign
  rintro _ tokens rfl hone
  exact hone

/-- Operands with the sign of a chained connective between them print the operands joined one
by one. -/
theorem PrintsAs.joinAll {g : Glyphs} (chained : op.isChained = true)
    (hglue : Prints dialect glue (IsOne (.binary op)))
    (hf : PrintsAs dialect (.level op) text f) (rest : List Formula)
    (hrest : ∀ x ∈ rest, PrintsAs dialect .term (x.canonical g) x.leftNested) :
    PrintsAs dialect (.level op) (glue.intercalate (text :: rest.map (Formula.canonical g)))
      (Formula.joinAll op f rest) := by
  induction rest generalizing text f with
  | nil =>
    rw [List.map_nil, String.intercalate_singleton]
    exact hf
  | cons x rest ih =>
    have hleft : op ≠ .conditional := by
      rintro rfl
      cases chained
    have hjoined : PrintsAs dialect (.level op) (text ++ glue ++ x.canonical g)
        (.binary op f x.leftNested) :=
      Prints.join hf hglue (hrest x List.mem_cons_self).loosen
        fun _ _ _ hkind hf hx => .joinLeft hleft hkind hf hx
    have hall := ih hjoined fun y hy => hrest y (List.mem_cons_of_mem x hy)
    rw [String.intercalate_cons_append, ← String.intercalate_cons_cons] at hall
    exact hall

end

namespace Formula

variable {dialect : Dialect} {g : Glyphs} {f : Formula}

/-- The names of a formula are literals, and a dialect allows all that its canonical text
needs. -/
def Printable (dialect : Dialect) : Formula → Prop
  | .atom name => dialect.allows .literal = true ∧ Spelling.isLiteral name = true
  | .unary op operand => dialect.allows (.unary op) = true ∧ operand.Printable dialect
  | .binary op left right => dialect.allows (.binary op) = true ∧
    left.Printable dialect ∧ right.Printable dialect

def Spellable (f : Formula) : Prop := ∀ name, f.Mentions name → Spelling.isLiteral name = true

theorem printable_modal (h : f.Spellable) : f.Printable .modal := by
  induction f with
  | atom name => exact ⟨rfl, h name rfl⟩
  | unary op operand ih =>
    refine ⟨?_, ih h⟩
    rcases op with _ | _ | _ <;> rfl
  | binary op left right ihl ihr =>
    have hleft := ihl fun name hname => h name (.inl hname)
    have hright := ihr fun name hname => h name (.inr hname)
    refine ⟨?_, hleft, hright⟩
    cases op <;> rfl

theorem printable_classical (classical : f.IsClassical) (h : f.Spellable) :
    f.Printable .classical := by
  induction f with
  | atom name => exact ⟨rfl, h name rfl⟩
  | unary op operand ih =>
    cases op with
    | negation => exact ⟨rfl, ih classical h⟩
    | modal modality => cases classical
  | binary op left right ihl ihr =>
    obtain ⟨hleft, hright⟩ := Option.or_eq_none_iff.mp classical
    have hprintable := ihl hleft fun name hname => h name (.inl hname)
    refine ⟨?_, hprintable, ihr hright fun name hname => h name (.inr hname)⟩
    cases op <;> rfl

/-- The canonical text prints a term, which is grouped to the left. -/
def PrintsTerm (dialect : Dialect) (g : Glyphs) (f : Formula) : Prop :=
  PrintsAs dialect .term (f.canonical g) f.leftNested

section

variable (spelled : g.Spelled) (opening : dialect.allows .leftParen = true)
  (closing : dialect.allows .rightParen = true)

include spelled opening closing

theorem printsTerm_unary {op : Unary} (allowed : dialect.allows (.unary op) = true)
    (h : f.PrintsTerm dialect g) : (Formula.unary op f).PrintsTerm dialect g := by
  have hsign : Prints dialect (g.ofUnary op) (IsOne (.unary op)) :=
    prints_symbol allowed (spelled.unary op)
  cases op with
  | modal modality =>
    rw [PrintsTerm, canonical_modal]
    exact .unary hsign h
  | negation =>
    rw [PrintsTerm, canonical_negation]
    apply PrintsAs.unary hsign
    split
    · exact .group opening closing h.loosen
    · exact h

/-- Under a connective the operands stand side by side, those of a whole chain or two. -/
theorem printsTerm_binary {op : Connective} {left right : Formula}
    (allowed : dialect.allows (.binary op) = true)
    (hleft : left.PrintsTerm dialect g) (hright : right.PrintsTerm dialect g)
    (hchain : ∀ x ∈ (Formula.binary op left right).chain op, x.PrintsTerm dialect g) :
    (Formula.binary op left right).PrintsTerm dialect g := by
  have hglue : Prints dialect (" " ++ g.ofConnective op ++ " ") (IsOne (.binary op)) :=
    prints_glue (prints_symbol allowed (spelled.connective op))
  rw [PrintsTerm, canonical_binary]
  apply PrintsAs.group opening closing
  by_cases chained : op.isChained = true
  · obtain ⟨first, rest, hoperands, -, hnested⟩ :=
      leftNested_eq_joinAll chained (.binary op left right)
    rw [hoperands, List.forall_mem_cons] at hchain
    have hall := PrintsAs.joinAll chained hglue hchain.1.loosen rest hchain.2
    rw [operands, if_pos chained, ← chain, hoperands, hnested]
    exact hall.mono fun _ derives => derives.loosen (strength_pos op)
  · have hconditional : op = .conditional := by
      cases op <;> first | rfl | exact absurd rfl chained
    subst hconditional
    rw [operands, if_neg chained, leftNested, if_neg chained, List.map_cons, List.map_cons,
      List.map_nil, String.intercalate_cons_cons, String.intercalate_singleton]
    refine Prints.join hleft hglue hright fun _ _ _ hkind hl hr => ?_
    exact (Derives.joinRight hkind (hl.loosen (rank_le _)) (hr.loosen (rank_le _))).loosen
      (by decide)

/-- Every formula is printed as a term, and so is every operand of a chain that it is. -/
theorem printsTerm_chain (f : Formula) (printable : f.Printable dialect) :
    f.PrintsTerm dialect g ∧ ∀ op, ∀ x ∈ f.chain op, x.PrintsTerm dialect g := by
  have single {f : Formula} (h : f.PrintsTerm dialect g) {op : Connective}
      (hroot : f.root? ≠ some op) : ∀ x ∈ f.chain op, x.PrintsTerm dialect g := by
    rw [chain_of_root_ne hroot]
    exact List.forall_mem_singleton.mpr h
  induction f with
  | atom name =>
    have hatom : (Formula.atom name).PrintsTerm dialect g := by
      rw [PrintsTerm, canonical_atom]
      exact printsAs_atom printable.1 printable.2
    exact ⟨hatom, fun op => single hatom nofun⟩
  | unary op operand ih =>
    have hunary := printsTerm_unary spelled opening closing printable.1 (ih printable.2).1
    exact ⟨hunary, fun op => single hunary nofun⟩
  | binary op left right ihl ihr =>
    obtain ⟨allowed, hl, hr⟩ := printable
    obtain ⟨hleft, hleftChain⟩ := ihl hl
    obtain ⟨hright, hrightChain⟩ := ihr hr
    have hchain : ∀ x ∈ (Formula.binary op left right).chain op, x.PrintsTerm dialect g := by
      rw [chain_binary]
      exact List.forall_mem_append.mpr ⟨hleftChain op, hrightChain op⟩
    have hbinary := printsTerm_binary spelled opening closing allowed hleft hright hchain
    refine ⟨hbinary, fun other => ?_⟩
    by_cases h : op = other
    · exact h ▸ hchain
    · apply single hbinary
      simpa only [root?, ne_eq, Option.some.injEq] using h

end

end Formula

namespace Reading

/-- A text that prints a formula is read as that formula, given frames enough for its
length. -/
theorem ofText_of_printsAs_within {dialect : Dialect} {text : String} {f : Formula}
    (frames : Nat) (h : PrintsAs dialect loosest text f) :
    Formula.ofText frames dialect text = .ok f ∨
      Formula.ofText frames dialect text = .error (tooDeep text) ∧
        frames ≤ 3 * text.length + 1 := by
  obtain ⟨tokens, hspelled, derives⟩ := h 0
  have hscan : Token.scan dialect text = .ok tokens := hspelled.scanFrom_eq text
  have hlength := Token.length_le_of_scan hscan
  have hends := complete_formula_ends frames (named_start hscan)
  refine (ofText_of_written hscan derives.ne_nil hends derives.accepts
    fun _ hread => hread.unique derives).imp_right (And.imp_right fun hfew => ?_)
  omega

/-- A text that prints a formula is read as that formula, unless it is nested too deeply. -/
theorem ofText_of_printsAs {dialect : Dialect} {text : String} {f : Formula} (frames : Nat)
    (h : PrintsAs dialect loosest text f) :
    Formula.ofText frames dialect text = .ok f ∨
      Formula.ofText frames dialect text = .error (tooDeep text) :=
  (ofText_of_printsAs_within frames h).imp_right And.left

end Reading

/-- Reading what was rendered gives the formula with its chains grouped to the left, which is
the same formula just if no chained connective has a right operand of its own. -/
theorem ofText_render (frames : Nat) (g : Glyphs) (spelled : g.Spelled) (f : Formula)
    (literal : ∀ name, f.Mentions name → Spelling.isLiteral name = true) :
    (Formula.ofText frames .modal (f.render g) = .ok f.leftNested ∨
      Formula.ofText frames .modal (f.render g) = .error (tooDeep (f.render g))) ∧
    (f.IsClassical → Formula.ofText frames .classical (f.render g) = .ok f.leftNested ∨
      Formula.ofText frames .classical (f.render g) = .error (tooDeep (f.render g))) ∧
    (f.leftNested = f ↔ f.GroupsLeft) := by
  rw [Formula.render_eq_canonical]
  refine ⟨?_, fun classical => ?_, f.leftNested_eq_self_iff⟩
  · have hprints := Formula.printsTerm_chain spelled rfl rfl f (Formula.printable_modal literal)
    exact Reading.ofText_of_printsAs frames hprints.1.loosen
  · have hprints := Formula.printsTerm_chain spelled rfl rfl f
      (Formula.printable_classical classical literal)
    exact Reading.ofText_of_printsAs frames hprints.1.loosen

def rightGrouped : Formula :=
  .binary .conjunction (.atom 'p')
    (.binary .conjunction (.atom 'q') (.unary .negation (.unary (.modal .necessity) (.atom 'r'))))

theorem ofText_render_rightGrouped :
    rightGrouped.render .ascii = "(p ^ q ^ ~([]r))" ∧
    Formula.ofText 1000 .modal (rightGrouped.render .ascii) = .ok rightGrouped.leftNested ∧
    rightGrouped.leftNested ≠ rightGrouped := by
  have literal : ∀ name, rightGrouped.Mentions name → Spelling.isLiteral name = true := by
    simp only [rightGrouped, Formula.Mentions]
    rintro name (rfl | rfl | rfl) <;> rfl
  have hshallow : Formula.ofText 1000 .modal (rightGrouped.render .ascii) ≠
      .error (tooDeep (rightGrouped.render .ascii)) := by
    have hread : Formula.ofText 1000 .modal (rightGrouped.render .ascii) =
        .ok rightGrouped.leftNested := by cbv
    rw [hread]
    intro h
    cases h
  obtain ⟨hmodal, -, hiff⟩ := ofText_render 1000 .ascii Glyphs.spelled_ascii rightGrouped literal
  refine ⟨by cbv, hmodal.resolve_right hshallow, fun h => ?_⟩
  exact (hiff.mp h).2.2 rfl rfl

end Turnstile
