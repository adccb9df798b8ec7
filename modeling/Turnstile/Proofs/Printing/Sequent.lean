import Turnstile.Proofs.Printing.RoundTrip
import Turnstile.Proofs.Reading.Cut

/-! What the canonical text of a sequent writes: formulas with commas between them, the judgment
under which the sequent is shown, and the conclusion, every formula grouped to the left. -/
namespace Turnstile

open Grammar

variable {dialect : Dialect} {g : Glyphs} {f : Formula} {fs : List Formula} {s : Sequent}

theorem Formula.printsAs_render (spelled : g.Spelled)
    (opening : dialect.allows .leftParen = true) (closing : dialect.allows .rightParen = true)
    (printable : f.Printable dialect) :
    PrintsAs dialect loosest (f.render g) f.leftNested := by
  rw [Formula.render_eq_canonical]
  exact (Formula.printsTerm_chain spelled opening closing f printable).1.loosen

theorem prints_comma : Prints .modal ", " (IsOne .comma) := by
  have hcomma : Prints .modal "," (IsOne .comma) := prints_symbol rfl (by decide)
  exact prints_before_blank hcomma

theorem prints_given (h : ∀ f ∈ fs, PrintsAs .modal loosest (f.render g) f.leftNested)
    (nonempty : fs ≠ []) :
    Prints .modal (", ".intercalate (fs.map (Formula.render g)))
      (DerivesList · (fs.map Formula.leftNested)) := by
  induction fs with
  | nil => exact absurd rfl nonempty
  | cons f rest ih =>
    obtain ⟨hfirst, hrest⟩ := List.forall_mem_cons.mp h
    cases rest with
    | nil =>
      rw [List.map_cons, List.map_nil, String.intercalate_singleton]
      exact hfirst.mono fun _ derives => .single derives
    | cons f' rest =>
      rw [List.map_cons, List.map_cons, String.intercalate_cons_cons]
      exact Prints.join hfirst prints_comma (ih hrest nofun)
        fun _ _ _ hkind derives hmore => .cons hkind derives hmore

theorem Sequent.render_bare (h : s.assumptions = []) :
    s.render g = g.ofJudgment s.shownJudgment ++ " " ++ s.conclusion.render g := by
  simp [Sequent.render, h]

theorem Sequent.render_under (h : s.assumptions ≠ []) :
    s.render g = ", ".intercalate (s.assumptions.map (Formula.render g)) ++
      (" " ++ g.ofJudgment s.shownJudgment ++ " ") ++ s.conclusion.render g := by
  simp [Sequent.render, h, String.append_assoc]

/-- The sequent as it is shown: its judgment said, every formula grouped to the left. -/
def Sequent.leftNested (s : Sequent) : Sequent where
  judgment := some s.shownJudgment
  assumptions := s.assumptions.map Formula.leftNested
  conclusion := s.conclusion.leftNested

theorem prints_judgment (spelled : g.Spelled) (j : Judgment) :
    Prints .modal (g.ofJudgment j) (IsOne (.judgment j)) := by
  apply prints_symbol _ (spelled.judgment j)
  cases j <;> rfl

/-- The canonical text of a sequent prints the sequent as it is shown. -/
theorem Sequent.prints_render (spelled : g.Spelled)
    (printable : ∀ f ∈ s.formulas, f.Printable .modal) :
    Prints .modal (s.render g) (DerivesSequent · s.leftNested) := by
  obtain ⟨hgiven, hsingle⟩ := List.forall_mem_append.mp printable
  have hconclusion : PrintsAs .modal loosest (s.conclusion.render g) s.conclusion.leftNested :=
    Formula.printsAs_render spelled rfl rfl (List.forall_mem_singleton.mp hsingle)
  have hjudgment := prints_judgment spelled s.shownJudgment
  rw [Sequent.leftNested]
  by_cases hnil : s.assumptions = []
  · rw [render_bare hnil, hnil]
    apply (prints_before_blank hjudgment).append hconclusion
    rintro _ used ⟨token, rfl, hkind⟩ derives
    exact .bare hkind derives
  · have hlist := prints_given (fun f hmem =>
      Formula.printsAs_render spelled rfl rfl (hgiven f hmem)) hnil
    rw [render_under hnil]
    exact hlist.join (prints_glue hjudgment) hconclusion
      fun _ _ _ hkind derives hf => .under hkind derives hf

/-- A text that prints a sequent is read as that sequent, given frames enough for its length. -/
theorem Sequent.ofText_of_prints {text : String} (frames : Nat)
    (h : Prints .modal text (DerivesSequent · s)) :
    Sequent.ofText frames .modal text = .ok s ∨
      Sequent.ofText frames .modal text = .error (tooDeep text) ∧
        frames ≤ 3 * text.length + 2 := by
  obtain ⟨tokens, hspelled, derives⟩ := h 0
  have hscan : Token.scan .modal text = .ok tokens := hspelled.scanFrom_eq text
  have hlength := Token.length_le_of_scan hscan
  have nonempty : tokens ≠ [] := by
    rintro rfl
    cases derives.accepts
  have hends := Reading.sequent_ends frames (Reading.named_start hscan) nonempty
  refine (Reading.ofText_of_written hscan nonempty hends derives.accepts
    fun _ hread => hread.unique derives).imp_right (And.imp_right fun hfew => ?_)
  omega

end Turnstile
