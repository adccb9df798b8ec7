import Turnstile.Proofs.Reading.Earliest
import Turnstile.Proofs.Reading.Frames
import Turnstile.Proofs.Reading.Nesting
import Turnstile.Proofs.Reading.Overlap

/-! Texts that lack frames. What is read as a formula by some number of frames is read as it by any
other, or the frames run out on the way; a sequent begins like a formula, so its reading then runs
out as well, though it starts one frame higher. -/
namespace Turnstile.Reading

open Grammar Cursor

variable {α : Type} {reading : Reading α} {frames frames' : Nat} {least : Int} {dialect : Dialect}
  {text : String} {tokens : List Token} {f g : Formula} {c c' c₁ : Cursor}

theorem formula_ok_or_outOfFrames (h : formula frames least c = .ok f c') (frames' : Nat) :
    formula frames' least c = .ok f c' ∨
      frames' < frames ∧ ∃ last, formula frames' least c = .error .outOfFrames last := by
  rcases Nat.lt_or_ge frames' frames with hlt | hle
  · rcases (refines_reading (Nat.le_of_lt hlt)).1 least c with hout | hsame
    · exact .inr ⟨hlt, hout⟩
    · exact .inl (hsame.symm.trans h)
  · rcases (refines_reading hle).1 least c with ⟨last, hout⟩ | hsame
    · cases h.symm.trans hout
    · exact .inl (hsame.trans h)

theorem sequent_outOfFrames (nonempty : c.ahead ≠ [])
    (unjudged : ∀ token ∈ c.ahead.head?, token.kind.judgment? = none)
    (h : formula (frames - 1) 1 c = .error .outOfFrames c') :
    ∃ last, sequent frames c = .error .outOfFrames last := by
  cases frames with
  | zero => exact ⟨c, rfl⟩
  | succ frames =>
    obtain ⟨token, rest, hahead⟩ := List.exists_cons_of_ne_nil nonempty
    have hjudgment : token.kind.judgment? = none := unjudged token (by simp [hahead])
    have hlist (budget : Nat) :
        commaSeparated (formula frames 1) budget c = .error .outOfFrames c' := by
      cases budget <;> exact bind_of_error h
    refine ⟨c', bind_of_error ?_⟩
    refine (bind_of_ok (peek_eq c)).trans ?_
    simp only [hahead, List.head?_cons, hjudgment]
    exact (bind_of_ok (countAhead_eq c)).trans (hlist _)

theorem ofText_of_outOfFrames (scanned : Token.scan dialect text = .ok tokens)
    (nonempty : tokens ≠ []) (h : reading (.start text tokens) = .error .outOfFrames c') :
    reading.ofText dialect text = .error (tooDeep text) := by
  obtain ⟨token, rest, rfl⟩ := List.exists_cons_of_ne_nil nonempty
  rw [ofText_eq_ofTokens scanned, ofTokens, h]
  rfl

/-- A text of a formula is read as that one frame deeper, or is nested too deeply for that and for a
reading as a sequent; but not if there are more frames than those that read it before. -/
theorem ofText_formula_or_tooDeep (h : Formula.ofText frames dialect text = .ok f)
    (frames' : Nat) : Formula.ofText (frames' - 1) dialect text = .ok f ∨
      frames' ≤ frames ∧ Formula.ofText (frames' - 1) dialect text = .error (tooDeep text) ∧
        Sequent.ofText frames' dialect text = .error (tooDeep text) := by
  obtain ⟨tokens, scanned, derives⟩ := Recognizer.governs_formula.written_of_ofText h
  have nonempty := derives.ne_nil
  obtain ⟨c', hcomplete⟩ := (ofText_eq_ok scanned nonempty).mp h
  obtain ⟨hread, hahead⟩ := complete_eq_ok.mp hcomplete
  rcases formula_ok_or_outOfFrames hread (frames' - 1) with hok | ⟨hfew, last, hout⟩
  · exact .inl ((ofText_eq_ok scanned nonempty).mpr ⟨c', complete_eq_ok.mpr ⟨hok, hahead⟩⟩)
  · have unjudged : ∀ token ∈ tokens.head?, token.kind.judgment? = none := by
      intro token hmem
      rw [Option.eq_none_iff_forall_ne_some]
      intro j hj
      exact derives.kind_ne_judgment (List.mem_of_mem_head? hmem) j (Kind.judgment?_eq_some.mp hj)
    obtain ⟨last', hsequent⟩ := sequent_outOfFrames nonempty unjudged hout
    exact .inr ⟨by omega, ofText_of_outOfFrames scanned nonempty (bind_of_error hout),
      ofText_of_outOfFrames scanned nonempty hsequent⟩

/-- More frames read what few do. -/
theorem ofText_formula_mono (more : frames ≤ frames')
    (h : Formula.ofText frames dialect text = .ok f) :
    Formula.ofText frames' dialect text = .ok f := by
  rcases ofText_formula_or_tooDeep h (frames' + 1) with hok | ⟨hfew, -⟩
  · exact hok
  · omega

/-- Tokens that are read as a formula by so many frames, and by no fewer. -/
structure Needs (frames : Nat) (tokens : List Token) (f : Formula) : Prop where
  enough : ReadsWithin frames tokens f
  least : ∀ few < frames, ∀ (strength : Int) (c c' : Cursor),
    strength ≤ Connective.conditional.strength → c.Takes tokens c' →
      ∃ last, formula few strength c = .error .outOfFrames last

theorem Needs.literal {token : Token} {name : Char} (hkind : token.kind = .literal)
    (htext : token.text = String.singleton name) : Needs 3 [token] (.atom name) where
  enough := .literal hkind htext
  least few hfew strength c c' _ takes := by
    have hterm : term 1 c = .error .outOfFrames c' := by
      rw [term_of_primary (by rw [hkind]; rfl) takes, primary]
      rfl
    rcases few with _ | _ | _ | few
    · exact ⟨c, rfl⟩
    · exact ⟨c, rfl⟩
    · exact ⟨c', bind_of_error hterm⟩
    · omega

/-- A conditional needs one frame more than its right operand. -/
theorem Needs.conditional {needed : Nat} {left right : List Token} {token : Token}
    (hkind : token.kind = .binary .conditional) (hleft : Reads .term left f)
    (short : 3 * left.length ≤ needed) (hright : Needs needed right g) :
    Needs (needed + 1) (left ++ token :: right) (.binary .conditional f g) where
  enough := .conditional hkind hleft short hright.enough
  least few hfew strength c c' hstrength takes := by
    cases few with
    | zero => exact ⟨c, rfl⟩
    | succ few =>
      obtain ⟨c₁, hc₁, htail⟩ := takes.split
      obtain ⟨c₂, hc₂, hc'⟩ := htail.split_cons
      have hterm := hleft (few + 3 * left.length) c c₁ (by omega) hc₁
      rcases (refines_reading (Nat.le_add_right few _)).2.1 c with ⟨last, hout⟩ | hsame
      · exact ⟨last, bind_of_error hout⟩
      · obtain ⟨last, hout⟩ := hright.least few (by omega) _ c₂ c' (Int.le_refl _) hc'
        refine ⟨last, ?_⟩
        rw [formula_of_term strength (hsame.symm.trans hterm), hc₂.length_succ,
          climb_of_connective _ f hkind hstrength hc₂]
        exact bind_of_error hout

theorem ofText_of_few {needed : Nat} (few : frames < needed)
    (scanned : Token.scan dialect text = .ok tokens) (h : Needs needed tokens f) :
    Formula.ofText frames dialect text = .error (tooDeep text) := by
  obtain ⟨last, hout⟩ := h.least frames few 1 (.start text tokens) ⟨text, tokens.reverse, []⟩
    (by decide) (Cursor.takes_start text tokens)
  exact ofText_of_outOfFrames scanned h.enough.ne_nil (bind_of_error hout)

end Turnstile.Reading
