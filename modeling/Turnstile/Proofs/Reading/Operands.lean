import Mathlib
import Turnstile.Printing.Polish
import Turnstile.Proofs.Reading.Vocabulary
import Turnstile.Reading.Operands

/-! Reading with operators first, by the count of the operands needed. The count is the state of
the recognizer as long as that has moves, and among the tokens of the dialect it has none just
where the count has come to nothing. So the count tells the outcome; and the symbols of a formula
in Polish order are read back, for they need no operand behind the last of them. -/
namespace Turnstile

open Grammar Reading

namespace Recognizer

variable {used more tokens : List Token} {token : Token} {state : Nat}

theorem step_polish {needed next : Nat} {kind : Kind}
    (h : Recognizer.polish.step needed kind = some next) :
    (next : Int) = needed + kind.demand := by
  rcases needed with _ | needed
  · cases h
  · rcases kind with _ | (_ | _) | _ | _ | _ | _ | _ <;> cases h <;>
      simp only [Kind.demand] <;> omega

theorem run_polish {needed : Nat} (h : Recognizer.polish.run needed tokens = some state) :
    tokens.foldl (fun needed token => needed + token.kind.demand) (needed : Int) = state := by
  induction tokens generalizing needed with
  | nil =>
    cases h
    rfl
  | cons token rest ih =>
    cases hstep : Recognizer.polish.step needed token.kind with
    | none =>
      rw [run, hstep] at h
      cases h
    | some next =>
      rw [run_cons hstep] at h
      rw [List.foldl_cons, ← step_polish hstep]
      exact ih h

/-- As long as there are moves, the state is the count. -/
theorem operandsNeeded_of_run (h : Recognizer.polish.run 1 tokens = some state) :
    operandsNeeded tokens = state := run_polish h

theorem step_polish_ne_none {needed : Nat} (of : token.IsOf .reversePolish) :
    Recognizer.polish.step (needed + 1) token.kind ≠ none := by
  have hallowed := of.allows
  cases hkind : token.kind with
  | literal => exact Option.some_ne_none _
  | unary op =>
    cases op with
    | negation => exact Option.some_ne_none _
    | modal modality => rw [hkind] at hallowed; cases modality <;> cases hallowed
  | binary op => exact Option.some_ne_none _
  | judgment j => rw [hkind] at hallowed; cases j <;> cases hallowed
  | _ => rw [hkind] at hallowed; cases hallowed

/-- Behind a part of the tokens the recognizer needs operands, unless the part is the whole. -/
theorem exists_run_of_append (h : Recognizer.polish.run 1 (used ++ more) = some state) :
    ∃ needed, Recognizer.polish.run 1 used = some needed ∧ (needed = 0 → more = []) := by
  rw [run_append] at h
  obtain ⟨needed, hused, hmore⟩ := Option.bind_eq_some_iff.mp h
  refine ⟨needed, hused, ?_⟩
  rintro rfl
  cases more with
  | nil => rfl
  | cons token rest => cases hmore

end Recognizer

variable {tokens used used' more more' : List Token} {state : Nat}

theorem firstMet_of_run (h : Recognizer.polish.run 1 tokens = some 0) : FirstMet tokens where
  met := Recognizer.operandsNeeded_of_run h
  first := by
    rintro used more rfl hmore hmet
    obtain ⟨needed, hused, hlast⟩ := Recognizer.exists_run_of_append h
    rw [Recognizer.operandsNeeded_of_run hused] at hmet
    exact hmore (hlast (by omega))

theorem neverMet_of_run (h : Recognizer.polish.run 1 tokens = some state) (open_ : state ≠ 0) :
    NeverMet tokens := by
  rintro used more rfl hmet
  obtain ⟨needed, hused, hlast⟩ := Recognizer.exists_run_of_append h
  have hneeded := Recognizer.operandsNeeded_of_run hused
  obtain rfl := hlast (by omega)
  rw [List.append_nil] at h
  have hstate := Recognizer.operandsNeeded_of_run h
  omega

/-- Only one start of the tokens meets the need for the first time. -/
theorem FirstMet.unique (h : FirstMet used) (h' : FirstMet used')
    (same : used ++ more = used' ++ more') : used = used' := by
  rcases List.append_eq_append_iff.mp same with ⟨between, rfl, -⟩ | ⟨between, rfl, -⟩
  · by_cases hnil : between = []
    · rw [hnil, List.append_nil]
    · exact absurd h.met (h'.first used between rfl hnil)
  · by_cases hnil : between = []
    · rw [hnil, List.append_nil]
    · exact absurd h'.met (h.first used' between rfl hnil)

theorem FirstMet.not_neverMet (h : FirstMet used) : ¬ NeverMet (used ++ more) :=
  fun never => never used more rfl h.met

/-- The outcomes of reading with operators first, and what the count says where they occur. -/
theorem ofPolishText_outcome (frames : Nat) {source : String}
    (scanned : Token.scan .reversePolish source = .ok tokens) (nonempty : tokens ≠ [])
    (shallow : Formula.ofPolishText frames .reversePolish source ≠ .error (tooDeep source)) :
    (∃ f, Formula.ofPolishText frames .reversePolish source = .ok f ∧ DerivesPolish tokens f ∧
      FirstMet tokens) ∨
    (∃ used token rest, tokens = used ++ token :: rest ∧ FirstMet used ∧
      Formula.ofPolishText frames .reversePolish source =
        .error (.refused ⟨.trailing token.text, some token.position, source⟩)) ∨
    NeverMet tokens ∧ Formula.ofPolishText frames .reversePolish source =
      .error (.refused ⟨.endOfInput, some source.length, source⟩) := by
  rcases ofText_cases scanned nonempty (complete_polish_ends frames (named_start scanned)) with
    ⟨f, hok, derives⟩ | ⟨hdeep, -⟩ | ⟨e, herror, rejects⟩
  · exact .inl ⟨f, hok, derives, firstMet_of_run (derives.run 0)⟩
  · exact absurd hdeep shallow
  · cases rejects with
    | atEnd hrun unfinished => exact .inr (.inr ⟨neverMet_of_run hrun unfinished, herror⟩)
    | @atToken used rest token state split hrun stuck =>
      -- a token of the dialect is stuck only where no operand is needed
      obtain rfl : state = 0 := by
        rcases state with _ | needed
        · rfl
        · have hof := Token.isOf_of_scan scanned token (by simp [split])
          exact absurd stuck (Recognizer.step_polish_ne_none hof)
      exact .inr (.inl ⟨used, token, rest, split, firstMet_of_run hrun, herror⟩)

theorem Formula.length_toPolish (f : Formula) : f.toPolish.length = f.size := by
  induction f with
  | atom name => rfl
  | unary op operand ih => rw [toPolish_unary, List.length_cons, ih, size]
  | binary op left right ihl ihr =>
    rw [toPolish_binary, List.length_cons, List.length_append, ihl, ihr, size]

theorem Grammar.DerivesPolish.length {f : Formula} (h : DerivesPolish tokens f) :
    tokens.length = f.size := by
  rw [← f.length_toPolish, ← List.length_map symbol?, h, List.length_map]

/-- A symbol that can be written in the dialect of formulas operator first. -/
def Symbol.Writable : Symbol → Prop
  | .atom name => Spelling.isLiteral name = true
  | .unary op => op = .negation
  | .binary _ => True

theorem Formula.writable_of_mem_toPolish {f : Formula} (classical : f.IsClassical)
    (spellable : f.Spellable) : ∀ symbol ∈ f.toPolish, symbol.Writable := by
  induction f with
  | atom name => exact List.forall_mem_singleton.mpr (spellable name rfl)
  | unary op operand ih =>
    cases op with
    | negation =>
      rw [toPolish_unary]
      exact List.forall_mem_cons.mpr ⟨rfl, ih classical spellable⟩
    | modal modality => cases classical
  | binary op left right ihl ihr =>
    obtain ⟨hleft, hright⟩ := Option.or_eq_none_iff.mp classical
    rw [toPolish_binary, List.forall_mem_cons, List.forall_mem_append]
    exact ⟨trivial, ihl hleft fun name hname => spellable name (.inl hname),
      ihr hright fun name hname => spellable name (.inr hname)⟩

variable {g : Glyphs} {gap : String} {f : Formula}

/-- The text for a symbol is one token, which stands for that symbol. -/
theorem prints_ofSymbol (spelled : g.Spelled) {symbol : Symbol} (writable : symbol.Writable) :
    Prints .reversePolish (g.ofSymbol symbol) fun tokens => tokens.map symbol? = [some symbol] := by
  cases symbol with
  | atom name =>
    apply (prints_spelling (s := ⟨name, [], .literal⟩) (.inr ⟨rfl, rfl, writable⟩) rfl).mono
    rintro _ ⟨position, rfl⟩
    exact DerivesPolish.literal rfl rfl
  | unary op =>
    cases writable
    apply (prints_symbol rfl (spelled.unary .negation)).mono
    rintro _ ⟨token, rfl, hkind⟩
    simp only [List.map_singleton, symbol?, hkind]
  | binary op =>
    apply (prints_symbol (by cases op <;> rfl) (spelled.connective op)).mono
    rintro _ ⟨token, rfl, hkind⟩
    simp only [List.map_singleton, symbol?, hkind]

theorem prints_symbols (spelled : g.Spelled) (blank : ∀ c ∈ gap.toList, Text.isBlank c = true)
    {symbols : List Symbol} (writable : ∀ symbol ∈ symbols, symbol.Writable) :
    Prints .reversePolish (gap.intercalate (symbols.map g.ofSymbol))
      fun tokens => tokens.map symbol? = symbols.map some := by
  induction symbols with
  | nil =>
    have hempty : Prints .reversePolish "" (· = []) := prints_gap (by simp)
    exact hempty.mono fun _ hnil => congrArg (List.map symbol?) hnil
  | cons symbol rest ih =>
    obtain ⟨hsymbol, hrest⟩ := List.forall_mem_cons.mp writable
    have hfirst := prints_ofSymbol spelled hsymbol
    cases rest with
    | nil => rwa [List.map_singleton, String.intercalate_singleton]
    | cons next rest =>
      rw [List.map_cons, List.map_cons, String.intercalate_cons_cons]
      have hspaced : Prints .reversePolish (g.ofSymbol symbol ++ gap)
          fun tokens => tokens.map symbol? = [some symbol] := by
        apply hfirst.append (prints_gap blank)
        rintro tokens _ hone rfl
        rwa [List.append_nil]
      apply hspaced.append (ih hrest)
      intro tokens later hone hlater
      rw [List.map_append, hone, hlater]
      rfl

/-- A formula with its operators first is read back, given frames enough for its size. -/
theorem ofPolishText_polishText (frames : Nat) (spelled : g.Spelled)
    (blank : ∀ c ∈ gap.toList, Text.isBlank c = true) (classical : f.IsClassical)
    (spellable : f.Spellable) :
    Formula.ofPolishText frames .reversePolish (f.polishText g gap) = .ok f ∨
      Formula.ofPolishText frames .reversePolish (f.polishText g gap) =
        .error (tooDeep (f.polishText g gap)) ∧ frames ≤ 2 * f.size + 1 := by
  have hprints := prints_symbols spelled blank (f.writable_of_mem_toPolish classical spellable)
  obtain ⟨tokens, hspelled, hsymbols⟩ := hprints 0
  have derives : DerivesPolish tokens f := hsymbols
  have hscan : Token.scan .reversePolish (f.polishText g gap) = .ok tokens :=
    hspelled.scanFrom_eq _
  have nonempty : tokens ≠ [] := by
    have hpos := f.size_pos
    rw [← derives.length] at hpos
    exact List.length_pos_iff.mp hpos
  rw [← derives.length]
  exact ofText_of_written hscan nonempty (complete_polish_ends frames (named_start hscan))
    (derives.run 0) fun _ hother => hother.unique derives

/-- Where the count of the operands needed comes to nothing, the formula ends: there the text has
to end as well. A formula that is written operator first is read back, whatever the gaps between
its symbols. -/
theorem ofPolishText_counts (frames : Nat) :
    (∀ source tokens, Token.scan .reversePolish source = .ok tokens → tokens ≠ [] →
      Formula.ofPolishText frames .reversePolish source ≠ .error (tooDeep source) →
      (FirstMet tokens → ∃ f, Formula.ofPolishText frames .reversePolish source = .ok f ∧
        f.IsClassical ∧ DerivesPolish tokens f ∧ ∀ other, DerivesPolish tokens other → other = f) ∧
      (∀ used token rest, tokens = used ++ token :: rest → FirstMet used →
        Formula.ofPolishText frames .reversePolish source =
          .error (.refused ⟨.trailing token.text, some token.position, source⟩)) ∧
      (NeverMet tokens → Formula.ofPolishText frames .reversePolish source =
        .error (.refused ⟨.endOfInput, some source.length, source⟩)) ∧
      ∀ fault, Formula.ofPolishText frames .reversePolish source = .error fault →
        NeverMet tokens ∨ ∃ used token rest, tokens = used ++ token :: rest ∧ FirstMet used) ∧
    ∀ (g : Glyphs) (gap : String) (f : Formula), g.Spelled →
      (∀ c ∈ gap.toList, Text.isBlank c = true) → f.IsClassical → f.Spellable →
      (Formula.ofPolishText frames .reversePolish (f.polishText g gap) = .ok f ∨
        Formula.ofPolishText frames .reversePolish (f.polishText g gap) =
          .error (tooDeep (f.polishText g gap))) ∧
      (2 * f.size + 1 < frames →
        Formula.ofPolishText frames .reversePolish (f.polishText g gap) = .ok f) := by
  constructor
  · intro source tokens scanned nonempty shallow
    rcases ofPolishText_outcome frames scanned nonempty shallow with
      ⟨f, hok, derives, hmet⟩ | ⟨used, token, rest, rfl, hmet, herror⟩ | ⟨hnever, herror⟩
    · have hclassical := (derives.printable (Token.isOf_of_scan scanned)).classical_of_reversePolish
      refine ⟨fun _ => ?_, ?_, fun never => ?_, fun fault h => ?_⟩
      · exact ⟨f, hok, hclassical.isClassical, derives, fun _ hother => hother.unique derives⟩
      · rintro used token rest rfl hused
        exact absurd hused.met (hmet.first used _ rfl (List.cons_ne_nil _ _))
      · exact absurd hmet.met (never tokens [] (List.append_nil _).symm)
      · cases hok.symm.trans h
    · refine ⟨fun h => ?_, ?_, fun never => absurd never hmet.not_neverMet, fun _ _ => ?_⟩
      · exact absurd hmet.met (h.first used _ rfl (List.cons_ne_nil _ _))
      · intro used' token' rest' split hused
        obtain rfl := hmet.unique hused split
        obtain ⟨rfl, rfl⟩ := List.cons.inj (List.append_cancel_left split)
        exact herror
      · exact .inr ⟨used, token, rest, rfl, hmet⟩
    · refine ⟨fun h => ?_, ?_, fun _ => herror, fun _ _ => .inl hnever⟩
      · exact absurd h.met (hnever tokens [] (List.append_nil _).symm)
      · rintro used token rest rfl hused
        exact absurd hnever hused.not_neverMet
  · intro g gap f spelled blank classical spellable
    have hread := ofPolishText_polishText frames spelled blank classical spellable
    refine ⟨hread.imp_right And.left, fun hframes => hread.resolve_right ?_⟩
    rintro ⟨-, hfew⟩
    omega

def denial : Formula := .binary .conditional (.unary .negation (.atom 'p')) (.atom 'q')

def leftOverTokens : List Token := [⟨.literal, "p", 0⟩, ⟨.literal, "q", 2⟩]

/-- A formula is read back from its symbols; a second literal is left over. -/
theorem ofPolishText_counts_denial :
    denial.polishText .ascii " " = "-> ~ p q" ∧
    Formula.ofPolishText 1000 .reversePolish "-> ~ p q" = .ok denial ∧
    Token.scan .reversePolish "p q" = .ok leftOverTokens ∧ FirstMet (leftOverTokens.take 1) ∧
    Formula.ofPolishText 1000 .reversePolish "p q" =
      .error (.refused ⟨.trailing "q", some 2, "p q"⟩) := by
  obtain ⟨hcounts, hback⟩ := ofPolishText_counts 1000
  have htext : denial.polishText .ascii " " = "-> ~ p q" := by cbv
  have hspellable : denial.Spellable := by
    rintro name (rfl | rfl) <;> rfl
  have hblank : ∀ c ∈ " ".toList, Text.isBlank c = true := List.forall_mem_singleton.mpr rfl
  have hread := (hback .ascii " " denial Glyphs.spelled_ascii hblank rfl hspellable).2 (by decide)
  rw [htext] at hread
  have hscan : Token.scan .reversePolish "p q" = .ok leftOverTokens := by cbv
  have hshallow : Formula.ofPolishText 1000 .reversePolish "p q" ≠ .error (tooDeep "p q") := by
    have herror : Formula.ofPolishText 1000 .reversePolish "p q" =
        .error (.refused ⟨.trailing "q", some 2, "p q"⟩) := by cbv
    rw [herror]
    intro h
    cases h
  have hmet : FirstMet (leftOverTokens.take 1) := by
    refine ⟨rfl, fun used more split hmore => ?_⟩
    cases used with
    | nil => decide
    | cons token rest =>
      have hlength := congrArg List.length split
      have hpos := List.length_pos_iff.mpr hmore
      rw [List.length_append, List.length_cons] at hlength
      change 1 = _ at hlength
      omega
  have htrailing := (hcounts "p q" leftOverTokens hscan (List.cons_ne_nil _ _) hshallow).2.1
    (leftOverTokens.take 1) ⟨.literal, "q", 2⟩ [] rfl hmet
  exact ⟨htext, hread, hscan, hmet, htrailing⟩

end Turnstile
