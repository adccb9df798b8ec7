import Turnstile.Proofs.Token.Spelled
import Turnstile.Token.Layout

/-! A text has at most one layout, and scanning gives the tokens of that layout. A spelling
begins with no blank, so the gap before it is all that is blank there; what follows the gap
begins with one spelling only. -/
namespace Turnstile

variable {dialect dialect' : Dialect} {layout layout' : Layout} {position : Nat}
  {cs : List Char} {tokens : List Token}

theorem Token.Spelled.exists_layout (h : Spelled dialect position cs tokens) :
    ∃ layout : Layout, layout.Fits dialect ∧ layout.letters = cs ∧
      Piece.tokensFrom position layout.pieces = tokens := by
  induction h with
  | @blanks position gap blank => exact ⟨⟨[], gap⟩, ⟨nofun, blank⟩, rfl, rfl⟩
  | @token position gap rest spelling tokens blank known allowed _ ih =>
    obtain ⟨layout, fits, rfl, rfl⟩ := ih
    refine ⟨⟨⟨gap, spelling⟩ :: layout.pieces, layout.lastGap⟩, ⟨?_, fits.blank⟩, ?_, rfl⟩
    · exact List.forall_mem_cons.mpr ⟨⟨blank, known, allowed⟩, fits.pieces⟩
    · simp [Layout.letters, Piece.letters]

theorem Layout.spelled_pieces {pieces : List Piece} {gap : List Char}
    (fits : ∀ piece ∈ pieces, piece.Fits dialect) (blank : ∀ c ∈ gap, Text.isBlank c = true)
    (position : Nat) :
    Token.Spelled dialect position (pieces.flatMap Piece.letters ++ gap)
      (Piece.tokensFrom position pieces) := by
  induction pieces generalizing position with
  | nil => exact .blanks blank
  | cons piece rest ih =>
    obtain ⟨hpiece, hrest⟩ := List.forall_mem_cons.mp fits
    rw [List.flatMap_cons, List.append_assoc]
    exact .token hpiece.blank hpiece.known hpiece.allowed (ih hrest _)

theorem Layout.Fits.spelled (h : layout.Fits dialect) :
    Token.Spelled dialect 0 layout.letters layout.tokens :=
  Layout.spelled_pieces h.pieces h.blank 0

theorem Layout.letters_cons (piece : Piece) (rest : List Piece) (gap : List Char) :
    Layout.letters ⟨piece :: rest, gap⟩ = piece.letters ++ Layout.letters ⟨rest, gap⟩ := by
  simp [Layout.letters]

theorem Layout.Fits.tail {piece : Piece} {rest : List Piece} {gap : List Char}
    (h : Layout.Fits dialect ⟨piece :: rest, gap⟩) : Layout.Fits dialect ⟨rest, gap⟩ :=
  ⟨fun x hx => h.pieces x (List.mem_cons_of_mem piece hx), h.blank⟩

namespace Piece

variable {piece piece' : Piece} {more more' : List Char}

theorem Fits.takeWhile_append (h : piece.Fits dialect) (more : List Char) :
    (piece.letters ++ more).takeWhile Text.isBlank = piece.gap := by
  rw [letters, List.append_assoc, List.takeWhile_append_of_pos h.blank, Spelling.letters]
  simp [h.known.first_not_blank]

/-- Only one piece stands at the beginning of a text. -/
theorem Fits.unique (h : piece.Fits dialect) (h' : piece'.Fits dialect')
    (heq : piece.letters ++ more = piece'.letters ++ more') : piece = piece' ∧ more = more' := by
  have hgap : piece.gap = piece'.gap := by
    rw [← h.takeWhile_append more, heq, h'.takeWhile_append]
  simp only [letters, hgap, List.append_assoc, List.append_cancel_left_eq] at heq
  have hspelling : piece.spelling = piece'.spelling := by
    apply Option.some.inj
    rw [← h.known.atStart?_append more, heq, h'.known.atStart?_append]
  rw [hspelling, List.append_cancel_left_eq] at heq
  exact ⟨Piece.ext hgap hspelling, heq⟩

/-- A piece is not all blank. -/
theorem Fits.letters_append_ne (h : piece.Fits dialect) {gap : List Char}
    (blank : ∀ c ∈ gap, Text.isBlank c = true) : piece.letters ++ more ≠ gap := by
  rintro rfl
  have hblank := blank piece.spelling.first (by simp [letters, Spelling.letters])
  rw [h.known.first_not_blank] at hblank
  cases hblank

end Piece

/-- A text is laid out in one way only, whatever the dialects of the spellings. -/
theorem Layout.Fits.unique (h : layout.Fits dialect) (h' : layout'.Fits dialect')
    (heq : layout.letters = layout'.letters) : layout = layout' := by
  obtain ⟨pieces, gap⟩ := layout
  obtain ⟨pieces', gap'⟩ := layout'
  induction pieces generalizing pieces' with
  | nil =>
    cases pieces' with
    | nil => exact Layout.ext rfl heq
    | cons piece' rest' =>
      have hpiece' := h'.pieces piece' List.mem_cons_self
      rw [letters_cons] at heq
      exact absurd heq.symm (hpiece'.letters_append_ne h.blank)
  | cons piece rest ih =>
    have hpiece := h.pieces piece List.mem_cons_self
    rw [letters_cons] at heq
    cases pieces' with
    | nil => exact absurd heq (hpiece.letters_append_ne h'.blank)
    | cons piece' rest' =>
      rw [letters_cons] at heq
      obtain ⟨rfl, hmore⟩ := hpiece.unique (h'.pieces piece' List.mem_cons_self) heq
      have hrest := ih h.tail rest' h'.tail hmore
      simp only [Layout.mk.injEq] at hrest
      exact Layout.ext (congrArg (piece :: ·) hrest.1) hrest.2

/-- Dialects that allow all the tokens of a text agree on them. -/
theorem Token.scan_unique {source : String} {tokens' : List Token}
    (h : scan dialect source = .ok tokens) (h' : scan dialect' source = .ok tokens') :
    tokens = tokens' := by
  obtain ⟨layout, fits, hletters, rfl⟩ := (spelled_of_scanFrom h).exists_layout
  obtain ⟨layout', fits', hletters', rfl⟩ := (spelled_of_scanFrom h').exists_layout
  rw [fits.unique fits' (hletters.trans hletters'.symm)]

theorem Spelling.length_text (s : Spelling) : s.text.toList.length = s.length := by
  simp [text, letters, length]

namespace Token

variable {text gap part more : List Char}

theorem mem_of_getElem?_of_drop {place : Nat} {c : Char} (hdrop : text.drop position = part ++ more)
    (hplace : position ≤ place) (hlt : place < position + part.length)
    (hc : text[place]? = some c) : c ∈ part := by
  have hpart : (text.drop position)[place - position]? = some c := by
    rw [List.getElem?_drop, Nat.add_sub_cancel' hplace, hc]
  rw [hdrop, List.getElem?_append_left (by omega)] at hpart
  exact List.mem_of_getElem? hpart

theorem account_nil (hdrop : text.drop position = []) : Account position text [] where
  apart := .nil
  behind := nofun
  placed := nofun
  covered place c hplace hc := by
    rw [List.drop_eq_nil_iff] at hdrop
    rw [List.getElem?_eq_none (Nat.le_trans hdrop hplace)] at hc
    cases hc

theorem Account.behind_gap (h : Account (position + gap.length) text tokens)
    (blank : ∀ c ∈ gap, Text.isBlank c = true) (hdrop : text.drop position = gap ++ more) :
    Account position text tokens where
  apart := h.apart
  behind token hmem := Nat.le_trans (Nat.le_add_right _ _) (h.behind token hmem)
  placed := h.placed
  covered place c hplace hc := by
    by_cases hgap : place < position + gap.length
    · have hblank := blank c (mem_of_getElem?_of_drop hdrop hplace hgap hc)
      refine iff_of_false (by simp [hblank]) ?_
      rintro ⟨token, hmem, hcovers, -⟩
      have hbehind := h.behind token hmem
      omega
    · exact h.covered place c (Nat.le_of_not_lt hgap) hc

theorem Account.behind_spelling {spelling : Spelling}
    (h : Account (position + spelling.length) text tokens) (known : spelling.IsKnown)
    (hdrop : text.drop position = spelling.letters ++ more) :
    Account position text (⟨spelling.kind, spelling.text, position⟩ :: tokens) where
  apart := by
    refine List.pairwise_cons.mpr ⟨fun later hmem => ?_, h.apart⟩
    rw [Spelling.length_text]
    exact h.behind later hmem
  behind := List.forall_mem_cons.mpr ⟨Nat.le_refl _, fun token hmem =>
    Nat.le_trans (Nat.le_add_right _ _) (h.behind token hmem)⟩
  placed := by
    refine List.forall_mem_cons.mpr ⟨?_, h.placed⟩
    simp [hdrop, Spelling.text]
  covered place c hplace hc := by
    simp only [List.mem_cons, exists_eq_or_imp]
    rw [Covers, Spelling.length_text]
    have hlength : spelling.letters.length = spelling.length := rfl
    by_cases hspelling : place < position + spelling.length
    · have hmem := mem_of_getElem?_of_drop hdrop hplace (hlength ▸ hspelling) hc
      exact iff_of_true (known.not_blank c hmem) (.inl ⟨hplace, hspelling⟩)
    · rw [h.covered place c (Nat.le_of_not_lt hspelling) hc]
      simp [hspelling]

/-- Spelled tokens account for the text from their position on. -/
theorem Spelled.account (h : Spelled dialect position cs tokens)
    (hdrop : text.drop position = cs) : Account position text tokens := by
  induction h with
  | @blanks position gap blank =>
    have hend : text.drop (position + gap.length) = [] := by
      rw [← List.drop_drop, hdrop, List.drop_length]
    exact (account_nil hend).behind_gap blank (hdrop.trans (List.append_nil gap).symm)
  | @token position gap rest spelling tokens blank known _ _ ih =>
    rw [List.append_assoc] at hdrop
    have hspelling : text.drop (position + gap.length) = spelling.letters ++ rest := by
      rw [← List.drop_drop, hdrop, List.drop_left]
    have hrest : text.drop (position + gap.length + spelling.length) = rest := by
      rw [← List.drop_drop, hspelling]
      exact List.drop_left
    exact ((ih hrest).behind_spelling known hspelling).behind_gap blank hdrop

theorem account_of_scan {source : String} (scanned : scan dialect source = .ok tokens) :
    Account 0 source.toList tokens := (spelled_of_scanFrom scanned).account List.drop_zero

/-- Where a token stands, its spelling begins the rest of the text. -/
theorem exists_spelling_of_mem {source : String} {token : Token}
    (scanned : scan dialect source = .ok tokens) (hmem : token ∈ tokens) :
    ∃ (s : Spelling) (more : List Char), s.IsKnown ∧ token.kind = s.kind ∧
      source.toList.drop token.position = s.letters ++ more := by
  obtain ⟨s, known, -, hkind, htext⟩ := isOf_of_scan scanned token hmem
  obtain ⟨more, hmore⟩ := (account_of_scan scanned).placed token hmem
  rw [htext, Spelling.text, String.toList_ofList] at hmore
  exact ⟨s, more, known, hkind, hmore.symm⟩

/-- Scanning succeeds just on the texts that have a layout, with the tokens of the layout; there
is only one, and its tokens account for every character. -/
theorem scan_eq_ok_iff_exists_layout (dialect : Dialect) (source : String)
    (tokens : List Token) :
    (scan dialect source = .ok tokens ↔
      ∃ layout : Layout, layout.Fits dialect ∧ layout.letters = source.toList ∧
        layout.tokens = tokens) ∧
    (∀ (dialect' : Dialect) (layout layout' : Layout), layout.Fits dialect →
      layout'.Fits dialect' → layout.letters = source.toList →
      layout'.letters = source.toList → layout = layout') ∧
    (scan dialect source = .ok tokens → Account 0 source.toList tokens) := by
  refine ⟨⟨fun h => ?_, ?_⟩, fun _ _ _ h h' hl hl' => h.unique h' (hl.trans hl'.symm), fun h => ?_⟩
  · exact (spelled_of_scanFrom h).exists_layout
  · rintro ⟨layout, fits, hletters, rfl⟩
    exact (hletters ▸ fits.spelled).scanFrom_eq source
  · exact (spelled_of_scanFrom h).account List.drop_zero

def crowdedText : String := "<->v<>|/-[]|-  ,q"

def crowdedTokens : List Token :=
  [⟨.binary .biconditional, "<->", 0⟩, ⟨.binary .disjunction, "v", 3⟩,
    ⟨.unary (.modal .possibility), "<>", 4⟩, ⟨.judgment .doesNotProve, "|/-", 6⟩,
    ⟨.unary (.modal .necessity), "[]", 9⟩, ⟨.judgment .proves, "|-", 11⟩, ⟨.comma, ",", 15⟩,
    ⟨.literal, "q", 16⟩]

/-- Spellings that share their first characters need no blank between them. -/
theorem account_crowded : scan .modal crowdedText = .ok crowdedTokens ∧
    Account 0 crowdedText.toList crowdedTokens := by
  have hscan : scan .modal crowdedText = .ok crowdedTokens := by cbv
  exact ⟨hscan, (scan_eq_ok_iff_exists_layout .modal crowdedText crowdedTokens).2.2 hscan⟩

end Token

end Turnstile
