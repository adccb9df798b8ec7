import Turnstile.Proofs.Token.Spelled
import Turnstile.Token.Extent

/-! Scanning in a dialect follows the scan that allows every kind of token, up to the first
offence. The text before that place is scanned as before, since no spelling begins another one. -/
namespace Turnstile

theorem Dialect.every_allows (kind : Kind) : every.allows kind = true :=
  decide_eq_true kind.mem_all

namespace Token

variable {dialect : Dialect} {source : String} {position place : Nat} {cs : List Char}
  {token : Token} {full : Extent}

namespace Extent

def within (full : Extent) (dialect : Dialect) (source : String) :
    Except SyntaxError (List Token) :=
  match full.tokens.find? fun token => !dialect.allows token.kind with
  | some token => .error ⟨.notAllowed token.text dialect.name, some token.position, source⟩
  | none => full.outcome source

theorem within_cons_of_allows (allowed : dialect.allows token.kind = true) :
    (cons token full).within dialect source =
      (full.within dialect source).map (token :: ·) := by
  have hfind : (token :: full.tokens).find? (fun token => !dialect.allows token.kind) =
      full.tokens.find? fun token => !dialect.allows token.kind :=
    List.find?_cons_of_neg (by simp [allowed])
  simp only [within, cons, hfind]
  cases full.tokens.find? fun token => !dialect.allows token.kind with
  | some token => rfl
  | none =>
    simp only [outcome]
    cases full.stop <;> rfl

theorem within_cons_of_not_allows (forbidden : ¬dialect.allows token.kind = true) :
    (cons token full).within dialect source =
      .error ⟨.notAllowed token.text dialect.name, some token.position, source⟩ := by
  have hfind : (token :: full.tokens).find? (fun token => !dialect.allows token.kind) =
      some token := List.find?_cons_of_pos (by simp [forbidden])
  simp only [within, cons, hfind]

theorem within_of_allows (allowed : ∀ token ∈ full.tokens, dialect.allows token.kind = true) :
    full.within dialect source = full.outcome source := by
  have hfind : full.tokens.find? (fun token => !dialect.allows token.kind) = none :=
    List.find?_eq_none.mpr fun token hmem => by simp [allowed token hmem]
  simp only [within, hfind]

/-- Every offence is the first token that is forbidden, or stands behind it, if there is one. -/
theorem Offence.after {before after : List Token} {detail : String}
    (sorted : full.places.Pairwise (· < ·)) (htokens : full.tokens = before ++ token :: after)
    (hbefore : ∀ earlier ∈ before, dialect.allows earlier.kind = true)
    (offence : Offence dialect full detail place) :
    token.position < place ∨
      detail = Text.quote token.text ++ " is not allowed in " ++ dialect.name ++ " formulas" ∧
        place = token.position := by
  rw [places, htokens, List.map_append, List.append_assoc, List.map_cons, List.cons_append]
    at sorted
  have hlater := (List.pairwise_cons.mp (List.pairwise_append.mp sorted).2.1).1
  cases offence with
  | @token other hother forbidden =>
    rw [htokens] at hother
    rcases List.mem_append.mp hother with hmem | hmem
    · rw [hbefore other hmem] at forbidden
      cases forbidden
    · rcases List.mem_cons.mp hmem with rfl | hmem
      · exact .inr ⟨rfl, rfl⟩
      · exact .inl (hlater _ (List.mem_append_left _ (List.mem_map_of_mem hmem)))
  | character stop =>
    exact .inl (hlater _ (List.mem_append_right _ (by simp [stop])))

/-- In the order of the text there is a first offence, and it is the one reported. -/
theorem exists_first_offence (sorted : full.places.Pairwise (· < ·))
    (offended : ¬full.Suits dialect) (source : String) :
    ∃ refusal place, Offence dialect full refusal.detail place ∧
      (∀ detail place', Offence dialect full detail place' →
        place < place' ∨ detail = refusal.detail ∧ place' = place) ∧
      full.within dialect source = .error ⟨refusal, some place, source⟩ := by
  cases hfind : full.tokens.find? fun token => !dialect.allows token.kind with
  | some token =>
    obtain ⟨hforbidden, before, after, htokens, hbefore⟩ :=
      List.find?_eq_some_iff_append.mp hfind
    simp only [Bool.not_eq_true', Bool.not_not] at hforbidden hbefore
    refine ⟨.notAllowed token.text dialect.name, token.position,
      .token (List.mem_of_find?_eq_some hfind) hforbidden,
      fun _ _ offence => offence.after sorted htokens hbefore, ?_⟩
    simp only [within, hfind]
  | none =>
    have allowed : ∀ token ∈ full.tokens, dialect.allows token.kind = true := by
      simpa using hfind
    cases hstop : full.stop with
    | none => exact absurd ⟨allowed, hstop⟩ offended
    | some stopped =>
      obtain ⟨c, place⟩ := stopped
      refine ⟨.unrecognized c, place, .character hstop, fun detail place' offence => .inr ?_, ?_⟩
      · cases offence with
        | token mem forbidden =>
          rw [allowed _ mem] at forbidden
          cases forbidden
        | character stop =>
          cases hstop.symm.trans stop
          exact ⟨rfl, rfl⟩
      · rw [within_of_allows allowed, outcome, hstop]

end Extent

/-- A dialect only ends the scan early. -/
theorem scanFrom_eq_within (dialect : Dialect) (source : String) (position : Nat)
    (cs : List Char) :
    scanFrom dialect source position cs = (extentFrom position cs).within dialect source := by
  fun_induction scanFrom dialect source position cs with
  | case1 position => rw [extentFrom]; rfl
  | case2 position c rest hblank ih => rw [extentFrom, if_pos hblank, ih]
  | case3 position c rest hblank hstart =>
    rw [extentFrom, if_neg hblank, hstart]
    rfl
  | case4 position c rest hblank spelling hstart hallowed ih =>
    rw [extentFrom, if_neg hblank, hstart, ih]
    dsimp only
    rw [Extent.within_cons_of_allows hallowed]
    cases (extentFrom (position + spelling.length)
      (rest.drop spelling.others.length)).within dialect source <;> rfl
  | case5 position c rest hblank spelling hstart hforbidden =>
    rw [extentFrom, if_neg hblank, hstart]
    dsimp only
    rw [Extent.within_cons_of_not_allows hforbidden]

theorem extentFrom_spelling {spelling : Spelling} (known : spelling.IsKnown) (position : Nat)
    (rest : List Char) :
    extentFrom position (spelling.letters ++ rest) =
      .cons ⟨spelling.kind, spelling.text, position⟩
        (extentFrom (position + spelling.length) rest) := by
  have hstart := known.atStart?_append rest
  have hdrop : (spelling.others ++ rest).drop spelling.others.length = rest := List.drop_left
  simp only [Spelling.letters, List.cons_append] at hstart ⊢
  rw [extentFrom, if_neg (by simp [known.first_not_blank]), hstart]
  simp only [hdrop]

theorem le_of_mem_places (h : place ∈ (extentFrom position cs).places) : position ≤ place := by
  fun_induction extentFrom position cs with
  | case1 => simp [Extent.places] at h
  | case2 position c rest hblank ih => exact Nat.le_of_succ_le (ih h)
  | case3 => simp_all [Extent.places]
  | case4 position c rest hblank spelling hstart ih =>
    rcases List.mem_cons.mp h with rfl | h
    · exact Nat.le_refl _
    · exact Nat.le_of_add_right_le (ih h)

theorem places_pairwise (position : Nat) (cs : List Char) :
    (extentFrom position cs).places.Pairwise (· < ·) := by
  fun_induction extentFrom position cs with
  | case1 => exact .nil
  | case2 position c rest hblank ih => exact ih
  | case3 position c rest => exact List.pairwise_singleton _ _
  | case4 position c rest hblank spelling hstart ih =>
    refine List.pairwise_cons.mpr ⟨fun place hplace => ?_, ih⟩
    have hle := le_of_mem_places hplace
    have hpos : 0 < spelling.length := Nat.succ_pos _
    dsimp only
    omega

theorem position_mem_places (h : token ∈ full.tokens) : token.position ∈ full.places :=
  List.mem_append_left _ (List.mem_map_of_mem h)

/-- No token stands before the position from which the scan starts. -/
theorem filter_before_eq_nil (position : Nat) (cs : List Char) :
    ((extentFrom position cs).tokens.filter fun token => token.position < position) = [] := by
  refine List.filter_eq_nil_iff.mpr fun token hmem => ?_
  have hle := le_of_mem_places (position_mem_places hmem)
  simpa using hle

/-- The text before one of the places holds just the tokens before it. -/
theorem extentFrom_take {n : Nat} (h : position + n ∈ (extentFrom position cs).places) :
    extentFrom position (cs.take n) =
      ⟨(extentFrom position cs).tokens.filter fun token => token.position < position + n,
        none⟩ := by
  fun_induction extentFrom position cs generalizing n with
  | case1 => simp [Extent.places] at h
  | case2 position c rest hblank ih =>
    have hle := le_of_mem_places h
    obtain ⟨m, rfl⟩ : ∃ m, n = m + 1 := ⟨n - 1, by omega⟩
    have hplace : position + (m + 1) = position + 1 + m := by omega
    rw [hplace] at h ⊢
    rw [List.take_succ_cons, extentFrom, if_pos hblank, ih h]
  | case3 position c rest hblank hstart =>
    have hn : n = 0 := by simpa [Extent.places] using h
    subst hn
    rw [List.take_zero, extentFrom]
    rfl
  | case4 position c rest hblank spelling hstart ih =>
    rcases List.mem_cons.mp h with h | h
    · have hn : n = 0 := by simpa using h
      subst hn
      have hbefore := filter_before_eq_nil position (c :: rest)
      rw [extentFrom, if_neg hblank, hstart] at hbefore
      rw [List.take_zero, extentFrom]
      exact congrArg (Extent.mk · none) hbefore.symm
    · -- the place is behind the first token, so the shorter text has the spelling too
      have hle := le_of_mem_places h
      obtain ⟨m, rfl⟩ : ∃ m, n = spelling.length + m := ⟨n - spelling.length, by omega⟩
      obtain ⟨known, hprefix⟩ := Spelling.isKnown_of_atStart? hstart
      have hlength : spelling.length = spelling.letters.length := rfl
      have htake : (c :: rest).take (spelling.length + m) =
          spelling.letters ++ (rest.drop spelling.others.length).take m := by
        rw [← Spelling.letters_append_drop hprefix, hlength, List.take_length_add_append]
      have hfirst : position < position + spelling.length + m :=
        Nat.lt_add_right m (Nat.lt_add_of_pos_right (Nat.succ_pos _))
      rw [← Nat.add_assoc] at h ⊢
      rw [htake, extentFrom_spelling known, ih h]
      simp only [Extent.cons, List.filter_cons, hfirst, decide_true, if_true]

/-- The place of an offence is one of the places. -/
theorem Extent.Offence.mem_places {detail : String} (h : Offence dialect full detail place) :
    place ∈ full.places := by
  cases h with
  | token mem => exact position_mem_places mem
  | character stop => exact List.mem_append_right _ (by simp [stop])

theorem scan_eq_within (dialect : Dialect) (source : String) :
    scan dialect source = (extent source).within dialect source :=
  scanFrom_eq_within dialect source 0 source.toList

theorem scan_every (source : String) : scan .every source = (extent source).outcome source :=
  (scan_eq_within .every source).trans
    (Extent.within_of_allows fun token _ => Dialect.every_allows token.kind)

/-- The text before one of its places, in a dialect that allows the tokens there. -/
theorem scan_take (h : place ∈ (extent source).places)
    (allowed : ∀ token ∈ (extent source).tokens, token.position < place →
      dialect.allows token.kind = true) :
    scan dialect (String.ofList (source.toList.take place)) =
      .ok ((extent source).tokens.filter fun token => token.position < place) := by
  have htake := @extentFrom_take 0 source.toList place (by rwa [Nat.zero_add])
  rw [Nat.zero_add] at htake
  rw [scan_eq_within, extent, String.toList_ofList, htake, Extent.within_of_allows]
  · rfl
  · intro token hmem
    obtain ⟨hmem, hbefore⟩ := List.mem_filter.mp hmem
    exact allowed token hmem (of_decide_eq_true hbefore)

/-- A dialect ends the scan of a text at its first offence, and has all the tokens of a text in
which nothing offends it. The text before the offence has just the tokens that stand there. -/
theorem scan_ends_at_first_offence (dialect : Dialect) (source : String) :
    scan .every source = (extent source).outcome source ∧
    ((extent source).Suits dialect → scan dialect source = .ok (extent source).tokens) ∧
    (¬(extent source).Suits dialect →
      ∃ refusal place, (extent source).Offence dialect refusal.detail place ∧
        (∀ detail place', (extent source).Offence dialect detail place' →
          place < place' ∨ detail = refusal.detail ∧ place' = place) ∧
        scan dialect source = .error ⟨refusal, some place, source⟩ ∧
        scan dialect (String.ofList (source.toList.take place)) =
          .ok ((extent source).tokens.filter fun token => token.position < place)) := by
  refine ⟨scan_every source, fun ⟨allowed, hstop⟩ => ?_, fun offended => ?_⟩
  · rw [scan_eq_within, Extent.within_of_allows allowed, Extent.outcome, hstop]
  · obtain ⟨refusal, place, offence, first, hwithin⟩ :=
      Extent.exists_first_offence (places_pairwise 0 source.toList) offended source
    refine ⟨refusal, place, offence, first, (scan_eq_within _ _).trans hwithin, ?_⟩
    refine scan_take offence.mem_places fun token hmem hbefore => ?_
    cases hforbidden : dialect.allows token.kind with
    | true => rfl
    | false =>
      have hlater := first _ _ (.token hmem hforbidden)
      omega

/-- A text with a modality that the classical dialect has no signs for, before a character that
spells nothing. -/
def halfModal : String := "p ^ []q $"

theorem scan_halfModal :
    ¬(extent halfModal).Suits .classical ∧
    scan .classical halfModal = .error ⟨.notAllowed "[]" "classical", some 4, halfModal⟩ ∧
    scan .classical "p ^ " = .ok ((extent halfModal).tokens.take 2) := by
  have hstop : (extent halfModal).stop = some ('$', 8) := by cbv
  have offended : ¬(extent halfModal).Suits .classical := by
    rintro ⟨-, hnone⟩
    rw [hstop] at hnone
    cases hnone
  have hscan : scan .classical halfModal =
      .error ⟨.notAllowed "[]" "classical", some 4, halfModal⟩ := by cbv
  obtain ⟨refusal, place, -, -, herror, hbefore⟩ :=
    (scan_ends_at_first_offence .classical halfModal).2.2 offended
  cases hscan.symm.trans herror
  refine ⟨offended, hscan, ?_⟩
  have htokens : (extent halfModal).tokens.filter (fun token => token.position < 4) =
      (extent halfModal).tokens.take 2 := by cbv
  exact hbefore.trans (congrArg Except.ok htokens)

end Token

end Turnstile
