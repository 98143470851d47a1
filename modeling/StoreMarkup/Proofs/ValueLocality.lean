import StoreMarkup.Proofs.Scanning

/-! Expressions and attribute values end where they end whatever follows them: no scan of theirs
looks further. -/
namespace StoreMarkup

section Delimited

variable {s t r : Text}

theorem quotedTail_append {q : Quote} (h : quotedTail q s = some (t, r)) (r' : Text) :
    quotedTail q (t ++ r') = some (t, r') := by
  fun_induction quotedTail q s generalizing t with
  | case1 | case2 => cases h
  | case3 d ds ih =>
    obtain ⟨u, hu, rfl⟩ := afterText_eq_some.mp h
    simp [quotedTail, ih hu, afterText]
  | case4 cs hc =>
    cases h
    rw [quotedTail.eq_def]
    simp [hc]
  | case5 c cs hc hq ih =>
    obtain ⟨u, hu, rfl⟩ := afterText_eq_some.mp h
    rw [quotedTail.eq_def]
    simp [hc, hq, ih hu, afterText]

theorem expressionBody_append {depth : Nat} (h : expressionBody depth s = some (t, r)) (r' : Text) :
    expressionBody depth (t ++ '}' :: r') = some (t, r') := by
  fun_induction expressionBody depth s generalizing t with
  | case1 | case2 => cases h
  | case3 depth c cs q hq u rest hu ih =>
    obtain ⟨v, hv, rfl⟩ := afterText_eq_some.mp h
    rw [List.cons_append, List.cons_append, List.append_assoc, expressionBody.eq_def]
    simp only [hq]
    rw [quotedTail_append hu]
    simp [ih hv, afterText]
  | case4 depth cs hq ih =>
    obtain ⟨v, hv, rfl⟩ := afterText_eq_some.mp h
    rw [expressionBody.eq_def]
    simp [hq, ih hv, afterText]
  | case5 cs hq hc =>
    cases h
    rw [expressionBody.eq_def]
    simp [hq]
  | case6 cs depth hq hc ih =>
    obtain ⟨v, hv, rfl⟩ := afterText_eq_some.mp h
    rw [expressionBody.eq_def]
    simp [hq, ih hv, afterText]
  | case7 depth c cs hq hopen hclose ih =>
    obtain ⟨v, hv, rfl⟩ := afterText_eq_some.mp h
    rw [expressionBody.eq_def]
    simp [hq, hopen, hclose, ih hv, afterText]

theorem nestedTail_append {quote : Option Quote} {inner : Quote}
    (h : nestedTail quote inner s = some (t, r)) (r' : Text) :
    nestedTail quote inner (t ++ r') = some (t, r') := by
  fun_induction nestedTail quote inner s generalizing t with
  | case1 | case2 => cases h
  | case3 cs hc =>
    cases h
    simp [nestedTail, hc]
  | case4 c cs hc hq ih =>
    obtain ⟨u, hu, rfl⟩ := afterText_eq_some.mp h
    simp [nestedTail, hc, hq, ih hu, afterText]

theorem hashTail_append {quote : Option Quote} (h : hashTail quote s = some (t, r)) (r' : Text) :
    hashTail quote (t ++ '#' :: r') = some (t, r') := by
  fun_induction hashTail quote s generalizing t with
  | case1 | case3 | case4 => cases h
  | case2 cs =>
    cases h
    simp [hashTail]
  | case5 c cs hc hends inner hq u rest hu ih =>
    obtain ⟨v, hv, rfl⟩ := afterText_eq_some.mp h
    rw [List.cons_append, List.cons_append, List.append_assoc, hashTail, if_neg hc,
      if_neg hends, hq]
    simp only
    rw [nestedTail_append hu]
    simp [ih hv, afterText]
  | case6 c cs hc hends hq ih =>
    obtain ⟨v, hv, rfl⟩ := afterText_eq_some.mp h
    rw [List.cons_append, List.cons_append, hashTail, if_neg hc, if_neg hends, hq]
    simp [ih hv, afterText]

end Delimited

theorem afterDollar?_eq_none {c : Char} {cs : Text} :
    afterDollar? (c :: cs) = none ↔ (c = '$' → cs.head? ≠ some '{') := by
  constructor
  · rintro h rfl hcs
    obtain ⟨ds, rfl⟩ := List.head?_eq_some_iff.mp hcs
    cases h
  · intro h
    unfold afterDollar?
    split
    · rename_i hs
      cases hs
      exact (h rfl rfl).elim
    · rfl

/-- What comes first in a text that ends in one of two ways is the same, or it comes from the
ending. -/
theorem head?_append_imp {w e e' : Text} {c : Char} (h : e'.head? = some c → e.head? = some c)
    (hw : (w ++ e').head? = some c) : (w ++ e).head? = some c := by
  cases w with
  | nil => exact h hw
  | cons b w => exact hw

/-- Whether a value ends before a text: with its quote, or with what follows a value without
quotes. -/
def EndsValue (quote : Option Quote) : Text → Prop
  | [] => False
  | c :: cs => (valueEnd? quote c cs).isSome = true

section Value

variable {d : Dialect} {quote : Option Quote} {e e' : Text}

theorem endsValue_none {c : Char} {cs : Text} : EndsValue none (c :: cs) ↔
    (isBlank c = true ∨ c = '>') ∨ c = '/' ∧ cs.head? = some '>' := by
  simp [EndsValue, valueEnd?]

theorem endsValue_some (q : Quote) (r : Text) : EndsValue (some q) (q.char :: r) := by
  simp [EndsValue, valueEnd?]

/-- No hash expression and no string in one reaches over the end of a value. -/
theorem EndsValue.stops (h : EndsValue quote e) :
    hashTail quote e = none ∧ ∀ inner, nestedTail quote inner e = none := by
  cases e with
  | nil => cases h
  | cons c cs =>
    cases quote with
    | some q =>
      obtain rfl : c = q.char := by simpa [EndsValue, valueEnd?] using h
      cases q <;> simp [hashTail, nestedTail, endsHash, Quote.char]
    | none =>
      rcases endsValue_none.mp h with hc | ⟨rfl, hcs⟩
      · have hends : endsHash none c = true := by simpa [endsHash] using hc
        have hhash : c ≠ '#' := by
          rintro rfl
          revert hends
          decide
        simp [hashTail, nestedTail, hends, hhash]
      · obtain ⟨ds, rfl⟩ := List.head?_eq_some_iff.mp hcs
        have hslash : endsHash none '/' = false := by decide
        have hbracket : endsHash none '>' = true := by decide
        have hrest : hashTail none ('>' :: ds) = none := by simp [hashTail, hbracket]
        refine ⟨?_, ?_⟩
        · rw [hashTail.eq_def]
          simp [hslash, hrest, Quote.ofChar?, afterText]
        · intro inner
          cases inner <;> simp [nestedTail, hslash, hbracket, Quote.char, afterText]

/-- Where a text goes on with the end of the value, a string inside is looked for in the text
only. -/
theorem nestedTail_of_ends (h : EndsValue quote e) (inner : Quote) (w : Text) :
    nestedTail quote inner (w ++ e) =
      (nestedTail quote inner w).map fun (t, rest) => (t, rest ++ e) := by
  induction w with
  | nil => simpa [nestedTail] using h.stops.2 inner
  | cons c w ih =>
    rw [List.cons_append, nestedTail, nestedTail, ih]
    split
    · rfl
    · split
      · rfl
      · simp [afterText, Function.comp_def]

theorem hashTail_of_ends (h : EndsValue quote e) (w : Text) :
    hashTail quote (w ++ e) = (hashTail quote w).map fun (t, rest) => (t, rest ++ e) := by
  fun_induction hashTail quote w with
  | case1 => simpa using h.stops.1
  | case2 cs => simp [hashTail]
  | case3 c cs hc hends => simp [hashTail, hc, hends]
  | case4 c cs hc hends inner hq hnone =>
    have hnested := nestedTail_of_ends h inner cs
    rw [List.cons_append, hashTail, if_neg hc, if_neg hends, hq]
    simp only
    rw [hnested, hnone]
    rfl
  | case5 c cs hc hends inner hq t rest ht ih =>
    have hnested := nestedTail_of_ends h inner cs
    rw [List.cons_append, hashTail, if_neg hc, if_neg hends, hq]
    simp only
    rw [hnested, ht]
    simp [ih, afterText, Function.comp_def]
  | case6 c cs hc hends hq ih =>
    rw [List.cons_append, hashTail, if_neg hc, if_neg hends, hq]
    simp [ih, afterText, Function.comp_def]

/-- Whether a hash is literal is decided inside the value. -/
theorem hashBody?_eq_none_of_ends (h : EndsValue quote e) (h' : EndsValue quote e') {w : Text}
    (hnone : hashBody? quote (w ++ e) = none) : hashBody? quote (w ++ e') = none := by
  rw [hashBody?, hashTail_of_ends h] at hnone
  rw [hashBody?, hashTail_of_ends h']
  cases ht : hashTail quote w with
  | none => rfl
  | some found => simpa [ht] using hnone

theorem endsValue_of_valueFragments {s r : Text} {fs : List Fragment}
    (h : valueFragments d quote s = some (fs, r)) : EndsValue quote (quoteMark quote ++ r) := by
  fun_induction valueFragments d quote s generalizing fs with
  | case1 | case3 => cases h
  | case2 c cs rest hr =>
    cases h
    rw [← valueEnd?_eq hr]
    simp [EndsValue, hr]
  | case4 c cs _ _ ih =>
    obtain ⟨⟨gs, rest⟩, hr, he⟩ := Option.map_eq_some_iff.mp h
    cases he
    exact ih hr
  | case5 c cs _ delimiter body rest _ ih =>
    obtain ⟨⟨gs, rest'⟩, hr, he⟩ := Option.map_eq_some_iff.mp h
    cases he
    exact ih hr

theorem valueFragments_of_ends {r : Text} (h : EndsValue quote (quoteMark quote ++ r)) :
    valueFragments d quote (quoteMark quote ++ r) = some ([], r) := by
  generalize he : quoteMark quote ++ r = e at h
  cases e with
  | nil => cases h
  | cons c cs =>
    obtain ⟨rest, hr⟩ := Option.isSome_iff_exists.mp h
    have hrest := valueEnd?_eq hr
    rw [← he, List.append_cancel_left_eq] at hrest
    rw [valueFragments, hr, hrest]

/-- A value without quotes does not go on over the character that ends it. -/
theorem EndsValue.head?_ne (h : EndsValue quote e) : e.head? ≠ some '{' := by
  rintro he
  obtain ⟨cs, rfl⟩ := List.head?_eq_some_iff.mp he
  cases quote with
  | some q => cases q <;> simp [EndsValue, valueEnd?, Quote.char] at h
  | none =>
    have hblank : isBlank '{' = false := by decide
    simp [endsValue_none, hblank] at h

theorem valueEnd?_eq_none_append {c : Char} {w : Text}
    (hbracket : e'.head? = some '>' → e.head? = some '>')
    (h : valueEnd? quote c (w ++ e) = none) : valueEnd? quote c (w ++ e') = none := by
  cases quote with
  | some q => simpa [valueEnd?] using h
  | none =>
    simp only [valueEnd?, ite_eq_right_iff, Bool.or_eq_true, Bool.and_eq_true, beq_iff_eq,
      reduceCtorEq, imp_false, not_or, not_and] at h ⊢
    exact ⟨h.1, fun hc he => h.2 hc (head?_append_imp hbracket he)⟩

theorem valueStep_literal_append {c : Char} {w : Text} (hends : EndsValue quote e)
    (hends' : EndsValue quote e') (h : valueStep d quote c (w ++ e) = .literal) :
    valueStep d quote c (w ++ e') = .literal := by
  unfold valueStep at h ⊢
  split at h
  · split at h <;> cases h
  · rename_i hdollar
    have hdollar' : afterDollar? (c :: (w ++ e')) = none := by
      rw [afterDollar?_eq_none] at hdollar ⊢
      intro hc he
      exact hdollar hc (head?_append_imp (fun he => (hends'.head?_ne he).elim) he)
    rw [hdollar']
    simp only
    split at h
    · rename_i hhash
      rw [if_pos hhash]
      split at h
      · cases h
      · rename_i hnone
        rw [hashBody?_eq_none_of_ends hends hends' hnone]
    · rename_i hhash
      rw [if_neg hhash]

theorem valueStep_expression_append {c : Char} {cs body r : Text} {delimiter : Delimiter}
    (h : valueStep d quote c cs = .expression delimiter body r) (r' : Text) : ∃ cs',
    c :: cs' = (Fragment.expression delimiter body).source ++ r' ∧ valueEnd? quote c cs' = none ∧
      valueStep d quote c cs' = .expression delimiter body r' := by
  unfold valueStep at h
  split at h
  · rename_i inner hi
    split at h
    · rename_i b rest hb
      cases h
      cases afterDollar?_eq hi
      refine ⟨'{' :: body ++ '}' :: r',
        by simp [Fragment.source, Delimiter.opening, Delimiter.closing], ?_, ?_⟩
      · cases quote with
        | some q => cases q <;> simp [valueEnd?, Quote.char]
        | none =>
          have hblank : isBlank '$' = false := by decide
          simp [valueEnd?, hblank]
      · have hbody := expressionBody_append hb r'
        simp [valueStep, afterDollar?, hbody]
    · cases h
  · split at h
    · rename_i hc
      split at h
      · rename_i b rest hb
        cases h
        obtain ⟨rfl, hdialect⟩ := by simpa using hc
        obtain ⟨htail, hne⟩ := Option.filter_eq_some_iff.mp hb
        refine ⟨body ++ '#' :: r', by simp [Fragment.source, Delimiter.opening, Delimiter.closing],
          ?_, ?_⟩
        · cases quote with
          | some q => cases q <;> simp [valueEnd?, Quote.char]
          | none =>
            have hblank : isBlank '#' = false := by decide
            simp [valueEnd?, hblank]
        · have hdollar : afterDollar? ('#' :: (body ++ '#' :: r')) = none :=
            afterDollar?_eq_none.mpr (by simp)
          have hbody : hashBody? quote (body ++ '#' :: r') = some (body, r') := by
            rw [hashBody?, hashTail_append htail]
            exact Option.filter_eq_some_iff.mpr ⟨rfl, hne⟩
          simp [valueStep, hdollar, hdialect, hbody]
      · cases h
    · cases h

/-- The fragments of a value do not depend on what follows the value. -/
theorem valueFragments_append {s r r' : Text} {fs : List Fragment}
    (h : valueFragments d quote s = some (fs, r)) (hends : EndsValue quote (quoteMark quote ++ r'))
    (hbracket : (quoteMark quote ++ r').head? = some '>' → (quoteMark quote ++ r).head? =
      some '>') :
    valueFragments d quote (fs.flatMap Fragment.source ++ (quoteMark quote ++ r')) =
      some (fs, r') := by
  have hends₀ := endsValue_of_valueFragments h
  fun_induction valueFragments d quote s generalizing fs with
  | case1 | case3 => cases h
  | case2 c cs rest hr =>
    cases h
    exact valueFragments_of_ends hends
  | case4 c cs hgoes hliteral ih =>
    obtain ⟨⟨gs, rest⟩, hr, he⟩ := Option.map_eq_some_iff.mp h
    cases he
    have hcs := valueFragments_eq hr
    rw [List.append_assoc] at hcs
    rw [hcs] at hgoes hliteral
    rw [source_consLiteral, List.cons_append, valueFragments,
      valueEnd?_eq_none_append hbracket hgoes]
    simp only
    rw [valueStep_literal_append hends₀ hends hliteral]
    simp [ih hr]
  | case5 c cs hgoes delimiter body rest hs ih =>
    obtain ⟨⟨gs, rest'⟩, hr, he⟩ := Option.map_eq_some_iff.mp h
    cases he
    obtain ⟨cs', hsource, hend, hstep⟩ :=
      valueStep_expression_append hs (gs.flatMap Fragment.source ++ (quoteMark quote ++ r'))
    rw [List.flatMap_cons, List.append_assoc, ← hsource, valueFragments, hend]
    simp only
    rw [hstep]
    simp [ih hr]

end Value

end StoreMarkup
