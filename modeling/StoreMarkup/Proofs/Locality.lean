import StoreMarkup.Proofs.ValueLocality

/-! No construct looks past its own end: what follows it may be exchanged, and it is read in the
same way. -/
namespace StoreMarkup

section Blanks

variable {g r : Text} {c : Char} {cs : Text}

theorem blanks_append (hg : Blank g) (hc : isBlank c = false) : blanks (g ++ c :: cs) = g := by
  rw [blanks, List.takeWhile_append_of_pos hg, List.takeWhile_cons_of_neg (by simp [hc]),
    List.append_nil]

theorem afterBlanks_append (hg : Blank g) (hc : isBlank c = false) :
    afterBlanks (g ++ c :: cs) = c :: cs := by
  rw [afterBlanks, List.dropWhile_append_of_pos hg, List.dropWhile_cons_of_neg (by simp [hc])]

/-- A text with a character that is not blank has a first one. -/
theorem exists_not_blank (hr : c ∈ r) (hc : isBlank c = false) :
    ∃ g b bs, r = g ++ b :: bs ∧ Blank g ∧ isBlank b = false := by
  have hsplit := blanks_append_afterBlanks r
  cases hd : afterBlanks r with
  | nil =>
    rw [hd, List.append_nil] at hsplit
    have hblank := blank_blanks r c (by rwa [hsplit])
    rw [hc] at hblank
    cases hblank
  | cons b bs =>
    rw [hd] at hsplit
    exact ⟨blanks r, b, bs, hsplit.symm, blank_blanks r, isBlank_head_afterBlanks hd⟩

end Blanks

/-- What may follow a part of a tag in place of another text: the same up to the end of the tag,
where a slash may come in, unless a slash is already before it. -/
def Alike (r r' : Text) : Prop :=
  ∃ v a b slash, r = v ++ '>' :: a ∧ r' = v ++ tagEnd slash ++ b ∧
    (slash = true → v.getLast? ≠ some '/')

namespace Alike

variable {r r' : Text}

theorem tagEnds {v : Text} {slash slash' : Bool}
    (h : slash' = slash ∨ slash' = true ∧ v.getLast? ≠ some '/') (a b : Text) :
    Alike (v ++ tagEnd slash ++ a) (v ++ tagEnd slash' ++ b) := by
  cases slash with
  | false =>
    exact ⟨v, a, b, slash', by simp [tagEnd], rfl, fun hs => (h.resolve_left (by simp [hs])).2⟩
  | true =>
    obtain rfl : slash' = true := h.elim id And.left
    exact ⟨v ++ ['/'], a, b, false, by simp [tagEnd], by simp [tagEnd], by simp⟩

/-- What ends before a character of a kind or before the end of the tag still ends there. -/
theorem ends {k : Char → Bool} (hkind : k '>' = true) {c : Char} {cs : Text}
    (h : Alike (c :: cs) r') (hc : k c = true ∨ c = '/' ∧ cs.head? = some '>') :
    ∃ c' cs', r' = c' :: cs' ∧ (k c' = true ∨ c' = '/' ∧ cs'.head? = some '>') := by
  obtain ⟨v, a, b, slash, hr, rfl, hslash⟩ := h
  cases v with
  | nil =>
    cases slash with
    | false => exact ⟨'>', b, rfl, Or.inl hkind⟩
    | true => exact ⟨'/', '>' :: b, rfl, Or.inr ⟨rfl, rfl⟩⟩
  | cons d v =>
    obtain ⟨rfl, rfl⟩ := List.cons.inj hr
    refine ⟨c, v ++ tagEnd slash ++ b, rfl, ?_⟩
    rcases hc with hc | ⟨rfl, hcs⟩
    · exact Or.inl hc
    · refine Or.inr ⟨rfl, ?_⟩
      cases v with
      | cons d v => exact hcs
      | nil =>
        cases slash with
        | false => rfl
        | true => exact (hslash rfl rfl).elim

theorem bracket (h : Alike r r') (hr : r'.head? = some '>') : r.head? = some '>' := by
  obtain ⟨v, a, b, slash, rfl, rfl, -⟩ := h
  cases v with
  | nil => rfl
  | cons d v => exact hr

theorem equals (h : Alike r r') :
    (afterBlanks r').head? = some '=' ↔ (afterBlanks r).head? = some '=' := by
  obtain ⟨v, a, b, slash, rfl, rfl, -⟩ := h
  have hbracket : isBlank '>' = false := by decide
  have hmark : isBlank '/' = false := by decide
  simp only [afterBlanks, List.append_assoc, List.dropWhile_append]
  split
  · cases slash <;> simp [tagEnd, hbracket, hmark]
  · rename_i hv
    cases hd : List.dropWhile isBlank v with
    | nil => simp [hd] at hv
    | cons d v' => simp

end Alike

/-- Whether an attribute name ends before a text. -/
def EndsName : Text → Prop
  | [] => False
  | c :: cs => endsAttributeName c cs = true

/-- Whether a tag ends before a text. -/
def EndsTag : Text → Prop
  | [] => False
  | c :: cs => endsTag c cs = true

section Ends

variable {r r' : Text} {c : Char} {cs : Text}

/-- The characters that an attribute name ends before, whatever follows them. -/
def isNameEnd (c : Char) : Bool :=
  isBlank c || c == '=' || c == '>' || c == '"' || c == '\'' || c == '<'

theorem endsName_cons :
    EndsName (c :: cs) ↔ isNameEnd c = true ∨ c = '/' ∧ cs.head? = some '>' := by
  simp [EndsName, endsAttributeName, isNameEnd]

theorem endsTag_cons : EndsTag (c :: cs) ↔ c = '>' ∨ c = '/' ∧ cs.head? = some '>' := by
  simp [EndsTag, endsTag]

theorem Alike.endsName (h : Alike r r') (hr : EndsName r) : EndsName r' := by
  cases r with
  | nil => cases hr
  | cons c cs =>
    obtain ⟨c', cs', rfl, hc⟩ := h.ends (k := isNameEnd) (by decide) (endsName_cons.mp hr)
    exact endsName_cons.mpr hc

theorem Alike.endsTag (h : Alike r r') (hr : EndsTag r) : EndsTag r' := by
  cases r with
  | nil => cases hr
  | cons c cs =>
    obtain ⟨c', cs', rfl, hc⟩ :=
      h.ends (k := (· == '>')) rfl (by simpa using endsTag_cons.mp hr)
    exact endsTag_cons.mpr (by simpa using hc)

theorem Alike.endsValue (h : Alike r r') (hr : EndsValue none r) : EndsValue none r' := by
  cases r with
  | nil => cases hr
  | cons c cs =>
    obtain ⟨c', cs', rfl, hc⟩ := h.ends (k := fun c => isBlank c || c == '>') (by decide)
      (by simpa using endsValue_none.mp hr)
    exact endsValue_none.mpr (by simpa using hc)

theorem EndsName.head?_ne (h : EndsName r) : r.head? ≠ some '{' := by
  intro hr
  obtain ⟨cs, rfl⟩ := List.head?_eq_some_iff.mp hr
  have hkind : isNameEnd '{' = false := by decide
  simp [endsName_cons, hkind] at h

theorem endsName_of_attributeName {s t : Text} (h : attributeName s = some (t, r)) (hr : r ≠ []) :
    EndsName r := by
  fun_induction attributeName s generalizing t with
  | case1 =>
    cases h
    exact (hr rfl).elim
  | case2 c cs hc =>
    cases h
    exact hc
  | case3 => cases h
  | case4 c cs _ inner hi body rest hb ih =>
    obtain ⟨u, hu, rfl⟩ := afterText_eq_some.mp h
    exact ih hu
  | case5 c cs _ _ ih =>
    obtain ⟨u, hu, rfl⟩ := afterText_eq_some.mp h
    exact ih hu

theorem attributeName_of_ends (h : EndsName r) : attributeName r = some ([], r) := by
  cases r with
  | nil => cases h
  | cons c cs =>
    have hc : endsAttributeName c cs = true := h
    rw [attributeName, if_pos hc]

/-- A name goes on with an expression, and ends nowhere if the expression does not. -/
theorem attributeName_dollar (inner : Text) :
    attributeName ('$' :: '{' :: inner) =
      match expressionBody 0 inner with
      | none => none
      | some (body, rest) => afterText ('$' :: '{' :: body ++ ['}']) (attributeName rest) := by
  have hkind : isNameEnd '$' = false := by decide
  have hgoes : ¬ endsAttributeName '$' ('{' :: inner) = true := by
    intro hc
    rcases endsName_cons.mp hc with hc | ⟨hc, -⟩
    · simp [hkind] at hc
    · cases hc
  have hdollar : afterDollar? ('$' :: '{' :: inner) = some inner := rfl
  rw [attributeName, if_neg hgoes, hdollar]
  simp only
  cases expressionBody 0 inner <;> rfl

theorem attributeName_expression {inner body rest : Text}
    (h : expressionBody 0 inner = some (body, rest)) :
    attributeName ('$' :: '{' :: inner) =
      afterText ('$' :: '{' :: body ++ ['}']) (attributeName rest) := by
  rw [attributeName_dollar, h]

theorem attributeName_cons (hgoes : ¬ EndsName (c :: cs))
    (hdollar : afterDollar? (c :: cs) = none) :
    attributeName (c :: cs) = afterText [c] (attributeName cs) := by
  have hc : ¬ endsAttributeName c cs = true := hgoes
  rw [attributeName, if_neg hc, hdollar]

theorem attributeName_append {s t : Text} (h : attributeName s = some (t, r)) (hends : EndsName r')
    (hbracket : r'.head? = some '>' → r.head? = some '>') :
    attributeName (t ++ r') = some (t, r') := by
  fun_induction attributeName s generalizing t with
  | case1 | case2 =>
    cases h
    exact attributeName_of_ends hends
  | case3 => cases h
  | case4 c cs hc inner hi body rest hb ih =>
    obtain ⟨u, hu, rfl⟩ := afterText_eq_some.mp h
    have hname := attributeName_expression (expressionBody_append hb (u ++ r'))
    rw [ih hu] at hname
    simpa [afterText] using hname
  | case5 c cs hc hdollar ih =>
    obtain ⟨u, hu, rfl⟩ := afterText_eq_some.mp h
    rw [attributeName_eq hu] at hc hdollar
    have hgoes : ¬ EndsName (c :: (u ++ r')) := by
      intro he
      refine hc (endsName_cons.mpr ((endsName_cons.mp he).imp_right ?_))
      exact And.imp_right (head?_append_imp hbracket)
    have hliteral : afterDollar? (c :: (u ++ r')) = none := by
      rw [afterDollar?_eq_none] at hdollar ⊢
      intro hc he
      exact hdollar hc (head?_append_imp (fun he => (hends.head?_ne he).elim) he)
    have hname := attributeName_cons hgoes hliteral
    rw [ih hu] at hname
    simpa [afterText] using hname

theorem EndsTag.not_blank (h : EndsTag (c :: cs)) : isBlank c = false := by
  rcases endsTag_cons.mp h with rfl | ⟨rfl, -⟩ <;> decide

end Ends

theorem Quote.char_of_ofChar? {c : Char} {q : Quote} (h : Quote.ofChar? c = some q) :
    c = q.char := by
  unfold Quote.ofChar? at h
  split at h
  · cases h
    assumption
  · split at h
    · cases h
      assumption
    · cases h

section Tag

variable {d : Dialect} {r r' : Text}

/-- A value that starts with a character, with something else behind it. -/
theorem value_append {c : Char} {cs : Text} {fs : List Fragment} (hblank : isBlank c = false)
    (htag : ¬ EndsTag (c :: cs))
    (h : valueFragments d (Quote.ofChar? c) (afterQuote c cs) = some (fs, r)) (hr : Alike r r') :
    ∃ cs', c :: cs' = Value.text ⟨[], Quote.ofChar? c, fs⟩ ++ r' ∧ ¬ EndsTag (c :: cs') ∧
      valueFragments d (Quote.ofChar? c) (afterQuote c cs') = some (fs, r') := by
  cases hq : Quote.ofChar? c with
  | some q =>
    obtain rfl := Quote.char_of_ofChar? hq
    rw [hq] at h
    refine ⟨fs.flatMap Fragment.source ++ (quoteMark (some q) ++ r'),
      by simp [Value.text, quoteMark], ?_, ?_⟩
    · cases q <;> simp [endsTag_cons, Quote.char]
    · have hall := valueFragments_append h (endsValue_some q r')
        (by cases q <;> simp [quoteMark, Quote.char])
      simpa [afterQuote, hq] using hall
  | none =>
    have hgoes : valueEnd? none c cs = none := by
      have hnot := endsTag_cons.not.mp htag
      simp only [not_or, not_and] at hnot
      simpa [valueEnd?, hblank] using hnot
    simp only [hq, afterQuote, Option.isSome_none, Bool.false_eq_true, if_false] at h ⊢
    have hs := valueFragments_eq h
    have hends := hr.endsValue (endsValue_of_valueFragments h)
    cases hw : fs.flatMap Fragment.source with
    | nil => exact (source_ne_nil_of_valueFragments hgoes h hw).elim
    | cons b w =>
      simp only [hw, quoteMark, Option.map_none, Option.toList_none, List.append_nil,
        List.cons_append] at hs
      obtain ⟨rfl, rfl⟩ := List.cons.inj hs
      refine ⟨w ++ r', by simp [Value.text, quoteMark, hw], ?_, ?_⟩
      · intro he
        refine htag (endsTag_cons.mpr ((endsTag_cons.mp he).imp_right ?_))
        exact And.imp_right (head?_append_imp hr.bracket)
      · have hall := valueFragments_append h hends hr.bracket
        simpa [quoteMark, hw] using hall

theorem assignmentStep_append {gap name before after : Text} {parts : List TagPart}
    (h : assignmentStep d gap name before after = .more parts r) (hr : Alike r r') : ∃ after',
    gap ++ name ++ before ++ '=' :: after' = parts.flatMap TagPart.source ++ r' ∧
      assignmentStep d gap name before after' = .more parts r' := by
  have hg := blank_blanks after
  unfold assignmentStep at h
  split at h
  · cases h
  · rename_i c cs hd
    split at h
    · rename_i htag
      cases h
      refine ⟨blanks after ++ r', by simp [TagPart.source, Stray.source], ?_⟩
      have hends := hr.endsTag htag
      cases r' with
      | nil => cases hends
      | cons c' cs' =>
        have htag' : endsTag c' cs' = true := hends
        rw [assignmentStep, afterBlanks_append hg hends.not_blank, blanks_append hg hends.not_blank]
        simp only
        rw [if_pos htag']
    · rename_i htag
      split at h
      · cases h
      · rename_i fs rest hv
        cases h
        have hblank := isBlank_head_afterBlanks hd
        obtain ⟨cs', htext, htag', hv'⟩ := value_append hblank htag hv hr
        refine ⟨blanks after ++ c :: cs', ?_, ?_⟩
        · rw [htext]
          simp [TagPart.source, Value.text]
        · have hnot : ¬ endsTag c cs' = true := htag'
          rw [assignmentStep, afterBlanks_append hg hblank, blanks_append hg hblank]
          simp only
          rw [if_neg hnot, hv']

/-- Blanks and an equals sign end an attribute name. -/
theorem endsName_assignment {g : Text} (hg : Blank g) (after : Text) :
    EndsName (g ++ '=' :: after) ∧ (g ++ '=' :: after).head? ≠ some '>' := by
  cases g with
  | nil => exact ⟨endsName_cons.mpr (Or.inl (by decide)), by simp⟩
  | cons b g =>
    have hblank : isBlank b = true := hg b List.mem_cons_self
    refine ⟨endsName_cons.mpr (Or.inl (by simp [isNameEnd, hblank])), ?_⟩
    rintro ⟨⟩
    revert hblank
    decide

/-- An attribute keeps its name, and with it the character that it starts with. -/
theorem attributeStep_append {gap s : Text} {parts : List TagPart}
    (h : attributeStep d gap s = .more parts r) (hr : Alike r r') : ∃ name rest rest',
    attributeName s = some (name, rest) ∧
      gap ++ (name ++ rest') = parts.flatMap TagPart.source ++ r' ∧
      attributeStep d gap (name ++ rest') = .more parts r' := by
  unfold attributeStep at h
  split at h
  · cases h
  · rename_i name rest hname
    split at h
    · obtain ⟨after', hsource, hstep⟩ := assignmentStep_append h hr
      have hequals : isBlank '=' = false := by decide
      have hg := blank_blanks rest
      obtain ⟨hends, hbracket⟩ := endsName_assignment hg after'
      have hname' := attributeName_append hname hends fun he => (hbracket he).elim
      refine ⟨name, rest, blanks rest ++ '=' :: after', hname, by simpa using hsource, ?_⟩
      rw [attributeStep, hname']
      simp only
      rw [afterBlanks_append hg hequals, blanks_append hg hequals]
      exact hstep
    · rename_i hnone
      cases h
      have hne : r ≠ [] := by
        obtain ⟨v, a, -, -, rfl, -⟩ := hr
        simp
      have hends := hr.endsName (endsName_of_attributeName hname hne)
      have hname' := attributeName_append hname hends hr.bracket
      refine ⟨name, r, r', hname, by simp [TagPart.source], ?_⟩
      rw [attributeStep, hname']
      simp only
      split
      · rename_i after he
        have hhead := hr.equals.mp (by rw [he]; rfl)
        obtain ⟨after, ha⟩ := List.head?_eq_some_iff.mp hhead
        exact (hnone after ha).elim
      · rfl

section First

variable {g cs : Text} {c : Char}

theorem tagStep_quoted {q : Quote} {t rest : Text} (hg : Blank g) (hq : Quote.ofChar? c = some q)
    (ht : quotedTail q cs = some (t, rest)) :
    tagStep d (g ++ c :: cs) = .more [.stray ⟨g, c :: t⟩ .strayQuoted] rest := by
  have hchar := Quote.char_of_ofChar? hq
  have hblank : isBlank c = false := by
    rw [hchar]
    cases q <;> decide
  have htag : ¬ endsTag c cs = true := by
    rw [hchar]
    cases q <;> simp [endsTag, Quote.char]
  rw [tagStep, afterBlanks_append hg hblank, blanks_append hg hblank]
  simp only
  rw [if_neg htag, hq]
  simp only
  rw [ht]

theorem tagStep_mark (hg : Blank g) (hc : (c == '=' || c == '<' || c == '/') = true)
    (htag : ¬ EndsTag (c :: cs)) :
    tagStep d (g ++ c :: cs) = .more [.stray ⟨g, [c]⟩ (.strayMark c)] cs := by
  have hnot : ¬ endsTag c cs = true := htag
  have hplain : isBlank c = false ∧ Quote.ofChar? c = none := by
    simp only [Bool.or_eq_true, beq_iff_eq] at hc
    rcases hc with (rfl | rfl) | rfl <;> decide
  rw [tagStep, afterBlanks_append hg hplain.1, blanks_append hg hplain.1]
  simp only
  rw [if_neg hnot, hplain.2]
  simp only
  rw [if_pos hc]

theorem tagStep_attribute (hg : Blank g) (hgoes : ¬ EndsName (c :: cs))
    (hmark : ¬ (c == '=' || c == '<' || c == '/') = true) :
    tagStep d (g ++ c :: cs) = attributeStep d g (c :: cs) := by
  simp only [endsName_cons, isNameEnd, Bool.or_eq_true, beq_iff_eq, not_or] at hgoes
  have hblank : isBlank c = false := by simpa using hgoes.1.1.1.1.1.1
  have hq : Quote.ofChar? c = none := Quote.ofChar?_eq_none.mpr ⟨hgoes.1.1.1.2, hgoes.1.1.2⟩
  have htag : ¬ endsTag c cs = true := by
    intro he
    rcases endsTag_cons.mp he with he | he
    · exact hgoes.1.1.1.1.2 he
    · exact hgoes.2 he
  rw [tagStep, afterBlanks_append hg hblank, blanks_append hg hblank]
  simp only
  rw [if_neg htag, hq]
  simp only
  rw [if_neg hmark]

end First

theorem tagStep_append {s : Text} {parts : List TagPart} (h : tagStep d s = .more parts r)
    (hr : Alike r r') : tagStep d (parts.flatMap TagPart.source ++ r') = .more parts r' := by
  have hg := blank_blanks s
  unfold tagStep at h
  split at h
  · cases h
  · rename_i c cs hd
    split at h
    · cases h
    · rename_i htag
      split at h
      · rename_i q hq
        split at h
        · cases h
        · rename_i t rest ht
          cases h
          simpa [TagPart.source, Stray.source] using tagStep_quoted hg hq (quotedTail_append ht r')
      · rename_i hq
        split at h
        · rename_i hmark
          cases h
          have htag' : ¬ EndsTag (c :: r') := by
            intro he
            refine htag (endsTag_cons.mpr ((endsTag_cons.mp he).imp_right ?_))
            exact And.imp_right hr.bracket
          simpa [TagPart.source, Stray.source] using tagStep_mark hg hmark htag'
        · rename_i hmark
          obtain ⟨name, rest, rest', hname, hsource, hstep⟩ := attributeStep_append h hr
          -- The character neither ends a tag nor a name, so a name starts here.
          have hgoes : ∀ ds, ¬ EndsName (c :: ds) := by
            have hblank := isBlank_head_afterBlanks hd
            have hquote := Quote.ofChar?_eq_none.mp hq
            have hbracket : c ≠ '>' := fun hc => htag (endsTag_cons.mpr (Or.inl hc))
            intro ds
            simp_all [endsName_cons, isNameEnd]
          have hne : name ≠ [] := attributeName_ne_nil (Bool.eq_false_iff.mpr (hgoes cs)) hname
          obtain ⟨b, name, rfl⟩ := List.exists_cons_of_ne_nil hne
          obtain rfl : c = b := (List.cons.inj (attributeName_eq hname)).1
          rw [← hsource, List.cons_append, tagStep_attribute hg (hgoes _) hmark]
          exact hstep

theorem tagStep_end {g : Text} (hg : Blank g) (slash : Bool) (r : Text) :
    tagStep d (g ++ tagEnd slash ++ r) = .close g slash r := by
  have hbracket : isBlank '>' = false := by decide
  have hslash : isBlank '/' = false := by decide
  cases slash <;>
    simp [tagEnd, tagStep, afterBlanks_append hg, blanks_append hg, hbracket, hslash, endsTag]

/-- An open tag is read in the same way whatever follows it, and also with a slash at its end. -/
theorem scanTag_append {s gap : Text} {slash slash' : Bool} {parts : List TagPart}
    (h : scanTag d s = .closed parts gap slash r) (r' : Text)
    (hslash : slash' = slash ∨
      slash' = true ∧ (parts.flatMap TagPart.source ++ gap).getLast? ≠ some '/') :
    scanTag d (parts.flatMap TagPart.source ++ gap ++ tagEnd slash' ++ r') =
      .closed parts gap slash' r' := by
  have htidy := scanTag_tidy d s
  rw [h] at htidy
  have hg : Blank gap := htidy.2
  clear htidy
  fun_induction scanTag d s generalizing parts with
  | case1 s gap slash rest hs =>
    cases h
    rw [scanTag, List.flatMap_nil, List.nil_append, tagStep_end hg]
  | case2 => cases h
  | case3 s before rest hs ih =>
    cases hrest : scanTag d rest with
    | cutOff others => simp [hrest, TagScan.after] at h
    | closed others gap' slash₀ r₀ =>
      obtain ⟨rfl, rfl, rfl, rfl⟩ := by simpa [hrest, TagScan.after] using h
      have hlast : slash' = slash₀ ∨
          slash' = true ∧ (others.flatMap TagPart.source ++ gap').getLast? ≠ some '/' := by
        refine hslash.imp_right (And.imp_right ?_)
        intro hne he
        apply hne
        rw [List.flatMap_append, List.append_assoc, List.getLast?_append, he]
        rfl
      rw [scanTag_closed hrest] at hs
      have hstep := tagStep_append hs (Alike.tagEnds hlast r₀ r')
      have htext : (before ++ others).flatMap TagPart.source ++ gap' ++ tagEnd slash' ++ r' =
          before.flatMap TagPart.source ++
            (others.flatMap TagPart.source ++ gap' ++ tagEnd slash' ++ r') := by simp
      rw [htext, scanTag, hstep]
      simp only
      rw [ih hrest hlast]
      rfl

end Tag

section Close

variable {s r r' : Text}

/-- Stray text in a close tag ends with its quote or before a character that is still the same. -/
theorem closeStep_append {stray : Stray} (h : closeStep s = .more stray r)
    (hhead : r'.head? = r.head?) : closeStep (stray.source ++ r') = .more stray r' := by
  have hg := blank_blanks s
  unfold closeStep at h
  split at h
  · cases h
  · rename_i c cs hd
    have hblank := isBlank_head_afterBlanks hd
    split at h
    · cases h
    · rename_i hc
      split at h
      · rename_i q hq
        split at h
        · cases h
        · rename_i t rest ht
          cases h
          rw [Stray.source, List.append_assoc, List.cons_append, closeStep,
            afterBlanks_append hg hblank, blanks_append hg hblank]
          simp only
          rw [if_neg hc, hq]
          simp only
          rw [quotedTail_append ht]
      · rename_i hq
        cases h
        have hrun : ∀ b ∈ cs.takeWhile inClosingRun, inClosingRun b = true :=
          fun b hb => List.mem_takeWhile_imp hb
        have hstop : r'.takeWhile inClosingRun = [] ∧ r'.dropWhile inClosingRun = r' := by
          have hnot := List.head?_dropWhile_not inClosingRun cs
          rw [← hhead] at hnot
          cases r' with
          | nil => exact ⟨rfl, rfl⟩
          | cons b bs =>
            have hb : inClosingRun b = false := by simpa using hnot
            simp [hb]
        rw [Stray.source, List.append_assoc, List.cons_append, closeStep,
          afterBlanks_append hg hblank, blanks_append hg hblank]
        simp only
        rw [if_neg hc, hq]
        simp only
        rw [List.takeWhile_append_of_pos hrun, List.dropWhile_append_of_pos hrun, hstop.1, hstop.2,
          List.append_nil]

theorem closeStep_end {g : Text} (hg : Blank g) (r : Text) :
    closeStep (g ++ '>' :: r) = .close g r := by
  have hbracket : isBlank '>' = false := by decide
  rw [closeStep, afterBlanks_append hg hbracket, blanks_append hg hbracket]
  rfl

theorem scanClose_append {gap : Text} {strays : List Stray} (h : scanClose s = .closed strays gap r)
    (r' : Text) :
    scanClose (strays.flatMap Stray.source ++ gap ++ '>' :: r') = .closed strays gap r' := by
  have htidy := scanClose_tidy s
  rw [h] at htidy
  have hg : Blank gap := htidy.2
  clear htidy
  fun_induction scanClose s generalizing strays with
  | case1 s gap rest hs =>
    cases h
    rw [scanClose, List.flatMap_nil, List.nil_append, closeStep_end hg]
  | case2 => cases h
  | case3 s stray rest hs ih =>
    cases hrest : scanClose rest with
    | cutOff others => simp [hrest, CloseScan.after] at h
    | closed others gap' r₀ =>
      obtain ⟨rfl, rfl, rfl⟩ := by simpa [hrest, CloseScan.after] using h
      rw [scanClose_closed hrest] at hs
      have hhead : ∀ a b : Text, (others.flatMap Stray.source ++ gap' ++ '>' :: a).head? =
          (others.flatMap Stray.source ++ gap' ++ '>' :: b).head? := by
        intro a b
        cases others.flatMap Stray.source ++ gap' <;> rfl
      have hstep := closeStep_append hs (hhead r' r₀)
      rw [List.flatMap_cons, List.append_assoc, List.append_assoc, ← List.append_assoc _ gap',
        scanClose, hstep]
      simp only
      rw [ih hrest]
      rfl

end Close

section Comment

variable {s t u r : Text}

theorem throughBracket?_append (h : throughBracket? s = some (t, r)) (r' : Text) :
    throughBracket? (t ++ r') = some (t, r') := by
  fun_induction throughBracket? s generalizing t with
  | case1 => cases h
  | case2 cs =>
    cases h
    simp [throughBracket?]
  | case3 c cs hc ih =>
    obtain ⟨v, hv, rfl⟩ := afterText_eq_some.mp h
    simp [throughBracket?, hc, ih hv, afterText]

/-- Whether a comment is closed here is decided before an angle bracket that is behind the name. -/
theorem commentCloser?_append {w : Text} (hw : '>' ∈ w.drop commentClosing.length) (r : Text) :
    commentCloser? (w ++ r) =
      (commentCloser? w).map fun (closing, rest) => (closing, rest ++ r) := by
  have hlength : commentClosing.length ≤ w.length := by
    by_contra hlt
    rw [List.drop_of_length_le (by omega)] at hw
    cases hw
  obtain ⟨g, c, cs, hafter, hg, hblank⟩ := exists_not_blank hw (by decide)
  simp only [commentCloser?, List.take_append_of_le_length hlength,
    List.drop_append_of_le_length hlength]
  rw [hafter, List.append_assoc, List.cons_append, afterBlanks_append hg hblank,
    afterBlanks_append hg hblank, blanks_append hg hblank, blanks_append hg hblank]
  split
  · by_cases hc : c = '>' <;> simp [hc]
  · rfl

theorem bracket_mem_of_commentCloser? (h : commentCloser? s = some (t, r)) :
    '>' ∈ t.drop commentClosing.length := by
  simp only [commentCloser?] at h
  split at h
  · split at h
    · rename_i rest hd
      cases h
      have hlength : (s.take commentClosing.length).length = commentClosing.length := by
        rw [List.length_take, Nat.min_eq_left]
        by_contra hlt
        rw [List.drop_of_length_le (by omega)] at hd
        cases hd
      rw [List.append_assoc, List.drop_left' hlength]
      simp
    · cases h
  · cases h

/-- The content of a comment and its close tag, with something else behind them. -/
theorem commentBody?_append (h : commentBody? s = some (t, u, r)) (r' : Text) :
    commentBody? (t ++ (u ++ r')) = some (t, u, r') ∧ '>' ∈ u.drop commentClosing.length := by
  fun_induction commentBody? s generalizing t with
  | case1 => cases h
  | case2 c cs closing rest hc =>
    cases h
    have hmem := bracket_mem_of_commentCloser? hc
    have hcloser : commentCloser? (u ++ r') = some (u, r') := by
      rw [commentCloser?_eq hc, commentCloser?_append hmem] at hc
      rw [commentCloser?_append hmem]
      obtain ⟨⟨v, rest⟩, hv, he⟩ := Option.map_eq_some_iff.mp hc
      obtain ⟨rfl, hrest⟩ := by simpa using he
      simp [hv, hrest]
    refine ⟨?_, hmem⟩
    cases u with
    | nil => simp at hmem
    | cons b bs =>
      rw [List.cons_append] at hcloser
      simp [commentBody?, hcloser]
  | case3 c cs hc ih =>
    obtain ⟨⟨t', u', rest⟩, hb, he⟩ := Option.map_eq_some_iff.mp h
    cases he
    obtain ⟨hbody, hmem⟩ := ih hb
    refine ⟨?_, hmem⟩
    have hmem' : '>' ∈ (c :: t' ++ u).drop commentClosing.length := by
      rw [List.drop_append]
      exact List.mem_append_right _ (List.drop_subset_drop_left _ (Nat.sub_le _ _) hmem)
    have hnone : commentCloser? (c :: (t' ++ (u ++ r'))) = none := by
      have htext : ∀ a, c :: (t' ++ (u ++ a)) = c :: t' ++ u ++ a := by simp
      rw [commentBody?_eq hb, List.append_assoc, htext, commentCloser?_append hmem'] at hc
      rw [htext, commentCloser?_append hmem', Option.map_eq_none_iff.mp hc]
      rfl
    simp [commentBody?, hnone, hbody]

theorem scanComment_append {opening content closing : Text}
    (h : scanComment s = .closed opening content closing r) (r' : Text) :
    scanComment (opening ++ content ++ closing ++ r') = .closed opening content closing r' := by
  unfold scanComment at h
  split at h
  · cases h
  · rename_i o rest ho
    split at h
    · rename_i hempty
      cases h
      simp [scanComment, throughBracket?_append ho, hempty]
    · rename_i hopen
      split at h
      · cases h
      · rename_i c cl r₀ hb
        cases h
        simp [scanComment, throughBracket?_append ho, hopen, (commentBody?_append hb r').1]

end Comment

end StoreMarkup
