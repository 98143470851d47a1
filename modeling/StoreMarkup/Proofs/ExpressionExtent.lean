import StoreMarkup.Proofs.Lexing
import StoreMarkup.Proofs.Locality

/-! How far an expression reaches, as a grammar: characters, strings and balanced braces, up to a
closing brace that has no partner. -/
namespace StoreMarkup

/-- What stands between two quotes: characters other than the quote and the backslash, and pairs of
a backslash and any character. -/
inductive InsideQuotes (q : Quote) : Text → Prop
  | nil : InsideQuotes q []
  | char {c : Char} {t : Text} : c ≠ q.char → c ≠ '\\' → InsideQuotes q t → InsideQuotes q (c :: t)
  | escape (c : Char) {t : Text} : InsideQuotes q t → InsideQuotes q ('\\' :: c :: t)

/-- What stands between the braces of an expression. -/
inductive InsideExpression : Text → Prop
  | nil : InsideExpression []
  | char {c : Char} {t : Text} : c ∉ ['"', '\'', '{', '}'] → InsideExpression t →
      InsideExpression (c :: t)
  | string {q : Quote} {s t : Text} : InsideQuotes q s → InsideExpression t →
      InsideExpression (q.char :: s ++ q.char :: t)
  | braces {s t : Text} : InsideExpression s → InsideExpression t →
      InsideExpression ('{' :: s ++ '}' :: t)

section Quotes

variable {q : Quote} {s t r : Text}

theorem quotedTail_of_inside (h : InsideQuotes q s) (r : Text) :
    quotedTail q (s ++ q.char :: r) = some (s ++ [q.char], r) := by
  induction h with
  | nil =>
    have hne : q.char ≠ '\\' := by cases q <;> decide
    rw [List.nil_append, quotedTail.eq_def]
    simp [hne]
  | @char c t hq hslash _ ih =>
    rw [List.cons_append, quotedTail.eq_def]
    simp [hq, hslash, ih, afterText]
  | escape c _ ih =>
    rw [List.cons_append, List.cons_append, quotedTail.eq_def]
    simp [ih, afterText]

theorem inside_of_quotedTail (h : quotedTail q s = some (t, r)) :
    ∃ u, InsideQuotes q u ∧ t = u ++ [q.char] := by
  fun_induction quotedTail q s generalizing t with
  | case1 | case2 => cases h
  | case3 c cs ih =>
    obtain ⟨v, hv, rfl⟩ := afterText_eq_some.mp h
    obtain ⟨u, hu, rfl⟩ := ih hv
    exact ⟨'\\' :: c :: u, .escape c hu, rfl⟩
  | case4 cs =>
    cases h
    exact ⟨[], .nil, rfl⟩
  | case5 c cs hslash hq ih =>
    obtain ⟨v, hv, rfl⟩ := afterText_eq_some.mp h
    obtain ⟨u, hu, rfl⟩ := ih hv
    exact ⟨c :: u, .char hq hslash hu, rfl⟩

end Quotes

/-- What is left of an expression inside which some braces are open: each of them is closed, the
innermost first. -/
inductive Unwinds : Nat → Text → Prop
  | inside {t : Text} : InsideExpression t → Unwinds 0 t
  | close {depth : Nat} {s t : Text} : InsideExpression s → Unwinds depth t →
      Unwinds (depth + 1) (s ++ '}' :: t)

section Grammar

variable {depth : Nat} {s t r : Text}

theorem InsideExpression.append (hs : InsideExpression s) (ht : InsideExpression t) :
    InsideExpression (s ++ t) := by
  induction hs with
  | nil => exact ht
  | char hc _ ih => exact .char hc ih
  | string hq _ ih => simpa using InsideExpression.string hq ih
  | braces hin _ _ ih => simpa using InsideExpression.braces hin ih

theorem Unwinds.prepend (hs : InsideExpression s) (ht : Unwinds depth t) :
    Unwinds depth (s ++ t) := by
  cases ht with
  | inside ht => exact .inside (hs.append ht)
  | close hu ht =>
    rw [← List.append_assoc]
    exact .close (hs.append hu) ht

/-- A brace that is opened is one more to close. -/
theorem Unwinds.open (h : Unwinds (depth + 1) t) : Unwinds depth ('{' :: t) := by
  cases h with
  | @close _ s t hs ht =>
    have hpair : InsideExpression ('{' :: s ++ ['}']) := .braces hs .nil
    simpa using Unwinds.prepend hpair ht

/-- The scan passes over text of the grammar only. -/
theorem unwinds_of_expressionBody (h : expressionBody depth s = some (t, r)) : Unwinds depth t := by
  fun_induction expressionBody depth s generalizing t with
  | case1 | case2 => cases h
  | case3 depth c cs q hq u rest hu ih =>
    obtain ⟨v, hv, rfl⟩ := afterText_eq_some.mp h
    obtain ⟨w, hw, rfl⟩ := inside_of_quotedTail hu
    obtain rfl := Quote.char_of_ofChar? hq
    have hstring : InsideExpression (q.char :: (w ++ [q.char])) := .string hw .nil
    exact Unwinds.prepend hstring (ih hv)
  | case4 depth cs hq ih =>
    obtain ⟨v, hv, rfl⟩ := afterText_eq_some.mp h
    exact (ih hv).open
  | case5 cs hq hc =>
    cases h
    exact .inside .nil
  | case6 cs depth hq hc ih =>
    obtain ⟨v, hv, rfl⟩ := afterText_eq_some.mp h
    exact .close .nil (ih hv)
  | case7 depth c cs hq hopen hclose ih =>
    obtain ⟨v, hv, rfl⟩ := afterText_eq_some.mp h
    have hquotes := Quote.ofChar?_eq_none.mp hq
    have hchar : InsideExpression [c] := .char (by simp [hquotes, hopen, hclose]) .nil
    exact Unwinds.prepend hchar (ih hv)

theorem afterText_afterText (s t : Text) (r : Option (Text × Text)) :
    afterText s (afterText t r) = afterText (s ++ t) r := by
  cases r <;> simp [afterText]

theorem expressionBody_string {q : Quote} (h : InsideQuotes q s) (depth : Nat) (r : Text) :
    expressionBody depth (q.char :: s ++ q.char :: r) =
      afterText (q.char :: s ++ [q.char]) (expressionBody depth r) := by
  rw [List.cons_append, expressionBody.eq_def]
  simp only [Quote.ofChar?_char]
  rw [quotedTail_of_inside h]
  rfl

theorem expressionBody_open (depth : Nat) (r : Text) :
    expressionBody depth ('{' :: r) = afterText ['{'] (expressionBody (depth + 1) r) := by
  rw [expressionBody.eq_def]
  rfl

theorem expressionBody_close (depth : Nat) (r : Text) :
    expressionBody (depth + 1) ('}' :: r) = afterText ['}'] (expressionBody depth r) := by
  rw [expressionBody.eq_def]
  rfl

theorem expressionBody_end (r : Text) : expressionBody 0 ('}' :: r) = some ([], r) := by
  rw [expressionBody.eq_def]
  rfl

theorem expressionBody_char {c : Char} (hc : c ∉ ['"', '\'', '{', '}']) (depth : Nat) (r : Text) :
    expressionBody depth (c :: r) = afterText [c] (expressionBody depth r) := by
  simp only [List.mem_cons, List.not_mem_nil, or_false, not_or] at hc
  obtain ⟨hdouble, hsingle, hopen, hclose⟩ := hc
  have hq : Quote.ofChar? c = none := Quote.ofChar?_eq_none.mpr ⟨hdouble, hsingle⟩
  rw [expressionBody.eq_def]
  simp [hq, hopen, hclose]

/-- Text of the grammar leaves the depth as it is, so the scan passes over it as a whole. -/
theorem expressionBody_of_inside (h : InsideExpression t) (depth : Nat) (r : Text) :
    expressionBody depth (t ++ r) = afterText t (expressionBody depth r) := by
  induction h generalizing depth r with
  | nil =>
    rw [List.nil_append]
    cases expressionBody depth r <;> rfl
  | @char c t hc _ ih =>
    rw [List.cons_append, expressionBody_char hc, ih, afterText_afterText]
    rfl
  | @string q s t hq _ ih =>
    calc expressionBody depth (q.char :: s ++ q.char :: t ++ r)
        = expressionBody depth (q.char :: s ++ q.char :: (t ++ r)) := by simp
      _ = afterText (q.char :: s ++ [q.char]) (afterText t (expressionBody depth r)) := by
          rw [expressionBody_string hq, ih]
      _ = afterText (q.char :: s ++ q.char :: t) (expressionBody depth r) := by
          simp [afterText_afterText]
  | @braces s t _ _ ihs iht =>
    calc expressionBody depth ('{' :: s ++ '}' :: t ++ r)
        = expressionBody depth ('{' :: (s ++ '}' :: (t ++ r))) := by simp
      _ = afterText ['{'] (afterText s
        (afterText ['}'] (afterText t (expressionBody depth r)))) := by
          rw [expressionBody_open, ihs, expressionBody_close, iht]
      _ = afterText ('{' :: s ++ '}' :: t) (expressionBody depth r) := by
          simp [afterText_afterText]

/-- The scan gives the one part of the grammar that a closing brace follows. -/
theorem expressionBody_eq_some_iff :
    expressionBody 0 s = some (t, r) ↔ InsideExpression t ∧ s = t ++ '}' :: r := by
  constructor
  · intro h
    refine ⟨?_, expressionBody_eq h⟩
    cases unwinds_of_expressionBody h with
    | inside hin => exact hin
  · rintro ⟨hin, rfl⟩
    rw [expressionBody_of_inside hin, expressionBody_end]
    simp [afterText]

end Grammar

/-- Whether an expression from an index of a text on ends at another: a closing brace stands there,
and text of the grammar before it. -/
def ExpressionEnds (text : Text) (start stop : Nat) : Prop :=
  start ≤ stop ∧ text[stop]? = some '}' ∧ InsideExpression (text.slice start stop)

/-- Where the scan of an expression from an index on stops. -/
def expressionStop? (text : Text) (start : Nat) : Option Nat :=
  (expressionBody 0 (text.drop start)).map fun (body, _) => start + body.length

section Indexes

variable {text : Text} {start stop : Nat}

theorem expressionEnds_of_body {body rest : Text}
    (h : expressionBody 0 (text.drop start) = some (body, rest)) :
    ExpressionEnds text start (start + body.length) := by
  obtain ⟨hin, htext⟩ := expressionBody_eq_some_iff.mp h
  refine ⟨Nat.le_add_right _ _, ?_, ?_⟩
  · rw [← List.getElem?_drop, htext]
    simp
  · simpa [Text.slice, htext] using hin

theorem ExpressionEnds.body (h : ExpressionEnds text start stop) :
    expressionBody 0 (text.drop start) = some (text.slice start stop, text.drop (stop + 1)) := by
  obtain ⟨hle, hbrace, hin⟩ := h
  refine expressionBody_eq_some_iff.mpr ⟨hin, ?_⟩
  obtain ⟨hlt, hget⟩ := List.getElem?_eq_some_iff.mp hbrace
  have hrest : (text.drop start).drop (stop - start) = '}' :: text.drop (stop + 1) := by
    rw [List.drop_drop, Nat.add_sub_cancel' hle, List.drop_eq_getElem_cons hlt, hget]
  rw [Text.slice, ← hrest, List.take_append_drop]

theorem expressionStop?_eq_some_iff :
    expressionStop? text start = some stop ↔ ExpressionEnds text start stop := by
  constructor
  · intro h
    obtain ⟨⟨body, rest⟩, hbody, hstop⟩ := Option.map_eq_some_iff.mp h
    obtain rfl : start + body.length = stop := hstop
    exact expressionEnds_of_body hbody
  · intro h
    have hle := h.1
    have hlt : stop < text.length := (List.getElem?_eq_some_iff.mp h.2.1).1
    have hlength : (text.slice start stop).length = stop - start := by
      simp only [Text.slice, List.length_take, List.length_drop]
      omega
    rw [expressionStop?, h.body, Option.map_some]
    simp only [hlength, Nat.add_sub_cancel' hle]

theorem body_eq_none_iff :
    expressionBody 0 (text.drop start) = none ↔ ∀ stop, ¬ ExpressionEnds text start stop := by
  constructor
  · intro h stop hends
    rw [hends.body] at h
    cases h
  · intro h
    cases hbody : expressionBody 0 (text.drop start) with
    | none => rfl
    | some found => exact (h _ (expressionEnds_of_body hbody)).elim

end Indexes

/-- An expression behind the text `before` is read up to an index in each of the three places where
one may stand: a lexer gives its tokens and goes on behind it, an attribute value has a fragment of
it, and an attribute name holds all of it. -/
structure ReadUpTo (text before : Text) (start stop : Nat) : Prop where
  markup : ∀ d raw, Lexer.Gives (.between d before (text.drop before.length) raw .markup)
    (Token.placeAll (Position.start.advance before) [(.expressionStart, Delimiter.dollar.opening),
      (.expressionContent, text.slice start stop), (.expressionEnd, Delimiter.dollar.closing)])
    (.between d (text.take (stop + 1)) (text.drop (stop + 1)) raw .markup)
  value : ∀ d quote, valueFragments d quote (text.drop before.length) =
    (valueFragments d quote (text.drop (stop + 1))).map fun (fragments, rest) =>
      (.expression .dollar (text.slice start stop) :: fragments, rest)
  name : attributeName (text.drop before.length) =
    afterText (text.slice before.length (stop + 1)) (attributeName (text.drop (stop + 1)))

/-- The text ends inside an expression behind the text `before`, whichever place it stands in. A
lexer is at the end then. -/
structure ReadToEnd (text before : Text) : Prop where
  markup : ∀ d raw, Lexer.Gives (.between d before (text.drop before.length) raw .markup)
    [.place (Position.start.advance before) .expressionStart Delimiter.dollar.opening,
      .place (Position.start.advance before) (.endOfInput (some .expression))
        (text.drop before.length)]
    (.between d text [] raw .done)
  value : ∀ d quote, valueFragments d quote (text.drop before.length) = none
  name : attributeName (text.drop before.length) = none

section Places

variable {text before : Text} {start stop : Nat}

theorem valueEnd?_dollar (quote : Option Quote) (inner : Text) :
    valueEnd? quote '$' ('{' :: inner) = none := by
  cases quote with
  | none =>
    have hblank : isBlank '$' = false := by decide
    simp [valueEnd?, hblank]
  | some q => cases q <;> rfl

theorem valueFragments_expression {inner body rest : Text}
    (h : expressionBody 0 inner = some (body, rest)) (d : Dialect) (quote : Option Quote) :
    valueFragments d quote ('$' :: '{' :: inner) =
      (valueFragments d quote rest).map fun (fragments, rest) =>
        (.expression .dollar body :: fragments, rest) := by
  have hstep : valueStep d quote '$' ('{' :: inner) = .expression .dollar body rest := by
    simp [valueStep, afterDollar?, h]
  rw [valueFragments, valueEnd?_dollar]
  simp only
  rw [hstep]

theorem valueFragments_cutOff {inner : Text} (h : expressionBody 0 inner = none) (d : Dialect)
    (quote : Option Quote) : valueFragments d quote ('$' :: '{' :: inner) = none := by
  have hstep : valueStep d quote '$' ('{' :: inner) = .cutOff := by
    simp [valueStep, afterDollar?, h]
  rw [valueFragments, valueEnd?_dollar]
  simp only
  rw [hstep]

/-- The text around an expression, cut where it starts and where it ends. -/
theorem ExpressionEnds.cut (h : ExpressionEnds text start stop)
    (hbefore : text.take start = before ++ Delimiter.dollar.opening) : ∃ body rest,
    text = before ++ ('$' :: '{' :: (body ++ '}' :: rest)) ∧ start = before.length + 2 ∧
      stop = before.length + 2 + body.length ∧
      expressionBody 0 (body ++ '}' :: rest) = some (body, rest) := by
  have hlt : stop < text.length := (List.getElem?_eq_some_iff.mp h.2.1).1
  have hle : start ≤ stop := h.1
  have hstart : start = before.length + 2 := by
    have hlength := congrArg List.length hbefore
    simp only [List.length_take, List.length_append, Delimiter.opening, List.length_cons,
      List.length_nil] at hlength
    omega
  have hbody := h.body
  have hinner := expressionBody_eq hbody
  refine ⟨text.slice start stop, text.drop (stop + 1), ?_, hstart, ?_, hinner ▸ hbody⟩
  · calc text = text.take start ++ text.drop start := (List.take_append_drop start text).symm
      _ = _ := by rw [hbefore, hinner]; simp [Delimiter.opening]
  · simp only [Text.slice, List.length_take, List.length_drop]
    omega

theorem source_expression (body rest : Text) :
    (Construct.expression body).source ++ rest = '$' :: '{' :: (body ++ '}' :: rest) := by
  simp [Construct.source, Delimiter.opening, Delimiter.closing]

theorem ExpressionEnds.readUpTo (h : ExpressionEnds text start stop)
    (hbefore : text.take start = before ++ Delimiter.dollar.opening) :
    ReadUpTo text before start stop := by
  obtain ⟨body, rest, htext, rfl, rfl, hbody⟩ := h.cut hbefore
  have hinside : text.slice (before.length + 2) (before.length + 2 + body.length) = body := by
    have hdrop : text.drop (before.length + 2) = body ++ '}' :: rest := by
      rw [htext, ← List.drop_drop, List.drop_left]
      rfl
    rw [Text.slice, hdrop, Nat.add_sub_cancel_left, List.take_left]
  have hstop : before.length + 2 + body.length + 1 =
      before.length + (Construct.expression body).source.length := by
    simp only [Construct.source, Delimiter.opening, Delimiter.closing, List.length_append,
      List.length_cons, List.length_nil]
    omega
  rw [← source_expression] at htext
  have hfrom : text.drop before.length = (Construct.expression body).source ++ rest := by
    rw [htext, List.drop_left]
  have hall : text.slice before.length (before.length + 2 + body.length + 1) =
      (Construct.expression body).source := by
    rw [Text.slice, hstop, hfrom, Nat.add_sub_cancel_left, List.take_left]
  have hbehind : text.drop (before.length + 2 + body.length + 1) = rest := by
    rw [hstop, ← List.drop_drop, hfrom, List.drop_left]
  have hupto : text.take (before.length + 2 + body.length + 1) =
      before ++ (Construct.expression body).source := by
    rw [hstop, htext, List.take_length_add_append, List.take_left]
  refine ⟨?_, ?_, ?_⟩
  · intro d raw
    have hopener : opener? d raw ('$' :: '{' :: (body ++ '}' :: rest)) =
      some (.expression (body ++ '}' :: rest)) := rfl
    have hgives : Lexer.GivesNext d before _ raw _ _ := Lexer.gives_expression hopener
    rw [hbody] at hgives
    rw [hfrom, source_expression, hinside, hupto, hbehind]
    exact hgives
  · intro d quote
    rw [hfrom, source_expression, valueFragments_expression hbody, hinside, hbehind]
  · rw [hall, hbehind, hfrom, source_expression, attributeName_expression hbody]
    simp [Construct.source, Delimiter.opening, Delimiter.closing]

theorem readToEnd (h : ∀ stop, ¬ ExpressionEnds text start stop)
    (hbefore : text.take start = before ++ Delimiter.dollar.opening) : ReadToEnd text before := by
  have hbody := body_eq_none_iff.mpr h
  have htext : text = before ++ ('$' :: '{' :: text.drop start) := by
    calc text = text.take start ++ text.drop start := (List.take_append_drop start text).symm
      _ = _ := by rw [hbefore]; simp [Delimiter.opening]
  have hfrom : text.drop before.length = '$' :: '{' :: text.drop start := by
    nth_rewrite 1 [htext]
    exact List.drop_left
  refine ⟨?_, ?_, ?_⟩
  · intro d raw
    have hopener : opener? d raw ('$' :: '{' :: text.drop start) =
      some (.expression (text.drop start)) := rfl
    have hgives : Lexer.GivesNext d before _ raw _ _ := Lexer.gives_expression hopener
    rw [hbody] at hgives
    simp only [Lexer.GivesNext, ← htext] at hgives
    rw [hfrom]
    exact hgives
  · intro d quote
    rw [hfrom, valueFragments_cutOff hbody]
  · rw [hfrom, attributeName_dollar, hbody]

end Places

/-- An expression that starts at an index ends at most once, before the closing brace that text of
the grammar leads to. The scan stops there, it fails exactly if there is no such brace, and markup,
attribute values and attribute names all take the expression up to there. -/
theorem expression_extent (text : Text) (start : Nat) :
    (∀ stop, expressionStop? text start = some stop ↔ ExpressionEnds text start stop) ∧
      (∀ stop stop', ExpressionEnds text start stop → ExpressionEnds text start stop' →
        stop = stop') ∧
      (expressionStop? text start = none ↔ ∀ stop, ¬ ExpressionEnds text start stop) ∧
      ∀ before, text.take start = before ++ Delimiter.dollar.opening →
        (∀ stop, ExpressionEnds text start stop → ReadUpTo text before start stop) ∧
        ((∀ stop, ¬ ExpressionEnds text start stop) → ReadToEnd text before) := by
  refine ⟨fun _ => expressionStop?_eq_some_iff, ?_, ?_, ?_⟩
  · intro stop stop' h h'
    rw [← expressionStop?_eq_some_iff] at h h'
    exact Option.some.inj (h.symm.trans h')
  · rw [expressionStop?, Option.map_eq_none_iff]
    exact body_eq_none_iff
  · intro before hbefore
    exact ⟨fun _ hends => hends.readUpTo hbefore, fun hnone => readToEnd hnone hbefore⟩

end StoreMarkup
