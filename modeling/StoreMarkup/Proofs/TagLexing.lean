import StoreMarkup.Lexer
import StoreMarkup.Proofs.TokenStream

/-! The tokens a lexer gives inside a tag are those of the parts of the tag. -/
namespace StoreMarkup

/-- A cursor with some text before it and some after it. -/
def Cursor.between (before rest : Text) : Cursor := ⟨before ++ rest, Position.start.advance before⟩

@[simp] theorem Cursor.rest_between (before rest : Text) : (between before rest).rest = rest := by
  simp [Cursor.rest, between, Position.start]

theorem Cursor.slice_of_le {c : Cursor} {start stop : Nat} (hstart : start ≤ c.text.length)
    (hstop : stop ≤ c.text.length) :
    c.slice start (some (stop : Int)) = Text.slice start stop c.text := by
  have hneg : ∀ n : Nat, ¬ (n : Int) < 0 := by omega
  simp [Cursor.slice, Cursor.clamp, Cursor.length, Nat.min_eq_left hstart, Nat.min_eq_left hstop,
    hneg]

theorem Cursor.slice_to_end {c : Cursor} {start : Nat} (hstart : start ≤ c.text.length) :
    c.slice start none = c.text.drop start := by
  have hneg : ¬ (start : Int) < 0 := by omega
  have hall : (c.text.drop start).take (c.text.length - start) = c.text.drop start :=
    List.take_of_length_le (by simp)
  simp [Cursor.slice, Cursor.clamp, Cursor.length, Nat.min_eq_left hstart, hneg, Text.slice, hall]

namespace Lexer

/-- A lexer with some text before its cursor and some after it. -/
def between (d : Dialect) (before rest : Text) (raw : Option RawText) (mode : LexerMode) : Lexer :=
  { dialect := d, cursor := .between before rest, raw, mode }

variable {d : Dialect} {before rest s t : Text} {raw : Option RawText} {mode next : LexerMode}

@[simp] theorem rest_between : (between d before rest raw mode).cursor.rest = rest :=
  Cursor.rest_between before rest

@[simp] theorem dialect_between : (between d before rest raw mode).dialect = d := rfl

@[simp] theorem raw_between : (between d before rest raw mode).raw = raw := rfl

@[simp] theorem mode_between : (between d before rest raw mode).mode = mode := rfl

@[simp] theorem position_between :
    (between d before rest raw mode).cursor.position = Position.start.advance before := rfl

theorem skip_between (before t rest : Text) : (between d before (t ++ rest) raw mode).skip t =
    between d (before ++ t) rest raw mode := by
  simp [skip, between, Cursor.advanceBy, Cursor.between, Cursor.rest, Position.start]

theorem emit_between (before t rest : Text) (kind : TokenKind) :
    (between d (before ++ t) rest raw mode).emit kind (Position.start.advance before) next =
      (.place (Position.start.advance before) kind t,
        between d (before ++ t) rest raw next) := by
  have hcut := slice_advance before t rest
  have hstart : (Position.start.advance before).offset ≤ (before ++ t ++ rest).length := by
    simp [Position.start]
  have hstop : (Position.start.advance (before ++ t)).offset ≤ (before ++ t ++ rest).length := by
    simp [Position.start]
  rw [← Position.advance_append] at hcut
  unfold emit
  simp only [position_between]
  rw [Cursor.slice_of_le hstart hstop]
  have htext : (between d (before ++ t) rest raw mode).cursor.text = before ++ t ++ rest := rfl
  rw [htext, hcut, Position.advance_append]
  rfl

theorem emit_empty (before rest : Text) (kind : TokenKind) :
    (between d before rest raw mode).emit kind (Position.start.advance before) next =
      (.place (Position.start.advance before) kind [], between d before rest raw next) := by
  have h : (between d (before ++ []) rest raw mode).emit kind (Position.start.advance before) next =
    _ := emit_between _ _ _ _
  rwa [List.append_nil] at h

/-- The text of the last token is all that is left from the start of the unfinished construct. -/
theorem emitUnterminated_between (u : Unterminated) :
    (between d (before ++ t) rest raw mode).emitUnterminated u (Position.start.advance before) =
      (.place (Position.start.advance before) (.endOfInput (some u)) (t ++ rest),
        between d (before ++ (t ++ rest)) [] raw .done) := by
  have hskip : (between d (before ++ t) rest raw mode).skip rest =
      between d (before ++ (t ++ rest)) [] raw mode := by
    have h : (between d (before ++ t) (rest ++ []) raw mode).skip rest = _ := skip_between _ _ _
    rwa [List.append_nil, List.append_assoc] at h
  have hstart : (Position.start.advance before).offset ≤ (before ++ (t ++ rest) ++ []).length := by
    simp [Position.start]
  have hcut : (before ++ (t ++ rest) ++ []).drop (Position.start.advance before).offset =
      t ++ rest := by
    simp [Position.start]
  unfold emitUnterminated
  rw [rest_between, hskip]
  simp only [position_between]
  rw [Cursor.slice_to_end hstart]
  have htext : (between d (before ++ (t ++ rest)) [] raw mode).cursor.text =
      before ++ (t ++ rest) ++ [] := rfl
  rw [htext, hcut, Position.advance_append]
  rfl

/-- A lexer gives some tokens one after the other. -/
inductive Gives : Lexer → List Token → Lexer → Prop
  | nil (l : Lexer) : Gives l [] l
  | cons {l m k : Lexer} {t : Token} {ts : List Token} :
      l.pull = some (t, m) → Gives m ts k → Gives l (t :: ts) k

namespace Gives

variable {l m k : Lexer} {t : Token} {ts us : List Token}

theorem single (h : l.pull = some (t, m)) : Gives l [t] m := .cons h (.nil m)

theorem trans (h : Gives l ts m) (h' : Gives m us k) : Gives l (ts ++ us) k := by
  induction h with
  | nil => exact h'
  | cons hp _ ih => exact .cons hp (ih h')

/-- A lexer gives its tokens in one way only: of two runs one goes on where the other stopped. -/
theorem compare (h : Gives l ts m) (h' : Gives l us k) :
    (∃ vs, ts = us ++ vs ∧ Gives k vs m) ∨ (∃ v vs, us = ts ++ v :: vs ∧ Gives m (v :: vs) k) := by
  induction h generalizing us with
  | nil =>
    cases h' with
    | nil => exact Or.inl ⟨[], rfl, .nil _⟩
    | cons hp hrest => exact Or.inr ⟨_, _, rfl, .cons hp hrest⟩
  | cons hp hrest ih =>
    cases h' with
    | nil => exact Or.inl ⟨_, rfl, .cons hp hrest⟩
    | cons hp' hrest' =>
      rw [hp] at hp'
      cases hp'
      rcases ih hrest' with ⟨vs, rfl, hvs⟩ | ⟨v, vs, rfl, hvs⟩
      · exact Or.inl ⟨vs, rfl, hvs⟩
      · exact Or.inr ⟨v, vs, rfl, hvs⟩

theorem unique (h : Gives l ts m) (h' : Gives l ts k) : m = k := by
  rcases h.compare h' with ⟨vs, hvs, hrest⟩ | ⟨v, vs, hvs, -⟩
  · obtain rfl : vs = [] := by simpa using hvs
    cases hrest
    rfl
  · simp at hvs

/-- The lexer that gave the last token. -/
theorem exists_pull (h : Gives l (ts ++ [t]) m) : ∃ k, Gives l ts k ∧ k.pull = some (t, m) := by
  induction ts generalizing l with
  | nil =>
    cases h with
    | cons hp hrest =>
      cases hrest
      exact ⟨l, .nil l, hp⟩
  | cons u ts ih =>
    cases h with
    | cons hp hrest =>
      obtain ⟨k, hk, hlast⟩ := ih hrest
      exact ⟨k, .cons hp hk, hlast⟩

end Gives

theorem skip_blanks : (between d before s raw mode).skip (blanks s) =
    between d (before ++ blanks s) (afterBlanks s) raw mode := by
  have h : (between d before (blanks s ++ afterBlanks s) raw mode).skip (blanks s) = _ :=
    skip_between _ _ _
  rwa [blanks_append_afterBlanks] at h

/-- A token for the next piece of the source. -/
theorem skip_emit (kind : TokenKind) :
    ((between d before (t ++ rest) raw mode).skip t).emit kind
      (Position.start.advance before) next =
      (.place (Position.start.advance before) kind t,
        between d (before ++ t) rest raw next) := by
  rw [skip_between, emit_between]

theorem gives_skip_emit {l : Lexer} {kind : TokenKind}
    (h : l.pull = some (((between d before (t ++ rest) raw mode).skip t).emit kind
      (Position.start.advance before) next)) :
    Gives l [.place (Position.start.advance before) kind t]
      (between d (before ++ t) rest raw next) := by
  rw [skip_emit] at h
  exact .single h

/-- After the name of an attribute the tag goes on unless an equals sign follows. -/
theorem pull_attribute {opener : Position} {name : Text}
    (h : ∀ value, afterBlanks s ≠ '=' :: value) :
    (between d before s raw (.attribute opener name)).pull =
      (between d before s raw (.openTag opener name)).pull := by
  have hmode : (between d before s raw (.attribute opener name)).attributeToken opener name =
      (between d before s raw (.attribute opener name)).openTagToken opener name := by
    unfold attributeToken
    rw [rest_between]
    split
    · rename_i value hv
      exact (h value hv).elim
    · rfl
  simp only [pull, mode_between, hmode]
  rfl

/-- What a lexer gives for a step inside an open tag that starts after `opened` and of which `done`
was read, where `s` is left. -/
def GivesStep (d : Dialect) (opened done s : Text) (raw : Option RawText) (name : Text)
    (l : Lexer) : TagStep → Prop
  | .more parts rest => ∃ m,
      Gives l (partTokens (Position.start.advance (opened ++ done)) parts) m ∧
      m.pull = (between d (opened ++ (done ++ parts.flatMap TagPart.source)) rest raw
        (.openTag (Position.start.advance opened) name)).pull
  | .close gap slash rest => Gives l
      [.place (Position.start.advance (opened ++ (done ++ gap))) .tagOpenEnd (tagEnd slash)]
      (between d (opened ++ (done ++ gap ++ tagEnd slash)) rest
        (if slash then raw else RawText.afterOpen d raw name) .markup)
  | .cutOff parts => Gives l
      (partTokens (Position.start.advance (opened ++ done)) parts ++
        [.place (Position.start.advance opened) (.endOfInput (some .tag)) (done ++ s)])
      (between d (opened ++ (done ++ s)) [] raw .done)

variable {opened done name : Text}

/-- The source ends inside an open tag. -/
theorem gives_cutOff {l : Lexer} {u : Unterminated}
    (h : l.pull = some ((between d (opened ++ done) s raw mode).emitUnterminated u
      (Position.start.advance opened))) :
    Gives l [.place (Position.start.advance opened) (.endOfInput (some u)) (done ++ s)]
      (between d (opened ++ (done ++ s)) [] raw .done) := by
  rw [emitUnterminated_between] at h
  exact .single h

theorem givesStep_cutOff {l : Lexer} {gap : Text}
    (h : l.pull = some ((between d (opened ++ (done ++ gap)) s raw mode).emitUnterminated .tag
      (Position.start.advance opened))) :
    GivesStep d opened done (gap ++ s) raw name l (.cutOff []) := by
  have hgives := gives_cutOff h
  simpa [GivesStep] using hgives

theorem givesStep_stray {l : Lexer} {gap text : Text} {fault : Fault}
    (h : l.pull =
      some (((between d (opened ++ (done ++ gap)) (text ++ rest) raw mode).skip text).emit
        (.invalid fault) (Position.start.advance (opened ++ (done ++ gap)))
        (.openTag (Position.start.advance opened) name))) :
    GivesStep d opened done s raw name l (.more [.stray ⟨gap, text⟩ fault] rest) := by
  have hgives := gives_skip_emit h
  exact ⟨_, by simpa [TagPart.tokens] using hgives, by simp [TagPart.source, Stray.source]⟩

/-- The end of an open tag is written with or without a slash. -/
theorem tagEnd_append {c : Char} {cs : Text} (h : endsTag c cs = true) :
    c :: cs = tagEnd (c == '/') ++ if c == '/' then cs.drop 1 else cs := by
  obtain rfl | ⟨rfl, ht⟩ : c = '>' ∨ c = '/' ∧ cs.head? = some '>' := by simpa [endsTag] using h
  · rfl
  · obtain ⟨ds, rfl⟩ := List.head?_eq_some_iff.mp ht
    rfl

theorem givesStep_close {l : Lexer} {gap cs : Text} {c : Char} (hend : endsTag c cs = true)
    (h : l.pull = some (((between d (opened ++ (done ++ gap)) (c :: cs)
      (if c == '/' then raw else RawText.afterOpen d raw name) mode).skip (tagEnd (c == '/'))).emit
      .tagOpenEnd (Position.start.advance (opened ++ (done ++ gap))) .markup)) :
    GivesStep d opened done s raw name l
      (.close gap (c == '/') (if c == '/' then cs.drop 1 else cs)) := by
  rw [tagEnd_append hend] at h
  have hgives := gives_skip_emit h
  rwa [List.append_assoc opened] at hgives

/-- An equals sign after the name of an attribute leads to its value. -/
theorem pull_attribute_value (before : Text) (opener : Position) {value : Text}
    (h : afterBlanks s = '=' :: value) :
    (between d before s raw (.attribute opener name)).pull =
      some ((between d (before ++ blanks s) ('=' :: value) raw (.attribute opener name)).valueToken
        opener name value) := by
  simp only [pull, mode_between, attributeToken, rest_between, h, skip_blanks]

theorem skip_assignment {value : Text} : (between d before ('=' :: value) raw mode).skip
    ('=' :: blanks value) =
      between d (before ++ '=' :: blanks value) (afterBlanks value) raw mode := by
  have h : (between d before ('=' :: blanks value ++ afterBlanks value) raw mode).skip
    ('=' :: blanks value) = _ := skip_between _ _ _
  rwa [List.cons_append, blanks_append_afterBlanks] at h

theorem givesStep_assignmentStep {l : Lexer} {gap found value r : Text}
    (hr : afterBlanks r = '=' :: value)
    (hl : l.pull = some (.place (Position.start.advance (opened ++ (done ++ gap)))
      .attributeName found,
      between d (opened ++ (done ++ (gap ++ found))) r raw
        (.attribute (Position.start.advance opened) name))) :
    GivesStep d opened done (gap ++ found ++ r) raw name l
      (assignmentStep d gap found (blanks r) value) := by
  have hs : r = blanks r ++ ('=' :: blanks value ++ afterBlanks value) := by
    rw [List.cons_append, blanks_append_afterBlanks, ← hr, blanks_append_afterBlanks]
  have hpull : (between d (opened ++ (done ++ (gap ++ found))) r raw
      (.attribute (Position.start.advance opened) name)).pull = _ := pull_attribute_value _ _ hr
  unfold valueToken at hpull
  simp only [skip_assignment, position_between, dialect_between, List.append_assoc] at hpull
  -- The source ends before the value does.
  have hcut : (between d (opened ++ (done ++ (gap ++ found))) r raw
        (.attribute (Position.start.advance opened) name)).pull =
      some ((between d (opened ++ (done ++ (gap ++ (found ++ (blanks r ++ '=' :: blanks value)))))
        (afterBlanks value) raw (.attribute (Position.start.advance opened) name)).emitUnterminated
        .tag (Position.start.advance opened)) →
      GivesStep d opened done (gap ++ found ++ r) raw name l
        (.cutOff [.attribute gap found none]) := by
    intro h
    have hall := Gives.cons hl (gives_cutOff h)
    simp only [List.append_assoc, ← hs] at hall
    simpa [GivesStep, TagPart.tokens] using hall
  unfold assignmentStep
  split
  · rename_i hend
    simp only [hend] at hpull
    rw [hend] at hcut
    exact hcut hpull
  · rename_i c cs hd
    simp only [hd] at hpull
    rw [hd] at hcut
    split
    · rename_i hend
      simp only [hend, if_true] at hpull
      have hplace : opened ++ (done ++ (gap ++ (found ++ (blanks r ++ '=' :: blanks value)))) =
          opened ++ (done ++ (gap ++ (found ++ blanks r))) ++ '=' :: blanks value := by simp
      rw [hplace, emit_between] at hpull
      have hall := Gives.cons hl (.single hpull)
      exact ⟨_, by simpa [TagPart.tokens, TagPart.source] using hall,
        by simp [TagPart.source, Stray.source]⟩
    · rename_i hend
      simp only [hend, Bool.false_eq_true, if_false] at hpull
      split
      · rename_i hv
        simp only [hv] at hpull
        exact hcut hpull
      · rename_i fs rest hv
        simp only [hv] at hpull
        have htext : c :: cs = (Value.text ⟨[], Quote.ofChar? c, fs⟩) ++ rest := by
          rw [← quoteMark_append_afterQuote, valueFragments_eq hv]
          simp [Value.text]
        rw [htext, skip_emit] at hpull
        have hall := Gives.cons hl (.single hpull)
        exact ⟨_, by simpa [TagPart.tokens, TagPart.source, Value.text, Value.locatedFragments]
          using hall, by simp [TagPart.source, Value.text]⟩

theorem givesStep_attributeStep {l : Lexer} {gap : Text}
    (hl : l.pull = some (match attributeName s with
      | some (found, _) => ((between d (opened ++ (done ++ gap)) s raw mode).skip found).emit
          .attributeName (Position.start.advance (opened ++ (done ++ gap)))
          (.attribute (Position.start.advance opened) name)
      | none => (between d (opened ++ (done ++ gap)) s raw mode).emitUnterminated .tag
          (Position.start.advance opened))) :
    GivesStep d opened done (gap ++ s) raw name l (attributeStep d gap s) := by
  unfold attributeStep
  split
  · rename_i hn
    simp only [hn] at hl
    exact givesStep_cutOff hl
  · rename_i found rest hn
    simp only [hn] at hl
    rw [attributeName_eq hn, skip_emit, List.append_assoc, List.append_assoc] at hl
    split
    · rename_i value hr
      have h := givesStep_assignmentStep hr hl
      rwa [attributeName_eq hn, ← List.append_assoc]
    · rename_i hother
      refine ⟨_, by simpa [TagPart.tokens] using Gives.single hl, ?_⟩
      rw [pull_attribute hother]
      simp [TagPart.source]

/-- A lexer inside an open tag gives the tokens of the next parts or of the end of the tag. -/
theorem givesStep_tagStep {l : Lexer} (hl : l.pull = (between d (opened ++ done) s raw
      (.openTag (Position.start.advance opened) name)).pull) :
    GivesStep d opened done s raw name l (tagStep d s) := by
  have hs := blanks_append_afterBlanks s
  have hpull : l.pull = some (openTagToken _ _ _) := hl
  unfold openTagToken at hpull
  simp only [rest_between, skip_blanks, position_between, raw_between, dialect_between,
    List.append_assoc] at hpull
  have hcut : l.pull = some ((between d (opened ++ (done ++ blanks s)) (afterBlanks s) raw
        (.openTag (Position.start.advance opened) name)).emitUnterminated .tag
        (Position.start.advance opened)) →
      GivesStep d opened done s raw name l (.cutOff []) := by
    intro h
    have hgives : GivesStep d opened done (blanks s ++ afterBlanks s) raw name l (.cutOff []) :=
      givesStep_cutOff h
    rwa [hs] at hgives
  unfold tagStep
  split
  · rename_i hend
    simp only [hend] at hpull
    rw [hend] at hcut
    exact hcut hpull
  · rename_i c cs hd
    simp only [hd] at hpull
    rw [hd] at hcut hs
    split
    · rename_i hend
      simp only [hend, if_true] at hpull
      exact givesStep_close hend hpull
    · rename_i hend
      simp only [hend, Bool.false_eq_true, if_false] at hpull
      split
      · rename_i q hq
        simp only [hq] at hpull
        split
        · rename_i ht
          simp only [ht] at hpull
          exact hcut hpull
        · rename_i t rest ht
          simp only [ht] at hpull
          have htext : c :: cs = (c :: t) ++ rest := by simp [(quotedTail_eq ht).1]
          rw [htext] at hpull
          exact givesStep_stray hpull
      · rename_i hq
        simp only [hq] at hpull
        split
        · rename_i hm
          simp only [hm, if_true] at hpull
          have htext : c :: cs = [c] ++ cs := rfl
          rw [htext] at hpull
          exact givesStep_stray hpull
        · rename_i hm
          simp only [hm] at hpull
          have h := givesStep_attributeStep hpull
          rwa [hs] at h

/-- What a lexer gives for the inside of an open tag that starts after `opened` and of which `done`
was read, where `s` is left. -/
def GivesTag (d : Dialect) (opened done s : Text) (raw : Option RawText) (name : Text)
    (l : Lexer) : TagScan → Prop
  | .closed parts gap slash rest => Gives l
      (partTokens (Position.start.advance (opened ++ done)) parts ++
        [.place (Position.start.advance (opened ++ (done ++ parts.flatMap TagPart.source ++ gap)))
          .tagOpenEnd (tagEnd slash)])
      (between d (opened ++ (done ++ parts.flatMap TagPart.source ++ gap ++ tagEnd slash)) rest
        (if slash then raw else RawText.afterOpen d raw name) .markup)
  | .cutOff parts => Gives l
      (partTokens (Position.start.advance (opened ++ done)) parts ++
        [.place (Position.start.advance opened) (.endOfInput (some .tag)) (done ++ s)])
      (between d (opened ++ (done ++ s)) [] raw .done)

theorem givesTag_scanTag {l : Lexer} (hl : l.pull = (between d (opened ++ done) s raw
      (.openTag (Position.start.advance opened) name)).pull) :
    GivesTag d opened done s raw name l (scanTag d s) := by
  fun_induction scanTag d s generalizing done l with
  | case1 s gap slash rest hs =>
    have h := givesStep_tagStep hl
    rw [hs] at h
    simpa [GivesStep, GivesTag] using h
  | case2 s parts hs =>
    have h := givesStep_tagStep hl
    rwa [hs] at h
  | case3 s parts rest hs ih =>
    have h := givesStep_tagStep hl
    rw [hs] at h
    obtain ⟨m, hparts, hm⟩ := h
    have hrest := ih hm
    cases hr : scanTag d rest with
    | closed others gap slash after =>
      rw [hr] at hrest
      have hall := hparts.trans hrest
      simpa [GivesTag, TagScan.after, partTokens_append] using hall
    | cutOff others =>
      rw [hr] at hrest
      have hall := hparts.trans hrest
      simpa [GivesTag, TagScan.after, partTokens_append, tagStep_more hs] using hall

/-- What a lexer gives for the inside of a close tag that starts after `opened` and of which `done`
was read, where `s` is left. -/
def GivesClose (d : Dialect) (opened done s : Text) (raw : Option RawText) (name : Text)
    (l : Lexer) : CloseScan → Prop
  | .closed strays gap rest => Gives l
      (strayTokens (Position.start.advance (opened ++ done)) strays ++
        [.place (Position.start.advance (opened ++ (done ++ strays.flatMap Stray.source ++ gap)))
          .tagCloseEnd ['>']])
      (between d (opened ++ (done ++ strays.flatMap Stray.source ++ gap ++ ['>'])) rest
        (RawText.afterClose raw name) .markup)
  | .cutOff strays => Gives l
      (strayTokens (Position.start.advance (opened ++ done)) strays ++
        [.place (Position.start.advance opened) (.endOfInput (some .tag)) (done ++ s)])
      (between d (opened ++ (done ++ s)) [] raw .done)

theorem givesClose_scanClose : GivesClose d opened done s raw name
    (between d (opened ++ done) s raw (.closeTag (Position.start.advance opened) name))
    (scanClose s) := by
  fun_induction scanClose s generalizing done with
  | case1 s gap rest hs =>
    have hpull : (between d (opened ++ done) s raw
        (.closeTag (Position.start.advance opened) name)).pull = some (closeTagToken _ _ _) := rfl
    simp only [closeTagToken, rest_between, hs] at hpull
    rw [closeStep_close hs, skip_between, List.append_assoc] at hpull
    have hgives := Gives.single (hpull.trans (congrArg some (skip_emit .tagCloseEnd)))
    simpa [GivesClose, closeStep_close hs] using hgives
  | case2 s hs =>
    have hpull : (between d (opened ++ done) s raw
        (.closeTag (Position.start.advance opened) name)).pull = some (closeTagToken _ _ _) := rfl
    simp only [closeTagToken, rest_between, hs] at hpull
    exact gives_cutOff hpull
  | case3 s stray rest hs ih =>
    have htext : s = stray.gap ++ (stray.text ++ rest) := by
      rw [(closeStep_more hs).1, Stray.source, List.append_assoc]
    have hpull : (between d (opened ++ done) s raw
        (.closeTag (Position.start.advance opened) name)).pull = some (closeTagToken _ _ _) := rfl
    simp only [closeTagToken, rest_between, hs] at hpull
    rw [htext, skip_between, position_between, skip_emit, ← htext, List.append_assoc,
      List.append_assoc, List.append_assoc, ← Stray.source] at hpull
    have hrest : GivesClose d opened (done ++ stray.source) rest raw name _ (scanClose rest) := ih
    cases hr : scanClose rest with
    | closed others gap after =>
      rw [hr] at hrest
      have hall := Gives.cons hpull hrest
      simpa [GivesClose, CloseScan.after, Stray.token] using hall
    | cutOff others =>
      rw [hr] at hrest
      have hall := Gives.cons hpull hrest
      simpa [GivesClose, CloseScan.after, Stray.token, (closeStep_more hs).1] using hall

end Lexer

end StoreMarkup
