import StoreMarkup.Proofs.TagLexing

/-! The lexer gives the tokens of a template one after the other, and its cursor stands at the end
of the last one. -/
namespace StoreMarkup.Lexer

variable {d : Dialect} {before s name : Text} {raw : Option RawText}

/-- What a lexer gives between two constructs, after the text `before` and where `s` is left. -/
def GivesNext (d : Dialect) (before s : Text) (raw : Option RawText) (l : Lexer) :
    Reading.Step → Prop
  | .construct c rest => Gives l (c.tokens (Position.start.advance before))
      (between d (before ++ c.source) rest (RawText.after d raw c) .markup)
  | .ending e => Gives l (e.tokens (Position.start.advance before))
      (between d (before ++ s) [] raw .done)

theorem pull_markup (d : Dialect) (before s : Text) (raw : Option RawText) :
    (between d before s raw .markup).pull = some (between d before s raw .markup).markupToken := rfl

theorem gives_openTag (before : Text) {after : Text}
    (h : opener? d raw s = some (.openTag name after)) :
    Gives (between d before s raw .markup)
      [.place (Position.start.advance before) .tagOpenStart ('<' :: name)]
      (between d (before ++ '<' :: name) after raw
        (.openTag (Position.start.advance before) name)) := by
  have hpull := pull_markup d before s raw
  simp only [markupToken, rest_between, dialect_between, raw_between, h, position_between] at hpull
  have htext := opener?_openTag h
  subst htext
  exact gives_skip_emit hpull

theorem gives_closeTag (before : Text) {after : Text}
    (h : opener? d raw s = some (.closeTag name after)) :
    Gives (between d before s raw .markup)
      [.place (Position.start.advance before) .tagCloseStart ('<' :: '/' :: name)]
      (between d (before ++ '<' :: '/' :: name) after raw
        (.closeTag (Position.start.advance before) name)) := by
  have hpull := pull_markup d before s raw
  simp only [markupToken, rest_between, dialect_between, raw_between, h, position_between] at hpull
  have htext := opener?_closeTag h
  subst htext
  exact gives_skip_emit hpull

theorem gives_expression {inner : Text} (h : opener? d raw s = some (.expression inner)) :
    GivesNext d before s raw (between d before s raw .markup)
      (match expressionBody 0 inner with
      | some (body, rest) => .construct (.expression body) rest
      | none => .ending (.expression s)) := by
  have hpull := pull_markup d before s raw
  simp only [markupToken, rest_between, dialect_between, raw_between, h, position_between] at hpull
  have htext : s = Delimiter.dollar.opening ++ inner := opener?_expression h
  subst htext
  rw [skip_emit] at hpull
  have hinner : (between d (before ++ Delimiter.dollar.opening) inner raw
      (.expression (Position.start.advance before))).pull = some (expressionToken _ _) := rfl
  simp only [expressionToken, rest_between] at hinner
  split
  · rename_i body rest hb
    have htext : inner = body ++ (Delimiter.dollar.closing ++ rest) := expressionBody_eq hb
    simp only [hb, position_between] at hinner
    subst htext
    rw [skip_emit] at hinner
    have hend : (between d (before ++ Delimiter.dollar.opening ++ body)
        (Delimiter.dollar.closing ++ rest) raw .expressionEnd).pull =
      some (emit (skip _ _) .expressionEnd (Position.start.advance _) .markup) := rfl
    rw [skip_emit] at hend
    have hall := Gives.cons hpull (.cons hinner (.single hend))
    simpa [GivesNext, Construct.tokens, Token.placeAll, Construct.source, RawText.after] using hall
  · rename_i hb
    simp only [hb] at hinner
    exact .cons hpull (gives_cutOff hinner)

/-- After the content of a comment comes its end, which may be empty. -/
theorem gives_commentEnd (before closing rest : Text) :
    Gives (between d before (closing ++ rest) raw (.commentEnd closing))
      [.place (Position.start.advance before) .commentEnd closing]
      (between d (before ++ closing) rest raw .markup) := by
  have hend : (between d before (closing ++ rest) raw (.commentEnd closing)).pull =
    some (emit (skip _ closing) .commentEnd (Position.start.advance before) .markup) := rfl
  exact gives_skip_emit hend

theorem gives_comment (h : opener? d raw s = some .comment) :
    GivesNext d before s raw (between d before s raw .markup)
      (match scanComment s with
      | .closed opening content closing rest => .construct (.comment opening content closing) rest
      | .cutOff opening => .ending (.comment opening s)) := by
  have hpull := pull_markup d before s raw
  simp only [markupToken, rest_between, dialect_between, raw_between, h, position_between] at hpull
  unfold scanComment
  cases hb : throughBracket? s with
  | none =>
    simp only [hb] at hpull ⊢
    have hcut : (between d before s raw .markup).pull =
        some ((between d (before ++ []) s raw .markup).emitUnterminated .comment
          (Position.start.advance before)) := by rwa [List.append_nil]
    exact gives_cutOff hcut
  | some found =>
    obtain ⟨opening, after⟩ := found
    have htext : s = opening ++ after := (throughBracket?_eq hb).1
    simp only [hb] at hpull ⊢
    subst htext
    rw [skip_emit] at hpull
    have hinner : (between d (before ++ opening) after raw
        (.comment (Position.start.advance before) opening)).pull = some (commentToken _ _ _) := rfl
    simp only [commentToken, rest_between, position_between] at hinner
    by_cases hslash : ['/', '>'].isSuffixOf opening = true
    · simp only [hslash, if_true] at hinner ⊢
      rw [emit_empty] at hinner
      have hall := Gives.cons hpull (.cons hinner (gives_commentEnd _ [] after))
      simpa [GivesNext, Construct.tokens, Token.placeAll, Construct.source, RawText.after]
        using hall
    · simp only [hslash, Bool.false_eq_true, if_false] at hinner ⊢
      cases hbody : commentBody? after with
      | none =>
        simp only [hbody] at hinner ⊢
        exact .cons hpull (gives_cutOff hinner)
      | some body =>
        obtain ⟨content, closing, rest⟩ := body
        have htext : after = content ++ (closing ++ rest) := by
          rw [commentBody?_eq hbody, List.append_assoc]
        simp only [hbody] at hinner ⊢
        subst htext
        rw [skip_emit] at hinner
        have hall := Gives.cons hpull (.cons hinner (gives_commentEnd _ closing rest))
        simpa [GivesNext, Construct.tokens, Token.placeAll, Construct.source, RawText.after]
          using hall

theorem gives_text {c : Char} {cs : Text} (h : opener? d raw (c :: cs) = none) :
    Gives (between d before (c :: cs) raw .markup)
      [.place (Position.start.advance before) .text (c :: (textRun d raw cs).1)]
      (between d (before ++ c :: (textRun d raw cs).1) (textRun d raw cs).2 raw .markup) := by
  have htext : c :: cs = (c :: (textRun d raw cs).1) ++ (textRun d raw cs).2 := by
    rw [List.cons_append, textRun_eq]
  have hpull := pull_markup d before (c :: cs) raw
  simp only [markupToken, rest_between, dialect_between, raw_between, h, position_between] at hpull
  rw [htext, skip_emit, ← htext] at hpull
  exact .single hpull

/-- Between two constructs a lexer gives the tokens of the next construct or of the ending. -/
theorem givesNext_step (d : Dialect) (before s : Text) (raw : Option RawText) :
    GivesNext d before s raw (between d before s raw .markup) (Reading.step d raw s) := by
  cases s with
  | nil =>
    have hpull := pull_markup d before [] raw
    simp only [markupToken, rest_between, opener?, position_between, emit_empty] at hpull
    have hgives := Gives.single hpull
    simpa [GivesNext, Reading.step, Ending.tokens, Ending.source, Ending.unterminated?] using hgives
  | cons c cs =>
    simp only [Reading.step]
    cases ho : opener? d raw (c :: cs) with
    | none => exact gives_text ho
    | some o =>
      cases o with
      | expression inner => exact gives_expression ho
      | comment => exact gives_comment ho
      | openTag name after =>
        have hopen := gives_openTag before ho
        have hinside : GivesTag d before ('<' :: name) after raw name _ (scanTag d after) :=
          givesTag_scanTag rfl
        cases hs : scanTag d after with
        | closed parts gap slash rest =>
          rw [hs] at hinside
          have hall := hopen.trans hinside
          cases slash <;>
            simpa [hs, GivesNext, Construct.tokens, openTagTokens_eq, Construct.source,
              RawText.after] using hall
        | cutOff parts =>
          rw [hs] at hinside
          have hall := hopen.trans hinside
          rw [← opener?_openTag ho] at hall
          simpa [hs, GivesNext, Ending.tokens, openTagTokens_eq, Ending.source,
            Ending.unterminated?] using hall
      | closeTag name after =>
        have hopen := gives_closeTag before ho
        have hinside : GivesClose d before ('<' :: '/' :: name) after raw name _
            (scanClose after) :=
          givesClose_scanClose
        cases hs : scanClose after with
        | closed strays gap rest =>
          rw [hs] at hinside
          have hall := hopen.trans hinside
          simpa [hs, GivesNext, Construct.tokens, closeTagTokens_eq, Construct.source,
            RawText.after] using hall
        | cutOff strays =>
          rw [hs] at hinside
          have hall := hopen.trans hinside
          rw [← opener?_closeTag ho] at hall
          simpa [hs, GivesNext, Ending.tokens, closeTagTokens_eq, Ending.source,
            Ending.unterminated?] using hall

/-- After the tokens of the first constructs a lexer is where the reading of the others starts. -/
theorem gives_constructs (before : Text) {cs ds : List Construct}
    (h : (Reading.inRawText d raw s).constructs = cs ++ ds) : ∃ rest,
      Gives (between d before s raw .markup) (constructTokens (Position.start.advance before) cs)
        (between d (before ++ cs.flatMap Construct.source) rest (cs.foldl (RawText.after d) raw)
          .markup) ∧
      Reading.inRawText d (cs.foldl (RawText.after d) raw) rest =
        ⟨ds, (Reading.inRawText d raw s).ending⟩ := by
  induction cs generalizing before s raw with
  | nil =>
    refine ⟨s, by simpa using Gives.nil (between d before s raw .markup), ?_⟩
    simp only [List.foldl_nil, List.nil_append] at h ⊢
    rw [← h]
  | cons c cs ih =>
    have hstep := givesNext_step d before s raw
    rw [Reading.inRawText] at h ⊢
    split at h
    · cases h
    · rename_i b rest hb
      obtain ⟨rfl, hcs⟩ := List.cons.inj h
      obtain ⟨last, hgives, hlast⟩ := ih (before ++ b.source) hcs
      rw [hb] at hstep
      refine ⟨last, ?_, hlast⟩
      have hall := hstep.trans hgives
      simpa using hall

/-- A lexer gives the tokens of a template and stops at its end. -/
theorem gives_tokenize (d : Dialect) (s : Text) :
    ∃ raw, Gives (start d s) (tokenize d s) (between d s [] raw .done) := by
  have hcs : (Reading.ofText d s).constructs = (Reading.ofText d s).constructs ++ [] :=
    (List.append_nil _).symm
  obtain ⟨rest, hconstructs, hrest⟩ := gives_constructs [] hcs
  have hstep := givesNext_step d ((Reading.ofText d s).constructs.flatMap Construct.source) rest
    ((Reading.ofText d s).constructs.foldl (RawText.after d) none)
  have hending : Reading.step d _ rest = .ending (Reading.ofText d s).ending :=
    Reading.step_of_inRawText_nil hrest
  rw [hending] at hstep
  have hsource := Reading.source_ofText d s
  rw [Reading.source, Reading.source_of_step_ending hending] at hsource
  have hall := hconstructs.trans hstep
  rw [hsource] at hall
  exact ⟨_, hall⟩

/-- What a lexer gives: a token up to where it then stands, which is in markup if the token closes a
construct, or all that is left from the start of an unfinished one. -/
inductive Emits (l : Lexer) : Token × Lexer → Prop
  | token {k : Lexer} {kind : TokenKind} {start : Position} {mode : LexerMode} :
      k.cursor.text = l.cursor.text → (mode = .markup ↔ kind.closes = true) →
      Emits l (k.emit kind start mode)
  | unterminated {k : Lexer} {construct : Unterminated} {opener : Position} :
      k.cursor.text = l.cursor.text → Emits l (k.emitUnterminated construct opener)

theorem emits_markupToken (l : Lexer) : Emits l l.markupToken := by
  unfold markupToken
  repeat' split
  all_goals first
    | exact .unterminated rfl
    | exact .token rfl (by simp [TokenKind.closes])

theorem emits_openTagToken (l : Lexer) (opener : Position) (name : Text) :
    Emits l (l.openTagToken opener name) := by
  unfold openTagToken
  dsimp only
  repeat' split
  all_goals first
    | exact .unterminated rfl
    | exact .token rfl (by simp [TokenKind.closes])

/-- The lexer `k` stands after the name of the attribute, in the source of `l`. -/
theorem emits_valueToken {l k : Lexer} (h : k.cursor.text = l.cursor.text) (opener : Position)
    (name value : Text) : Emits l (k.valueToken opener name value) := by
  unfold valueToken
  dsimp only
  repeat' split
  all_goals first
    | exact .unterminated h
    | exact .token h (by simp [TokenKind.closes])

/-- Whatever a lexer is inside of, this is what its next token is. -/
theorem emits_of_pull {l : Lexer} {given : Token × Lexer} (h : l.pull = some given) :
    Emits l given := by
  unfold pull at h
  split at h
  · obtain rfl := Option.some.inj h
    exact emits_markupToken l
  · obtain rfl := Option.some.inj h
    exact emits_openTagToken l _ _
  · obtain rfl := Option.some.inj h
    unfold attributeToken
    split
    · apply emits_valueToken
      rfl
    · exact emits_openTagToken l _ _
  · obtain rfl := Option.some.inj h
    unfold closeTagToken
    split
    · exact .token rfl (by simp [TokenKind.closes])
    · exact .token rfl (by simp [TokenKind.closes])
    · exact .unterminated rfl
  · obtain rfl := Option.some.inj h
    unfold expressionToken
    split
    · exact .token rfl (by simp [TokenKind.closes])
    · exact .unterminated rfl
  · obtain rfl := Option.some.inj h
    exact .token rfl (by simp [TokenKind.closes])
  · obtain rfl := Option.some.inj h
    unfold commentToken
    repeat' split
    · exact .token rfl (by simp [TokenKind.closes])
    · exact .token rfl (by simp [TokenKind.closes])
    · exact .unterminated rfl
  · obtain rfl := Option.some.inj h
    exact .token rfl (by simp [TokenKind.closes])
  · cases h

/-- A token ends where the lexer stands after it, in the same source as before. -/
structure Ends (l : Lexer) (given : Token × Lexer) : Prop where
  text : given.2.cursor.text = l.cursor.text
  position : given.2.cursor.position = given.1.span.stop

theorem ends_of_pull {l : Lexer} {given : Token × Lexer} (h : l.pull = some given) :
    Ends l given := by
  cases emits_of_pull h with
  | token htext _ => exact ⟨htext, rfl⟩
  | unterminated htext => exact ⟨htext, rfl⟩

theorem ends_of_mem_pulls {n : Nat} {l : Lexer} {given : Token × Lexer}
    (h : given ∈ pulls n l) : Ends l given := by
  induction n generalizing l with
  | zero => cases h
  | succ n ih =>
    unfold pulls at h
    split at h
    · rename_i t m hp
      have hfirst := ends_of_pull hp
      rcases List.mem_cons.mp h with rfl | hrest
      · exact hfirst
      · exact ⟨(ih hrest).text.trans hfirst.text, (ih hrest).position⟩
    · cases h

/-- The tokens that a lexer gives until it stops are those that are pulled from it. -/
theorem map_pulls {l m : Lexer} {ts : List Token} (h : Gives l ts m) (hm : m.pull = none)
    (n : Nat) :
    (pulls n l).map Prod.fst = ts.take n := by
  induction h generalizing n with
  | nil l =>
    cases n with
    | zero => rfl
    | succ n => simp [pulls, hm]
  | cons hp _ ih =>
    cases n with
    | zero => rfl
    | succ n => simp [pulls, hp, ih hm]

/-- However many tokens are pulled, they are the first ones of the template. -/
theorem map_pulls_start (d : Dialect) (s : Text) (n : Nat) :
    (pulls n (start d s)).map Prod.fst = (tokenize d s).take n := by
  obtain ⟨raw, h⟩ := gives_tokenize d s
  exact map_pulls h rfl n

section RawText

variable {l m : Lexer} {ts : List Token}

theorem length_pulls_of_gives (h : Gives l ts m) : (pulls ts.length l).length = ts.length := by
  induction h with
  | nil => rfl
  | cons hp _ ih => simp [pulls, hp, ih]

theorem mem_pulls_of_gives (h : Gives l ts m) (hne : ts ≠ []) {n : Nat} (hn : ts.length ≤ n) :
    ∃ t, (t, m) ∈ pulls n l := by
  induction h generalizing n with
  | nil => exact (hne rfl).elim
  | @cons l k m t ts hp hgives ih =>
    obtain ⟨n, rfl⟩ : ∃ j, n = j + 1 := ⟨n - 1, by simp at hn; omega⟩
    simp only [pulls, hp, List.mem_cons]
    cases ts with
    | nil =>
      cases hgives
      exact ⟨t, Or.inl rfl⟩
    | cons u us =>
      obtain ⟨last, hlast⟩ := ih (List.cons_ne_nil u us) (by simpa using hn)
      exact ⟨last, Or.inr hlast⟩

/-- The lexer that a token was pulled from. -/
theorem exists_of_mem_pulls {n : Nat} {given : Token × Lexer} (h : given ∈ pulls n l) :
    ∃ ts k, Gives l ts k ∧ k.pull = some given := by
  induction n generalizing l with
  | zero => cases h
  | succ n ih =>
    unfold pulls at h
    split at h
    · rename_i u k hp
      rcases List.mem_cons.mp h with rfl | h
      · exact ⟨[], l, .nil l, hp⟩
      · obtain ⟨ts, m, hgives, hlast⟩ := ih h
        exact ⟨u :: ts, m, .cons hp hgives, hlast⟩
    · cases h

theorem gives_of_mem_pulls {n : Nat} {t : Token} (h : (t, m) ∈ pulls n l) : ∃ ts, Gives l ts m := by
  obtain ⟨ts, k, hgives, hlast⟩ := exists_of_mem_pulls h
  exact ⟨ts ++ [t], hgives.trans (.single hlast)⟩

/-- Whether a lexer of a template is in raw text when it comes to a point. -/
def InRawText (d : Dialect) (s : Text) (p : Position) : Prop :=
  ∃ ts l, Gives (start d s) ts l ∧ l.cursor.position = p ∧ l.raw.isSome = true

/-- At the start there is no raw text, so some token was given before. -/
theorem inRawText_iff {d : Dialect} {s : Text} {p : Position} : InRawText d s p ↔
    ∃ given ∈ pulls (tokenize d s).length (start d s),
      given.2.cursor.position = p ∧ given.2.raw.isSome = true := by
  constructor
  · rintro ⟨ts, l, hgives, hp, hraw⟩
    have hne : ts ≠ [] := by
      rintro rfl
      cases hgives
      cases hraw
    have hlength : ts.length ≤ (tokenize d s).length := by
      have hpulls := congrArg List.length (map_pulls_start d s ts.length)
      rw [List.length_map, length_pulls_of_gives hgives, List.length_take] at hpulls
      omega
    obtain ⟨t, ht⟩ := mem_pulls_of_gives hgives hne hlength
    exact ⟨(t, l), ht, hp, hraw⟩
  · rintro ⟨⟨t, l⟩, hmem, hp, hraw⟩
    obtain ⟨ts, hgives⟩ := gives_of_mem_pulls hmem
    exact ⟨ts, l, hgives, hp, hraw⟩

instance (d : Dialect) (s : Text) (p : Position) : Decidable (InRawText d s p) :=
  decidable_of_iff _ inRawText_iff.symm

/-- Between two constructs a lexer is in the raw text that the first ones leave. -/
theorem after_eq_none {d : Dialect} {s : Text} {cs ds : List Construct}
    (h : (Reading.ofText d s).constructs = cs ++ ds)
    (hraw : ¬ InRawText d s (Position.start.advance (cs.flatMap Construct.source))) :
    cs.foldl (RawText.after d) none = none := by
  obtain ⟨rest, hgives, -⟩ := gives_constructs [] h
  by_contra hsome
  refine hraw ⟨_, _, hgives, by simp, ?_⟩
  exact Option.isSome_iff_ne_none.mpr hsome

end RawText

end StoreMarkup.Lexer
