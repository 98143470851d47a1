import StoreMarkup.Proofs.Lexing

/-! Tokens cover the source: each has the text at its span, the next one starts where it ends but
for blanks and equals signs in tags, and the last one reaches up to the end. -/
namespace StoreMarkup

/-- Whether the stream is in a tag after a token of this kind. -/
def TokenKind.insideTag : TokenKind → Bool
  | tagOpenStart | tagCloseStart | attributeName | attributeValue _ | invalid _ => true
  | _ => false

/-- What may stand between a token of one kind and the next one of another. -/
def GapAllowed (before after : TokenKind) (gap : Text) : Prop :=
  match before, after with
  | .attributeName, .attributeValue _ => Assigns gap
  | _, _ => if before.insideTag then Blank gap else gap = []

/-- A token of a text stands after some of it and before the rest. -/
def Token.Covers (s : Text) (t : Token) : Prop :=
  ∃ before after, s = before ++ t.text ++ after ∧
    t.span = .covering (Position.start.advance before) t.text

/-- The text of a token is what its span cuts out. -/
theorem Token.Covers.text_eq {s : Text} {t : Token} (h : t.Covers s) :
    t.span.start.offset ≤ t.span.stop.offset ∧ t.span.stop.offset ≤ s.length ∧
      t.text = s.slice t.span.start.offset t.span.stop.offset := by
  obtain ⟨before, after, hs, hspan⟩ := h
  have hcut := slice_advance before t.text after
  rw [hspan, hs, Span.covering]
  refine ⟨by simp, ?_, hcut.symm⟩
  simp only [Position.offset_advance, List.length_append, Position.start]
  omega

/-- One token after another in a text. The token of an unfinished construct goes back to its
start. -/
def Follows (s : Text) (t u : Token) : Prop :=
  (∃ construct, u.kind = .endOfInput (some construct)) ∨
    (t.span.stop.offset ≤ u.span.start.offset ∧
      GapAllowed t.kind u.kind (s.slice t.span.stop.offset u.span.start.offset))

/-- Tokens that lead from one point of a text to a later one, where `k` is the kind of the token
before. -/
inductive Spread : TokenKind → Text → List Token → TokenKind → Text → Prop
  | nil (k : TokenKind) (before : Text) : Spread k before [] k before
  | cons {k kind last : TokenKind} {before gap text after : Text} {ts : List Token} :
      GapAllowed k kind gap → Spread kind (before ++ gap ++ text) ts last after →
      Spread k before (.place (Position.start.advance (before ++ gap)) kind text :: ts) last after

namespace Spread

variable {k last final : TokenKind} {before after s : Text} {ts us : List Token}

theorem single (before text : Text) {kind : TokenKind} {gap : Text} (h : GapAllowed k kind gap) :
    Spread k before [.place (Position.start.advance (before ++ gap)) kind text] kind
      (before ++ gap ++ text) := .cons h (.nil kind _)

theorem trans (h : Spread k before ts last after) {rest : Text}
    (h' : Spread last after us final rest) :
    Spread k before (ts ++ us) final rest := by
  induction h with
  | nil => exact h'
  | cons hgap _ ih => exact .cons hgap (ih h')

theorem isPrefix (h : Spread k before ts last after) : before <+: after := by
  induction h with
  | nil => exact List.prefix_rfl
  | cons _ _ ih => exact ((List.prefix_append _ _).trans (List.prefix_append _ _)).trans ih

theorem covers (h : Spread k before ts last after) (hs : after <+: s) {t : Token} (ht : t ∈ ts) :
    t.Covers s := by
  induction h with
  | nil => cases ht
  | @cons k kind last before gap text after ts hgap hrest ih =>
    rcases List.mem_cons.mp ht with rfl | ht
    · obtain ⟨rest, hr⟩ := hrest.isPrefix.trans hs
      exact ⟨before ++ gap, rest, hr.symm, rfl⟩
    · exact ih hs ht

/-- The tokens follow one another, and the first one follows what was read before. -/
theorem isChain (h : Spread k before ts last after) (hs : after <+: s) {p : Token}
    (hkind : p.kind = k) (hstop : p.span.stop = Position.start.advance before) :
    (p :: ts).IsChain (Follows s) := by
  induction h generalizing p with
  | nil => exact .singleton p
  | @cons k kind last before gap text after ts hgap hrest ih =>
    refine .cons_cons (Or.inr ?_) (ih hs rfl (by simp [Token.place, Span.covering]))
    obtain ⟨rest, hr⟩ := hrest.isPrefix.trans hs
    have hcut := slice_advance before gap (text ++ rest)
    have hsource : before ++ gap ++ (text ++ rest) = s := by simpa using hr
    rw [hsource, ← Position.advance_append] at hcut
    rw [hkind, hstop]
    refine ⟨by simp [Token.place, Span.covering], ?_⟩
    exact hcut.symm ▸ hgap

theorem isChain_of_start (h : Spread .text [] ts last after) (hs : after <+: s) :
    ts.IsChain (Follows s) :=
  (h.isChain hs (p := .place .start .text []) rfl rfl).tail

/-- The last token ends where the tokens lead to. -/
theorem stop_getLast? (h : Spread k before ts last after) :
    ((ts.getLast?.map fun t => t.span.stop).getD (Position.start.advance before)) =
      Position.start.advance after := by
  induction h with
  | nil => rfl
  | @cons k kind last before gap text after ts hgap hrest ih =>
    cases ts with
    | nil =>
      cases hrest
      simp [Token.place, Span.covering]
    | cons t ts => simpa [List.getLast?_cons] using ih

end Spread

theorem gapAllowed_outside {k kind : TokenKind} (hk : k.insideTag = false) :
    GapAllowed k kind [] := by
  unfold GapAllowed
  split
  · cases hk
  · simp [hk]

/-- In a tag only blanks stand before everything but a value. -/
theorem gapAllowed_inside {k kind : TokenKind} {gap : Text} (hk : k.insideTag = true)
    (hkind : ∀ fs, kind ≠ .attributeValue fs) (hgap : Blank gap) : GapAllowed k kind gap := by
  unfold GapAllowed
  split
  · exact (hkind _ rfl).elim
  · simpa [hk] using hgap

variable {k : TokenKind}

theorem TagPart.spread_tokens (before : Text) {part : TagPart} (h : part.Tidy)
    (hk : k.insideTag = true) :
    ∃ last, last.insideTag = true ∧
      Spread k before (part.tokens (Position.start.advance before)) last
        (before ++ part.source) := by
  cases part with
  | stray stray fault =>
    have hstray : GapAllowed k (.invalid fault) stray.gap := gapAllowed_inside hk (by simp) h
    refine ⟨.invalid fault, rfl, ?_⟩
    simpa [tokens, source, Stray.source] using Spread.single before stray.text hstray
  | «attribute» gap name value =>
    cases value with
    | none =>
      have hname : GapAllowed k .attributeName gap := gapAllowed_inside hk (by simp) h
      refine ⟨.attributeName, rfl, ?_⟩
      simpa [tokens, source] using Spread.single before name hname
    | some v =>
      have hname : GapAllowed k .attributeName gap := gapAllowed_inside hk (by simp) h.1
      let fragments := v.locatedFragments
        ((Position.start.advance before).advance (gap ++ name ++ v.lead))
      have hvalue : GapAllowed .attributeName (.attributeValue fragments) v.lead := h.2.1
      refine ⟨.attributeValue fragments, rfl, ?_⟩
      have hall := (Spread.single before name hname).trans (Spread.single _ v.text hvalue)
      simpa [tokens, source, fragments] using hall

/-- Pieces that follow each other, each with tokens that lead over it and leave the stream inside of
a tag, or outside, as it was. -/
theorem spread_locate {α : Type} {source : α → Text} (tokens : Position → α → List Token)
    {inside : Bool} {as : List α}
    (h : ∀ a ∈ as, ∀ (k : TokenKind) (before : Text), k.insideTag = inside →
      ∃ last, last.insideTag = inside ∧
        Spread k before (tokens (Position.start.advance before) a) last (before ++ source a))
    (before : Text) (hk : k.insideTag = inside) : ∃ last, last.insideTag = inside ∧
      Spread k before ((locate source (Position.start.advance before) as).flatMap
        fun x => tokens x.span.start x.value) last (before ++ as.flatMap source) := by
  induction as generalizing k before with
  | nil => exact ⟨k, hk, by simpa [locate] using Spread.nil k before⟩
  | cons a as ih =>
    obtain ⟨middle, hmiddle, hfirst⟩ := h a List.mem_cons_self k before hk
    obtain ⟨last, hlast, hrest⟩ := ih (fun b hb => h b (List.mem_cons_of_mem a hb)) _ hmiddle
    exact ⟨last, hlast, by simpa [locate, Span.covering] using hfirst.trans hrest⟩

theorem spread_partTokens (before : Text) {parts : List TagPart}
    (h : ∀ part ∈ parts, part.Tidy) (hk : k.insideTag = true) : ∃ last, last.insideTag = true ∧
      Spread k before (partTokens (Position.start.advance before) parts) last
        (before ++ parts.flatMap TagPart.source) := by
  refine spread_locate TagPart.tokens ?_ before hk
  intro part hpart _ left hleft
  exact TagPart.spread_tokens left (h part hpart) hleft

theorem spread_strayTokens (before : Text) {strays : List Stray}
    (h : ∀ stray ∈ strays, Blank stray.gap) (hk : k.insideTag = true) :
    ∃ last, last.insideTag = true ∧
      Spread k before (strayTokens (Position.start.advance before) strays) last
        (before ++ strays.flatMap Stray.source) := by
  rw [strayTokens, List.map_eq_flatMap]
  refine spread_locate (fun p stray => [Stray.token p stray]) ?_ before hk
  intro stray hstray kind left hkind
  have hgap : GapAllowed kind (.invalid .closingContent) stray.gap :=
    gapAllowed_inside hkind (by simp) (h stray hstray)
  exact ⟨.invalid .closingContent, rfl,
    by simpa [Stray.token, Stray.source] using Spread.single left stray.text hgap⟩

theorem spread_openTagTokens (before name : Text) {parts : List TagPart}
    (h : ∀ part ∈ parts, part.Tidy) (hk : k.insideTag = false) : ∃ last, last.insideTag = true ∧
      Spread k before (openTagTokens (Position.start.advance before) name parts) last
        (before ++ ('<' :: name ++ parts.flatMap TagPart.source)) := by
  have hopen : Spread k before _ .tagOpenStart _ :=
    .single before ('<' :: name) (gapAllowed_outside hk)
  obtain ⟨last, hlast, hparts⟩ := spread_partTokens _ h
    (rfl : TokenKind.tagOpenStart.insideTag = true)
  exact ⟨last, hlast, by simpa [openTagTokens_eq] using hopen.trans hparts⟩

theorem spread_closeTagTokens (before name : Text) {strays : List Stray}
    (h : ∀ stray ∈ strays, Blank stray.gap) (hk : k.insideTag = false) :
    ∃ last, last.insideTag = true ∧
      Spread k before (closeTagTokens (Position.start.advance before) name strays) last
        (before ++ ('<' :: '/' :: name ++ strays.flatMap Stray.source)) := by
  have hopen : Spread k before _ .tagCloseStart _ :=
    .single before ('<' :: '/' :: name) (gapAllowed_outside hk)
  obtain ⟨last, hlast, hstrays⟩ := spread_strayTokens _ h
    (rfl : TokenKind.tagCloseStart.insideTag = true)
  exact ⟨last, hlast, by simpa [closeTagTokens_eq] using hopen.trans hstrays⟩

/-- Tokens that follow each other directly. -/
theorem spread_placeAll (before : Text) (pieces : List (TokenKind × Text))
    (h : ∀ piece ∈ pieces, piece.1.insideTag = false) (hk : k.insideTag = false) :
    ∃ last, last.insideTag = false ∧
      Spread k before (Token.placeAll (Position.start.advance before) pieces) last
        (before ++ pieces.flatMap Prod.snd) := by
  induction pieces generalizing k before with
  | nil => exact ⟨k, hk, by simpa [Token.placeAll] using Spread.nil k before⟩
  | cons piece pieces ih =>
    obtain ⟨kind, text⟩ := piece
    have hfirst : Spread k before _ kind _ := .single before text (gapAllowed_outside hk)
    obtain ⟨last, hlast, hrest⟩ := ih _ (fun q hq => h q (List.mem_cons_of_mem _ hq))
      (h (kind, text) List.mem_cons_self)
    exact ⟨last, hlast, by simpa [Token.placeAll] using hfirst.trans hrest⟩

/-- The tokens of a construct lead over it. -/
theorem Construct.spread_tokens (before : Text) {c : Construct} (h : c.Tidy)
    (hk : k.insideTag = false) :
    ∃ last, last.insideTag = false ∧
      Spread k before (c.tokens (Position.start.advance before)) last (before ++ c.source) := by
  cases c with
  | text content =>
    have hall : Spread k before _ .text _ := .single before content (gapAllowed_outside hk)
    exact ⟨.text, rfl, by simpa [tokens, source] using hall⟩
  | openTag name parts gap slash =>
    obtain ⟨middle, hmiddle, hparts⟩ := spread_openTagTokens before name h.1 hk
    have hend : GapAllowed middle .tagOpenEnd gap := gapAllowed_inside hmiddle (by simp) h.2
    have hall := hparts.trans (Spread.single _ (tagEnd slash) hend)
    exact ⟨.tagOpenEnd, rfl, by simpa [tokens, source] using hall⟩
  | closeTag name strays gap =>
    obtain ⟨middle, hmiddle, hstrays⟩ := spread_closeTagTokens before name h.1 hk
    have hend : GapAllowed middle .tagCloseEnd gap := gapAllowed_inside hmiddle (by simp) h.2
    have hall := hstrays.trans (Spread.single _ ['>'] hend)
    exact ⟨.tagCloseEnd, rfl, by simpa [tokens, source] using hall⟩
  | expression body =>
    have hall := spread_placeAll before [(.expressionStart, Delimiter.dollar.opening),
      (.expressionContent, body), (.expressionEnd, Delimiter.dollar.closing)]
      (by simp [TokenKind.insideTag]) hk
    simpa [tokens, source] using hall
  | comment opening content closing =>
    have hall := spread_placeAll before [(.commentStart, opening), (.commentContent, content),
      (.commentEnd, closing)] (by simp [TokenKind.insideTag]) hk
    simpa [tokens, source] using hall

theorem spread_constructTokens (before : Text) {cs : List Construct} (h : ∀ c ∈ cs, c.Tidy)
    (hk : k.insideTag = false) : ∃ last, last.insideTag = false ∧
      Spread k before (constructTokens (Position.start.advance before) cs) last
        (before ++ cs.flatMap Construct.source) := by
  refine spread_locate Construct.tokens ?_ before hk
  intro c hc _ left hleft
  exact c.spread_tokens left (h c hc) hleft

/-- The tokens of an unfinished construct lead over what was read of it. -/
theorem Ending.spread_startedTokens (before : Text) {e : Ending} (h : e.Tidy)
    (hk : k.insideTag = false) : ∃ last read rest, e.source = read ++ rest ∧
      Spread k before (e.startedTokens (Position.start.advance before)) last (before ++ read) := by
  have hnone : ∀ s : Text, ∃ last read rest, s = read ++ rest ∧
      Spread k before [] last (before ++ read) := by
    intro s
    exact ⟨k, [], s, rfl, by simpa using Spread.nil k before⟩
  cases e with
  | clean => exact hnone []
  | openTag name parts text =>
    obtain ⟨hparts, rest, hr⟩ := h
    obtain ⟨last, -, hspread⟩ := spread_openTagTokens before name hparts hk
    exact ⟨last, _, rest, hr, hspread⟩
  | closeTag name strays text =>
    obtain ⟨hstrays, rest, hr⟩ := h
    obtain ⟨last, -, hspread⟩ := spread_closeTagTokens before name hstrays hk
    exact ⟨last, _, rest, hr, hspread⟩
  | expression text =>
    obtain ⟨rest, hr⟩ := h
    have hspread : Spread k before _ .expressionStart _ :=
      .single before Delimiter.dollar.opening (gapAllowed_outside hk)
    exact ⟨_, _, rest, hr, by simpa [startedTokens] using hspread⟩
  | comment opening text =>
    cases opening with
    | none => exact hnone text
    | some opening =>
      obtain ⟨rest, hr⟩ := h
      have hspread : Spread k before _ .commentStart _ :=
        .single before opening (gapAllowed_outside hk)
      exact ⟨_, _, rest, hr, by simpa [startedTokens] using hspread⟩

theorem Construct.exists_tokens (p : Position) (c : Construct) :
    ∃ t ts, c.tokens p = t :: ts ∧ t.span.start = p := by
  cases c <;> exact ⟨_, _, rfl, rfl⟩

theorem Ending.eq_clean {e : Ending} (h : e.unterminated? = none) : e = .clean := by
  cases e with
  | clean => rfl
  | _ => cases h

theorem Ending.start_startedTokens (p : Position) (e : Ending) {t : Token}
    (h : t ∈ (e.startedTokens p).head?) : t.span.start = p := by
  cases e with
  | clean => cases h
  | openTag name parts text =>
    obtain rfl : _ = t := Option.some.inj h
    rfl
  | closeTag name strays text =>
    obtain rfl : _ = t := Option.some.inj h
    rfl
  | expression text =>
    obtain rfl : _ = t := Option.some.inj h
    rfl
  | comment opening text =>
    cases opening with
    | none => cases h
    | some opening =>
      obtain rfl : _ = t := Option.some.inj h
      rfl

theorem Ending.start_head?_tokens (p : Position) (e : Ending) {t : Token}
    (h : t ∈ (e.tokens p).head?) : t.span.start = p := by
  rw [tokens_eq] at h
  cases hstarted : e.startedTokens p with
  | nil =>
    rw [hstarted] at h
    obtain rfl : _ = t := Option.some.inj h
    rfl
  | cons u us =>
    rw [hstarted] at h
    exact e.start_startedTokens p (by rw [hstarted]; exact h)

/-- The last token of a stream reaches up to the end of the source from the end of the complete
constructs on, which is where the unfinished one starts. -/
structure Token.EndsSource (s : Text) (items : List (List Token)) (last : List Token) (stop : Token)
    (unterminated : Option Unterminated) : Prop where
  stop_eq : stop.span.stop.offset = s.length
  start_eq : stop.span.start = (items.flatten.getLast?.map fun t => t.span.stop).getD .start
  opener : ∀ t ∈ last.head?, t.span.start = stop.span.start
  clean : unterminated = none → stop.span.start.offset = s.length
  /-- A comment that has no tokens starts with the last one. -/
  commentOpener : unterminated = some .comment → last = [] →
    ∃ name rest, stop.text = '<' :: name ++ rest ∧ canonicalName name = commentTag

namespace Reading

variable (d : Dialect) (s : Text)

theorem flatten_items (r : Reading) : r.items.flatten = constructTokens .start r.constructs := by
  rw [items, constructTokens, List.flatMap_def]
  rfl

/-- The tokens of the constructs lead from the start of a template to its ending. -/
theorem spread_constructs : ∃ last, last.insideTag = false ∧
    Spread .text [] (ofText d s).items.flatten last
      ((ofText d s).constructs.flatMap Construct.source) := by
  have htidy : ∀ c ∈ (ofText d s).constructs, c.Tidy := (inRawText_tidy d none s).1
  have h := spread_constructTokens [] htidy (rfl : TokenKind.text.insideTag = false)
  rw [flatten_items]
  simpa using h

/-- All tokens but the last one lead on from the start of a template. -/
theorem spread_tokens : ∃ last read, Spread .text [] ((ofText d s).items.flatten ++
      (ofText d s).ending.startedTokens (ofText d s).endingStart) last read ∧ read <+: s := by
  obtain ⟨middle, hmiddle, hconstructs⟩ := spread_constructs d s
  have htidy := (inRawText_tidy d none s).2
  obtain ⟨last, read, rest, hsource, hstarted⟩ := Ending.spread_startedTokens
    ((ofText d s).constructs.flatMap Construct.source) htidy hmiddle
  refine ⟨last, _, hconstructs.trans hstarted, rest, ?_⟩
  have hs := source_ofText d s
  rw [source, show (ofText d s).ending.source = read ++ rest from hsource] at hs
  rw [List.append_assoc, hs]

end Reading

section Tokenize

variable (d : Dialect) (s : Text)

/-- The last token of a template. -/
def lastToken : Token := .place (Reading.ofText d s).endingStart
  (.endOfInput (Reading.ofText d s).ending.unterminated?) (Reading.ofText d s).ending.source

theorem tokenize_eq : tokenize d s = (Reading.ofText d s).items.flatten ++
    (Reading.ofText d s).ending.startedTokens (Reading.ofText d s).endingStart ++
      [lastToken d s] := by
  rw [tokenize, Reading.tokens, Ending.tokens_eq, Reading.items, List.append_assoc]
  rfl

theorem covers_lastToken : (lastToken d s).Covers s := by
  refine ⟨(Reading.ofText d s).constructs.flatMap Construct.source, [], ?_, rfl⟩
  rw [List.append_nil]
  exact (Reading.source_ofText d s).symm

/-- Every token stands at its place in the source. -/
theorem covers_of_mem_tokenize {t : Token} (h : t ∈ tokenize d s) : t.Covers s := by
  obtain ⟨last, read, hspread, hread⟩ := Reading.spread_tokens d s
  rw [tokenize_eq] at h
  rcases List.mem_append.mp h with h | h
  · exact hspread.covers hread h
  · rw [List.mem_singleton.mp h]
    exact covers_lastToken d s

/-- Each token of a template follows the one before it. -/
theorem isChain_tokenize : (tokenize d s).IsChain (Follows s) := by
  cases he : (Reading.ofText d s).ending.unterminated? with
  | none =>
    -- The last token of a clean stream goes on where the constructs end.
    obtain ⟨last, hlast, hconstructs⟩ := Reading.spread_constructs d s
    have hclean := Ending.eq_clean he
    have hsource := Reading.source_ofText d s
    rw [Reading.source, hclean, Ending.source, List.append_nil] at hsource
    have hend : Spread last s [lastToken d s] (.endOfInput none) s := by
      have h : Spread last s _ (.endOfInput none) _ := .single s [] (gapAllowed_outside hlast)
      simpa [lastToken, hclean, Ending.unterminated?, Ending.source, Reading.endingStart,
        hsource] using h
    rw [hsource] at hconstructs
    have hall := hconstructs.trans hend
    rw [tokenize_eq, hclean, Ending.startedTokens, List.append_nil]
    exact hall.isChain_of_start List.prefix_rfl
  | some construct =>
    obtain ⟨last, read, hspread, hread⟩ := Reading.spread_tokens d s
    rw [tokenize_eq]
    refine List.isChain_append.mpr ⟨hspread.isChain_of_start hread, .singleton _, ?_⟩
    intro t _ u hu
    obtain rfl : lastToken d s = u := Option.some.inj hu
    exact Or.inl ⟨construct, by simp [lastToken, Token.place, he]⟩

/-- The first token of a template starts with it. -/
theorem start_head?_tokenize {t : Token} (h : t ∈ (tokenize d s).head?) :
    t.span.start = Position.start := by
  rw [tokenize, Reading.tokens, Reading.located, Reading.endingStart] at h
  cases hcs : (Reading.ofText d s).constructs with
  | nil =>
    rw [hcs] at h
    exact Ending.start_head?_tokens _ _ h
  | cons c cs =>
    obtain ⟨u, us, hu, hstart⟩ := c.exists_tokens .start
    simp only [hcs, locate, Span.covering, List.flatMap_cons, hu] at h
    obtain rfl : u = t := Option.some.inj h
    exact hstart

theorem endsSource_lastToken : Token.EndsSource s (Reading.ofText d s).items
    ((Reading.ofText d s).ending.startedTokens (Reading.ofText d s).endingStart) (lastToken d s)
    (Reading.ofText d s).ending.unterminated? where
  stop_eq := by
    have h := Reading.endingStart_advance (Reading.ofText d s)
    rw [Reading.source_ofText] at h
    simp [lastToken, Token.place, Span.covering, h, Position.start]
  start_eq := by
    obtain ⟨last, -, hconstructs⟩ := Reading.spread_constructs d s
    exact hconstructs.stop_getLast?.symm
  opener := by
    intro t ht
    exact Ending.start_startedTokens _ _ ht
  clean := by
    intro he
    have hsource := Reading.source_ofText d s
    rw [Reading.source, Ending.eq_clean he, Ending.source, List.append_nil] at hsource
    simp [lastToken, Token.place, Span.covering, Reading.endingStart, hsource, Position.start]
  commentOpener := by
    intro he hlast
    have htidy : (Reading.ofText d s).ending.Tidy := (Reading.inRawText_tidy d none s).2
    simp only [lastToken, Token.place]
    generalize (Reading.ofText d s).ending = e at *
    cases e with
    | comment opening text =>
      cases opening with
      | none => exact htidy
      | some opening => cases hlast
    | _ => cases he

end Tokenize

/-- Tokens cover the source. Each has the text at its span, and when it is pulled the cursor stands
at its end. Only blanks stand between the tokens of a tag, with an equals sign before a value, and
nothing elsewhere. The first token starts with the source, and the last one ends with it. -/
theorem tokenize_covers (d : Dialect) (s : Text) :
    (∀ t ∈ tokenize d s, t.span.start.offset ≤ t.span.stop.offset ∧ t.span.stop.offset ≤ s.length ∧
      t.text = s.slice t.span.start.offset t.span.stop.offset) ∧
    (∀ n, (Lexer.pulls n (.start d s)).map Prod.fst = (tokenize d s).take n ∧
      ∀ given ∈ Lexer.pulls n (.start d s),
        given.2.cursor.text = s ∧ given.2.cursor.position = given.1.span.stop) ∧
    (tokenize d s).IsChain (Follows s) ∧
    (∀ t ∈ (tokenize d s).head?, t.span.start.offset = 0) ∧
    ∃ items last stop unterminated, TokenStream (tokenize d s) items last stop unterminated ∧
      stop.EndsSource s items last unterminated := by
  refine ⟨?_, ?_, isChain_tokenize d s, ?_, ?_⟩
  · intro t ht
    exact (covers_of_mem_tokenize d s ht).text_eq
  · intro n
    refine ⟨Lexer.map_pulls_start d s n, ?_⟩
    intro given hgiven
    have hends := Lexer.ends_of_mem_pulls hgiven
    exact ⟨hends.text, hends.position⟩
  · intro t ht
    rw [start_head?_tokenize d s ht]
    rfl
  · have hseparate := Reading.separate_inRawText d none s
    exact ⟨_, _, _, _, Reading.tokenStream_tokens hseparate, endsSource_lastToken d s⟩

end StoreMarkup
