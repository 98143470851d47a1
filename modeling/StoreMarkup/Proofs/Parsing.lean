import StoreMarkup.Proofs.Diagnostics
import StoreMarkup.Proofs.TokenStream
import StoreMarkup.Tree.Parser

/-! The parser takes the tokens of one construct in each round and never asks for a token that is
not there. What it builds is the tree of the constructs. -/
namespace StoreMarkup

/-- The tokens that a round takes. -/
def Round.tokens : Round → List Token
  | text t | ignored t | finish t => [t]
  | openTag start parts stop | closeTag start parts stop => start :: parts ++ stop.toList
  | expression start body | comment start body =>
    start :: (body.map fun b => [b.1, b.2]).getD []

/-- A round that passes nothing over and finds an expression or a comment followed by its content
and its end. -/
def Round.Regular : Round → Prop
  | ignored _ => False
  | expression _ (some (content, stop)) =>
    content.kind = .expressionContent ∧ stop.kind = .expressionEnd
  | comment _ (some (content, stop)) =>
    content.kind = .commentContent ∧ stop.kind = .commentEnd
  | _ => True

/-- The round that takes a construct. -/
def Construct.round (p : Position) : Construct → Round
  | text content => .text (.place p .text content)
  | openTag name parts gap slash =>
    .openTag (.place p .tagOpenStart ('<' :: name)) (partTokens (p.advance ('<' :: name)) parts)
      (some (.place (p.advance ('<' :: name ++ parts.flatMap TagPart.source ++ gap)) .tagOpenEnd
        (tagEnd slash)))
  | closeTag name strays gap =>
    .closeTag (.place p .tagCloseStart ('<' :: '/' :: name))
      (strayTokens (p.advance ('<' :: '/' :: name)) strays)
      (some (.place (p.advance ('<' :: '/' :: name ++ strays.flatMap Stray.source ++ gap))
        .tagCloseEnd ['>']))
  | expression body =>
    let inner := p.advance Delimiter.dollar.opening
    .expression (.place p .expressionStart Delimiter.dollar.opening)
      (some (.place inner .expressionContent body,
        .place (inner.advance body) .expressionEnd Delimiter.dollar.closing))
  | comment opening content closing =>
    let inner := p.advance opening
    .comment (.place p .commentStart opening)
      (some (.place inner .commentContent content,
        .place (inner.advance content) .commentEnd closing))

/-- The rounds that take an ending. -/
def Ending.rounds (p : Position) (e : Ending) : List Round :=
  let started : List Round := match e with
    | clean | comment none _ => []
    | openTag name parts _ =>
      [.openTag (.place p .tagOpenStart ('<' :: name)) (partTokens (p.advance ('<' :: name)) parts)
        none]
    | closeTag name strays _ =>
      [.closeTag (.place p .tagCloseStart ('<' :: '/' :: name))
        (strayTokens (p.advance ('<' :: '/' :: name)) strays) none]
    | expression _ =>
      [.expression (.place p .expressionStart Delimiter.dollar.opening) none]
    | comment (some opening) _ => [.comment (.place p .commentStart opening) none]
  started ++ [.finish (.place p (.endOfInput e.unterminated?) e.source)]

namespace Round

variable {ts rest : List Token} {t : Token}

theorem advance_cons (ht : t.isEnd = false) (hrest : rest ≠ []) :
    advance (t :: rest) = .ok (t, rest) := by
  simp [advance, ht, hrest]

theorem isEnd_of_isPart (h : t.isPart = true) : t.isEnd = false := by
  cases hk : t.kind <;> simp_all [Token.isPart, Token.isEnd]

/-- The parts of a tag are taken up to its last token. -/
theorem takeTag_closed {stop : TokenKind} (hparts : ∀ u ∈ ts, u.isPart = true)
    (hstop : ∀ u : Token, u.isPart = true → u.kind ≠ stop) (ht : t.kind = stop)
    (hend : t.isEnd = false) (hrest : rest ≠ []) :
    takeTag stop (ts ++ t :: rest) = .ok (ts, some t, rest) := by
  induction ts with
  | nil => simp [takeTag, hend, hrest, ht]
  | cons u us ih =>
    have hu := hparts u List.mem_cons_self
    have hus := ih fun v hv => hparts v (List.mem_cons_of_mem u hv)
    simp [takeTag, isEnd_of_isPart hu, hstop u hu, hus, Except.map]

theorem takeTag_cutOff {stop : TokenKind} (hparts : ∀ u ∈ ts, u.isPart = true)
    (hstop : ∀ u : Token, u.isPart = true → u.kind ≠ stop) (hend : t.isEnd = true) :
    takeTag stop (ts ++ t :: rest) = .ok (ts, none, t :: rest) := by
  induction ts with
  | nil => simp [takeTag, hend]
  | cons u us ih =>
    have hu := hparts u List.mem_cons_self
    have hus := ih fun v hv => hparts v (List.mem_cons_of_mem u hv)
    simp [takeTag, isEnd_of_isPart hu, hstop u hu, hus, Except.map]

theorem takeBody_closed {content stop : Token} (hc : content.isEnd = false)
    (hs : stop.isEnd = false) (hrest : rest ≠ []) :
    takeBody (content :: stop :: rest) = .ok (some (content, stop), rest) := by
  simp [takeBody, advance, hc, hs, hrest, bind, Except.bind, pure, Except.pure]

theorem takeBody_cutOff (ht : t.isEnd = true) :
    takeBody (t :: rest) = .ok (none, t :: rest) := by
  simp [takeBody, ht]

theorem next_openTag {parts : List Token} {stop : Option Token} (ht : t.kind = .tagOpenStart)
    (hts : ts ≠ []) (h : takeTag .tagOpenEnd ts = .ok (parts, stop, rest)) :
    next (t :: ts) = .ok (.openTag t parts stop, rest) := by
  have hend : t.isEnd = false := by simp [Token.isEnd, ht]
  simp [next, advance_cons hend hts, ht, h, bind, Except.bind, pure, Except.pure]

theorem next_closeTag {parts : List Token} {stop : Option Token} (ht : t.kind = .tagCloseStart)
    (hts : ts ≠ []) (h : takeTag .tagCloseEnd ts = .ok (parts, stop, rest)) :
    next (t :: ts) = .ok (.closeTag t parts stop, rest) := by
  have hend : t.isEnd = false := by simp [Token.isEnd, ht]
  simp [next, advance_cons hend hts, ht, h, bind, Except.bind, pure, Except.pure]

theorem next_expression {body : Option (Token × Token)} (ht : t.kind = .expressionStart)
    (hts : ts ≠ []) (h : takeBody ts = .ok (body, rest)) :
    next (t :: ts) = .ok (.expression t body, rest) := by
  have hend : t.isEnd = false := by simp [Token.isEnd, ht]
  simp [next, advance_cons hend hts, ht, h, bind, Except.bind, pure, Except.pure]

theorem next_comment {body : Option (Token × Token)} (ht : t.kind = .commentStart)
    (hts : ts ≠ []) (h : takeBody ts = .ok (body, rest)) :
    next (t :: ts) = .ok (.comment t body, rest) := by
  have hend : t.isEnd = false := by simp [Token.isEnd, ht]
  simp [next, advance_cons hend hts, ht, h, bind, Except.bind, pure, Except.pure]

theorem next_text (ht : t.kind = .text) (hts : ts ≠ []) : next (t :: ts) = .ok (.text t, ts) := by
  have hend : t.isEnd = false := by simp [Token.isEnd, ht]
  simp [next, advance_cons hend hts, ht, bind, Except.bind, pure, Except.pure]

theorem next_finish {u : Option Unterminated} (ht : t.kind = .endOfInput u) :
    next (t :: ts) = .ok (.finish t, t :: ts) := by
  simp [next, advance, Token.isEnd, ht, bind, Except.bind, pure, Except.pure]

theorem all_finish {u : Option Unterminated} (ht : t.kind = .endOfInput u) :
    all (t :: ts) = .ok [.finish t] := by
  rw [all, next_finish ht]
  rfl

/-- A round is followed by those of the rest. -/
theorem all_of_next {r : Round} {rs : List Round} (h : next ts = .ok (r, rest))
    (hr : r.isFinish = false) (hrest : all rest = .ok rs) : all ts = .ok (r :: rs) := by
  rw [all, h]
  simp [hr, hrest, Except.map]

theorem kind_ne_tagOpenEnd (u : Token) (h : u.isPart = true) : u.kind ≠ .tagOpenEnd := by
  intro hk
  simp [Token.isPart, hk] at h

theorem kind_ne_tagCloseEnd (u : Token) (h : u.isPart = true) : u.kind ≠ .tagCloseEnd := by
  intro hk
  simp [Token.isPart, hk] at h

end Round

namespace Construct

/-- A round takes a whole construct, whatever comes after it. -/
theorem next_tokens (p : Position) (c : Construct) {rest : List Token} (hrest : rest ≠ []) :
    Round.next (c.tokens p ++ rest) = .ok (c.round p, rest) := by
  cases c with
  | text content => exact Round.next_text rfl hrest
  | openTag name parts gap slash =>
    simp only [tokens, openTagTokens_eq]
    rw [List.cons_append, List.cons_append, List.append_assoc, List.singleton_append]
    refine Round.next_openTag rfl (by simp) (Round.takeTag_closed ?_ ?_ rfl ?_ hrest)
    · exact fun t => isPart_of_mem_partTokens
    · exact Round.kind_ne_tagOpenEnd
    · rfl
  | closeTag name strays gap =>
    simp only [tokens, closeTagTokens_eq]
    rw [List.cons_append, List.cons_append, List.append_assoc, List.singleton_append]
    refine Round.next_closeTag rfl (by simp) (Round.takeTag_closed ?_ ?_ rfl ?_ hrest)
    · exact fun t => isPart_of_mem_strayTokens
    · exact Round.kind_ne_tagCloseEnd
    · rfl
  | expression body =>
    exact Round.next_expression rfl (by simp [Token.placeAll]) (Round.takeBody_closed rfl rfl hrest)
  | comment opening content closing =>
    exact Round.next_comment rfl (by simp [Token.placeAll]) (Round.takeBody_closed rfl rfl hrest)

theorem isFinish_round (p : Position) (c : Construct) : (c.round p).isFinish = false := by
  cases c <;> rfl

theorem regular_round (p : Position) (c : Construct) : (c.round p).Regular := by
  cases c with
  | expression | comment => exact ⟨rfl, rfl⟩
  | _ => trivial

theorem tokens_round (p : Position) (c : Construct) : (c.round p).tokens = c.tokens p := by
  cases c <;> rfl

end Construct

namespace Ending

theorem tokens_ne_nil (p : Position) (e : Ending) : e.tokens p ≠ [] := by
  simp [tokens]

theorem all_tokens (p : Position) (e : Ending) : Round.all (e.tokens p) = .ok (e.rounds p) := by
  have hend : ∀ (u : Option Unterminated) (t : Text),
      Round.all [.place p (.endOfInput u) t] = .ok [.finish (.place p (.endOfInput u) t)] :=
    fun u t => Round.all_finish rfl
  cases e with
  | clean => exact hend _ _
  | openTag name parts text =>
    refine Round.all_of_next ?_ rfl (hend _ _)
    exact Round.next_openTag rfl (by simp) (Round.takeTag_cutOff (fun t => isPart_of_mem_partTokens)
      Round.kind_ne_tagOpenEnd rfl)
  | closeTag name strays text =>
    refine Round.all_of_next ?_ rfl (hend _ _)
    exact Round.next_closeTag rfl (by simp) (Round.takeTag_cutOff
      (fun t => isPart_of_mem_strayTokens) Round.kind_ne_tagCloseEnd rfl)
  | expression text =>
    refine Round.all_of_next ?_ rfl (hend _ _)
    exact Round.next_expression rfl (by simp) (Round.takeBody_cutOff rfl)
  | comment opening text =>
    cases opening with
    | none => exact hend _ _
    | some opening =>
      refine Round.all_of_next ?_ rfl (hend _ _)
      exact Round.next_comment rfl (by simp) (Round.takeBody_cutOff rfl)

theorem regular_rounds (p : Position) (e : Ending) : ∀ r ∈ e.rounds p, r.Regular := by
  cases e with
  | comment opening text => cases opening <;> simp [rounds, Round.Regular]
  | _ => simp [rounds, Round.Regular]

theorem tokens_rounds (p : Position) (e : Ending) :
    (e.rounds p).flatMap Round.tokens = e.tokens p := by
  cases e with
  | comment opening text => cases opening <;> rfl
  | _ => simp [rounds, tokens, Round.tokens, openTagTokens_eq, closeTagTokens_eq]

end Ending

namespace Reading

/-- The rounds that take a reading. -/
def rounds (r : Reading) : List Round :=
  (r.located.map fun c => c.value.round c.span.start) ++ r.ending.rounds r.endingStart

theorem all_tokens (r : Reading) : Round.all r.tokens = .ok r.rounds := by
  have from_constructs : ∀ (cs : List (Located Construct)),
      Round.all ((cs.flatMap fun c => c.value.tokens c.span.start) ++
        r.ending.tokens r.endingStart) =
      .ok ((cs.map fun c => c.value.round c.span.start) ++ r.ending.rounds r.endingStart) := by
    intro cs
    induction cs with
    | nil => exact r.ending.all_tokens r.endingStart
    | cons c cs ih =>
      rw [List.flatMap_cons, List.append_assoc]
      refine Round.all_of_next (c.value.next_tokens c.span.start ?_) (c.value.isFinish_round _) ih
      simp [Ending.tokens_ne_nil]
  exact from_constructs r.located

theorem regular_rounds {r : Reading} {x : Round} (h : x ∈ r.rounds) : x.Regular := by
  rcases List.mem_append.mp h with h | h
  · obtain ⟨c, -, rfl⟩ := List.mem_map.mp h
    exact c.value.regular_round c.span.start
  · exact r.ending.regular_rounds r.endingStart x h

theorem tokens_rounds (r : Reading) : r.rounds.flatMap Round.tokens = r.tokens := by
  simp [rounds, tokens, Ending.tokens_rounds, List.flatMap_map, Construct.tokens_round]

end Reading

theorem tokenProblems_partTokens (name : Text) (p : Position) (parts : List TagPart) :
    tokenProblems (fun fault _ => .malformedAttribute fault name) (partTokens p parts) =
      (locate TagPart.source p parts).filterMap fun part =>
        part.value.problem? name part.span.start := by
  induction parts generalizing p with
  | nil => rfl
  | cons part parts ih =>
    have hrest := ih (p.advance part.source)
    simp only [tokenProblems] at hrest
    simp only [tokenProblems, partTokens_cons, List.filterMap_append, hrest, locate,
      List.filterMap_cons, Span.covering]
    cases part with
    | stray s fault => rfl
    | «attribute» gap name value => cases value <;> rfl

theorem tokenProblems_strayTokens (p : Position) (strays : List Stray) :
    tokenProblems .malformedClosingTag (strayTokens p strays) =
      (locate Stray.source p strays).map fun stray => stray.value.problem stray.span.start := by
  induction strays generalizing p with
  | nil => rfl
  | cons stray strays ih =>
    have hrest := ih (p.advance stray.source)
    simp only [tokenProblems, strayTokens] at hrest
    simp only [tokenProblems, strayTokens, locate, List.map_cons, List.filterMap_cons,
      Span.covering, hrest]
    rfl

/-- A part of an open tag never starts with a value. -/
theorem valueAt?_partTokens (p : Position) (parts : List TagPart) :
    valueAt? (partTokens p parts) = none := by
  cases parts with
  | nil => rfl
  | cons part parts =>
    cases part with
    | stray s fault => rfl
    | «attribute» gap name value => cases value <;> rfl

/-- The tokens of an attribute make it up again, with its source cut out of the template. -/
theorem tokenAttributes_tokens {before gap name after : Text} {value : Option Value}
    (h : (TagPart.attribute gap name value).Tidy) {rest : List Token}
    (hrest : valueAt? rest = none) :
    tokenAttributes (before ++ (TagPart.attribute gap name value).source ++ after)
        ((TagPart.attribute gap name value).tokens (Position.start.advance before) ++ rest) =
      ((TagPart.attribute gap name value).attribute? (Position.start.advance before)).toList ++
        tokenAttributes (before ++ (TagPart.attribute gap name value).source ++ after) rest := by
  cases value with
  | none =>
    have hcut := slice_advance (before ++ gap) name after
    simp only [Position.offset_advance, List.length_append, List.append_assoc,
      ← Nat.add_assoc] at hcut
    simp [TagPart.tokens, TagPart.attribute?, TagPart.source, tokenAttributes, Token.place,
      Attribute.ofTokens, hrest, Span.covering, hcut]
  | some v =>
    have hcut := slice_advance (before ++ gap) (name ++ v.lead ++ v.text) after
    simp only [Position.offset_advance, List.length_append, List.append_assoc,
      ← Nat.add_assoc] at hcut
    simp [TagPart.tokens, TagPart.attribute?, TagPart.source, tokenAttributes, Token.place,
      Attribute.ofTokens, valueAt?, Span.covering, hcut, h.2.2]

theorem tokenAttributes_partTokens (before after : Text) {parts : List TagPart}
    (h : ∀ part ∈ parts, part.Tidy) :
    tokenAttributes (before ++ parts.flatMap TagPart.source ++ after)
        (partTokens (Position.start.advance before) parts) =
      (locate TagPart.source (Position.start.advance before) parts).filterMap fun part =>
        part.value.attribute? part.span.start := by
  induction parts generalizing before with
  | nil => rfl
  | cons part parts ih =>
    have hrest := ih (before ++ part.source) fun q hq => h q (List.mem_cons_of_mem part hq)
    have hsource : before ++ part.source ++ parts.flatMap TagPart.source ++ after =
        before ++ (part :: parts).flatMap TagPart.source ++ after := by simp
    have hpart := h part List.mem_cons_self
    rw [Position.advance_append] at hrest
    simp only [partTokens_cons, locate, Span.covering, List.filterMap_cons]
    rw [← hsource, ← hrest]
    cases part with
    | stray stray fault => rfl
    | «attribute» gap name value =>
      rw [List.append_assoc _ _ after, tokenAttributes_tokens hpart (valueAt?_partTokens _ parts)]
      cases value <;> rfl

theorem Nesting.append_nil (n : Nesting) : n.append [] = n := by
  unfold append
  split
  · simp
  · rename_i f fs h
    simp [Frame.append, ← h]

namespace Parser

/-- A parser of a source between two constructs. -/
def between (s : Text) (n : Nesting) : Parser := { source := s, nesting := n }

/-- A round adds the construct that it takes. -/
theorem step_round (before after : Text) {c : Construct} (h : c.Tidy) (n : Nesting) :
    (between (before ++ c.source ++ after) n).step (c.round (Position.start.advance before)) =
      between (before ++ c.source ++ after)
        (n.step ⟨c, .covering (Position.start.advance before) c.source⟩) := by
  have hcut := slice_advance before c.source after
  cases c with
  | text content => rfl
  | openTag name parts gap slash =>
    have hattributes : tokenAttributes
        (before ++ Construct.source (.openTag name parts gap slash) ++ after)
        (partTokens ((Position.start.advance before).advance ('<' :: name)) parts) =
          tagAttributes (Position.start.advance before) name parts := by
      have hfound := tokenAttributes_partTokens (before ++ '<' :: name)
        (gap ++ tagEnd slash ++ after) h.1
      rw [Position.advance_append] at hfound
      simpa [Construct.source, tagAttributes] using hfound
    have hslash : (tagEnd slash == tagEnd true) = slash := by cases slash <;> rfl
    simp only [Construct.source, Position.advance_append] at hcut hattributes
    simp only [between, step, Construct.round, Token.place, Nesting.step, Nesting.openTag,
      Span.covering, Construct.source, Position.advance_append, List.drop_succ_cons, List.drop_zero,
      hattributes, hslash, tokenProblems_partTokens, hcut]
    rfl
  | closeTag name strays gap =>
    simp only [Construct.source, Position.advance_append] at hcut
    simp only [between, step, Construct.round, Token.place, Nesting.step, Nesting.closeTag,
      Span.covering, Construct.source, Position.advance_append, List.drop_succ_cons, List.drop_zero,
      tokenProblems_strayTokens, hcut]
    rfl
  | expression body =>
    simp [between, step, Construct.round, Token.place, Nesting.step, Construct.source,
      Span.covering]
  | comment opening content closing =>
    simp [between, step, Construct.round, Token.place, Nesting.step, Construct.source,
      Span.covering]

/-- The rounds of some constructs add them all. -/
theorem foldl_rounds (before after : Text) {cs : List Construct} (h : ∀ c ∈ cs, c.Tidy)
    (n : Nesting) :
    ((locate Construct.source (Position.start.advance before) cs).map
        fun c => c.value.round c.span.start).foldl step
      (between (before ++ cs.flatMap Construct.source ++ after) n) =
    between (before ++ cs.flatMap Construct.source ++ after)
      ((locate Construct.source (Position.start.advance before) cs).foldl Nesting.step n) := by
  induction cs generalizing before n with
  | nil => rfl
  | cons c cs ih =>
    have hfirst := step_round before (cs.flatMap Construct.source ++ after)
      (h c List.mem_cons_self) n
    have hrest := ih (before ++ c.source) (fun b hb => h b (List.mem_cons_of_mem c hb))
      (n.step ⟨c, .covering (Position.start.advance before) c.source⟩)
    simp only [Position.advance_append, List.append_assoc] at hfirst hrest
    simp only [locate, List.map_cons, List.foldl_cons, Span.covering, List.flatMap_cons,
      List.append_assoc] at hfirst ⊢
    rw [hfirst]
    exact hrest

/-- The rounds of an ending finish the tree. -/
theorem nesting_rounds (s : Text) (n : Nesting) (p : Position) (e : Ending) :
    ((e.rounds p).foldl step (between s n)).nesting = n.finish p e := by
  cases e with
  | clean =>
    simp only [Nesting.finish, Nesting.endingProblems, Nesting.endingNodes, Nesting.report_nil,
      Nesting.append_nil]
    rfl
  | openTag name parts text =>
    simp only [Nesting.finish, Nesting.endingProblems, ← Nesting.report_report]
    simp only [Ending.rounds, List.cons_append, List.nil_append, List.foldl_cons, List.foldl_nil,
      step, between, tokenProblems_partTokens]
    rfl
  | closeTag name strays text =>
    simp only [Nesting.finish, Nesting.endingProblems, ← Nesting.report_report]
    simp only [Ending.rounds, List.cons_append, List.nil_append, List.foldl_cons, List.foldl_nil,
      step, between, tokenProblems_strayTokens]
    rfl
  | expression text => rfl
  | comment opening text => cases opening <;> rfl

end Parser

namespace Reading

variable (d : Dialect) (s : Text)

/-- The rounds of a template build its tree. -/
theorem nesting_rounds :
    ((ofText d s).rounds.foldl Parser.step { source := s }).nesting =
      Nesting.ofReading (ofText d s) := by
  have htidy := inRawText_tidy d none s
  have hall := Parser.foldl_rounds [] (ofText d s).ending.source htidy.1 {}
  have hsource : (inRawText d none s).constructs.flatMap Construct.source ++
      (ofText d s).ending.source = s := source_ofText d s
  rw [List.nil_append, hsource] at hall
  rw [rounds, List.foldl_append, Nesting.ofReading]
  exact (congrArg (fun p => ((ofText d s).ending.rounds _ |>.foldl Parser.step p).nesting)
    hall).trans
    (Parser.nesting_rounds s _ _ _)

end Reading

namespace Document

/-- Every stream of tokens follows the grammar, and the parser takes it construct by construct: in
no round does it pass a token over, take something else for a content and an end, or ask for a token
after the last one. It comes to the document of the template. -/
theorem ofTokens_tokenize (d : Dialect) (name : Option String) (s : Text) :
    (∃ items last stop unterminated,
      TokenStream (tokenize d s) items last stop unterminated) ∧
    (∃ rounds, Round.all (tokenize d s) = .ok rounds ∧
      rounds.flatMap Round.tokens = tokenize d s ∧ ∀ r ∈ rounds, r.Regular) ∧
    ofTokens name s (tokenize d s) = .ok (parse d name s) := by
  have hseparate := Reading.separate_inRawText d none s
  refine ⟨⟨_, _, _, _, Reading.tokenStream_tokens hseparate⟩, ?_, ?_⟩
  · exact ⟨_, Reading.all_tokens _, Reading.tokens_rounds _, fun r => Reading.regular_rounds⟩
  · rw [ofTokens, tokenize, Reading.all_tokens, Except.map, Reading.nesting_rounds]
    rfl

end Document

end StoreMarkup
