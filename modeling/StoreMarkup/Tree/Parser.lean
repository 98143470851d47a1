import StoreMarkup.Document

/-! Parsing a stream of tokens in rounds, with one token of lookahead. -/
namespace StoreMarkup

/-- Why a stream of tokens cannot be parsed. -/
inductive StreamError where
  /-- A token was asked for after the last one. -/
  | exhausted
deriving DecidableEq, Repr

def Token.isEnd (t : Token) : Bool :=
  match t.kind with
  | .endOfInput _ => true
  | _ => false

/-- The tokens that a round of the parser takes. A tag has no last token, and an expression or a
comment no more than its first one, if the input ends inside it. -/
inductive Round where
  | text (token : Token)
  | openTag (start : Token) (parts : List Token) (stop : Option Token)
  | closeTag (start : Token) (parts : List Token) (stop : Option Token)
  | expression (start : Token) (body : Option (Token × Token))
  | comment (start : Token) (body : Option (Token × Token))
  /-- A token that starts no construct is passed over. -/
  | ignored (token : Token)
  | finish (token : Token)
deriving DecidableEq, Repr

namespace Round

/-- Takes the token that the parser looks at and asks for the one after it. The end of the input is
not passed over. -/
def advance : List Token → Except StreamError (Token × List Token)
  | [] => .error .exhausted
  | t :: ts =>
    if t.isEnd then .ok (t, t :: ts)
    else if ts.isEmpty then .error .exhausted
    else .ok (t, ts)

/-- Takes the tokens of a tag up to one of the kind `stop`, or up to the end of the input. -/
def takeTag (stop : TokenKind) :
    List Token → Except StreamError (List Token × Option Token × List Token)
  | [] => .error .exhausted
  | t :: ts =>
    if t.isEnd then .ok ([], none, t :: ts)
    else if ts.isEmpty then .error .exhausted
    else if t.kind = stop then .ok ([], some t, ts)
    else (takeTag stop ts).map fun (parts, last, rest) => (t :: parts, last, rest)

/-- Takes two tokens of whatever kind, unless the input ends here. -/
def takeBody (ts : List Token) : Except StreamError (Option (Token × Token) × List Token) :=
  if ts.head?.any Token.isEnd then .ok (none, ts)
  else do
    let (content, ts) ← advance ts
    let (stop, ts) ← advance ts
    return (some (content, stop), ts)

/-- The next round, and the stream after it. -/
def next (ts : List Token) : Except StreamError (Round × List Token) := do
  let (t, ts) ← advance ts
  match t.kind with
  | .endOfInput _ => return (.finish t, ts)
  | .text => return (.text t, ts)
  | .tagOpenStart =>
    let (parts, stop, ts) ← takeTag .tagOpenEnd ts
    return (.openTag t parts stop, ts)
  | .tagCloseStart =>
    let (parts, stop, ts) ← takeTag .tagCloseEnd ts
    return (.closeTag t parts stop, ts)
  | .expressionStart =>
    let (body, ts) ← takeBody ts
    return (.expression t body, ts)
  | .commentStart =>
    let (body, ts) ← takeBody ts
    return (.comment t body, ts)
  | _ => return (.ignored t, ts)

theorem bind_eq_ok {α β : Type} {x : Except StreamError α} {f : α → Except StreamError β} {b : β} :
    x >>= f = .ok b ↔ ∃ a, x = .ok a ∧ f a = .ok b := by
  cases x with
  | error e => simp [bind, Except.bind]
  | ok a => simp [bind, Except.bind]

theorem length_of_advance {ts rest : List Token} {t : Token} (h : advance ts = .ok (t, rest)) :
    rest.length ≤ ts.length ∧ (t.isEnd = false → rest.length < ts.length) := by
  unfold advance at h
  split at h
  · cases h
  · split at h
    · rename_i he
      cases h
      simp [he]
    · split at h
      · cases h
      · cases h
        simp

theorem length_le_of_takeTag {stop : TokenKind} {ts parts rest : List Token} {last : Option Token}
    (h : takeTag stop ts = .ok (parts, last, rest)) : rest.length ≤ ts.length := by
  induction ts generalizing parts with
  | nil => cases h
  | cons t ts ih =>
    rw [takeTag] at h
    split at h
    · cases h
      exact Nat.le_refl _
    · split at h
      · cases h
      · split at h
        · cases h
          simp
        · cases ht : takeTag stop ts with
          | error e => simp [ht, Except.map] at h
          | ok r =>
            obtain ⟨parts', last', rest'⟩ := r
            simp only [ht, Except.map, Except.ok.injEq, Prod.mk.injEq] at h
            obtain ⟨-, rfl, rfl⟩ := h
            exact Nat.le_succ_of_le (ih ht)

theorem length_le_of_takeBody {ts rest : List Token} {body : Option (Token × Token)}
    (h : takeBody ts = .ok (body, rest)) : rest.length ≤ ts.length := by
  unfold takeBody at h
  split at h
  · cases h
    exact Nat.le_refl _
  · obtain ⟨⟨content, us⟩, hc, h⟩ := bind_eq_ok.mp h
    obtain ⟨⟨stop, vs⟩, hs, h⟩ := bind_eq_ok.mp h
    cases h
    exact Nat.le_trans (length_of_advance hs).1 (length_of_advance hc).1

def isFinish : Round → Bool
  | finish _ => true
  | _ => false

/-- Each round but the last takes a token. -/
theorem length_lt_of_next {ts rest : List Token} {r : Round} (h : next ts = .ok (r, rest))
    (hr : r.isFinish = false) : rest.length < ts.length := by
  obtain ⟨⟨t, us⟩, ht, h⟩ := bind_eq_ok.mp h
  have hlt : t.isEnd = false → us.length < ts.length := (length_of_advance ht).2
  dsimp only at h
  split at h
  · cases h
    cases hr
  · rename_i hk
    cases h
    exact hlt (by simp [Token.isEnd, hk])
  · rename_i hk
    obtain ⟨⟨parts, stop, vs⟩, htag, h⟩ := bind_eq_ok.mp h
    cases h
    exact Nat.lt_of_le_of_lt (length_le_of_takeTag htag) (hlt (by simp [Token.isEnd, hk]))
  · rename_i hk
    obtain ⟨⟨parts, stop, vs⟩, htag, h⟩ := bind_eq_ok.mp h
    cases h
    exact Nat.lt_of_le_of_lt (length_le_of_takeTag htag) (hlt (by simp [Token.isEnd, hk]))
  · rename_i hk
    obtain ⟨⟨body, vs⟩, hbody, h⟩ := bind_eq_ok.mp h
    cases h
    exact Nat.lt_of_le_of_lt (length_le_of_takeBody hbody) (hlt (by simp [Token.isEnd, hk]))
  · rename_i hk
    obtain ⟨⟨body, vs⟩, hbody, h⟩ := bind_eq_ok.mp h
    cases h
    exact Nat.lt_of_le_of_lt (length_le_of_takeBody hbody) (hlt (by simp [Token.isEnd, hk]))
  · rename_i hend _ _ _ _ _
    cases h
    refine hlt ?_
    unfold Token.isEnd
    split
    · rename_i u hk
      exact (hend u hk).elim
    · rfl

/-- All rounds of a stream, up to the one that finishes the input. -/
def all (ts : List Token) : Except StreamError (List Round) :=
  match _h : next ts with
  | .error e => .error e
  | .ok (r, rest) =>
    if _hr : r.isFinish then .ok [r] else (all rest).map (r :: ·)
termination_by ts.length
decreasing_by exact length_lt_of_next _h (by simpa using _hr)

end Round

/-- The attribute of a name token and the value token after it, if there is one. -/
def Attribute.ofTokens (source : Text) (name : Token)
    (value : Option (Token × List (Located Fragment))) : Attribute :=
  let span : Span := ⟨name.span.start, ((value.map Prod.fst).getD name).span.stop⟩
  { name := name.text
    value := value.map Prod.snd
    quote := value.bind fun v => v.1.text.head?.bind Quote.ofChar?
    source := source.slice span.start.offset span.stop.offset
    span }

/-- The value token at the start of some tokens, with its fragments. -/
def valueAt? : List Token → Option (Token × List (Located Fragment))
  | [] => none
  | t :: _ =>
    match t.kind with
    | .attributeValue fragments => some (t, fragments)
    | _ => none

/-- The attributes among the tokens of an open tag. -/
def tokenAttributes (source : Text) : List Token → List Attribute
  | [] => []
  | t :: ts =>
    match t.kind with
    | .attributeName => .ofTokens source t (valueAt? ts) :: tokenAttributes source ts
    | _ => tokenAttributes source ts

/-- What is malformed among the tokens of a tag, where `problem` says what a fault amounts to. -/
def tokenProblems (problem : Fault → Text → Problem) (ts : List Token) : List (Located Problem) :=
  ts.filterMap fun t =>
    match t.kind with
    | .invalid fault => some ⟨problem fault t.text, t.span⟩
    | _ => none

/-- The problem of an input that ends inside a construct, whose first token is `opener`. -/
def unterminatedProblem (opener : Option Token) : Unterminated → Problem
  | .tag => .unterminatedTag (opener.map Token.text)
  | .expression => .unterminatedExpression
  | .comment => .unterminatedComment

/-- A parser between two rounds. -/
structure Parser where
  source : Text
  nesting : Nesting := {}
  /-- The first token of a construct that was not finished. -/
  opener : Option Token := none
deriving Repr

namespace Parser

/-- Adds what a round took. -/
def step (p : Parser) : Round → Parser
  | .text t => { p with nesting := p.nesting.append [.text t.text t.span] }
  | .openTag start parts stop =>
    let name := start.text.drop 1
    let n := p.nesting.report (tokenProblems (fun fault _ => .malformedAttribute fault name) parts)
    match stop with
    | none => { p with nesting := n, opener := some start }
    | some stop =>
      let span : Span := ⟨start.span.start, stop.span.stop⟩
      let frame : Frame :=
        { tag := canonicalName name
          attributes := tokenAttributes p.source parts
          openText := p.source.slice span.start.offset span.stop.offset
          openSpan := span }
      { p with nesting := n.openElement frame (stop.text == tagEnd true), opener := none }
  | .closeTag start parts stop =>
    let n := p.nesting.report (tokenProblems .malformedClosingTag parts)
    match stop with
    | none => { p with nesting := n, opener := some start }
    | some stop =>
      let span : Span := ⟨start.span.start, stop.span.stop⟩
      let text := p.source.slice span.start.offset span.stop.offset
      { p with
        nesting := n.closeElement (canonicalName (start.text.drop 2)) text span
        opener := none }
  | .expression start none | .comment start none => { p with opener := some start }
  | .expression start (some (content, stop)) =>
    let node : Node :=
      .expression start.text content.text stop.text ⟨start.span.start, stop.span.stop⟩
    { p with nesting := p.nesting.append [node], opener := none }
  | .comment start (some (content, stop)) =>
    let node : Node :=
      .comment start.text content.text stop.text ⟨start.span.start, stop.span.stop⟩
    { p with nesting := p.nesting.append [node], opener := none }
  | .ignored _ => p
  | .finish t =>
    let n := match t.kind with
      | .endOfInput (some u) =>
        let span := (p.opener.map Token.span).getD t.span
        (p.nesting.report [⟨unterminatedProblem p.opener u, span⟩]).append [.text t.text t.span]
      | _ => p.nesting
    { p with nesting := n.closeAll t.span.stop }

end Parser

/-- Parses a stream of tokens of a source. -/
def Document.ofTokens (sourceName : Option String) (source : Text) (ts : List Token) :
    Except StreamError Document :=
  (Round.all ts).map fun rounds =>
    .ofNesting sourceName source (rounds.foldl Parser.step { source }).nesting

end StoreMarkup
