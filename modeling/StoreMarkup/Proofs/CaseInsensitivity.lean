import StoreMarkup.Proofs.Diagnostics
import StoreMarkup.Proofs.Relabeling
import StoreMarkup.Proofs.Respelling

/-! Tag names mean the same in any case: a template in another spelling of its tag names has the
same tokens, the same tree and the same diagnostics, but for the spelling. -/
namespace StoreMarkup

/-- A token up to the case of letters in its text. -/
def Token.uncased (t : Token) : Token := { t with text := t.text.uncased }

section Tokens

variable {c c' : Construct} {e e' : Ending} {cs cs' : List Construct} {p : Position} {t u : Text}

theorem advance_congr (h : t.uncased = u.uncased) (p : Position) : p.advance t = p.advance u := by
  rw [← advance_uncased, h, advance_uncased]

theorem covering_congr (h : t.uncased = u.uncased) (p : Position) :
    Span.covering p t = Span.covering p u := by
  rw [Span.covering, Span.covering, advance_congr h]

theorem place_congr (h : t.uncased = u.uncased) (p : Position) (kind : TokenKind) :
    (Token.place p kind t).uncased = (Token.place p kind u).uncased := by
  rw [Token.place, Token.place, covering_congr h, Token.uncased, Token.uncased]
  simp only [h]

theorem Construct.Respelled.source (h : c.Respelled c') : c'.source.uncased = c.source.uncased := by
  cases h with
  | text | expression => rfl
  | openTag hname | closeTag hname => simp [Construct.source, hname]
  | comment hopening hclosing => simp [Construct.source, hopening, hclosing]

theorem openTagTokens_respelled {name name' : Text} (h : name'.uncased = name.uncased)
    (p : Position) (parts : List TagPart) : (openTagTokens p name' parts).map Token.uncased =
      (openTagTokens p name parts).map Token.uncased := by
  have hstart : Text.uncased ('<' :: name') = Text.uncased ('<' :: name) := by simp [h]
  rw [openTagTokens_eq, openTagTokens_eq, List.map_cons, List.map_cons, place_congr hstart,
    advance_congr hstart]

theorem closeTagTokens_respelled {name name' : Text} (h : name'.uncased = name.uncased)
    (p : Position) (strays : List Stray) : (closeTagTokens p name' strays).map Token.uncased =
      (closeTagTokens p name strays).map Token.uncased := by
  have hstart : Text.uncased ('<' :: '/' :: name') = Text.uncased ('<' :: '/' :: name) := by
    simp [h]
  rw [closeTagTokens_eq, closeTagTokens_eq, List.map_cons, List.map_cons, place_congr hstart,
    advance_congr hstart]

theorem Construct.Respelled.tokens (h : c.Respelled c') (p : Position) :
    (c'.tokens p).map Token.uncased = (c.tokens p).map Token.uncased := by
  cases h with
  | text | expression => rfl
  | @openTag name name' gap parts slash hname =>
    have hbody : Text.uncased ('<' :: name' ++ parts.flatMap TagPart.source ++ gap) =
        Text.uncased ('<' :: name ++ parts.flatMap TagPart.source ++ gap) := by simp [hname]
    simp only [Construct.tokens, List.map_append, openTagTokens_respelled hname,
      advance_congr hbody]
  | @closeTag name name' gap strays hname =>
    have hbody : Text.uncased ('<' :: '/' :: name' ++ strays.flatMap Stray.source ++ gap) =
        Text.uncased ('<' :: '/' :: name ++ strays.flatMap Stray.source ++ gap) := by simp [hname]
    simp only [Construct.tokens, List.map_append, closeTagTokens_respelled hname,
      advance_congr hbody]
  | comment hopening hclosing =>
    simp only [Construct.tokens, Token.placeAll, List.map_cons, List.map_nil, place_congr hopening,
      place_congr hclosing, advance_congr hopening]

theorem constructTokens_respelled (h : List.Forall₂ Construct.Respelled cs cs') (p : Position) :
    (constructTokens p cs').map Token.uncased = (constructTokens p cs).map Token.uncased := by
  induction h generalizing p with
  | nil => rfl
  | cons hc _ ih =>
    rw [constructTokens_cons, constructTokens_cons, List.map_append, List.map_append, hc.tokens,
      advance_congr hc.source, ih]

theorem uncased_flatMap_source (h : List.Forall₂ Construct.Respelled cs cs') :
    Text.uncased (cs'.flatMap Construct.source) = Text.uncased (cs.flatMap Construct.source) := by
  induction h with
  | nil => rfl
  | cons hc _ ih =>
    rw [List.flatMap_cons, List.flatMap_cons, uncased_append, uncased_append, hc.source, ih]

theorem Ending.Respelled.source (h : e.Respelled e') : e'.source.uncased = e.source.uncased := by
  cases h with
  | clean | expression | commentStart => rfl
  | openTag hname | closeTag hname => simp [Ending.source, hname]
  | comment hopening => simp [Ending.source, hopening]

theorem Ending.Respelled.tokens (h : e.Respelled e') (p : Position) :
    (e'.tokens p).map Token.uncased = (e.tokens p).map Token.uncased := by
  have hlast := place_congr h.source p
  have hkind : e'.unterminated? = e.unterminated? := by cases h <;> rfl
  have hstarted : (e'.startedTokens p).map Token.uncased =
      (e.startedTokens p).map Token.uncased := by
    cases h with
    | clean | expression | commentStart => rfl
    | openTag hname => exact openTagTokens_respelled hname p _
    | closeTag hname => exact closeTagTokens_respelled hname p _
    | comment hopening => simp only [startedTokens, List.map_cons, place_congr hopening]
  rw [tokens_eq, tokens_eq, List.map_append, List.map_append, hstarted, List.map_singleton,
    List.map_singleton, hkind, hlast]

end Tokens

/-- How an element ends, up to the case of letters in its close tag. -/
def Closing.uncased : Closing → Closing
  | selfClosed => selfClosed
  | tag text span => tag text.uncased span
  | implied point => implied point

/-- An element up to the case of letters in its tags as they are written. -/
def Element.uncased (x : Element) : Element :=
  { x with openText := x.openText.uncased, closing := x.closing.uncased }

mutual

/-- A tree up to the case of letters in its tags as they are written, in the tags of comments and in
text that starts at `tail`. -/
def Node.uncased (tail : Position) : Node → Node
  | .text content span => .text (if span.start = tail then content.uncased else content) span
  | .expression opening body closing span => .expression opening body closing span
  | .comment opening content closing span => .comment opening.uncased content closing.uncased span
  | .element x children => .element x.uncased (Node.uncasedAll tail children)

def Node.uncasedAll (tail : Position) : List Node → List Node
  | [] => []
  | node :: rest => node.uncased tail :: Node.uncasedAll tail rest

end

theorem Node.uncasedAll_eq (tail : Position) (nodes : List Node) :
    Node.uncasedAll tail nodes = nodes.map (Node.uncased tail) := by
  induction nodes with
  | nil => simp [Node.uncasedAll]
  | cons node rest ih => simp [Node.uncasedAll, ih]

@[simp] theorem Node.uncased_element (tail : Position) (x : Element) (children : List Node) :
    Node.uncased tail (.element x children) =
      .element x.uncased (children.map (Node.uncased tail)) := by
  rw [Node.uncased, Node.uncasedAll_eq]

/-- A problem up to the case of letters in the name of its tag. -/
def Problem.uncased : Problem → Problem
  | unterminatedTag opening => unterminatedTag (opening.map Text.uncased)
  | malformedAttribute fault name => malformedAttribute fault name.uncased
  | problem => problem

def uncasedProblem (q : Located Problem) : Located Problem := ⟨q.value.uncased, q.span⟩

def Frame.uncased (tail : Position) (f : Frame) : Frame :=
  { f with openText := f.openText.uncased, children := f.children.map (Node.uncased tail) }

/-- To forget the case of letters keeps the shape of the tree. -/
def uncasing (tail : Position) : Relabeling where
  move p := p
  span s := s
  closeText := Text.uncased
  node := Node.uncased tail
  frame := Frame.uncased tail
  problem := uncasedProblem
  start_span _ := rfl
  tag_frame _ := rfl
  openSpan_frame _ := rfl
  frame_append f nodes := by simp [Frame.uncased, Frame.append, Relabeling.map_append_list]
  node_close f text s := by
    simp [Frame.close, Frame.element, Frame.uncased, Element.uncased, Closing.uncased]
  node_selfClosed f := by simp [Frame.element, Frame.uncased, Element.uncased, Closing.uncased]
  map_closeImplicitly f p := by
    by_cases h : closesOptionally f.tag = true <;>
      simp [Frame.closeImplicitly, Frame.element, Frame.uncased, Element.uncased,
        Closing.uncased, h]
  problem_of_mem q s h := by
    cases q with
    | unterminatedTag | malformedAttribute => simp [Problem.code, nestingCodes] at h
    | _ => rfl

@[simp] theorem node_uncasing (tail : Position) : (uncasing tail).node = Node.uncased tail := rfl

@[simp] theorem frame_uncasing (tail : Position) : (uncasing tail).frame = Frame.uncased tail := rfl

@[simp] theorem problem_uncasing (tail : Position) : (uncasing tail).problem = uncasedProblem := rfl

@[simp] theorem closeText_uncasing (tail : Position) :
    (uncasing tail).closeText = Text.uncased := rfl

section Steps

variable {c c' : Construct} {e e' : Ending} {name name' : Text} {n n' : Nesting} {tail p : Position}

theorem tagAttributes_respelled (h : name'.uncased = name.uncased) (p : Position)
    (parts : List TagPart) : tagAttributes p name' parts = tagAttributes p name parts := by
  have hstart : Text.uncased ('<' :: name') = Text.uncased ('<' :: name) := by simp [h]
  rw [tagAttributes, tagAttributes, advance_congr hstart]

theorem tagProblems_respelled (h : name'.uncased = name.uncased) (p : Position)
    (parts : List TagPart) : (tagProblems p name' parts).map uncasedProblem =
      (tagProblems p name parts).map uncasedProblem := by
  have hstart : Text.uncased ('<' :: name') = Text.uncased ('<' :: name) := by simp [h]
  rw [tagProblems, tagProblems, advance_congr hstart, List.map_filterMap, List.map_filterMap]
  apply List.filterMap_congr
  intro part _
  cases part.value with
  | «attribute» => rfl
  | stray => simp [TagPart.problem?, uncasedProblem, Problem.uncased, h]

theorem closeTagProblems_respelled (h : name'.uncased = name.uncased) (p : Position)
    (strays : List Stray) : closeTagProblems p name' strays = closeTagProblems p name strays := by
  have hstart : Text.uncased ('<' :: '/' :: name') = Text.uncased ('<' :: '/' :: name) := by
    simp [h]
  rw [closeTagProblems, closeTagProblems, advance_congr hstart]

/-- The same construct but for its spelling does the same to a tree but for its spelling. -/
theorem Construct.Respelled.nesting_step (h : c.Respelled c')
    (hn : (uncasing tail).nesting n' = (uncasing tail).nesting n) (span : Span) :
    (uncasing tail).nesting (n'.step ⟨c', span⟩) = (uncasing tail).nesting (n.step ⟨c, span⟩) := by
  have hsource := h.source
  cases h with
  | text content => simp only [Nesting.step, Relabeling.nesting_append, hn]
  | expression body => simp only [Nesting.step, Relabeling.nesting_append, hn]
  | comment hopening hclosing =>
    simp only [Nesting.step, Relabeling.nesting_append, hn, List.map_cons, List.map_nil,
      node_uncasing, Node.uncased, hopening, hclosing]
  | openTag hname =>
    simp only [Nesting.step, Nesting.openTag, Relabeling.nesting_openElement,
      Relabeling.nesting_report, hn, problem_uncasing, tagProblems_respelled hname,
      tagAttributes_respelled hname, canonicalName_congr hname, frame_uncasing, Frame.uncased,
      hsource]
  | closeTag hname =>
    simp only [Nesting.step, Nesting.closeTag, Relabeling.nesting_closeElement,
      Relabeling.nesting_report, hn, closeTagProblems_respelled hname, canonicalName_congr hname,
      closeText_uncasing, hsource]

theorem nesting_foldl_respelled {cs cs' : List Construct}
    (h : List.Forall₂ Construct.Respelled cs cs')
    (hn : (uncasing tail).nesting n' = (uncasing tail).nesting n) (p : Position) :
    (uncasing tail).nesting ((locate Construct.source p cs').foldl Nesting.step n') =
      (uncasing tail).nesting ((locate Construct.source p cs).foldl Nesting.step n) := by
  induction h generalizing n n' p with
  | nil => exact hn
  | cons hc _ ih =>
    rw [locate, locate, List.foldl_cons, List.foldl_cons, covering_congr hc.source]
    exact ih (hc.nesting_step hn _) _

theorem Ending.Respelled.endingProblems (h : e.Respelled e') (p : Position) :
    (Nesting.endingProblems p e').map uncasedProblem =
      (Nesting.endingProblems p e).map uncasedProblem := by
  cases h with
  | clean | expression | commentStart => rfl
  | @openTag name name' _ _ hname =>
    have hstart : Text.uncased ('<' :: name') = Text.uncased ('<' :: name) := by simp [hname]
    simp only [Nesting.endingProblems, List.map_append, tagProblems_respelled hname, List.map_cons,
      List.map_nil, uncasedProblem, Problem.uncased, Option.map_some, hstart, covering_congr hstart]
  | @closeTag name name' _ _ hname =>
    have hstart : Text.uncased ('<' :: '/' :: name') = Text.uncased ('<' :: '/' :: name) := by
      simp [hname]
    simp only [Nesting.endingProblems, List.map_append, closeTagProblems_respelled hname,
      List.map_cons, List.map_nil, uncasedProblem, Problem.uncased, Option.map_some, hstart,
      covering_congr hstart]
  | comment hopening => simp [Nesting.endingProblems, covering_congr hopening]

/-- The text that is left of a template stands at its tail. -/
theorem Ending.Respelled.endingNodes (h : e.Respelled e') (p : Position) :
    (Nesting.endingNodes p e').map (Node.uncased p) =
      (Nesting.endingNodes p e).map (Node.uncased p) := by
  have hsource := h.source
  have hspan := covering_congr hsource p
  have hstart : (Span.covering p e.source).start = p := rfl
  cases h with
  | clean => rfl
  | _ => simp only [Nesting.endingNodes, List.map_cons, List.map_nil, Node.uncased, hspan, hstart,
      if_true, hsource]

theorem Ending.Respelled.finish (h : e.Respelled e')
    (hn : (uncasing p).nesting n' = (uncasing p).nesting n) :
    (uncasing p).nesting (n'.finish p e') = (uncasing p).nesting (n.finish p e) := by
  simp only [Nesting.finish, Relabeling.nesting_closeAll, Relabeling.nesting_append,
    Relabeling.nesting_report, problem_uncasing, node_uncasing, h.endingProblems, h.endingNodes, hn,
    advance_congr h.source]

end Steps

namespace Reading.Respelled

variable {r r' : Reading}

theorem endingStart_eq (h : r.Respelled r') : r'.endingStart = r.endingStart :=
  advance_congr (uncased_flatMap_source h.constructs) _

theorem tokens_eq (h : r.Respelled r') :
    r'.tokens.map Token.uncased = r.tokens.map Token.uncased := by
  have hconstructs := constructTokens_respelled h.constructs Position.start
  rw [Reading.tokens, Reading.tokens, List.map_append, List.map_append, h.endingStart_eq,
    h.ending.tokens]
  exact congrArg (· ++ _) hconstructs

theorem nesting_eq (h : r.Respelled r') : (uncasing r.endingStart).nesting (.ofReading r') =
    (uncasing r.endingStart).nesting (.ofReading r) := by
  rw [Nesting.ofReading, Nesting.ofReading, h.endingStart_eq]
  exact h.ending.finish (nesting_foldl_respelled h.constructs rfl _)

end Reading.Respelled

/-- Diagnostics are sorted by their spans alone. -/
theorem Diagnostic.inSourceOrder_congr {ds es : List Diagnostic}
    (h : ds.map (fun x => (x.code, x.span)) = es.map fun x => (x.code, x.span)) :
    (inSourceOrder ds).map (fun x => (x.code, x.span)) =
      (inSourceOrder es).map fun x => (x.code, x.span) := by
  have hsorted : ∀ xs : List Diagnostic, (inSourceOrder xs).map (fun x => (x.code, x.span)) =
      (xs.map fun x => (x.code, x.span)).mergeSort
        fun a b => a.2.start.offset ≤ b.2.start.offset := by
    intro xs
    exact List.map_mergeSort fun a _ b _ => rfl
  rw [hsorted, hsorted, h]

theorem diagnostic_congr {ps qs : List (Located Problem)}
    (h : ps.map uncasedProblem = qs.map uncasedProblem) (collector : Collector) :
    (ps.map (Problem.diagnostic collector)).map (fun x => (x.code, x.span)) =
      (qs.map (Problem.diagnostic collector)).map fun x => (x.code, x.span) := by
  have hcode : ∀ problem : Problem, problem.uncased.code = problem.code := by
    intro problem
    cases problem <;> rfl
  have hplace : ∀ xs : List (Located Problem),
      (xs.map (Problem.diagnostic collector)).map (fun x => (x.code, x.span)) =
        (xs.map uncasedProblem).map fun q => (q.value.code, q.span) := by
    intro xs
    simp [Problem.diagnostic, Collector.diagnostic, uncasedProblem, hcode]
  rw [hplace, hplace, h]

/-- Another spelling of the tag names of a template changes the texts of its tokens and of the tags
in its tree at most in their case, and no diagnostic but for its message. All other text is the
same, but for what is left of a template that ends inside a construct, where the last token
starts. -/
theorem Document.parse_respelled {d : Dialect} {s s' : Text} (h : Respells d s s')
    (name : Option String) :
    (tokenize d s').map Token.uncased = (tokenize d s).map Token.uncased ∧
      (parse d name s').children.map (Node.uncased (lastToken d s).span.start) =
        (parse d name s).children.map (Node.uncased (lastToken d s).span.start) ∧
      (parse d name s').diagnostics.map (fun x => (x.code, x.span)) =
        (parse d name s).diagnostics.map fun x => (x.code, x.span) := by
  have hreading := Reading.ofText_respelled h
  have hnesting := hreading.nesting_eq
  refine ⟨hreading.tokens_eq, ?_, ?_⟩
  · have hroots := congrArg (fun n => n.roots.toList) hnesting
    simp only [Relabeling.nesting, Array.toList_map] at hroots
    exact hroots
  · have hproblems := congrArg (fun n => n.problems.toList) hnesting
    simp only [Relabeling.nesting, Array.toList_map] at hproblems
    rw [diagnostics_eq, diagnostics_eq]
    exact Diagnostic.inSourceOrder_congr (diagnostic_congr hproblems _)

/-- Two spellings of a template with a comment, a stray in a tag and a tail that does not end. -/
theorem Document.parse_respelled_mixed :
    let s := "<IsIf x=A =><isCOMMENT>X</iscomment ></isif><ISLOOP Y".toList
    let s' := "<iSiF x=A =><IScomment>X</ISComment ></ISif><isLoop Y".toList
    (Respells {} s s' ∧ s' ≠ s) ∧
      (tokenize {} s').map Token.uncased = (tokenize {} s).map Token.uncased ∧
      (parse {} none s').children.map (Node.uncased (lastToken {} s).span.start) =
        (parse {} none s).children.map (Node.uncased (lastToken {} s).span.start) ∧
      (parse {} none s').diagnostics.map (fun x => (x.code, x.span)) =
        (parse {} none s).diagnostics.map fun x => (x.code, x.span) := by
  have h : Respells {} "<IsIf x=A =><isCOMMENT>X</iscomment ></isif><ISLOOP Y".toList
      "<iSiF x=A =><IScomment>X</ISComment ></ISif><isLoop Y".toList :=
    ⟨by decide +kernel, by decide +kernel⟩
  exact ⟨⟨h, by decide⟩, parse_respelled h none⟩

end StoreMarkup
