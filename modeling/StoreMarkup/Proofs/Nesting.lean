import StoreMarkup.Proofs.Forest
import StoreMarkup.Proofs.Reading

/-! What a construct does to a tree under construction, said once for all invariants. -/
namespace StoreMarkup

/-- A tag that counts for nesting, by its name in lower case. -/
inductive TagEvent where
  | opened (tag : Text)
  | closed (tag : Text)
deriving DecidableEq, Repr

namespace Construct

/-- Every close tag counts, and of the open tags those that start a body. -/
def event? : Construct → Option TagEvent
  | openTag name _ _ slash =>
    if slash || isVoid (canonicalName name) then none else some (.opened (canonicalName name))
  | closeTag name _ _ => some (.closed (canonicalName name))
  | _ => none

/-- What is wrong inside a construct that starts at a point. -/
def faults (p : Position) : Construct → List (Located Problem)
  | openTag name parts _ _ => tagProblems p name parts
  | closeTag name strays _ => closeTagProblems p name strays
  | _ => []

/-- A construct at a place is the open tag of an element with this name, attributes and place. -/
def Opens (c : Construct) (span : Span) (tag : Text) (attributes : List Attribute)
    (openSpan : Span) : Prop :=
  ∃ name parts gap slash, c = .openTag name parts gap slash ∧ tag = canonicalName name ∧
    attributes = tagAttributes span.start name parts ∧ openSpan = span

end Construct

/-- The problems that are about tags as a whole and not about what stands inside one. -/
def Code.isStructural : Code → Bool
  | unexpectedClosingTag | mismatchedNesting | unterminatedElement => true
  | _ => false

/-- The problems that only the end of a template shows. -/
def Code.isFinal : Code → Bool
  | unterminatedTag | unterminatedExpression | unterminatedComment | unterminatedElement => true
  | _ => false

/-- The problems of a kind. -/
def Problem.ofCode (code : Code) (problems : List (Located Problem)) : List (Located Problem) :=
  problems.filter fun q => q.value.code = code

namespace Problem

variable {code : Code} {problems : List (Located Problem)}

@[simp] theorem ofCode_append (others : List (Located Problem)) :
    ofCode code (problems ++ others) = ofCode code problems ++ ofCode code others := by
  simp [ofCode]

theorem ofCode_eq_nil (h : ∀ q ∈ problems, q.value.code ≠ code) : ofCode code problems = [] := by
  simpa [ofCode] using h

theorem ofCode_eq_self (h : ∀ q ∈ problems, q.value.code = code) :
    ofCode code problems = problems := by
  simpa [ofCode] using h

end Problem

theorem code_of_mem_tagProblems {p : Position} {name : Text} {parts : List TagPart}
    {q : Located Problem} (h : q ∈ tagProblems p name parts) :
    q.value.code = .malformedAttribute := by
  obtain ⟨part, _, hq⟩ := List.mem_filterMap.mp h
  cases hv : part.value with
  | «attribute» gap name value => simp [hv, TagPart.problem?] at hq
  | stray s fault =>
    simp only [hv, TagPart.problem?, Option.some.injEq] at hq
    subst hq
    rfl

theorem code_of_mem_closeTagProblems {p : Position} {name : Text} {strays : List Stray}
    {q : Located Problem} (h : q ∈ closeTagProblems p name strays) :
    q.value.code = .malformedClosingTag := by
  obtain ⟨stray, _, rfl⟩ := List.mem_map.mp h
  rfl

theorem Construct.code_of_mem_faults {p : Position} {c : Construct} {q : Located Problem}
    (h : q ∈ c.faults p) :
    q.value.code = .malformedAttribute ∨ q.value.code = .malformedClosingTag := by
  cases c with
  | openTag => exact Or.inl (code_of_mem_tagProblems h)
  | closeTag => exact Or.inr (code_of_mem_closeTagProblems h)
  | _ => cases h

/-- What is wrong inside a construct never concerns its nesting. -/
theorem Construct.ofCode_faults {code : Code} (h : code.isStructural = true) (p : Position)
    (c : Construct) : Problem.ofCode code (c.faults p) = [] := by
  apply Problem.ofCode_eq_nil
  rintro q hq rfl
  rcases code_of_mem_faults hq with hc | hc <;> simp [hc, Code.isStructural] at h

/-- The innermost frame of a tag is found with no other of its tag inside it. -/
theorem splitFrames?_eq_some {tag : Text} {stack inner outer : List Frame} {frame : Frame}
    (h : splitFrames? tag stack = some (inner, frame, outer)) :
    stack = inner ++ frame :: outer ∧ frame.tag = tag := by
  induction stack generalizing inner with
  | nil => cases h
  | cons f fs ih =>
    rw [splitFrames?] at h
    split at h
    · cases h
      exact ⟨rfl, by assumption⟩
    · obtain ⟨⟨inner', frame', outer'⟩, hs, he⟩ := Option.map_eq_some_iff.mp h
      cases he
      obtain ⟨rfl, ht⟩ := ih hs
      exact ⟨rfl, ht⟩

theorem splitFrames?_eq_none_iff {tag : Text} {stack : List Frame} :
    splitFrames? tag stack = none ↔ ∀ f ∈ stack, f.tag ≠ tag := by
  induction stack with
  | nil => simp [splitFrames?]
  | cons f fs ih =>
    by_cases htag : f.tag = tag
    · simp [splitFrames?, htag]
    · simp [splitFrames?, htag, ih]

section Split

variable {tag : Text} {xs ys inner outer : List Frame} {f : Frame}

theorem splitFrames?_append_of_some (h : splitFrames? tag xs = some (inner, f, outer)) :
    splitFrames? tag (xs ++ ys) = some (inner, f, outer ++ ys) := by
  induction xs generalizing inner with
  | nil => cases h
  | cons x xs ih =>
    rw [splitFrames?] at h
    rw [List.cons_append, splitFrames?]
    split at h
    · rename_i htag
      cases h
      rw [if_pos htag]
    · rename_i htag
      obtain ⟨⟨i, g, o⟩, hs, he⟩ := Option.map_eq_some_iff.mp h
      cases he
      rw [if_neg htag, ih hs]
      rfl

theorem splitFrames?_append_of_none (h : splitFrames? tag xs = none) :
    splitFrames? tag (xs ++ ys) =
      (splitFrames? tag ys).map fun (inner, found, outer) => (xs ++ inner, found, outer) := by
  induction xs with
  | nil => simp
  | cons x xs ih =>
    rw [splitFrames?] at h
    rw [List.cons_append, splitFrames?]
    split at h
    · cases h
    · rename_i htag
      rw [if_neg htag, ih (Option.map_eq_none_iff.mp h), Option.map_map]
      rfl

end Split

theorem appendList_appendList {α : Type} (xs : Array α) (ys zs : List α) :
    xs ++ ys ++ zs = xs ++ (ys ++ zs) := by
  apply Array.ext'
  simp

namespace Frame

/-- The tags of the frames that may not be left open. -/
def needed (frames : List Frame) : List Text :=
  (frames.map Frame.tag).filter fun t => !closesOptionally t

/-- The open tag and what is finished of the body. -/
def pieces (f : Frame) : List (Located Text) :=
  ⟨f.openText, f.openSpan⟩ :: Node.piecesAll f.children.toList

/-- The close tag that is missing where a frame is closed implicitly. -/
def missing (p : Position) (f : Frame) : List (Located Text) :=
  if closesOptionally f.tag then [] else [⟨[], .point p⟩]

theorem toList_append (f : Frame) (nodes : List Node) :
    (f.append nodes).children.toList = f.children.toList ++ nodes := by simp [append]

theorem piecesAll_closeImplicitly (p : Position) (f : Frame) (nodes : List Node) :
    Node.piecesAll ((f.append nodes).closeImplicitly p) =
      f.pieces ++ Node.piecesAll nodes ++ f.missing p := by
  by_cases h : closesOptionally f.tag = true <;>
    simp [closeImplicitly, append, missing, pieces, Node.pieces, element, Element.closeSpan?,
      Element.closeText, h]

/-- The outermost frame is closed around all that the others leave. -/
theorem collapse_concat (p : Position) (frames : List Frame) (f : Frame) :
    collapse p (frames ++ [f]) = (f.append (collapse p frames)).closeImplicitly p := by
  simp [collapse]

/-- Collapsing frames keeps their pieces in order and adds the missing close tags, inside out. -/
theorem piecesAll_collapse (p : Position) (frames : List Frame) :
    Node.piecesAll (collapse p frames) =
      frames.reverse.flatMap pieces ++ frames.flatMap (missing p) := by
  induction frames using List.reverseRecOn with
  | nil => rfl
  | append_singleton frames f ih =>
    simp [collapse_concat, piecesAll_closeImplicitly, ih]

end Frame

/-- The report on elements that a close tag ends with its own, if there are any. -/
def mismatch (tag : Text) (inner : List Frame) (span : Span) : List (Located Problem) :=
  if (Frame.needed inner).isEmpty then []
  else [⟨.mismatchedNesting tag (Frame.needed inner), span⟩]

namespace Nesting

/-- The reported problems of a kind. -/
def reported (n : Nesting) (code : Code) : List (Located Problem) :=
  Problem.ofCode code n.problems.toList

@[simp] theorem reported_report (n : Nesting) (problems : List (Located Problem)) (code : Code) :
    (n.report problems).reported code = n.reported code ++ Problem.ofCode code problems := by
  simp [reported, report]

@[simp] theorem reported_append (n : Nesting) (nodes : List Node) (code : Code) :
    (n.append nodes).reported code = n.reported code := by
  unfold append
  split <;> rfl

@[simp] theorem reported_withStack (n : Nesting) (stack : List Frame) (code : Code) :
    reported { n with stack } code = n.reported code := rfl

/-- The finished nodes in document order. -/
def forest (n : Nesting) : List Node :=
  n.roots.toList ++ n.stack.reverse.flatMap fun f => f.children.toList

@[simp] theorem forest_report (n : Nesting) (problems : List (Located Problem)) :
    (n.report problems).forest = n.forest := rfl

@[simp] theorem forest_append (n : Nesting) (nodes : List Node) :
    (n.append nodes).forest = n.forest ++ nodes := by
  cases h : n.stack <;> simp [append, forest, h, Frame.append]

theorem forest_push (n : Nesting) {frame : Frame} (h : frame.children = #[]) :
    forest { n with stack := frame :: n.stack } = n.forest := by
  simp [forest, h]

theorem forest_split {n : Nesting} {inner outer : List Frame} {frame : Frame}
    (h : n.stack = inner ++ frame :: outer) :
    n.forest = forest { n with stack := outer } ++
      (frame.children.toList ++ inner.reverse.flatMap fun f => f.children.toList) := by
  simp [forest, h]

/-- What a construct can do once its own faults are reported. -/
inductive Effect (n : Nesting) (c : Construct) (span : Span) : Nesting → Prop
  | node {node : Node} (event : c.event? = none) (pieces : node.pieces = [⟨c.source, span⟩])
      (children : node.children = [])
      (closing : ∀ e, node.element? = some e → e.closing = .selfClosed)
      (origin : ∀ e, node.element? = some e → c.Opens span e.tag e.attributes e.openSpan) :
      Effect n c span (n.append [node])
  | opened {frame : Frame} (event : c.event? = some (.opened frame.tag))
      (text : frame.openText = c.source) (place : frame.openSpan = span)
      (children : frame.children = #[])
      (origin : c.Opens span frame.tag frame.attributes frame.openSpan) :
      Effect n c span { n with stack := frame :: n.stack }
  | dropped {tag : Text} (event : c.event? = some (.closed tag))
      (absent : splitFrames? tag n.stack = none) :
      Effect n c span (n.report [⟨.unexpectedClosingTag tag, span⟩])
  | closed {tag : Text} {inner outer : List Frame} {frame : Frame}
      (event : c.event? = some (.closed tag))
      (found : splitFrames? tag n.stack = some (inner, frame, outer)) :
      Effect n c span
        (append { n.report (mismatch tag inner span) with stack := outer }
          [(frame.append (Frame.collapse span.start inner)).close c.source span])

theorem report_nil (n : Nesting) : n.report [] = n := by
  simp [report]

theorem report_report (n : Nesting) (problems others : List (Located Problem)) :
    (n.report problems).report others = n.report (problems ++ others) := by
  simp [report, appendList_appendList]

theorem report_mismatch (n : Nesting) (tag : Text) (inner : List Frame) (span : Span) :
    n.report (mismatch tag inner span) =
      if (Frame.needed inner).isEmpty then n
      else n.report [⟨.mismatchedNesting tag (Frame.needed inner), span⟩] := by
  unfold mismatch
  split
  · exact n.report_nil
  · rfl

theorem ofCode_mismatch {code : Code} (h : code ≠ .mismatchedNesting) (tag : Text)
    (inner : List Frame) (span : Span) : Problem.ofCode code (mismatch tag inner span) = [] := by
  apply Problem.ofCode_eq_nil
  intro q hq he
  unfold mismatch at hq
  split at hq
  · cases hq
  · obtain rfl := List.mem_singleton.mp hq
    exact h he.symm

theorem step_effect (n : Nesting) (c : Construct) (span : Span) :
    Effect (n.report (c.faults span.start)) c span (n.step ⟨c, span⟩) := by
  cases c with
  | text content =>
    simp only [Construct.faults, report_nil]
    exact .node rfl (by simp [Node.pieces, Construct.source]) rfl (by simp [Node.element?])
      (by simp [Node.element?])
  | expression body =>
    simp only [Construct.faults, report_nil]
    exact .node rfl (by simp [Node.pieces, Construct.source]) rfl (by simp [Node.element?])
      (by simp [Node.element?])
  | comment opening content closing =>
    simp only [Construct.faults, report_nil]
    exact .node rfl (by simp [Node.pieces, Construct.source]) rfl (by simp [Node.element?])
      (by simp [Node.element?])
  | openTag name parts gap slash =>
    by_cases h : (slash || isVoid (canonicalName name)) = true
    · simp only [step, openTag, openElement, h, if_true]
      refine .node (by simp [Construct.event?, h]) ?_ rfl ?_ ?_
      · simp [Node.pieces, Frame.element, Element.closeSpan?]
      · intro e he
        cases he
        rfl
      · intro e he
        cases he
        exact ⟨name, parts, gap, slash, rfl, rfl, rfl, rfl⟩
    · simp only [step, openTag, openElement, h]
      exact .opened (by simp [Construct.event?, h]) rfl rfl rfl
        ⟨name, parts, gap, slash, rfl, rfl, rfl, rfl⟩
  | closeTag name strays gap =>
    simp only [step, closeTag, closeElement]
    split
    · exact .dropped rfl (by assumption)
    · rename_i inner frame outer hs
      have he : Effect _ (.closeTag name strays gap) span _ := .closed rfl hs
      rw [report_mismatch] at he
      exact he

/-- A construct reports what is wrong inside it and, apart from a close tag without its element,
nothing else. -/
theorem reported_step {code : Code} (hstray : code ≠ .unexpectedClosingTag)
    (hnest : code ≠ .mismatchedNesting) (n : Nesting) (c : Construct) (span : Span) :
    (n.step ⟨c, span⟩).reported code =
      n.reported code ++ Problem.ofCode code (c.faults span.start) := by
  have he := n.step_effect c span
  generalize n.step _ = m at he ⊢
  cases he with
  | node | opened => simp
  | dropped => simp [Problem.ofCode, Problem.code, hstray.symm]
  | closed => simp [ofCode_mismatch hnest]

theorem reported_ofConstructs {code : Code} (h : code.isFinal = true) (cs : List Construct) :
    (ofConstructs cs).reported code = [] := by
  refine ofConstructs_induction (P := fun _ n => n.reported code = []) rfl ?_ cs
  intro cs n c hn
  have hstray : code ≠ .unexpectedClosingTag := by
    rintro rfl
    cases h
  have hnest : code ≠ .mismatchedNesting := by
    rintro rfl
    cases h
  rw [reported_step hstray hnest, hn, List.nil_append]
  apply Problem.ofCode_eq_nil
  rintro q hq rfl
  rcases c.code_of_mem_faults hq with hc | hc <;> simp [hc, Code.isFinal] at h

/-- An ending is never a problem of nesting. -/
theorem ofCode_endingProblems {code : Code} (h : code.isStructural = true) (p : Position)
    (e : Ending) : Problem.ofCode code (endingProblems p e) = [] := by
  apply Problem.ofCode_eq_nil
  intro q hq he
  subst he
  cases e with
  | clean => simp [endingProblems] at hq
  | openTag name parts text =>
    obtain hq | rfl := by simpa [endingProblems] using hq
    · simp [code_of_mem_tagProblems hq, Code.isStructural] at h
    · cases h
  | closeTag name strays text =>
    obtain hq | rfl := by simpa [endingProblems] using hq
    · simp [code_of_mem_closeTagProblems hq, Code.isStructural] at h
    · cases h
  | expression text =>
    obtain rfl := by simpa [endingProblems] using hq
    cases h
  | comment opening text =>
    obtain rfl := by simpa [endingProblems] using hq
    cases h

/-- An ending is text and no element. -/
theorem element?_of_mem_endingNodes {p : Position} {e : Ending} {node : Node}
    (h : node ∈ Node.walk (endingNodes p e)) : node.element? = none := by
  cases e with
  | clean => simp [endingNodes] at h
  | _ =>
    obtain rfl : node = .text _ _ := by simpa [endingNodes, Node.walk_cons, Node.children] using h
    rfl

@[simp] theorem problems_append (n : Nesting) (nodes : List Node) :
    (n.append nodes).problems = n.problems := by
  unfold append
  split <;> rfl

theorem append_report (n : Nesting) (problems : List (Located Problem)) (nodes : List Node) :
    (n.report problems).append nodes = (n.append nodes).report problems := by
  cases h : n.stack <;> simp [append, report, h]

/-- New nodes change the body of an open element and neither its tag nor its place. -/
theorem openProblems_append (n : Nesting) (nodes : List Node) :
    openProblems (n.append nodes).stack = openProblems n.stack := by
  cases h : n.stack with
  | nil => simp [append, h]
  | cons f fs => by_cases ho : closesOptionally f.tag = true <;>
      simp [append, h, openProblems, Frame.append, ho]

/-- The end of a template closes what is open after the ending has become text. -/
theorem finish_eq (n : Nesting) (p : Position) (e : Ending) :
    n.finish p e =
      { stack := []
        roots := (n.append (endingNodes p e)).roots ++
          Frame.collapse (p.advance e.source) (n.append (endingNodes p e)).stack
        problems := n.problems ++ endingProblems p e ++ openProblems n.stack } := by
  simp only [finish, closeAll, append_report, ← openProblems_append n (endingNodes p e)]
  simp [report]

theorem code_of_mem_openProblems {frames : List Frame} {q : Located Problem}
    (h : q ∈ openProblems frames) : q.value.code = .unterminatedElement := by
  obtain ⟨f, _, rfl⟩ := List.mem_map.mp h
  rfl

theorem ofCode_openProblems {code : Code} (h : code ≠ .unterminatedElement) (frames : List Frame) :
    Problem.ofCode code (openProblems frames) = [] := by
  apply Problem.ofCode_eq_nil
  intro q hq
  rw [code_of_mem_openProblems hq]
  exact h.symm

/-- The end of a template is no problem of nesting but for the elements that are still open. -/
theorem reported_finish {code : Code} (h : code.isStructural = true) (n : Nesting) (p : Position)
    (e : Ending) : (n.finish p e).reported code =
      n.reported code ++ Problem.ofCode code (openProblems n.stack) := by
  simp [finish_eq, reported, ofCode_endingProblems h]

end Nesting

end StoreMarkup
