import StoreMarkup.Proofs.Nesting

/-! Changes of a tree that leave its shape: what is done node by node may be done before or after
any step that builds the tree. -/
namespace StoreMarkup

/-- The kinds of problems that come from how elements are nested, and not from a construct. -/
def nestingCodes : List Code := [.unexpectedClosingTag, .mismatchedNesting, .unterminatedElement]

/-- A change of nodes, open elements and problems that keeps the tags of elements and what is inside
them. -/
structure Relabeling where
  move : Position → Position
  span : Span → Span
  /-- How a close tag is written afterwards. -/
  closeText : Text → Text
  node : Node → Node
  frame : Frame → Frame
  problem : Located Problem → Located Problem
  start_span (s : Span) : (span s).start = move s.start
  tag_frame (f : Frame) : (frame f).tag = f.tag
  openSpan_frame (f : Frame) : (frame f).openSpan = span f.openSpan
  frame_append (f : Frame) (nodes : List Node) :
    frame (f.append nodes) = (frame f).append (nodes.map node)
  node_close (f : Frame) (text : Text) (s : Span) :
    node (f.close text s) = (frame f).close (closeText text) (span s)
  node_selfClosed (f : Frame) : node (.element (f.element .selfClosed) []) =
    .element ((frame f).element .selfClosed) []
  map_closeImplicitly (f : Frame) (p : Position) :
    (f.closeImplicitly p).map node = (frame f).closeImplicitly (move p)
  problem_of_mem (q : Problem) (s : Span) : q.code ∈ nestingCodes → problem ⟨q, s⟩ = ⟨q, span s⟩

namespace Relabeling

theorem map_append_list {α β : Type} (f : α → β) (xs : Array α) (ys : List α) :
    (xs ++ ys).map f = xs.map f ++ ys.map f := by
  apply Array.ext'
  simp

variable (r : Relabeling)

/-- The tree under construction after the change. -/
def nesting (n : Nesting) : Nesting :=
  { stack := n.stack.map r.frame
    roots := n.roots.map r.node
    problems := n.problems.map r.problem }

theorem map_collapse (p : Position) (frames : List Frame) :
    (Frame.collapse p frames).map r.node = Frame.collapse (r.move p) (frames.map r.frame) := by
  induction frames using List.reverseRecOn with
  | nil => rfl
  | append_singleton frames f ih =>
    rw [Frame.collapse_concat, r.map_closeImplicitly, r.frame_append, ih, List.map_append,
      List.map_singleton, Frame.collapse_concat]

theorem splitFrames?_map (tag : Text) (stack : List Frame) :
    splitFrames? tag (stack.map r.frame) = (splitFrames? tag stack).map fun found =>
      (found.1.map r.frame, r.frame found.2.1, found.2.2.map r.frame) := by
  induction stack with
  | nil => rfl
  | cons f fs ih =>
    by_cases h : f.tag = tag
    · simp [splitFrames?, r.tag_frame, h]
    · simp only [List.map_cons, splitFrames?, r.tag_frame, h, if_false, ih, Option.map_map]
      rfl

theorem map_openProblems (frames : List Frame) :
    Nesting.openProblems (frames.map r.frame) = (Nesting.openProblems frames).map r.problem := by
  have hopen : ∀ f : Frame, r.problem ⟨.unterminatedElement f.tag, f.openSpan⟩ =
      ⟨.unterminatedElement f.tag, r.span f.openSpan⟩ := by
    intro f
    exact r.problem_of_mem _ _ (by simp [nestingCodes, Problem.code])
  simp [Nesting.openProblems, List.filter_map, Function.comp_def, r.tag_frame,
    r.openSpan_frame, hopen]

variable (n : Nesting)

theorem nesting_append (nodes : List Node) :
    r.nesting (n.append nodes) = (r.nesting n).append (nodes.map r.node) := by
  cases h : n.stack with
  | nil => simp [nesting, Nesting.append, h, map_append_list]
  | cons f fs => simp [nesting, Nesting.append, h, r.frame_append]

theorem nesting_report (problems : List (Located Problem)) :
    r.nesting (n.report problems) = (r.nesting n).report (problems.map r.problem) := by
  simp [nesting, Nesting.report, map_append_list]

theorem nesting_openElement (f : Frame) (slash : Bool) :
    r.nesting (n.openElement f slash) = (r.nesting n).openElement (r.frame f) slash := by
  simp only [Nesting.openElement, r.tag_frame]
  split
  · rw [nesting_append, List.map_singleton, r.node_selfClosed]
  · rfl

theorem nesting_closeElement (tag text : Text) (s : Span) :
    r.nesting (n.closeElement tag text s) =
      (r.nesting n).closeElement tag (r.closeText text) (r.span s) := by
  have hstack : (r.nesting n).stack = n.stack.map r.frame := rfl
  rw [Nesting.closeElement, Nesting.closeElement, hstack, splitFrames?_map]
  cases splitFrames? tag n.stack with
  | none =>
    have hstray := r.problem_of_mem (.unexpectedClosingTag tag) s
      (by simp [nestingCodes, Problem.code])
    simp only [Option.map_none]
    rw [nesting_report, List.map_singleton, hstray]
  | some found =>
    obtain ⟨inner, f, outer⟩ := found
    have htags : (inner.map r.frame).map Frame.tag = inner.map Frame.tag := by
      simp [r.tag_frame]
    have hcollapse := r.map_collapse s.start inner
    rw [← r.start_span] at hcollapse
    simp only [Option.map_some, htags]
    split
    · rw [nesting_append, List.map_singleton, r.node_close, r.frame_append, hcollapse]
      rfl
    · have hcrossed := fun skipped =>
        r.problem_of_mem (.mismatchedNesting tag skipped) s (by simp [nestingCodes, Problem.code])
      rw [nesting_append, List.map_singleton, r.node_close, r.frame_append, hcollapse]
      simp [nesting, Nesting.report, hcrossed]

theorem nesting_closeAll (stop : Position) :
    r.nesting (n.closeAll stop) = (r.nesting n).closeAll (r.move stop) := by
  simp [Nesting.closeAll, nesting, Nesting.report, map_append_list, map_openProblems, map_collapse]

end Relabeling

end StoreMarkup
