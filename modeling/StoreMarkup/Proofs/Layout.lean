import StoreMarkup.Proofs.Nesting

/-! The pieces of a tree lie in the source one after the other, with nothing but dropped close tags
between them. -/
namespace StoreMarkup

/-- A text that is cut, from its start on, into pieces that are kept and regions that are dropped.
-/
inductive Laid : Text → List (Located Text) → List Span → Prop
  | start : Laid [] [] []
  | keep {s : Text} {ps : List (Located Text)} {ds : List Span} (t : Text) : Laid s ps ds →
      Laid (s ++ t) (ps ++ [⟨t, .covering (Position.start.advance s) t⟩]) ds
  | drop {s : Text} {ps : List (Located Text)} {ds : List Span} (t : Text) : Laid s ps ds →
      Laid (s ++ t) ps (ds ++ [.covering (Position.start.advance s) t])

/-- Close tags that are missing take no room. -/
theorem Laid.missing {s : Text} {ps : List (Located Text)} {ds : List Span} (h : Laid s ps ds)
    (frames : List Frame) :
    Laid s (ps ++ frames.flatMap (Frame.missing (Position.start.advance s))) ds := by
  induction frames generalizing ps with
  | nil => simpa using h
  | cons f fs ih =>
    have hf : Laid s (ps ++ f.missing (Position.start.advance s)) ds := by
      unfold Frame.missing
      split
      · simpa using h
      · simpa [Span.covering, Span.point] using h.keep []
    simpa using ih hf

namespace Nesting

/-- The finished nodes and the open tags in source order. -/
def pieces (n : Nesting) : List (Located Text) :=
  Node.piecesAll n.roots.toList ++ n.stack.reverse.flatMap Frame.pieces

@[simp] theorem pieces_report (n : Nesting) (problems : List (Located Problem)) :
    (n.report problems).pieces = n.pieces := rfl

theorem pieces_push (n : Nesting) (frame : Frame) :
    pieces { n with stack := frame :: n.stack } = n.pieces ++ frame.pieces := by
  simp [pieces]

theorem pieces_append (n : Nesting) (nodes : List Node) :
    (n.append nodes).pieces = n.pieces ++ Node.piecesAll nodes := by
  unfold append
  split
  · rename_i h
    simp [pieces, h]
  · rename_i f fs h
    simp [pieces, h, Frame.pieces, Frame.append]

theorem pieces_close {n : Nesting} {inner outer : List Frame} {frame : Frame}
    (h : n.stack = inner ++ frame :: outer) (text : Text) (span : Span) :
    (append { n with stack := outer }
      [(frame.append (Frame.collapse span.start inner)).close text span]).pieces =
        n.pieces ++ inner.flatMap (Frame.missing span.start) ++ [⟨text, span⟩] := by
  rw [pieces_append]
  simp [pieces, h, Frame.close, Frame.append, Frame.element, Node.pieces, Frame.pieces,
    Frame.piecesAll_collapse, Element.closeSpan?, Element.closeText]

/-- The regions of the close tags that end no element. -/
def strays (n : Nesting) : List Span := (n.reported .unexpectedClosingTag).map Located.span

/-- A construct is either kept as the next piece or dropped and reported. -/
theorem laid_step {s : Text} {n : Nesting} (h : Laid s n.pieces n.strays) (c : Construct) :
    Laid (s ++ c.source)
      (n.step ⟨c, .covering (Position.start.advance s) c.source⟩).pieces
      (n.step ⟨c, .covering (Position.start.advance s) c.source⟩).strays := by
  have he := n.step_effect c (.covering (Position.start.advance s) c.source)
  have hf : Problem.ofCode .unexpectedClosingTag (c.faults (Position.start.advance s)) = [] :=
    c.ofCode_faults rfl _
  generalize n.step _ = m at he ⊢
  cases he with
  | node event pieces children closing =>
    rw [pieces_append]
    simpa [strays, Span.covering, hf, pieces] using h.keep c.source
  | opened event text place children =>
    rw [pieces_push]
    simpa [strays, Span.covering, hf, Frame.pieces, text, place, children] using h.keep c.source
  | @dropped tag event absent =>
    have hs : ∀ span, Problem.ofCode .unexpectedClosingTag
        [⟨.unexpectedClosingTag tag, span⟩] = [⟨.unexpectedClosingTag tag, span⟩] :=
      fun span => Problem.ofCode_eq_self (by simp [Problem.code])
    simpa [strays, Span.covering, hf, hs] using h.drop c.source
  | @closed tag inner outer frame event found =>
    obtain ⟨hs, _⟩ := splitFrames?_eq_some found
    rw [pieces_close (by exact hs)]
    simpa [strays, Span.covering, hf, ofCode_mismatch] using (h.missing inner).keep c.source

/-- Everything that was read is in the tree under construction or reported as dropped. -/
theorem laid_ofConstructs (cs : List Construct) :
    Laid (cs.flatMap Construct.source) (ofConstructs cs).pieces (ofConstructs cs).strays := by
  refine ofConstructs_induction (P := fun cs n =>
    Laid (cs.flatMap Construct.source) n.pieces n.strays) .start ?_ cs
  intro cs n c h
  simpa using laid_step h c

theorem piecesAll_endingNodes (p : Position) (e : Ending) :
    Node.piecesAll (endingNodes p e) = [] ∧ e.source = [] ∨
      Node.piecesAll (endingNodes p e) = [⟨e.source, .covering p e.source⟩] := by
  cases e with
  | clean => exact Or.inl (by simp [endingNodes, Ending.source])
  | _ => exact Or.inr (by simp [endingNodes, Node.pieces])

theorem pieces_finish (n : Nesting) (p : Position) (e : Ending) :
    (n.finish p e).pieces = n.pieces ++ Node.piecesAll (endingNodes p e) ++
      (n.append (endingNodes p e)).stack.flatMap (Frame.missing (p.advance e.source)) := by
  rw [← pieces_append, finish_eq]
  simp [pieces, Frame.piecesAll_collapse]

/-- The tree of a reading holds the whole template but for the close tags that were dropped. -/
theorem laid_ofReading (r : Reading) :
    Laid r.source (Node.piecesAll (ofReading r).roots.toList) (ofReading r).strays := by
  have h := laid_ofConstructs r.constructs
  have hroots : Node.piecesAll (ofReading r).roots.toList = (ofReading r).pieces := by
    simp [ofReading_eq, finish_eq, pieces]
  have hstrays : (ofReading r).strays = (ofConstructs r.constructs).strays := by
    rw [strays, ofReading_eq, reported_finish rfl, ofCode_openProblems (by decide), List.append_nil,
      strays]
  have hending : Laid r.source ((ofConstructs r.constructs).pieces ++
      Node.piecesAll (endingNodes r.endingStart r.ending)) (ofConstructs r.constructs).strays := by
    rcases piecesAll_endingNodes r.endingStart r.ending with ⟨hn, hs⟩ | hn
    · simpa [hn, hs, Reading.source] using h
    · rw [hn]
      exact h.keep r.ending.source
  rw [hroots, hstrays, ofReading_eq, pieces_finish, r.endingStart_advance]
  exact hending.missing _

end Nesting

end StoreMarkup
