import StoreMarkup.Proofs.Layout
import StoreMarkup.Proofs.Spans

/-! What constructs and endings report: it depends on the open elements alone, and it stands inside
of them. -/
namespace StoreMarkup

namespace Nesting

variable (n : Nesting)

/-- Whether a construct is a close tag that ends no open element. -/
def drops (c : Construct) : Bool :=
  match c.event? with
  | some (.closed tag) => (splitFrames? tag n.stack).isNone
  | _ => false

/-- What is reported on a close tag as a whole. -/
def verdict (tag : Text) (span : Span) : List (Located Problem) :=
  match splitFrames? tag n.stack with
  | none => [⟨.unexpectedClosingTag tag, span⟩]
  | some (inner, _, _) => mismatch tag inner span

/-- What is reported with a construct. -/
def news (c : Construct) (span : Span) : List (Located Problem) :=
  c.faults span.start ++
    match c.event? with
    | some (.closed tag) => n.verdict tag span
    | _ => []

/-- The tree under construction with other problems. -/
def withProblems (problems : List (Located Problem)) : Nesting :=
  { n with problems := problems.toArray }

theorem withProblems_append (problems : List (Located Problem)) (nodes : List Node) :
    (n.withProblems problems).append nodes = (n.append nodes).withProblems problems := by
  cases h : n.stack <;> simp [withProblems, append, h]

theorem withProblems_report (problems others : List (Located Problem)) :
    (n.withProblems problems).report others = n.withProblems (problems ++ others) := by
  simp [withProblems, report]

theorem report_withProblems (problems others : List (Located Problem)) :
    (n.report others).withProblems problems = n.withProblems problems := rfl

theorem closeElement_of_none {tag : Text} (h : splitFrames? tag n.stack = none) (text : Text)
    (span : Span) :
    n.closeElement tag text span = n.report [⟨.unexpectedClosingTag tag, span⟩] := by
  rw [closeElement, h]

theorem closeElement_of_some {tag : Text} {inner outer : List Frame} {f : Frame}
    (h : splitFrames? tag n.stack = some (inner, f, outer)) (text : Text) (span : Span) :
    n.closeElement tag text span = append { n.report (mismatch tag inner span) with stack := outer }
      [(f.append (Frame.collapse span.start inner)).close text span] := by
  rw [report_mismatch, closeElement, h]
  rfl

theorem withProblems_closeElement (problems : List (Located Problem)) (tag text : Text)
    (span : Span) :
    (n.withProblems problems).closeElement tag text span =
      (n.closeElement tag text span).withProblems (problems ++ n.verdict tag span) := by
  cases h : splitFrames? tag n.stack with
  | none =>
    rw [closeElement_of_none n h, closeElement_of_none (n.withProblems problems) h, verdict, h]
    exact n.withProblems_report problems _
  | some found =>
    obtain ⟨inner, f, outer⟩ := found
    have happend := append_report { n with stack := outer } (mismatch tag inner span)
      [(f.append (Frame.collapse span.start inner)).close text span]
    rw [closeElement_of_some n h, closeElement_of_some (n.withProblems problems) h, verdict, h,
      withProblems_report]
    refine (withProblems_append { n with stack := outer } _ _).trans ?_
    exact (congrArg (withProblems · _) happend).symm

/-- What a construct reports depends on the open elements and not on earlier reports. -/
theorem withProblems_step (problems : List (Located Problem)) (c : Construct) (span : Span) :
    (n.withProblems problems).step ⟨c, span⟩ =
      (n.step ⟨c, span⟩).withProblems (problems ++ n.news c span) := by
  cases c with
  | openTag name parts gap slash =>
    have hnews : n.news (.openTag name parts gap slash) span =
        tagProblems span.start name parts := by
      by_cases h : (slash || isVoid (canonicalName name)) = true <;>
        simp [news, Construct.faults, Construct.event?, h]
    simp only [step, openTag, withProblems_report, hnews, openElement]
    split
    · rw [withProblems_append, append_report, report_withProblems]
    · rfl
  | closeTag name strays gap =>
    have hverdict : (n.report (closeTagProblems span.start name strays)).verdict
        (canonicalName name) span =
        n.verdict (canonicalName name) span := rfl
    have hclose := withProblems_closeElement (n.report (closeTagProblems span.start name strays))
      (problems ++ closeTagProblems span.start name strays) (canonicalName name)
      (Construct.source (.closeTag name strays gap)) span
    simp only [step, closeTag, withProblems_report, news, Construct.faults, Construct.event?]
    rw [← List.append_assoc, ← hverdict, ← hclose, report_withProblems]
  | _ => simp [step, news, Construct.faults, Construct.event?, withProblems_append]

theorem withProblems_self : n.withProblems n.problems.toList = n := by
  simp [withProblems]

theorem problems_step (c : Construct) (span : Span) :
    (n.step ⟨c, span⟩).problems.toList = n.problems.toList ++ n.news c span := by
  have h := n.withProblems_step n.problems.toList c span
  rw [withProblems_self] at h
  rw [h]
  simp [withProblems]

/-- The end of a template reports what it would report without the others. -/
theorem withProblems_finish (problems : List (Located Problem)) (p : Position) (e : Ending) :
    (n.withProblems problems).finish p e = (n.finish p e).withProblems
      (problems ++ (endingProblems p e ++ openProblems n.stack)) := by
  rw [finish_eq, finish_eq, withProblems_append]
  simp [withProblems]

end Nesting

/-- What is wrong inside a construct stands behind its first character and before its last. -/
theorem Construct.exists_of_mem_faults {c : Construct} {before : Text} {q : Located Problem}
    (h : q ∈ c.faults (Position.start.advance before)) :
    ∃ u v w, c.source = u ++ v ++ w ∧ u ≠ [] ∧ w ≠ [] ∧
      q.span = .covering (Position.start.advance (before ++ u)) v := by
  cases c with
  | openTag name parts gap slash =>
    obtain ⟨part, hpart, hq⟩ := List.mem_filterMap.mp h
    rw [← Position.advance_append] at hpart
    obtain ⟨left, right, hsource, hspan⟩ := mem_locate hpart
    cases hvalue : part.value with
    | «attribute» gap name value => simp [hvalue, TagPart.problem?] at hq
    | stray s fault =>
      simp only [hvalue, TagPart.problem?, Option.some.injEq] at hq
      subst hq
      refine ⟨'<' :: name ++ left ++ s.gap, s.text, right ++ gap ++ tagEnd slash,
        ?_, by simp, ?_, ?_⟩
      · simp [source, hsource, hvalue, TagPart.source, Stray.source]
      · cases slash <;> simp [tagEnd]
      · simp only [hspan, Span.covering, ← Position.advance_append, List.append_assoc,
          List.cons_append]
  | closeTag name strays gap =>
    obtain ⟨stray, hstray, rfl⟩ := List.mem_map.mp h
    rw [← Position.advance_append] at hstray
    obtain ⟨left, right, hsource, hspan⟩ := mem_locate hstray
    refine ⟨'<' :: '/' :: name ++ left ++ stray.value.gap, stray.value.text,
      right ++ gap ++ ['>'], ?_, by simp, by simp, ?_⟩
    · simp [source, hsource, Stray.source]
    · simp only [Stray.problem, hspan, Span.covering, ← Position.advance_append, List.append_assoc,
        List.cons_append]
  | _ => cases h

theorem Construct.within_of_mem_faults {c : Construct} {before : Text} {q : Located Problem}
    (h : q ∈ c.faults (Position.start.advance before)) :
    before.length < q.span.start.offset ∧ q.span.start.offset ≤ q.span.stop.offset ∧
      q.span.stop.offset < before.length + c.source.length := by
  obtain ⟨u, v, w, hsource, hu, hw, hspan⟩ := exists_of_mem_faults h
  have hupos := List.length_pos_iff.mpr hu
  have hwpos := List.length_pos_iff.mpr hw
  simp only [hspan, hsource, Span.covering, Position.offset_advance, List.length_append,
    Position.start]
  omega

namespace Nesting

variable {n : Nesting} {c : Construct} {before : Text} {q : Located Problem}

theorem exists_of_drops (h : n.drops c = true) : ∃ name strays gap, c = .closeTag name strays gap ∧
    splitFrames? (canonicalName name) n.stack = none := by
  cases c with
  | closeTag name strays gap =>
    exact ⟨name, strays, gap, rfl, by simpa [drops, Construct.event?] using h⟩
  | openTag name parts gap slash =>
    unfold drops Construct.event? at h
    split at h <;> simp_all
  | _ => cases h

/-- A close tag as a whole is reported as one that ends no element or one that ends others, too. -/
theorem of_mem_verdict {tag : Text} {span : Span} (h : q ∈ n.verdict tag span) : q.span = span ∧
    (q.value.code = .unexpectedClosingTag ∧ splitFrames? tag n.stack = none ∨
      q.value.code = .mismatchedNesting ∧ splitFrames? tag n.stack ≠ none) := by
  unfold verdict at h
  split at h
  · rename_i hnone
    rw [List.mem_singleton.mp h]
    exact ⟨rfl, Or.inl ⟨rfl, hnone⟩⟩
  · rename_i hsome
    unfold mismatch at h
    split at h
    · cases h
    · rw [List.mem_singleton.mp h, hsome]
      exact ⟨rfl, Or.inr ⟨rfl, Option.some_ne_none _⟩⟩

/-- Every report is about something inside the construct, or about a close tag as a whole. -/
theorem of_mem_news {span : Span} (h : q ∈ n.news c span) :
    q ∈ c.faults span.start ∨ q.span = span ∧
    (q.value.code = .unexpectedClosingTag ∧ n.drops c = true ∨
      q.value.code = .mismatchedNesting ∧ n.drops c = false) := by
  rcases List.mem_append.mp h with h | h
  · exact Or.inl h
  · right
    split at h
    · rename_i tag hevent
      obtain ⟨hspan, hcode⟩ := of_mem_verdict h
      refine ⟨hspan, ?_⟩
      simp only [drops, hevent, Option.isNone_iff_eq_none, Option.isNone_eq_false_iff,
        Option.isSome_iff_ne_none]
      exact hcode
    · cases h

/-- What is reported with a construct is inside of it, and behind its start if it is about something
inside. -/
theorem within_of_mem_news
    (h : q ∈ n.news c (.covering (Position.start.advance before) c.source)) (hne : c.source ≠ []) :
    before.length ≤ q.span.start.offset ∧ q.span.start.offset < before.length + c.source.length ∧
      q.span.start.offset ≤ q.span.stop.offset ∧
      q.span.stop.offset ≤ before.length + c.source.length ∧
      (q.value.code = .malformedClosingTag → before.length < q.span.start.offset) := by
  have hpos := List.length_pos_iff.mpr hne
  rcases of_mem_news h with h | ⟨hspan, hcode⟩
  · have hwithin := Construct.within_of_mem_faults h
    omega
  · have hother : q.value.code ≠ .malformedClosingTag := by
      rcases hcode with ⟨hcode, -⟩ | ⟨hcode, -⟩ <;> simp [hcode]
    simp only [hspan, Span.covering, Position.offset_advance, Position.start]
    exact ⟨by omega, by omega, by omega, by omega, fun hcode => (hother hcode).elim⟩

/-- What is wrong with an ending starts in it, and behind its start if it is about something
inside. -/
theorem within_of_mem_endingProblems {e : Ending}
    (h : q ∈ endingProblems (Position.start.advance before) e) :
    before.length ≤ q.span.start.offset ∧ q.span.start.offset ≤ q.span.stop.offset ∧
      (q.value.code = .malformedClosingTag → before.length < q.span.start.offset) := by
  have hwhole : ∀ p t, p = Position.start.advance before → q.span = .covering p t →
      q.value.code ≠ .malformedClosingTag → before.length ≤ q.span.start.offset ∧
        q.span.start.offset ≤ q.span.stop.offset ∧
        (q.value.code = .malformedClosingTag → before.length < q.span.start.offset) := by
    rintro p t rfl hspan hcode
    refine ⟨?_, ?_, fun h => (hcode h).elim⟩ <;> simp [hspan, Span.covering, Position.start]
  have hinside : ∀ c : Construct, q ∈ c.faults (Position.start.advance before) →
      before.length ≤ q.span.start.offset ∧ q.span.start.offset ≤ q.span.stop.offset ∧
        (q.value.code = .malformedClosingTag → before.length < q.span.start.offset) := by
    intro c hq
    have hwithin := Construct.within_of_mem_faults hq
    omega
  cases e with
  | clean => cases h
  | openTag name parts text =>
    rcases List.mem_append.mp h with h | h
    · exact hinside (.openTag name parts [] false) h
    · obtain rfl := List.mem_singleton.mp h
      exact hwhole _ _ rfl rfl (by simp [Problem.code])
  | closeTag name strays text =>
    rcases List.mem_append.mp h with h | h
    · exact hinside (.closeTag name strays []) h
    · obtain rfl := List.mem_singleton.mp h
      exact hwhole _ _ rfl rfl (by simp [Problem.code])
  | expression text =>
    obtain rfl := List.mem_singleton.mp h
    exact hwhole _ _ rfl rfl (by simp [Problem.code])
  | comment opening text =>
    obtain rfl := List.mem_singleton.mp h
    exact hwhole _ _ rfl rfl (by simp [Problem.code])

theorem strays_step (n : Nesting) (c : Construct) (span : Span) :
    (n.step ⟨c, span⟩).strays = n.strays ++ if n.drops c then [span] else [] := by
  have he := n.step_effect c span
  have hfaults : Problem.ofCode .unexpectedClosingTag (c.faults span.start) = [] :=
    c.ofCode_faults rfl span.start
  generalize n.step _ = m at he ⊢
  cases he with
  | node event => simp [strays, drops, event, hfaults]
  | opened event => simp [strays, drops, event, hfaults]
  | @dropped tag event absent =>
    have habsent : splitFrames? tag n.stack = none := absent
    have hself : Problem.ofCode .unexpectedClosingTag [⟨.unexpectedClosingTag tag, span⟩] =
        [⟨.unexpectedClosingTag tag, span⟩] := Problem.ofCode_eq_self (by simp [Problem.code])
    simp [strays, drops, event, hfaults, habsent, hself]
  | @closed tag inner outer frame event found =>
    have hfound : splitFrames? tag n.stack = some (inner, frame, outer) := found
    simp [strays, drops, event, hfaults, hfound, ofCode_mismatch]

theorem step_of_drops (h : n.drops c = true) (span : Span) :
    n.step ⟨c, span⟩ = n.report (n.news c span) := by
  obtain ⟨name, strays, gap, rfl, hnone⟩ := exists_of_drops h
  have hclose := closeElement_of_none (n.report (closeTagProblems span.start name strays)) hnone
    (Construct.source (.closeTag name strays gap)) span
  simp only [step, closeTag]
  rw [hclose, report_report]
  simp [news, Construct.faults, Construct.event?, verdict, hnone]

/-- An element that is open after a construct was open before, or the construct is its open tag. -/
theorem openSpan_step {span : Span} {f : Frame} (h : f ∈ (n.step ⟨c, span⟩).stack) :
    f.openSpan = span ∧ c.event? ≠ none ∨ ∃ g ∈ n.stack, g.openSpan = f.openSpan := by
  have he := n.step_effect c span
  have happend : ∀ (m : Nesting) (nodes : List Node), ∀ f ∈ (m.append nodes).stack,
      ∃ g ∈ m.stack, g.openSpan = f.openSpan := by
    intro m nodes f hf
    unfold append at hf
    split at hf
    · exact ⟨f, hf, rfl⟩
    · rename_i top rest hstack
      rw [hstack]
      rcases List.mem_cons.mp hf with rfl | hf
      · exact ⟨top, List.mem_cons_self, rfl⟩
      · exact ⟨f, List.mem_cons_of_mem top hf, rfl⟩
  generalize n.step _ = m at he h
  cases he with
  | node => exact Or.inr (happend (n.report _) _ f h)
  | opened event text place =>
    rcases List.mem_cons.mp h with rfl | h
    · exact Or.inl ⟨place, by simp [event]⟩
    · exact Or.inr ⟨f, h, rfl⟩
  | dropped => exact Or.inr ⟨f, h, rfl⟩
  | closed event found =>
    obtain ⟨g, hg, hspan⟩ := happend _ _ f h
    refine Or.inr ⟨g, ?_, hspan⟩
    have hstack := (splitFrames?_eq_some found).1
    have hmem : g ∈ (n.report (c.faults span.start)).stack := by
      rw [hstack]
      exact List.mem_append_right _ (List.mem_cons_of_mem _ hg)
    exact hmem

theorem strays_mono (cs ds : List Construct) : ∀ r ∈ (ofConstructs cs).strays,
    r ∈ (ofConstructs (cs ++ ds)).strays := by
  intro r hr
  induction ds using List.reverseRecOn with
  | nil => simpa using hr
  | append_singleton ds d ih =>
    rw [← List.append_assoc, ofConstructs_concat, strays_step]
    exact List.mem_append_left _ ih

theorem strays_ofReading (r : Reading) :
    (ofReading r).strays = (ofConstructs r.constructs).strays := by
  rw [strays, ofReading_eq, reported_finish rfl, ofCode_openProblems (by decide),
    List.append_nil, strays]

theorem problems_ofReading (r : Reading) : (ofReading r).problems.toList =
    (ofConstructs r.constructs).problems.toList ++
      (endingProblems r.endingStart r.ending ++
        openProblems (ofConstructs r.constructs).stack) := by
  simp [ofReading_eq, finish_eq]

end Nesting

end StoreMarkup
