import StoreMarkup.Proofs.Tiling

/-! Elements whose close tags are missing: each is reported, where it ends or with its open tag. -/
namespace StoreMarkup

namespace Element

/-- Whether the close tag is missing at an offset. -/
def recoveredAt (k : Nat) (e : Element) : Bool :=
  e.recovered && e.closeSpan?.any fun close => close.start.offset == k

/-- The offsets of the open tag, by where the element starts and how its open tag is written. -/
def openRegion (e : Element) : Nat × Nat :=
  (e.span.start.offset, e.span.start.offset + e.openText.length)

theorem recoveredAt_implied {e : Element} {p : Position} (h : e.closing = .implied p) (k : Nat) :
    e.recoveredAt k = (p.offset == k) := by
  simp [recoveredAt, recovered, closeSpan?, h, Span.point]

theorem recoveredAt_eq_false {e : Element} (h : e.recovered = false) (k : Nat) :
    e.recoveredAt k = false := by
  simp [recoveredAt, h]

end Element

namespace Node

/-- The elements of a forest, in document order, whose close tags are missing at an offset. -/
def recoveredAt (k : Nat) (nodes : List Node) : List Node :=
  (walk nodes).filter fun node => node.element?.any (Element.recoveredAt k)

/-- Whether a node is somewhere inside another one. -/
def Encloses (outer inner : Node) : Prop := inner ∈ walk outer.children

/-- The tags of the elements among some nodes. -/
def elementTags (nodes : List Node) : List Text := (nodes.filterMap element?).map Element.tag

variable {k : Nat}

@[simp] theorem recoveredAt_nil : recoveredAt k [] = [] := by
  simp [recoveredAt]

@[simp] theorem recoveredAt_append (xs ys : List Node) :
    recoveredAt k (xs ++ ys) = recoveredAt k xs ++ recoveredAt k ys := by
  simp [recoveredAt]

theorem recoveredAt_cons (node : Node) (rest : List Node) :
    recoveredAt k (node :: rest) =
      (if node.element?.any (Element.recoveredAt k) then [node] else []) ++
        recoveredAt k node.children ++ recoveredAt k rest := by
  by_cases h : node.element?.any (Element.recoveredAt k) = true <;>
    simp [recoveredAt, walk_cons, h]

theorem mem_recoveredAt {node : Node} {nodes : List Node} : node ∈ recoveredAt k nodes ↔
    node ∈ walk nodes ∧ ∃ e cs, node = element e cs ∧ e.recoveredAt k = true := by
  rw [recoveredAt, List.mem_filter]
  cases node <;> simp [element?]

theorem recoveredAt_cons_of_not_recovered {node : Node} {rest : List Node}
    (h : ∀ e, node.element? = some e → e.recovered = false) :
    recoveredAt k (node :: rest) = recoveredAt k node.children ++ recoveredAt k rest := by
  have hnode : node.element?.any (Element.recoveredAt k) = false := by
    cases he : node.element? with
    | none => rfl
    | some e => exact e.recoveredAt_eq_false (h e he) k
  simp [recoveredAt_cons, hnode]

theorem recoveredAt_endingNodes (p : Position) (e : Ending) :
    recoveredAt k (Nesting.endingNodes p e) = [] := by
  apply List.filter_eq_nil_iff.mpr
  intro node hnode
  simp [Nesting.element?_of_mem_endingNodes hnode]

end Node

namespace Frame

open Node

variable {k : Nat} {p : Position}

/-- An element that may not be left open is recovered around whatever is recovered inside it. -/
theorem recoveredAt_closeImplicitly (f : Frame) (nodes : List Node) :
    recoveredAt k ((f.append nodes).closeImplicitly p) =
      (if !closesOptionally f.tag && p.offset == k then
          [.element (f.element (.implied p)) (f.children.toList ++ nodes)]
        else []) ++ recoveredAt k f.children.toList ++ recoveredAt k nodes := by
  by_cases h : closesOptionally f.tag = true
  · have hself : (f.append nodes).closeImplicitly p =
        .element (f.element .selfClosed) [] :: (f.children.toList ++ nodes) := by
      simp [closeImplicitly, append, element, h]
    rw [hself, recoveredAt_cons_of_not_recovered]
    · simp [h, Node.children]
    · rintro e ⟨⟩
      rfl
  · have himplied : (f.append nodes).closeImplicitly p =
        [.element (f.element (.implied p)) (f.children.toList ++ nodes)] := by
      simp [closeImplicitly, append, element, h]
    have hat : (f.element (.implied p)).recoveredAt k = (p.offset == k) :=
      Element.recoveredAt_implied rfl k
    simp [himplied, recoveredAt_cons, element?, Node.children, hat, h]

/-- Closing frames implicitly at a point recovers nothing at another offset. -/
theorem recoveredAt_collapse_of_ne (h : p.offset ≠ k) (frames : List Frame) :
    recoveredAt k (collapse p frames) =
      recoveredAt k (frames.reverse.flatMap fun f => f.children.toList) := by
  induction frames using List.reverseRecOn with
  | nil => rfl
  | append_singleton frames f ih =>
    simp [collapse_concat, recoveredAt_closeImplicitly, h, ih]

/-- The frames that may not be left open, as elements that end at a point. -/
def recovered (p : Position) (frames : List Frame) : List Element :=
  (frames.filter fun f => !closesOptionally f.tag).map fun f => f.element (.implied p)

theorem map_tag_recovered (p : Position) (frames : List Frame) :
    (recovered p frames).map Element.tag = needed frames := by
  simp [recovered, needed, List.filter_map, Function.comp_def, element]

/-- Closing frames implicitly at a new point recovers those that may not be left open, each around
the one before. -/
theorem recoveredAt_collapse {frames : List Frame}
    (h : recoveredAt p.offset (frames.reverse.flatMap fun f => f.children.toList) = []) :
    (recoveredAt p.offset (collapse p frames)).filterMap element? = (recovered p frames).reverse ∧
      (recoveredAt p.offset (collapse p frames)).Pairwise Encloses := by
  induction frames using List.reverseRecOn with
  | nil => simp [collapse, recovered]
  | append_singleton frames f ih =>
    simp only [List.reverse_append, List.reverse_singleton, List.singleton_append,
      List.flatMap_cons, recoveredAt_append, List.append_eq_nil_iff] at h
    obtain ⟨hf, hframes⟩ := h
    obtain ⟨helements, hnested⟩ := ih hframes
    by_cases ho : closesOptionally f.tag = true
    · have hstep : recoveredAt p.offset (collapse p (frames ++ [f])) =
          recoveredAt p.offset (collapse p frames) := by
        simp [collapse_concat, recoveredAt_closeImplicitly, ho, hf]
      rw [hstep]
      exact ⟨by simp [helements, recovered, ho], hnested⟩
    · have hstep : recoveredAt p.offset (collapse p (frames ++ [f])) =
          .element (f.element (.implied p)) (f.children.toList ++ collapse p frames) ::
            recoveredAt p.offset (collapse p frames) := by
        simp [collapse_concat, recoveredAt_closeImplicitly, ho, hf]
      rw [hstep]
      refine ⟨by simp [helements, recovered, ho, element?], .cons ?_ hnested⟩
      intro inner hinner
      have hwalk : inner ∈ walk (collapse p frames) := (mem_recoveredAt.mp hinner).1
      simp [Encloses, Node.children, hwalk]

end Frame

theorem Construct.source_pos {c : Construct} {event : TagEvent} (h : c.event? = some event) :
    0 < c.source.length := by
  cases c with
  | openTag | closeTag => simp [source]
  | _ => cases h

namespace Nesting

open Node

/-- The close tags at an offset that were reported because they end other elements with their own.
-/
def mismatchesAt (k : Nat) (n : Nesting) : List (Located Problem) :=
  (n.reported .mismatchedNesting).filter fun q => q.span.start.offset = k

/-- All that is recovered at an offset is in one report, innermost first. -/
inductive Accounts : List Node → List (Located Problem) → Prop
  | nothing : Accounts [] []
  | mismatch {found : List Node} (tag : Text) (span : Span) (nonempty : found ≠ []) :
      Accounts found [⟨.mismatchedNesting tag (elementTags found).reverse, span⟩]

/-- What is recovered once some number of characters is read: nothing beyond them, and elsewhere
elements inside each other that are reported where they end. -/
structure Recovered (n : Nesting) (length : Nat) : Prop where
  behind : ∀ k, length ≤ k → recoveredAt k n.forest = []
  nested : ∀ k, (recoveredAt k n.forest).Pairwise Encloses
  accounted : ∀ k, Accounts (recoveredAt k n.forest) (n.mismatchesAt k)

theorem Accounts.eq_nil {reports : List (Located Problem)} (h : Accounts [] reports) :
    reports = [] := by
  cases h with
  | nothing => rfl
  | mismatch _ _ nonempty => exact (nonempty rfl).elim

namespace Recovered

variable {n m : Nesting} {length later : Nat}

theorem mismatchesAt_eq_nil (h : Recovered n length) {k : Nat} (hk : length ≤ k) :
    n.mismatchesAt k = [] := by
  have haccounted := h.accounted k
  rw [h.behind k hk] at haccounted
  exact haccounted.eq_nil

theorem congr (h : Recovered n length) (hle : length ≤ later)
    (hforest : ∀ k, recoveredAt k m.forest = recoveredAt k n.forest)
    (hreports : m.reported .mismatchedNesting = n.reported .mismatchedNesting) :
    Recovered m later where
  behind k hk := by
    rw [hforest]
    exact h.behind k (Nat.le_trans hle hk)
  nested k := by
    rw [hforest]
    exact h.nested k
  accounted k := by
    rw [hforest, mismatchesAt, hreports]
    exact h.accounted k

/-- New elements may be recovered where the reading stands, and it moves on. -/
theorem extend (h : Recovered n length) (hlt : length < later)
    (hforest : ∀ k, k ≠ length → recoveredAt k m.forest = recoveredAt k n.forest)
    (hreports : ∀ k, k ≠ length → m.mismatchesAt k = n.mismatchesAt k)
    (nested : (recoveredAt length m.forest).Pairwise Encloses)
    (accounted : Accounts (recoveredAt length m.forest) (m.mismatchesAt length)) :
    Recovered m later where
  behind k hk := by
    rw [hforest k (by omega)]
    exact h.behind k (by omega)
  nested k := by
    by_cases hhere : k = length
    · exact hhere ▸ nested
    · rw [hforest k hhere]
      exact h.nested k
  accounted k := by
    by_cases hhere : k = length
    · exact hhere ▸ accounted
    · rw [hforest k hhere, hreports k hhere]
      exact h.accounted k

end Recovered

/-- The report of a close tag accounts for the frames that are closed at its start. -/
theorem accounts_mismatch {k : Nat} {nodes : List Node} {inner : List Frame} {p : Position}
    (h : (recoveredAt k nodes).filterMap element? = (Frame.recovered p inner).reverse)
    (tag : Text) (span : Span) : Accounts (recoveredAt k nodes) (mismatch tag inner span) := by
  have htags : (elementTags (recoveredAt k nodes)).reverse = Frame.needed inner := by
    rw [elementTags, h, List.map_reverse, List.reverse_reverse, Frame.map_tag_recovered]
  cases hfound : recoveredAt k nodes with
  | nil =>
    rw [hfound] at htags
    simpa [mismatch, ← htags, elementTags] using Accounts.nothing
  | cons node found =>
    have hnode : node ∈ recoveredAt k nodes := by simp [hfound]
    obtain ⟨_, e, cs, rfl, _⟩ := mem_recoveredAt.mp hnode
    rw [hfound] at htags
    have hsome : Frame.needed inner ≠ [] := by
      simp [← htags, elementTags, element?]
    have haccounts : Accounts (element e cs :: found)
        [⟨.mismatchedNesting tag (Frame.needed inner), span⟩] := by
      rw [← htags]
      exact .mismatch tag span (by simp)
    simpa [mismatch, hsome] using haccounts

theorem recoveredAt_close (k : Nat) (n : Nesting) (problems : List (Located Problem))
    (inner outer : List Frame) (frame : Frame) (text : Text) (span : Span) :
    recoveredAt k (append { n.report problems with stack := outer }
      [(frame.append (Frame.collapse span.start inner)).close text span]).forest =
        recoveredAt k (forest { n with stack := outer }) ++
          (recoveredAt k frame.children.toList ++
            recoveredAt k (Frame.collapse span.start inner)) := by
  rw [forest_append, recoveredAt_append, recoveredAt_cons_of_not_recovered]
  · simp [Frame.close, Frame.append, Node.children, forest, report]
  · rintro e ⟨⟩
    rfl

theorem mismatchesAt_close (k : Nat) (n : Nesting) (tag : Text) (inner outer : List Frame)
    (span : Span) (nodes : List Node) :
    (append { n.report (mismatch tag inner span) with stack := outer } nodes).mismatchesAt k =
      n.mismatchesAt k ++ if span.start.offset = k then mismatch tag inner span else [] := by
  by_cases h : span.start.offset = k <;>
    simp [mismatchesAt, mismatch, Problem.ofCode, Problem.code, h]

/-- A close tag recovers the elements that it ends with its own, all at its start. -/
theorem recovered_close {n : Nesting} {length later : Nat} {tag : Text}
    {inner outer : List Frame} {frame : Frame} {span : Span} (h : Recovered n length)
    (hs : n.stack = inner ++ frame :: outer) (hspan : span.start.offset = length)
    (hlater : length < later) (text : Text) :
    Recovered (append { n.report (mismatch tag inner span) with stack := outer }
      [(frame.append (Frame.collapse span.start inner)).close text span]) later := by
  have hold : ∀ k, recoveredAt k n.forest =
      recoveredAt k (forest { n with stack := outer }) ++ (recoveredAt k frame.children.toList ++
        recoveredAt k (inner.reverse.flatMap fun f => f.children.toList)) := by
    intro k
    rw [forest_split hs, recoveredAt_append, recoveredAt_append]
  -- Nothing ended here before, so that the chain of closed frames is all there is.
  subst hspan
  have hnone := h.behind _ (Nat.le_refl _)
  rw [hold, List.append_eq_nil_iff, List.append_eq_nil_iff] at hnone
  obtain ⟨houter, hframe, hinner⟩ := hnone
  obtain ⟨hchain, hnested⟩ := Frame.recoveredAt_collapse hinner
  refine h.extend hlater ?_ ?_ ?_ ?_
  · intro k hk
    rw [recoveredAt_close, hold, Frame.recoveredAt_collapse_of_ne hk.symm]
  · intro k hk
    rw [mismatchesAt_close, if_neg hk.symm, List.append_nil]
  · rw [recoveredAt_close, houter, hframe]
    exact hnested
  · rw [recoveredAt_close, houter, hframe, mismatchesAt_close, if_pos rfl,
      h.mismatchesAt_eq_nil (Nat.le_refl _)]
    exact accounts_mismatch hchain tag span

theorem recovered_step {n : Nesting} {s : Text} (h : Recovered n s.length) (c : Construct) :
    Recovered (n.step ⟨c, .covering (Position.start.advance s) c.source⟩)
      (s.length + c.source.length) := by
  have he := n.step_effect c (.covering (Position.start.advance s) c.source)
  have hf : Problem.ofCode .mismatchedNesting (c.faults (Position.start.advance s)) = [] :=
    c.ofCode_faults rfl _
  generalize n.step _ = m at he ⊢
  have hreport : Recovered (n.report (c.faults (Position.start.advance s))) s.length :=
    h.congr (Nat.le_refl _) (fun k => rfl) (by simp [hf])
  cases he with
  | node event pieces children closing =>
    refine hreport.congr (Nat.le_add_right _ _) ?_ (by simp [Span.covering])
    intro k
    rw [forest_append, recoveredAt_append, recoveredAt_cons_of_not_recovered, children]
    · simp
    · intro e he
      simp [Element.recovered, closing e he]
  | opened event text place children =>
    refine hreport.congr (Nat.le_add_right _ _) ?_ (by simp [Span.covering])
    intro k
    rw [forest_push _ children]
    rfl
  | dropped event absent =>
    exact hreport.congr (Nat.le_add_right _ _) (fun k => rfl)
      (by simp [Span.covering, Problem.ofCode, Problem.code])
  | closed event found =>
    have hpos := c.source_pos event
    refine recovered_close hreport (splitFrames?_eq_some found).1 ?_ (by omega) c.source
    simp [Span.covering, Position.start]

theorem recovered_ofConstructs (cs : List Construct) :
    Recovered (ofConstructs cs) (cs.flatMap Construct.source).length := by
  refine ofConstructs_induction (P := fun cs n =>
    Recovered n (cs.flatMap Construct.source).length) ?_ ?_ cs
  · exact ⟨fun _ _ => recoveredAt_nil, fun _ => by simp [forest],
      fun _ => by simpa [forest, mismatchesAt, reported, Problem.ofCode] using Accounts.nothing⟩
  · intro cs n c h
    simpa using recovered_step h c

/-- The end of a template recovers elements only there. -/
theorem recoveredAt_ofReading {r : Reading} {k : Nat} (h : k ≠ r.source.length) :
    recoveredAt k (ofReading r).roots.toList =
      recoveredAt k (ofConstructs r.constructs).forest := by
  have hend : (r.endingStart.advance r.ending.source).offset ≠ k := by
    simpa [r.endingStart_advance, Position.start] using h.symm
  have hforest := forest_append (ofConstructs r.constructs) (endingNodes r.endingStart r.ending)
  rw [ofReading_eq, finish_eq]
  calc recoveredAt k _ = recoveredAt k
        ((ofConstructs r.constructs).append (endingNodes r.endingStart r.ending)).forest := by
        simp [forest, Frame.recoveredAt_collapse_of_ne hend]
    _ = recoveredAt k (ofConstructs r.constructs).forest := by
        simp [hforest, recoveredAt_endingNodes]

theorem mismatchesAt_ofReading (r : Reading) (k : Nat) :
    (ofReading r).mismatchesAt k = (ofConstructs r.constructs).mismatchesAt k := by
  rw [mismatchesAt, ofReading_eq, reported_finish rfl, ofCode_openProblems (by decide),
    List.append_nil, mismatchesAt]

/-- Before the end of a template, what is recovered at an offset is a chain with one report. -/
theorem accounts_ofReading {r : Reading} {k : Nat} (h : k ≠ r.source.length) :
    (recoveredAt k (ofReading r).roots.toList).Pairwise Encloses ∧
      Accounts (recoveredAt k (ofReading r).roots.toList) ((ofReading r).mismatchesAt k) := by
  have hrecovered := recovered_ofConstructs r.constructs
  rw [recoveredAt_ofReading h, mismatchesAt_ofReading]
  exact ⟨hrecovered.nested k, hrecovered.accounted k⟩

theorem length_constructs_le (r : Reading) :
    (r.constructs.flatMap Construct.source).length ≤ r.source.length := by
  simp [Reading.source]

theorem mismatchesAt_ofReading_end (r : Reading) :
    (ofReading r).mismatchesAt r.source.length = [] := by
  rw [mismatchesAt_ofReading]
  exact (recovered_ofConstructs r.constructs).mismatchesAt_eq_nil (length_constructs_le r)

/-- What is recovered at the end of a template is what was reported with its open tag. -/
theorem unterminated_ofReading (r : Reading) :
    ((recoveredAt r.source.length (ofReading r).roots.toList).filterMap element?).map
        Element.openSpan =
      (((ofReading r).reported .unterminatedElement).map Located.span).reverse := by
  have hnone := (recovered_ofConstructs r.constructs).behind _ (length_constructs_le r)
  have hreported : (ofReading r).reported .unterminatedElement =
      openProblems ((ofConstructs r.constructs).append
        (endingNodes r.endingStart r.ending)).stack := by
    rw [ofReading_eq, reported_finish rfl, reported_ofConstructs rfl, List.nil_append,
      Problem.ofCode_eq_self fun q hq => code_of_mem_openProblems hq, openProblems_append]
  have hend : r.source.length = (r.endingStart.advance r.ending.source).offset := by
    simp [r.endingStart_advance, Position.start]
  rw [hreported, ofReading_eq, finish_eq]
  generalize hm : (ofConstructs r.constructs).append (endingNodes r.endingStart r.ending) = m
  have hforest : recoveredAt r.source.length m.forest = [] := by
    rw [← hm, forest_append, recoveredAt_append, hnone, recoveredAt_endingNodes]
    rfl
  rw [forest, recoveredAt_append, List.append_eq_nil_iff, hend] at hforest
  obtain ⟨hroots, hstack⟩ := hforest
  obtain ⟨hchain, _⟩ := Frame.recoveredAt_collapse hstack
  simp only [Array.toList_appendList, recoveredAt_append, hend, hroots, List.nil_append, hchain]
  simp [Frame.recovered, openProblems, Frame.element, Function.comp_def]

end Nesting

/-- The offsets of a region. -/
def Span.offsets (r : Span) : Nat × Nat := (r.start.offset, r.stop.offset)

theorem Element.recoveredAt_of_recovered {e : Element} (h : e.recovered = true) :
    ∃ close, e.closeSpan? = some close ∧ close.start = close.stop ∧
      e.recoveredAt close.start.offset = true := by
  cases hc : e.closing with
  | implied p =>
    exact ⟨.point p, by simp [closeSpan?, hc], rfl, by simp [recoveredAt_implied hc, Span.point]⟩
  | _ => simp [recovered, hc] at h

namespace Document

open Node

/-- The diagnostics for mismatched close tags that start at an offset. -/
def mismatchesAt (k : Nat) (doc : Document) : List Diagnostic :=
  (doc.ofCode .mismatchedNesting).filter fun x => x.span.start.offset = k

variable (d : Dialect) (name : Option String) (s : Text)

theorem mismatchesAt_perm (k : Nat) :
    ((parse d name s).mismatchesAt k).Perm (((Nesting.ofReading (.ofText d s)).mismatchesAt k).map
      (Problem.diagnostic { sourceName := name })) := by
  have h := (ofCode_perm d name s .mismatchedNesting).filter fun x => x.span.start.offset = k
  rwa [List.filter_map] at h

theorem mismatchesAt_end : (parse d name s).mismatchesAt s.length = [] := by
  have h := mismatchesAt_perm d name s s.length
  have hend := Nesting.mismatchesAt_ofReading_end (.ofText d s)
  rw [Reading.source_ofText] at hend
  rw [hend] at h
  exact h.eq_nil

/-- Before the end of a template there is one diagnostic for all that is recovered at an offset. -/
theorem mismatchesAt_cases {k : Nat} (h : k ≠ s.length) :
    recoveredAt k (parse d name s).children = [] ∧ (parse d name s).mismatchesAt k = [] ∨
      recoveredAt k (parse d name s).children ≠ [] ∧
        ∃ x tag, (parse d name s).mismatchesAt k = [x] ∧
          x.message = Problem.message (.mismatchedNesting tag
            (elementTags (recoveredAt k (parse d name s).children)).reverse) := by
  have hperm := mismatchesAt_perm d name s k
  have haccounts : Nesting.Accounts (recoveredAt k (parse d name s).children) _ :=
    (Nesting.accounts_ofReading (by rwa [Reading.source_ofText])).2
  generalize recoveredAt k (parse d name s).children = found at haccounts ⊢
  generalize (Nesting.ofReading (.ofText d s)).mismatchesAt k = reports at haccounts hperm
  cases haccounts with
  | nothing => exact Or.inl ⟨rfl, hperm.eq_nil⟩
  | mismatch tag span nonempty => exact Or.inr ⟨nonempty, _, tag, hperm.eq_singleton, rfl⟩

/-- What is recovered at the end has its open tag reported. -/
theorem unterminated_perm :
    (((recoveredAt s.length (parse d name s).children).filterMap element?).map
      Element.openRegion).Perm (((parse d name s).regions .unterminatedElement).map
        Span.offsets) := by
  have hspans := Nesting.unterminated_ofReading (.ofText d s)
  rw [Reading.source_ofText] at hspans
  have hregions : ((recoveredAt s.length (parse d name s).children).filterMap element?).map
      Element.openRegion =
        (((recoveredAt s.length (parse d name s).children).filterMap element?).map
          Element.openSpan).map Span.offsets := by
    rw [List.map_map, List.map_inj_left]
    intro e he
    obtain ⟨node, hnode, hsome⟩ := List.mem_filterMap.mp he
    obtain ⟨hwalk, _, cs, rfl, _⟩ := mem_recoveredAt.mp hnode
    obtain rfl := Option.some.inj hsome
    simp only [Element.openRegion, Function.comp_apply, Span.offsets,
      stop_openSpan d name s _ cs hwalk, Element.start_span]
  rw [hregions]
  refine List.Perm.map _ (.trans ?_ (regions_perm d name s .unterminatedElement).symm)
  exact hspans ▸ List.reverse_perm _

/-- An element without a close tag ends with the template, and then its open tag is reported, or at
the start of one close tag, whose diagnostic names all that end there, innermost first. -/
theorem recovered_reported :
    (((recoveredAt s.length (parse d name s).children).filterMap element?).map
        Element.openRegion).Perm
          (((parse d name s).regions .unterminatedElement).map Span.offsets) ∧
      (∀ e children, .element e children ∈ walk (parse d name s).children → e.recovered = true →
        ∃ close, e.closeSpan? = some close ∧ close.start = close.stop ∧
          (close.start.offset = s.length ∨
            ((parse d name s).mismatchesAt close.start.offset).length = 1)) ∧
      ∀ x ∈ (parse d name s).ofCode .mismatchedNesting,
        x.span.start.offset ≠ s.length ∧
        recoveredAt x.span.start.offset (parse d name s).children ≠ [] ∧
        (recoveredAt x.span.start.offset (parse d name s).children).Pairwise Encloses ∧
        ∃ tag, x.message = Problem.message (.mismatchedNesting tag
          (elementTags (recoveredAt x.span.start.offset (parse d name s).children)).reverse) := by
  refine ⟨unterminated_perm d name s, ?_, ?_⟩
  · intro e children he hrecovered
    obtain ⟨close, hclose, hempty, hat⟩ := e.recoveredAt_of_recovered hrecovered
    refine ⟨close, hclose, hempty, ?_⟩
    by_cases hend : close.start.offset = s.length
    · exact Or.inl hend
    · have hmem := mem_recoveredAt.mpr ⟨he, e, children, rfl, hat⟩
      rcases mismatchesAt_cases d name s hend with ⟨hnone, _⟩ | ⟨_, x, _, hx, _⟩
      · rw [hnone] at hmem
        cases hmem
      · exact Or.inr (by rw [hx]; rfl)
  · intro x hx
    have hmem : x ∈ (parse d name s).mismatchesAt x.span.start.offset := by
      simpa [mismatchesAt] using hx
    have hbefore : x.span.start.offset ≠ s.length := by
      intro hend
      rw [hend, mismatchesAt_end] at hmem
      cases hmem
    refine ⟨hbefore, ?_⟩
    rcases mismatchesAt_cases d name s hbefore with ⟨_, hnone⟩ | ⟨hsome, y, tag, hy, hmessage⟩
    · rw [hnone] at hmem
      cases hmem
    · rw [hy] at hmem
      obtain rfl := List.mem_singleton.mp hmem
      exact ⟨hsome, (Nesting.accounts_ofReading (by rwa [Reading.source_ofText])).1, tag, hmessage⟩

/-- A bold text that is still open when its paragraph ends. -/
theorem recovered_reported_crossed : ∃ e children close x,
    .element e children ∈ walk (parse {} none "<p><b>x</p>".toList).children ∧
      e.recovered = true ∧ e.closeSpan? = some close ∧
      ((parse {} none "<p><b>x</p>".toList).mismatchesAt close.start.offset).length = 1 ∧
      x ∈ (parse {} none "<p><b>x</p>".toList).ofCode .mismatchedNesting ∧
      ∃ tag, x.message = Problem.message (.mismatchedNesting tag
        (elementTags (recoveredAt x.span.start.offset
          (parse {} none "<p><b>x</p>".toList).children)).reverse) := by
  have hfound : ((walk (parse {} none "<p><b>x</p>".toList).children).any fun node =>
      node.element?.any fun e => e.recovered && e.closeSpan?.all (·.start.offset == 7)) = true := by
    decide +kernel
  have hreported : ((parse {} none "<p><b>x</p>".toList).ofCode .mismatchedNesting).length = 1 := by
    decide +kernel
  obtain ⟨x, hx⟩ := List.length_eq_one_iff.mp hreported
  have hmem : x ∈ (parse {} none "<p><b>x</p>".toList).ofCode .mismatchedNesting := by
    rw [hx]
    exact List.mem_singleton.mpr rfl
  obtain ⟨_, helements, hdiagnostics⟩ := recovered_reported {} none "<p><b>x</p>".toList
  obtain ⟨_, _, _, hmessage⟩ := hdiagnostics x hmem
  obtain ⟨node, hnode, hcrossed⟩ := List.any_eq_true.mp hfound
  cases node with
  | element e children =>
    simp only [element?, Option.any_some, Bool.and_eq_true] at hcrossed
    obtain ⟨hrecovered, hclosed⟩ := hcrossed
    obtain ⟨close, hclose, _, hat⟩ := helements e children hnode hrecovered
    have hseven : close.start.offset = 7 := by simpa [hclose] using hclosed
    refine ⟨e, children, close, x, hnode, hrecovered, hclose, hat.resolve_left ?_, hmem, hmessage⟩
    simp [hseven]
  | _ => cases hcrossed

end Document

end StoreMarkup
