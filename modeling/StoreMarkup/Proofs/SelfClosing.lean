import StoreMarkup.Proofs.LeftOpen
import StoreMarkup.Proofs.RawText

/-! An element whose module tag is left open is the one that the tag makes with a slash at its
end. -/
namespace StoreMarkup

open Node

namespace Edit

/-- The change of a template by a text that is put in. Points up to there stay, the others move
on. -/
def inserting (before added after : Text) (rewrite : Position → Text → Text) : Edit where
  move p := if p.offset ≤ before.length then p
    else Position.start.advance ((before ++ added ++ after).take (p.offset + added.length))
  rewrite := rewrite

variable {before added t u : Text} {rewrite : Position → Text → Text}

theorem inserting_before {after : Text} {p : Position} (h : p.offset ≤ before.length) :
    (inserting before added after rewrite).move p = p :=
  if_pos h

theorem inserting_after (hu : u ≠ []) (after : Text) :
    (inserting before added (u ++ after) rewrite).move (Position.start.advance (before ++ u)) =
      Position.start.advance (before ++ added ++ u) := by
  have hpos : 0 < u.length := List.length_pos_iff.mpr hu
  have hbehind : ¬ (Position.start.advance (before ++ u)).offset ≤ before.length := by
    simp only [Position.offset_advance, Position.start, List.length_append]
    omega
  have htake : (before ++ added ++ (u ++ after)).take
      ((Position.start.advance (before ++ u)).offset + added.length) = before ++ added ++ u := by
    rw [← List.append_assoc]
    apply List.take_left'
    simp only [Position.offset_advance, Position.start, List.length_append]
    omega
  exact (if_neg hbehind).trans (congrArg _ htake)

theorem offset_inserting {after : Text} {p : Position} (h : p.offset ≤ (before ++ after).length) :
    ((inserting before added after rewrite).move p).offset =
      if p.offset ≤ before.length then p.offset else p.offset + added.length := by
  rw [List.length_append] at h
  by_cases hp : p.offset ≤ before.length
  · rw [inserting_before hp, if_pos hp]
  · have hmove : (inserting before added after rewrite).move p = Position.start.advance
        ((before ++ added ++ after).take (p.offset + added.length)) := if_neg hp
    rw [hmove, if_neg hp]
    simp only [Position.offset_advance, Position.start, List.length_take, List.length_append]
    omega

theorem rigid_before {after : Text} (h : u.length + t.length ≤ before.length) :
    (inserting before added after rewrite).Rigid (Position.start.advance u) t := by
  rintro x y rfl
  rw [List.length_append] at h
  rw [inserting_before, inserting_before]
  all_goals
    simp only [Position.offset_advance, Position.start]
    omega

theorem rigid_after (hu : u ≠ []) (after : Text) :
    (inserting before added (u ++ (t ++ after)) rewrite).Rigid
      (Position.start.advance (before ++ u)) t := by
  rintro x y rfl
  have hmove := @inserting_after before added (u ++ x) rewrite (by simp [hu]) (y ++ after)
  simp only [List.append_assoc] at hmove ⊢
  rw [← Position.advance_append, inserting_after hu, ← Position.advance_append]
  simpa using hmove

end Edit

theorem insertIdx_length_append (s t : Text) (c : Char) :
    (s ++ t).insertIdx s.length c = s ++ c :: t := by
  induction s with
  | nil => rfl
  | cons a s ih => simp [ih]

/-- An open tag among the constructs of a template, with or without a slash at its end. -/
structure TagSite where
  before : List Construct
  name : Text
  parts : List TagPart
  gap : Text
  after : List Construct
  ending : Ending

namespace TagSite

variable (w : TagSite)

def tag (slash : Bool) : Construct := .openTag w.name w.parts w.gap slash

def reading (slash : Bool) : Reading := ⟨w.before ++ w.tag slash :: w.after, w.ending⟩

def place : Position := Position.start.advance (w.before.flatMap Construct.source)

/-- The point behind the tag. -/
def stop (slash : Bool) : Position := w.place.advance (w.tag slash).source

/-- The tag up to its end. -/
def body : Text := '<' :: w.name ++ w.parts.flatMap TagPart.source ++ w.gap

/-- The change that the slash is to the points of the template. -/
def slashing : Edit :=
  .inserting (w.before.flatMap Construct.source ++ w.body) ['/']
    (tagEnd false ++ (w.after.flatMap Construct.source ++ w.ending.source)) fun p t =>
      if p.offset = w.place.offset then (w.tag true).source else t

/-- The element of the tag without a slash, as long as it is open. -/
def frame : Frame :=
  { tag := canonicalName w.name
    attributes := tagAttributes w.place w.name w.parts
    openText := (w.tag false).source
    openSpan := .covering w.place (w.tag false).source }

/-- The tree under construction where the tag starts, with what is wrong inside the tag. -/
def base : Nesting := (Nesting.ofConstructs w.before).report (tagProblems w.place w.name w.parts)

theorem source_tag (slash : Bool) : (w.tag slash).source = w.body ++ tagEnd slash := rfl

theorem source_reading (slash : Bool) :
    (w.reading slash).source = w.before.flatMap Construct.source ++ w.body ++
    (tagEnd slash ++ (w.after.flatMap Construct.source ++ w.ending.source)) := by
  simp [reading, Reading.source, source_tag]

theorem offset_place : w.place.offset = (w.before.flatMap Construct.source).length := by
  simp [place, Position.start]

theorem length_source_pos (slash : Bool) : 0 < (w.tag slash).source.length := by
  simp [source_tag, body]

theorem slashing_place : w.slashing.move w.place = w.place := by
  apply Edit.inserting_before
  simp [offset_place]

theorem slashing_stop : w.slashing.move (w.stop false) = w.stop true := by
  have hmove := @Edit.inserting_after (w.before.flatMap Construct.source ++ w.body) ['/'] ['>']
  simpa [slashing, stop, place, source_tag, tagEnd] using
    hmove (by simp) (w.after.flatMap Construct.source ++ w.ending.source)

theorem rigid_body :
    w.slashing.Rigid w.place ('<' :: w.name ++ w.parts.flatMap TagPart.source) := by
  apply Edit.rigid_before
  simp [body]

/-- The tag with a slash does what the tag without one does if it is left open. -/
theorem nesting_slashing (n : Nesting) :
    w.slashing.nesting ((n.report (tagProblems w.place w.name w.parts)).append w.frame.left) =
      (w.slashing.nesting n).step ⟨w.tag true, .covering w.place (w.tag true).source⟩ := by
  have hstart := w.slashing_place
  have hstop := w.slashing_stop
  have hattributes := w.rigid_body.tagAttributes
  have hproblems := w.rigid_body.tagProblems
  have hwritten : ∀ t, w.slashing.rewrite w.place t = (w.tag true).source := fun _ => if_pos rfl
  rw [hstart] at hattributes hproblems
  rw [Edit.nesting_append, Edit.nesting_report, ← hproblems]
  simp only [stop, tag] at hstop hwritten ⊢
  simp [Nesting.step, Nesting.openTag, Nesting.openElement, Frame.left, frame, Frame.element,
    Edit.element, Edit.closing, Edit.span, Span.covering, ← hattributes, hstart, hstop,
    hwritten, tag]

/-- No element starts yet where the tag stands. -/
theorem each_base : w.base.Each fun e => e.openSpan.start.offset ≠ w.place.offset := by
  have heach := Nesting.each_before w.before
  rw [← offset_place] at heach
  exact ⟨heach.frames, heach.roots⟩

theorem ofConstructs_reading (slash : Bool) : Nesting.ofConstructs (w.reading slash).constructs =
    (locate Construct.source (w.stop slash) w.after).foldl Nesting.step
      ((Nesting.ofConstructs w.before).step
        ⟨w.tag slash, .covering w.place (w.tag slash).source⟩) := by
  simp [reading, Nesting.ofConstructs, locate_append, locate, stop, place, Span.covering]

theorem ne_place_of_mem_after {x : Located Construct}
    (hx : x ∈ locate Construct.source (w.stop false) w.after) :
    x.span.start.offset ≠ w.place.offset := by
  obtain ⟨hle, -⟩ := offset_le_of_mem_locate hx
  have hpos := w.length_source_pos false
  rw [stop, Position.offset_advance] at hle
  omega

theorem rigid_after :
    w.slashing.Rigid (w.stop false) (w.after.flatMap Construct.source ++ w.ending.source) := by
  have hrigid := @Edit.rigid_after (w.before.flatMap Construct.source ++ w.body) ['/']
    (w.after.flatMap Construct.source ++ w.ending.source) ['>']
  simpa [slashing, stop, place, source_tag, tagEnd] using hrigid (by simp) []

/-- Only the tag itself is written in another way. -/
theorem written_of_ne {p : Position} (h : p.offset ≠ w.place.offset) (t : Text) :
    w.slashing.rewrite p t = t :=
  if_neg h

theorem written_after : ∀ x ∈ locate Construct.source (w.stop false) w.after,
    w.slashing.rewrite x.span.start x.value.source = x.value.source := by
  intro x hx
  refine w.written_of_ne ?_ _
  exact w.ne_place_of_mem_after hx

/-- Before the tag nothing changes. -/
theorem nesting_before (hne : ∀ c ∈ w.before, c.source ≠ []) :
    w.slashing.nesting (Nesting.ofConstructs w.before) = Nesting.ofConstructs w.before := by
  have hrigid : w.slashing.Rigid .start (w.before.flatMap Construct.source) :=
    Edit.rigid_before (u := []) (by simp)
  have hstart : w.slashing.move .start = .start := Edit.inserting_before (Nat.zero_le _)
  have hwritten : ∀ x ∈ locate Construct.source .start w.before,
      w.slashing.rewrite x.span.start x.value.source = x.value.source := by
    intro x hx
    obtain ⟨left, right, hsplit, -⟩ := exists_of_mem_locate hx
    have hpos := List.length_pos_iff.mpr (hne x.value (by simp [hsplit]))
    obtain ⟨-, hle⟩ := offset_le_of_mem_locate hx
    have hzero : Position.start.offset = 0 := rfl
    refine w.written_of_ne ?_ _
    rw [offset_place]
    omega
  have hempty : w.slashing.nesting {} = {} := by simp [Edit.nesting]
  rw [Nesting.ofConstructs, Edit.nesting_foldl {} hrigid hwritten, hstart, hempty]

variable {w}

/-- If the tag without a slash is left open, it could have been made an element at once. -/
theorem ofReading_left (hoptional : closesOptionally (canonicalName w.name) = true)
    (hvoid : isVoid (canonicalName w.name) = false) {x : Element} {children : List Node}
    (hx : .element x children ∈ walk (Nesting.ofReading (w.reading false)).roots.toList)
    (hstart : x.openSpan.start = w.place) (hself : x.closing = .selfClosed) :
    Nesting.ofReading (w.reading false) =
      ((locate Construct.source (w.stop false) w.after).foldl Nesting.step
        (w.base.append w.frame.left)).finish
        (w.reading false).endingStart w.ending := by
  have hopened : (Nesting.ofConstructs w.before).step
      ⟨w.tag false, .covering w.place (w.tag false).source⟩ =
      w.base.within [w.frame] := by
    simp only [Nesting.step, tag, Nesting.openTag, Nesting.openElement, hvoid]
    rfl
  have hleft := Nesting.LeftOpen.intro w.base [] w.frame hoptional w.each_base eachElement_nil
  have hbehind : ∀ y ∈ locate Construct.source (w.stop false) w.after,
      y.span.start.offset ≠ w.place.offset :=
    fun y hy => w.ne_place_of_mem_after hy
  rw [Nesting.ofReading_eq, ofConstructs_reading, hopened] at hx ⊢
  rcases Nesting.alike_finish (Nesting.alike_foldl (Or.inr (Or.inl hleft)) hbehind) _ w.ending with
    hsame | hclosed
  · exact hsame
  · exact (hclosed x children hx (by rw [hstart]) hself).elim

/-- The tree of the template with the slash, if the tag is left open without it. -/
theorem ofReading_slashed (hne : ∀ c ∈ w.before, c.source ≠ []) (ht : w.ending.Tidy)
    (hoptional : closesOptionally (canonicalName w.name) = true)
    (hvoid : isVoid (canonicalName w.name) = false) {x : Element} {children : List Node}
    (hx : .element x children ∈ walk (Nesting.ofReading (w.reading false)).roots.toList)
    (hstart : x.openSpan.start = w.place) (hself : x.closing = .selfClosed) :
    Nesting.ofReading (w.reading true) =
      w.slashing.nesting (Nesting.ofReading (w.reading false)) := by
  have hend : ∀ slash, (w.reading slash).endingStart =
      (w.stop slash).advance (w.after.flatMap Construct.source) := by
    simp [reading, Reading.endingStart, stop, place]
  have hrigid := w.rigid_after
  rw [ofReading_left hoptional hvoid hx hstart hself, Nesting.ofReading_eq, ofConstructs_reading,
    hend, hend, Edit.nesting_finish _ hrigid.right ht, hrigid.left.move,
    Edit.nesting_foldl _ hrigid.left w.written_after, base, nesting_slashing, w.nesting_before hne,
    slashing_stop]
  rfl

variable {d : Dialect} {s : Text}

/-- The template with the slash is read in the same way but for the tag. -/
theorem ofText_slashed (h : Reading.ofText d s = w.reading false)
    (hraw : ¬ Lexer.InRawText d s w.place) (hname : canonicalName w.name ∉ rawTextTags)
    (hlast : (w.parts.flatMap TagPart.source ++ w.gap).getLast? ≠ some '/') :
    Reading.ofText d (w.reading true).source = w.reading true := by
  have hsegmented : (w.reading false).Segmented d none := h ▸ Reading.segmented_inRawText d none s
  have hnone := Lexer.after_eq_none (congrArg Reading.constructs h) hraw
  have hafter : ∀ slash, RawText.after d none (w.tag slash) = none := by
    intro slash
    cases slash with
    | false => simp [tag, RawText.after, RawText.afterOpen, hname]
    | true => rfl
  obtain ⟨hbefore, hstep, hrest⟩ := Reading.stands_append.mp hsegmented.stands
  rw [hnone] at hstep hrest
  have hslashed := Reading.step_openTag_append hstep [] (Or.inr ⟨rfl, hlast⟩)
  rw [List.append_nil] at hslashed
  refine Reading.inRawText_eq_iff.mpr ⟨⟨?_, ?_, ?_⟩, rfl⟩
  · refine Reading.stands_append.mpr ⟨hbefore, ?_⟩
    rw [hnone]
    refine ⟨hslashed, ?_⟩
    rw [hafter false] at hrest
    rw [hafter true]
    exact hrest
  · exact Reading.separate_of_map_isText (by simp [reading, tag, Construct.isText])
      hsegmented.separate
  · have hends := hsegmented.ends
    simp only [reading, List.foldl_append, List.foldl_cons, hnone, hafter] at hends ⊢
    exact hends

/-- A slash at the end of the tag is one before its last character. -/
theorem source_slashed : (w.reading true).source =
    (w.reading false).source.insertIdx ((w.stop false).offset - 1) '/' := by
  have hoffset : (w.stop false).offset - 1 =
      (w.before.flatMap Construct.source ++ w.body).length := by
    simp [stop, source_tag, tagEnd, offset_place]
  rw [hoffset, source_reading, source_reading, insertIdx_length_append]
  rfl

/-- The slash moves the diagnostics and keeps their order. -/
theorem inSourceOrder_slashing {ds : List Diagnostic}
    (h : ∀ x ∈ ds, x.span.start.offset ≤ (w.reading false).source.length) :
    Diagnostic.inSourceOrder (ds.map w.slashing.diagnostic) =
      (Diagnostic.inSourceOrder ds).map w.slashing.diagnostic := by
  refine Edit.inSourceOrder_map _ ?_
  rw [source_reading] at h
  intro a ha b hb
  rw [slashing, Edit.offset_inserting (h a ha), Edit.offset_inserting (h b hb)]
  split <;> split <;> omega

end TagSite

namespace Document

variable (d : Dialect) (name : Option String) (s : Text)

/-- The open tag of an element that was left open. -/
theorem exists_site {e : Element} {children : List Node}
    (he : .element e children ∈ walk (parse d name s).children) (hself : e.selfClosing = true)
    (hopen : ¬ "/>".toList <:+ e.openText) (hvoid : isVoid e.tag = false) :
    ∃ w : TagSite, Reading.ofText d s = w.reading false ∧ e.tag = canonicalName w.name ∧
      e.openSpan = ⟨w.place, w.stop false⟩ ∧ closesOptionally e.tag = true ∧
      (w.parts.flatMap TagPart.source ++ w.gap).getLast? ≠ some '/' := by
  obtain ⟨x, hx, tagName, parts, gap, slash, hvalue, htag, -, htext, hspan, hclosing⟩ :=
    Nesting.makes_ofReading (.ofText d s) e children he
  obtain ⟨before, after, hsplit, hplace⟩ := exists_of_mem_locate hx
  rw [hvalue] at hsplit hplace htext
  obtain rfl : slash = false := by
    cases slash with
    | false => rfl
    | true =>
      refine (hopen ?_).elim
      rw [htext]
      exact List.suffix_append _ _
  refine ⟨⟨before, tagName, parts, gap, after, (Reading.ofText d s).ending⟩, ?_, htag, ?_, ?_, ?_⟩
  · exact congrArg (fun cs => Reading.mk cs (Reading.ofText d s).ending) hsplit
  · rw [hspan, hplace]
    rfl
  · have hclosed : e.closing = .selfClosed := by simpa [Element.selfClosing] using hself
    simpa [hvoid] using hclosing hclosed
  · intro hlast
    obtain ⟨init, hinit⟩ := List.getLast?_eq_some_iff.mp hlast
    have hbody : parts.flatMap TagPart.source ++ gap = init ++ ['/'] := hinit
    have htagText : e.openText = '<' :: tagName ++ (parts.flatMap TagPart.source ++ gap) ++
        tagEnd false := by
      rw [htext, Construct.source, List.append_assoc ('<' :: tagName)]
    refine hopen ⟨'<' :: tagName ++ init, ?_⟩
    rw [htagText, hbody]
    simp [tagEnd]

/-- An element that may be left open and is, outside of raw text, is the same as with a slash at the
end of its open tag: the tree stays, and so do the diagnostics. -/
theorem parse_slashed {e : Element} {children : List Node}
    (he : .element e children ∈ walk (parse d name s).children) (hself : e.selfClosing = true)
    (hopen : ¬ "/>".toList <:+ e.openText) (hvoid : isVoid e.tag = false)
    (hraw : ¬ Lexer.InRawText d s e.openSpan.start) :
    Node.exportAll false (parse d name (s.insertIdx (e.openSpan.stop.offset - 1) '/')).children =
      Node.exportAll false (parse d name s).children ∧
    (parse d name (s.insertIdx (e.openSpan.stop.offset - 1) '/')).diagnostics.map
        (fun x => (x.code, x.message)) =
      (parse d name s).diagnostics.map fun x => (x.code, x.message) := by
  obtain ⟨w, hread, htag, hspan, hoptional, hlast⟩ := exists_site d name s he hself hopen hvoid
  have hname : canonicalName w.name ∉ rawTextTags := by
    intro hmem
    rw [htag, (kind_of_raw hmem).2.2] at hoptional
    cases hoptional
  have hsource : (w.reading false).source = s := by rw [← hread, Reading.source_ofText]
  have hslashed := TagSite.ofText_slashed hread (by rwa [hspan] at hraw) hname hlast
  rw [TagSite.source_slashed, hsource] at hslashed
  have hne : ∀ c ∈ w.before, c.source ≠ [] := by
    intro c hc
    refine Reading.source_ne_nil d s c ?_
    rw [hread]
    exact List.mem_append_left _ hc
  have htidy : w.ending.Tidy := by
    have hending : (Reading.ofText d s).ending = w.ending := congrArg Reading.ending hread
    rw [← hending]
    exact (Reading.inRawText_tidy d none s).2
  have hclosed : e.closing = .selfClosed := by simpa [Element.selfClosing] using hself
  rw [htag] at hoptional hvoid
  rw [children_eq, hread] at he
  have htree := TagSite.ofReading_slashed hne htidy hoptional hvoid he (by rw [hspan]) hclosed
  rw [hspan, children_eq, children_eq, diagnostics_eq, diagnostics_eq, hslashed, hread, htree]
  refine ⟨?_, ?_⟩
  · rw [Edit.roots_nesting, Edit.exportAll_map]
  · rw [Edit.diagnostics_nesting, TagSite.inSourceOrder_slashing, List.map_map]
    · rfl
    · intro x hx
      obtain ⟨q, hq, rfl⟩ := List.mem_map.mp hx
      rw [hsource]
      rw [← hread] at hq
      exact ((Nesting.placed_ofText d s).problems q hq).start.offset_le

/-- A module tag is left open in a paragraph, which gets what follows the tag. -/
theorem parse_slashed_paragraph :
    Node.exportAll false (parse {} none "<p><isa>x</p></b>".toList).children =
      Node.exportAll false (parse {} none "<p><isa/>x</p></b>".toList).children ∧
    (parse {} none "<p><isa>x</p></b>".toList).diagnostics.map (fun x => (x.code, x.message)) =
      (parse {} none "<p><isa/>x</p></b>".toList).diagnostics.map fun x => (x.code, x.message) := by
  have hfound : ((walk (parse {} none "<p><isa>x</p></b>".toList).children).any fun node =>
      node.element?.any fun e =>
        e.selfClosing && !"/>".toList.isSuffixOf e.openText && !isVoid e.tag &&
        !decide (Lexer.InRawText {} "<p><isa>x</p></b>".toList e.openSpan.start) &&
        e.openSpan.stop.offset == 8) = true := by
    decide +kernel
  obtain ⟨node, hnode, hleft⟩ := List.any_eq_true.mp hfound
  cases node with
  | element e children =>
    simp only [element?, Option.any_some, Bool.and_eq_true, Bool.not_eq_true',
      decide_eq_false_iff_not, beq_iff_eq] at hleft
    obtain ⟨⟨⟨⟨hself, hopen⟩, hvoid⟩, hraw⟩, hstop⟩ := hleft
    have hopen' : ¬ "/>".toList <:+ e.openText := by
      intro hsuffix
      rw [List.isSuffixOf_iff_suffix.mpr hsuffix] at hopen
      cases hopen
    obtain ⟨hchildren, hdiagnostics⟩ := parse_slashed {} none _ hnode hself hopen' hvoid hraw
    rw [hstop] at hchildren hdiagnostics
    exact ⟨hchildren.symm, hdiagnostics.symm⟩
  | _ => cases hleft

end Document

end StoreMarkup
