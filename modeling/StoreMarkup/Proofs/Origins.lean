import StoreMarkup.Proofs.Nesting

/-! Where the elements of a tree come from: each has its open tag among the constructs, and is
closed in a way that this tag allows. -/
namespace StoreMarkup

open Node

/-- A construct at a place is the open tag of an element, and one that the element may be closed
with. -/
def Construct.Makes (c : Construct) (span : Span) (e : Element) : Prop :=
  ∃ name parts gap slash, c = .openTag name parts gap slash ∧ e.tag = canonicalName name ∧
    e.attributes = tagAttributes span.start name parts ∧ e.openText = c.source ∧ e.openSpan = span ∧
    (e.closing = .selfClosed → (slash || isVoid e.tag || closesOptionally e.tag) = true)

namespace Frame

variable {P : Frame → Prop} {Q : Element → List Node → Prop} {p : Position} {frames : List Frame}

theorem eachElement_closeImplicitly {f : Frame} {nodes : List Node}
    (hself : closesOptionally f.tag = true → Q (f.element .selfClosed) [])
    (himplied : closesOptionally f.tag = false →
      Q (f.element (.implied p)) (f.children.toList ++ nodes))
    (hchildren : EachElement Q f.children.toList) (hnodes : EachElement Q nodes) :
    EachElement Q ((f.append nodes).closeImplicitly p) := by
  have hall := eachElement_append.mpr ⟨hchildren, hnodes⟩
  unfold closeImplicitly
  rw [toList_append]
  split
  · refine eachElement_cons.mpr ⟨?_, eachElement_nil, hall⟩
    rintro e cs ⟨⟩
    exact hself (by assumption)
  · rename_i hneeded
    refine eachElement_cons.mpr ⟨?_, hall, eachElement_nil⟩
    rintro e cs ⟨⟩
    exact himplied (Bool.eq_false_iff.mpr hneeded)

theorem eachElement_close {f : Frame} {nodes : List Node} (text : Text) (span : Span)
    (helement : Q (f.element (.tag text span)) (f.children.toList ++ nodes))
    (hchildren : EachElement Q f.children.toList) (hnodes : EachElement Q nodes) :
    EachElement Q [(f.append nodes).close text span] := by
  refine eachElement_cons.mpr ⟨?_, ?_, eachElement_nil⟩
  · rintro e cs ⟨⟩
    rw [toList_append]
    exact helement
  · rw [close, children, toList_append]
    exact eachElement_append.mpr ⟨hchildren, hnodes⟩

/-- Open elements with one property become elements with another where no close tag comes for them,
however their bodies grow before that. -/
structure Leaves (P : Frame → Prop) (Q : Element → List Node → Prop) : Prop where
  append {f : Frame} (nodes : List Node) : P f → P (f.append nodes)
  selfClosed {f : Frame} : P f → closesOptionally f.tag = true → Q (f.element .selfClosed) []
  implied {f : Frame} (p : Position) (children : List Node) : P f → closesOptionally f.tag = false →
    Q (f.element (.implied p)) children

theorem Leaves.collapse (h : Leaves P Q)
    (hframes : ∀ f ∈ frames, P f ∧ EachElement Q f.children.toList) :
    EachElement Q (collapse p frames) := by
  induction frames using List.reverseRecOn with
  | nil => exact eachElement_nil
  | append_singleton frames f ih =>
    obtain ⟨hf, hchildren⟩ := hframes f (by simp)
    rw [collapse_concat]
    exact eachElement_closeImplicitly (h.selfClosed hf) (h.implied p _ hf) hchildren
      (ih fun g hg => hframes g (by simp [hg]))

/-- Whatever becomes of an open element has a property. -/
def Yields (P : Element → Prop) (f : Frame) : Prop :=
  ∀ closing, (closing = .selfClosed → closesOptionally f.tag = true) → P (f.element closing)

theorem leaves_yields (P : Element → Prop) : Leaves (Yields P) fun e _ => P e where
  append _ h := h
  selfClosed h hoptional := h .selfClosed fun _ => hoptional
  implied p _ h _ := h (.implied p) (by simp)

end Frame

namespace Nesting

/-- The open elements have one property, and all that are finished another. -/
structure Keeps (P : Frame → Prop) (Q : Element → List Node → Prop) (n : Nesting) : Prop where
  frames : ∀ f ∈ n.stack, P f ∧ EachElement Q f.children.toList
  roots : EachElement Q n.roots.toList

section Keeps

variable {P : Frame → Prop} {Q : Element → List Node → Prop} {n : Nesting} {nodes : List Node}
  {f : Frame} {inner : List Frame}

theorem keeps_empty : Keeps P Q {} := ⟨by simp, eachElement_nil⟩

theorem Keeps.append (hleaves : Frame.Leaves P Q) (h : n.Keeps P Q) (hnodes : EachElement Q nodes) :
    (n.append nodes).Keeps P Q := by
  unfold Nesting.append
  split
  · refine ⟨h.frames, ?_⟩
    rw [Array.toList_appendList]
    exact eachElement_append.mpr ⟨h.roots, hnodes⟩
  · rename_i g fs hstack
    obtain ⟨⟨hg, hchildren⟩, hfs⟩ := List.forall_mem_cons.mp (hstack ▸ h.frames)
    refine ⟨List.forall_mem_cons.mpr ⟨⟨hleaves.append nodes hg, ?_⟩, hfs⟩, h.roots⟩
    rw [Frame.toList_append]
    exact eachElement_append.mpr ⟨hchildren, hnodes⟩

theorem Keeps.push (h : n.Keeps P Q) (hf : P f) (hchildren : f.children = #[]) :
    Keeps P Q { n with stack := f :: n.stack } := by
  refine ⟨List.forall_mem_cons.mpr ⟨⟨hf, ?_⟩, h.frames⟩, h.roots⟩
  rw [hchildren]
  exact eachElement_nil

/-- The element that a close tag ends, with those that it ends, too. -/
theorem Keeps.close (hleaves : Frame.Leaves P Q)
    (hinner : ∀ g ∈ inner, P g ∧ EachElement Q g.children.toList) {text : Text} {span : Span}
    (hclosed : ∀ children, Q (f.element (.tag text span)) children)
    (hchildren : EachElement Q f.children.toList) :
    EachElement Q [(f.append (Frame.collapse span.start inner)).close text span] :=
  Frame.eachElement_close text span (hclosed _) hchildren (hleaves.collapse hinner)

/-- A construct opens an element, makes one at once, ends one or does nothing to elements. -/
theorem Keeps.step {c : Construct} {span : Span} (hleaves : Frame.Leaves P Q)
    (hmade : ∀ e, c.event? = none → c.Opens span e.tag e.attributes e.openSpan →
      e.openText = c.source → e.closing = .selfClosed → Q e [])
    (hopened : ∀ f, c.event? = some (.opened f.tag) → c.Opens span f.tag f.attributes f.openSpan →
      f.openText = c.source → P f)
    (hclosed : ∀ f children, c.event? = some (.closed f.tag) → P f →
      Q (f.element (.tag c.source span)) children)
    (h : n.Keeps P Q) : (n.step ⟨c, span⟩).Keeps P Q := by
  have he := n.step_effect c span
  have hreported : (n.report (c.faults span.start)).Keeps P Q := ⟨h.frames, h.roots⟩
  generalize n.step _ = m at he ⊢
  cases he with
  | @node node event pieces children closing origin =>
    refine hreported.append hleaves
      (eachElement_cons.mpr ⟨?_, by rw [children]; exact eachElement_nil, eachElement_nil⟩)
    rintro e cs rfl
    obtain rfl : cs = [] := children
    have hclosing : e.closing = .selfClosed := closing e rfl
    have htext : e.openText = c.source ∧ e.openSpan = span := by
      simpa [Node.pieces, Element.closeSpan?, hclosing] using pieces
    exact hmade e event (origin e rfl) htext.1 hclosing
  | @opened frame event text place children origin =>
    exact hreported.push (hopened frame event origin text) children
  | dropped event absent => exact ⟨h.frames, h.roots⟩
  | @closed tag inner outer frame event found =>
    obtain ⟨hstack, rfl⟩ := splitFrames?_eq_some found
    have hframes := hreported.frames
    rw [hstack] at hframes
    obtain ⟨hinner, hrest⟩ := List.forall_mem_append.mp hframes
    obtain ⟨⟨hframe, hchildren⟩, houter⟩ := List.forall_mem_cons.mp hrest
    have hbase : Keeps P Q
        { (n.report (c.faults span.start)).report (mismatch frame.tag inner span) with
        stack := outer } := ⟨houter, h.roots⟩
    exact hbase.append hleaves
      (Keeps.close hleaves hinner (fun children => hclosed frame children event hframe) hchildren)

theorem Keeps.foldl {xs : List (Located Construct)}
    (hstep : ∀ x ∈ xs, ∀ m : Nesting, m.Keeps P Q → (m.step x).Keeps P Q) (h : n.Keeps P Q) :
    (xs.foldl Nesting.step n).Keeps P Q := by
  induction xs generalizing n with
  | nil => exact h
  | cons x xs ih =>
    obtain ⟨hx, hxs⟩ := List.forall_mem_cons.mp hstep
    exact ih hxs (hx n h)

theorem eachElement_endingNodes {P : Element → List Node → Prop} (p : Position) (e : Ending) :
    EachElement P (endingNodes p e) := by
  intro element children h
  cases element?_of_mem_endingNodes h

theorem Keeps.finish (hleaves : Frame.Leaves P Q) (h : n.Keeps P Q) (p : Position) (e : Ending) :
    EachElement Q (n.finish p e).roots.toList := by
  have hended := h.append hleaves (eachElement_endingNodes p e)
  rw [finish_eq, Array.toList_appendList]
  exact eachElement_append.mpr ⟨hended.roots, hleaves.collapse hended.frames⟩

end Keeps

/-- All elements have a property, those that are finished and those that are still open. -/
abbrev Each (P : Element → Prop) (n : Nesting) : Prop := n.Keeps (Frame.Yields P) fun e _ => P e

section Each

variable {P : Element → Prop} {n : Nesting}

theorem Each.mono {Q : Element → Prop} (h : n.Each P) (himp : ∀ e, P e → Q e) : n.Each Q := by
  refine ⟨?_, fun e cs he => himp e (h.roots e cs he)⟩
  intro f hf
  obtain ⟨hyields, hchildren⟩ := h.frames f hf
  exact ⟨fun closing hc => himp _ (hyields closing hc), fun e cs he => himp e (hchildren e cs he)⟩

/-- A construct adds at most the element that it is the open tag of. -/
theorem each_step {c : Construct} {span : Span} (hc : ∀ e, c.Makes span e → P e) (h : n.Each P) :
    (n.step ⟨c, span⟩).Each P := by
  refine h.step (Frame.leaves_yields P) ?_ ?_ ?_
  · rintro e event ⟨name, parts, gap, slash, rfl, htag, hattributes, hspan⟩ htext -
    refine hc e ⟨name, parts, gap, slash, rfl, htag, hattributes, htext, hspan, ?_⟩
    intro _
    rw [htag]
    simp only [Construct.event?] at event
    split at event
    · rename_i hempty
      rw [hempty, Bool.true_or]
    · cases event
  · rintro f - ⟨name, parts, gap, slash, rfl, htag, hattributes, hspan⟩ htext closing hclosing
    refine hc _ ⟨name, parts, gap, slash, rfl, htag, hattributes, htext, hspan, ?_⟩
    intro hself
    have hoptional : closesOptionally (f.element closing).tag = true := hclosing hself
    rw [hoptional, Bool.or_true]
  · intro f children _ hyields
    exact hyields _ (by simp)

theorem each_foldl {cs : List (Located Construct)}
    (hcs : ∀ x ∈ cs, ∀ e, x.value.Makes x.span e → P e) (h : n.Each P) : (cs.foldl step n).Each P :=
  h.foldl fun x hx _ => each_step (hcs x hx)

end Each

/-- No element starts yet where a template goes on. -/
theorem each_before (cs : List Construct) :
    (ofConstructs cs).Each fun e =>
      e.openSpan.start.offset ≠ (cs.flatMap Construct.source).length := by
  refine each_foldl ?_ keeps_empty
  rintro x hx e ⟨name, parts, gap, slash, hvalue, -, -, -, hspan, -⟩
  obtain ⟨-, hle⟩ := offset_le_of_mem_locate hx
  rw [hvalue] at hle
  simp only [Construct.source, Position.start, List.cons_append, List.length_cons] at hle
  rw [hspan]
  omega

/-- The open tag of every element is one of the constructs. -/
theorem makes_ofReading (r : Reading) :
    EachElement (fun e _ => ∃ x ∈ r.located, x.value.Makes x.span e)
      (ofReading r).roots.toList := by
  refine (each_foldl ?_ keeps_empty).finish (Frame.leaves_yields _) r.endingStart r.ending
  intro x hx e he
  exact ⟨x, hx, he⟩

end Nesting

end StoreMarkup
