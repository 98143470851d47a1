import StoreMarkup.Proofs.Coverage
import StoreMarkup.Proofs.Diagnostics
import StoreMarkup.Proofs.Positions

/-! Every region of a token, a tree or a diagnostic lies between two exact points of the source. -/
namespace StoreMarkup

/-- A region between two exact points of a text. -/
structure Span.Placed (s : Text) (r : Span) : Prop where
  start : r.start.Exact s
  stop : r.stop.Exact s
  le : r.start.offset ≤ r.stop.offset

/-- The regions of a token: its own and those of its fragments. -/
def Token.spans (t : Token) : List Span :=
  t.span :: match t.kind with
    | .attributeValue fragments => fragments.map Located.span
    | _ => []

def Attribute.spans (a : Attribute) : List Span := a.span :: (a.value.getD []).map Located.span

def Element.spans (e : Element) : List Span :=
  e.span :: e.openSpan :: e.closeSpan?.toList ++ e.attributes.flatMap Attribute.spans

/-- The regions of a node but for its children. -/
def Node.spans : Node → List Span
  | element e _ => e.spans
  | node => [node.span]

namespace Span

variable {s t : Text} {r : Span}

theorem Placed.mono (h : r.Placed t) (hts : t <+: s) : r.Placed s :=
  ⟨h.start.mono hts, h.stop.mono hts, h.le⟩

theorem placed_covering {before : Text} (h : before ++ t <+: s) :
    (covering (Position.start.advance before) t).Placed s := by
  refine ⟨Position.exact_advance ((List.prefix_append before t).trans h), ?_, by simp [covering]⟩
  rw [covering, ← Position.advance_append]
  exact Position.exact_advance h

theorem placed_point {p : Position} (h : p.Exact s) : (point p).Placed s := ⟨h, h, Nat.le_refl _⟩

/-- A region that reaches from the start of one to the end of a later one. -/
theorem Placed.join {r' : Span} (h : r.Placed s) (h' : r'.Placed s)
    (hle : r.start.offset ≤ r'.stop.offset) : Placed s ⟨r.start, r'.stop⟩ := ⟨h.start, h'.stop, hle⟩

end Span

/-- What is placed one after the other covers consecutive pieces of the text. -/
theorem mem_locate {α : Type} {source : α → Text} {before : Text} {as : List α} {x : Located α}
    (h : x ∈ locate source (Position.start.advance before) as) :
    ∃ left right, as.flatMap source = left ++ source x.value ++ right ∧
      x.span = .covering (Position.start.advance (before ++ left)) (source x.value) := by
  obtain ⟨left, right, rfl, hspan⟩ := exists_of_mem_locate h
  refine ⟨left.flatMap source, right.flatMap source, by simp, ?_⟩
  rw [Position.advance_append]
  exact hspan

variable {s : Text}

theorem placed_of_mem_locate {α : Type} {source : α → Text} {before : Text} {as : List α}
    {x : Located α} (h : x ∈ locate source (Position.start.advance before) as)
    (hs : before ++ as.flatMap source <+: s) : x.span.Placed s := by
  obtain ⟨left, right, hsource, hspan⟩ := mem_locate h
  rw [hspan]
  refine Span.placed_covering (List.IsPrefix.trans ⟨right, ?_⟩ hs)
  simp [hsource]

/-- The fragments of a value that starts at a point. -/
theorem Value.placed_locatedFragments {before : Text} {v : Value} (h : before ++ v.text <+: s)
    {f : Located Fragment} (hf : f ∈ v.locatedFragments (Position.start.advance before)) :
    f.span.Placed s := by
  rw [locatedFragments, ← Position.advance_append] at hf
  refine placed_of_mem_locate hf (List.IsPrefix.trans ⟨quoteMark v.quote, ?_⟩ h)
  simp [text]

/-- The fragments of a token are those of a value that starts with it. -/
def Token.ShowsValue (t : Token) : Prop :=
  ∀ fragments, t.kind = .attributeValue fragments →
    ∃ v : Value, fragments = v.locatedFragments t.span.start ∧ t.text = v.text

theorem showsValue_place {p : Position} {kind : TokenKind} {text : Text}
    (h : ∀ fragments, kind ≠ .attributeValue fragments) : (Token.place p kind text).ShowsValue := by
  intro fragments hkind
  exact (h fragments hkind).elim

theorem showsValue_of_mem_partTokens {p : Position} {parts : List TagPart} {t : Token}
    (h : t ∈ partTokens p parts) : t.ShowsValue := by
  obtain ⟨part, -, ht⟩ := List.mem_flatMap.mp h
  cases hpart : part.value with
  | stray stray fault =>
    rw [hpart] at ht
    rw [List.mem_singleton.mp ht]
    exact showsValue_place (by simp)
  | «attribute» gap name value =>
    rw [hpart] at ht
    cases value with
    | none =>
      rw [List.mem_singleton.mp ht]
      exact showsValue_place (by simp)
    | some v =>
      rcases List.mem_cons.mp ht with rfl | ht
      · exact showsValue_place (by simp)
      · rw [List.mem_singleton.mp ht]
        rintro fragments ⟨⟩
        exact ⟨v, rfl, rfl⟩

theorem showsValue_of_mem_tokenize {d : Dialect} {t : Token} (h : t ∈ tokenize d s) :
    t.ShowsValue := by
  intro fragments hkind
  rcases List.mem_append.mp h with h | h
  · obtain ⟨c, -, hc⟩ := List.mem_flatMap.mp h
    obtain ⟨name, parts, gap, slash, -, hpart⟩ := Construct.exists_of_value hc hkind
    exact showsValue_of_mem_partTokens hpart fragments hkind
  · obtain ⟨name, parts, text, -, hpart⟩ := Ending.exists_of_value h hkind
    exact showsValue_of_mem_partTokens hpart fragments hkind

/-- The regions of every token are placed in the source. -/
theorem placed_of_mem_tokenize (d : Dialect) {t : Token} (h : t ∈ tokenize d s) {r : Span}
    (hr : r ∈ t.spans) : r.Placed s := by
  obtain ⟨before, after, hs, hspan⟩ := covers_of_mem_tokenize d s h
  have htext : before ++ t.text <+: s := ⟨after, hs.symm⟩
  rcases List.mem_cons.mp hr with rfl | hr
  · rw [hspan]
    exact Span.placed_covering htext
  · cases hkind : t.kind with
    | attributeValue fragments =>
      obtain ⟨v, rfl, hv⟩ := showsValue_of_mem_tokenize h fragments hkind
      rw [hkind] at hr
      obtain ⟨f, hf, rfl⟩ := List.mem_map.mp hr
      rw [hspan] at hf
      rw [hv] at htext
      exact Value.placed_locatedFragments htext hf
    | _ =>
      rw [hkind] at hr
      cases hr

section Tags

variable {before name : Text} {parts : List TagPart}

/-- A part of an open tag stands after some of the tag. -/
theorem mem_locate_parts {part : Located TagPart}
    (h : part ∈ locate TagPart.source ((Position.start.advance before).advance ('<' :: name)) parts)
    (hs : before ++ ('<' :: name ++ parts.flatMap TagPart.source) <+: s) :
    ∃ left, left ++ part.value.source <+: s ∧ part.span.start = Position.start.advance left := by
  rw [← Position.advance_append] at h
  obtain ⟨left, right, hsource, hspan⟩ := mem_locate h
  refine ⟨before ++ '<' :: name ++ left, List.IsPrefix.trans ⟨right, ?_⟩ hs, ?_⟩
  · simp [hsource]
  · rw [hspan]
    rfl

theorem TagPart.placed_attribute? {left : Text} {part : TagPart} (hs : left ++ part.source <+: s)
    {a : Attribute} (ha : part.attribute? (Position.start.advance left) = some a) {r : Span}
    (hr : r ∈ a.spans) : r.Placed s := by
  cases part with
  | stray stray fault => cases ha
  | «attribute» gap name value =>
    cases value with
    | none =>
      cases ha
      obtain rfl : r = _ := by simpa [Attribute.spans] using hr
      rw [← Position.advance_append]
      exact Span.placed_covering (by simpa [source] using hs)
    | some v =>
      cases ha
      rcases List.mem_cons.mp hr with rfl | hr
      · have hplaced : (Span.covering (Position.start.advance (left ++ gap))
            (name ++ v.lead ++ v.text)).Placed s :=
              Span.placed_covering (by simpa [source] using hs)
        rwa [Position.advance_append] at hplaced
      · obtain ⟨f, hf, rfl⟩ := List.mem_map.mp hr
        simp only [Option.getD_some, ← Position.advance_append] at hf
        exact Value.placed_locatedFragments (by simpa [source] using hs) hf

theorem placed_of_mem_tagAttributes
    (hs : before ++ ('<' :: name ++ parts.flatMap TagPart.source) <+: s) {a : Attribute}
    (ha : a ∈ tagAttributes (Position.start.advance before) name parts) {r : Span}
    (hr : r ∈ a.spans) : r.Placed s := by
  obtain ⟨part, hpart, ha⟩ := List.mem_filterMap.mp ha
  obtain ⟨left, hleft, hstart⟩ := mem_locate_parts hpart hs
  rw [hstart] at ha
  exact TagPart.placed_attribute? hleft ha hr

theorem placed_of_mem_tagProblems
    (hs : before ++ ('<' :: name ++ parts.flatMap TagPart.source) <+: s) {q : Located Problem}
    (hq : q ∈ tagProblems (Position.start.advance before) name parts) : q.span.Placed s := by
  obtain ⟨part, hpart, hq⟩ := List.mem_filterMap.mp hq
  obtain ⟨left, hleft, hstart⟩ := mem_locate_parts hpart hs
  cases hvalue : part.value with
  | «attribute» gap name value =>
    rw [hvalue] at hq
    cases hq
  | stray stray fault =>
    rw [hvalue, hstart] at hq
    cases hq
    rw [← Position.advance_append]
    exact Span.placed_covering (by simpa [hvalue, TagPart.source, Stray.source] using hleft)

theorem placed_of_mem_closeTagProblems {strays : List Stray}
    (hs : before ++ ('<' :: '/' :: name ++ strays.flatMap Stray.source) <+: s) {q : Located Problem}
    (hq : q ∈ closeTagProblems (Position.start.advance before) name strays) : q.span.Placed s := by
  obtain ⟨stray, hstray, rfl⟩ := List.mem_map.mp hq
  rw [← Position.advance_append] at hstray
  obtain ⟨left, right, hsource, hspan⟩ := mem_locate hstray
  have hplaced : (Span.covering (Position.start.advance
      (before ++ '<' :: '/' :: name ++ left ++ stray.value.gap)) stray.value.text).Placed s := by
    refine Span.placed_covering (List.IsPrefix.trans ⟨right, ?_⟩ hs)
    simp [hsource, Stray.source]
  rw [Stray.problem, hspan]
  rwa [Position.advance_append] at hplaced

theorem Construct.placed_of_mem_faults {c : Construct} (hs : before ++ c.source <+: s)
    {q : Located Problem} (hq : q ∈ c.faults (Position.start.advance before)) :
    q.span.Placed s := by
  cases c with
  | openTag name parts gap slash =>
    refine placed_of_mem_tagProblems (List.IsPrefix.trans ⟨gap ++ tagEnd slash, ?_⟩ hs) hq
    simp [source]
  | closeTag name strays gap =>
    refine placed_of_mem_closeTagProblems (List.IsPrefix.trans ⟨gap ++ ['>'], ?_⟩ hs) hq
    simp [source]
  | _ => cases hq

end Tags

namespace Node

/-- Every region of a forest is placed in a text. -/
def AllPlaced (s : Text) (nodes : List Node) : Prop :=
  ∀ node ∈ walk nodes, ∀ r ∈ node.spans, r.Placed s

theorem allPlaced_nil : AllPlaced s [] := by
  intro node h
  simp at h

theorem allPlaced_append {xs ys : List Node} :
    AllPlaced s (xs ++ ys) ↔ AllPlaced s xs ∧ AllPlaced s ys := by
  simp only [AllPlaced, walk_append, List.forall_mem_append]

theorem allPlaced_cons {node : Node} {rest : List Node} : AllPlaced s (node :: rest) ↔
    (∀ r ∈ node.spans, r.Placed s) ∧ AllPlaced s node.children ∧ AllPlaced s rest := by
  simp only [AllPlaced, walk_cons, List.cons_append, List.forall_mem_cons, List.forall_mem_append]

theorem AllPlaced.mono {t : Text} {nodes : List Node} (h : AllPlaced t nodes) (hts : t <+: s) :
    AllPlaced s nodes := by
  intro node hnode r hr
  exact (h node hnode r hr).mono hts

end Node

/-- An element is placed with its open tag, its attributes and its close tag. -/
theorem Element.placed_spans {e : Element} (hopen : e.openSpan.Placed s)
    (hattributes : ∀ a ∈ e.attributes, ∀ r ∈ a.spans, r.Placed s)
    (hclose : ∀ close ∈ e.closeSpan?, close.Placed s ∧ e.openSpan.start.offset ≤ close.stop.offset)
    {r : Span} (hr : r ∈ e.spans) : r.Placed s := by
  have hspan : e.span.Placed s := by
    unfold span
    split
    · exact hopen
    · rename_i close hc
      obtain ⟨hplaced, hle⟩ := hclose close hc
      exact hopen.join hplaced hle
  simp only [spans, List.cons_append, List.mem_cons, List.mem_append, Option.mem_toList,
    List.mem_flatMap] at hr
  rcases hr with rfl | rfl | hr | ⟨a, ha, hr⟩
  · exact hspan
  · exact hopen
  · exact (hclose r hr).1
  · exact hattributes a ha r hr

namespace Frame

/-- An open element and what is finished of its body are placed in a text. -/
structure Placed (s : Text) (f : Frame) : Prop where
  openSpan : f.openSpan.Placed s
  attributes : ∀ a ∈ f.attributes, ∀ r ∈ a.spans, r.Placed s
  children : Node.AllPlaced s f.children.toList

variable {t : Text} {f : Frame}

theorem Placed.mono (h : f.Placed t) (hts : t <+: s) : f.Placed s where
  openSpan := h.openSpan.mono hts
  attributes := fun a ha r hr => (h.attributes a ha r hr).mono hts
  children := h.children.mono hts

theorem Placed.append (h : f.Placed s) {nodes : List Node} (hnodes : Node.AllPlaced s nodes) :
    (f.append nodes).Placed s where
  openSpan := h.openSpan
  attributes := h.attributes
  children := by
    rw [toList_append]
    exact Node.allPlaced_append.mpr ⟨h.children, hnodes⟩

/-- An element that is closed at the end of a text. -/
theorem Placed.closeImplicitly (h : f.Placed s) :
    Node.AllPlaced s (f.closeImplicitly (Position.start.advance s)) := by
  have hend : (Position.start.advance s).Exact s := Position.exact_advance List.prefix_rfl
  unfold Frame.closeImplicitly
  split
  · refine Node.allPlaced_cons.mpr ⟨?_, Node.allPlaced_nil, h.children⟩
    intro r hr
    exact Element.placed_spans h.openSpan h.attributes (by simp [element, Element.closeSpan?]) hr
  · refine Node.allPlaced_cons.mpr ⟨?_, h.children, Node.allPlaced_nil⟩
    intro r hr
    refine Element.placed_spans h.openSpan h.attributes ?_ hr
    rintro close ⟨⟩
    refine ⟨Span.placed_point hend, ?_⟩
    have hle := Nat.le_trans h.openSpan.le h.openSpan.stop.offset_le
    simpa [element, Span.point, Position.start] using hle

theorem allPlaced_collapse {frames : List Frame} (h : ∀ f ∈ frames, f.Placed s) :
    Node.AllPlaced s (collapse (Position.start.advance s) frames) := by
  induction frames using List.reverseRecOn with
  | nil => exact Node.allPlaced_nil
  | append_singleton frames f ih =>
    rw [collapse_concat]
    have hinner := ih fun g hg => h g (List.mem_append_left [f] hg)
    exact ((h f (by simp)).append hinner).closeImplicitly

/-- An element whose close tag follows a text. -/
theorem Placed.close (h : f.Placed s) (text : Text) : Node.AllPlaced (s ++ text)
    [f.close text (.covering (Position.start.advance s) text)] := by
  have hlonger := h.mono (List.prefix_append s text)
  refine Node.allPlaced_cons.mpr ⟨?_, hlonger.children, Node.allPlaced_nil⟩
  intro r hr
  refine Element.placed_spans hlonger.openSpan hlonger.attributes ?_ hr
  rintro close ⟨⟩
  refine ⟨Span.placed_covering List.prefix_rfl, ?_⟩
  have hle := Nat.le_trans h.openSpan.le h.openSpan.stop.offset_le
  simp only [element, Span.covering, Position.offset_advance, Position.start]
  omega

end Frame

/-- An open tag is placed with its attributes, which lie inside it. -/
theorem Construct.Opens.placed {t tag : Text} {c : Construct} {attributes : List Attribute}
    {openSpan : Span}
    (h : c.Opens (.covering (Position.start.advance t) c.source) tag attributes openSpan) :
    openSpan.Placed (t ++ c.source) ∧
      ∀ a ∈ attributes, ∀ r ∈ a.spans, r.Placed (t ++ c.source) := by
  obtain ⟨name, parts, gap, slash, rfl, -, rfl, rfl⟩ := h
  refine ⟨Span.placed_covering List.prefix_rfl, ?_⟩
  intro a ha r hr
  refine placed_of_mem_tagAttributes ⟨gap ++ tagEnd slash, ?_⟩ ha hr
  simp [source]

/-- A node that a construct makes up alone. -/
theorem Node.placed_spans {t : Text} {c : Construct} {node : Node}
    (pieces : node.pieces = [⟨c.source, .covering (Position.start.advance t) c.source⟩])
    (closing : ∀ e, node.element? = some e → e.closing = .selfClosed)
    (origin : ∀ e, node.element? = some e → c.Opens
      (.covering (Position.start.advance t) c.source) e.tag e.attributes e.openSpan)
    {r : Span} (hr : r ∈ node.spans) : r.Placed (t ++ c.source) := by
  have hspan : (Span.covering (Position.start.advance t) c.source).Placed (t ++ c.source) :=
    Span.placed_covering List.prefix_rfl
  cases node with
  | element e children =>
    obtain ⟨hopen, hattributes⟩ := (origin e rfl).placed
    refine Element.placed_spans hopen hattributes ?_ hr
    simp [Element.closeSpan?, closing e rfl]
  | _ =>
    simp only [Node.pieces, List.cons.injEq, Located.mk.injEq, and_true] at pieces
    obtain rfl := List.mem_singleton.mp hr
    simpa [Node.span, pieces.2] using hspan

namespace Nesting

/-- Everything in a tree under construction is placed in the text that was read. -/
structure Placed (s : Text) (n : Nesting) : Prop where
  frames : ∀ f ∈ n.stack, f.Placed s
  roots : Node.AllPlaced s n.roots.toList
  problems : ∀ q ∈ n.problems.toList, q.span.Placed s

variable {t : Text} {n : Nesting}

theorem Placed.mono (h : n.Placed t) (hts : t <+: s) : n.Placed s where
  frames := fun f hf => (h.frames f hf).mono hts
  roots := h.roots.mono hts
  problems := fun q hq => (h.problems q hq).mono hts

theorem Placed.report (h : n.Placed s) {problems : List (Located Problem)}
    (hproblems : ∀ q ∈ problems, q.span.Placed s) : (n.report problems).Placed s where
  frames := h.frames
  roots := h.roots
  problems := by
    intro q hq
    obtain hq | hq : q ∈ n.problems.toList ∨ q ∈ problems := by simpa [Nesting.report] using hq
    · exact h.problems q hq
    · exact hproblems q hq

theorem Placed.append (h : n.Placed s) {nodes : List Node} (hnodes : Node.AllPlaced s nodes) :
    (n.append nodes).Placed s := by
  unfold Nesting.append
  split
  · refine ⟨by simp_all, ?_, h.problems⟩
    have hroots : (n.roots ++ nodes).toList = n.roots.toList ++ nodes := by simp
    rw [hroots]
    exact Node.allPlaced_append.mpr ⟨h.roots, hnodes⟩
  · rename_i f fs hstack
    refine ⟨?_, h.roots, h.problems⟩
    have hframes := h.frames
    rw [hstack] at hframes
    intro g hg
    rcases List.mem_cons.mp hg with rfl | hg
    · exact (hframes f List.mem_cons_self).append hnodes
    · exact hframes g (List.mem_cons_of_mem f hg)

theorem Placed.withStack (h : n.Placed s) {stack : List Frame} (hstack : ∀ f ∈ stack, f.Placed s) :
    Placed s { n with stack } := ⟨hstack, h.roots, h.problems⟩

/-- A construct adds nothing that is not placed in the text with it. -/
theorem placed_step (h : n.Placed t) (c : Construct) :
    (n.step ⟨c, .covering (Position.start.advance t) c.source⟩).Placed (t ++ c.source) := by
  have he := n.step_effect c (.covering (Position.start.advance t) c.source)
  have hspan : (Span.covering (Position.start.advance t) c.source).Placed (t ++ c.source) :=
    Span.placed_covering List.prefix_rfl
  have hreported : (n.report (c.faults (Position.start.advance t))).Placed (t ++ c.source) :=
    (h.mono (List.prefix_append t c.source)).report fun q hq =>
      c.placed_of_mem_faults List.prefix_rfl hq
  generalize n.step _ = m at he ⊢
  cases he with
  | node event pieces children closing origin =>
    refine hreported.append (Node.allPlaced_cons.mpr ⟨?_, ?_, Node.allPlaced_nil⟩)
    · exact fun r => Node.placed_spans pieces closing origin
    · rw [children]
      exact Node.allPlaced_nil
  | opened event text place children origin =>
    refine hreported.withStack ?_
    obtain ⟨hopen, hattributes⟩ := origin.placed
    rintro f hf
    rcases List.mem_cons.mp hf with rfl | hf
    · exact ⟨hopen, hattributes, by rw [children]; exact Node.allPlaced_nil⟩
    · exact hreported.frames f hf
  | @dropped tag event absent =>
    refine hreported.report ?_
    intro q hq
    rw [List.mem_singleton.mp hq]
    exact hspan
  | @closed tag inner outer frame event found =>
    obtain ⟨hstack, -⟩ := splitFrames?_eq_some found
    have hframes : ∀ f ∈ inner ++ frame :: outer, f.Placed t := by
      rw [← hstack]
      exact h.frames
    have hmismatch : ∀ q ∈ mismatch tag inner (.covering (Position.start.advance t) c.source),
        q.span.Placed (t ++ c.source) := by
      intro q hq
      unfold mismatch at hq
      split at hq
      · cases hq
      · rw [List.mem_singleton.mp hq]
        exact hspan
    refine ((hreported.report hmismatch).withStack ?_).append ?_
    · intro f hf
      exact (hframes f (by simp [hf])).mono (List.prefix_append t c.source)
    · have hinner := Frame.allPlaced_collapse fun f (hf : f ∈ inner) => hframes f (by simp [hf])
      exact ((hframes frame (by simp)).append hinner).close c.source

theorem placed_ofConstructs (cs : List Construct) :
    (ofConstructs cs).Placed (cs.flatMap Construct.source) := by
  refine ofConstructs_induction (P := fun cs n => n.Placed (cs.flatMap Construct.source)) ?_ ?_ cs
  · exact ⟨by simp, Node.allPlaced_nil, by simp⟩
  · intro cs n c h
    simpa using placed_step h c

theorem placed_of_mem_endingProblems {before : Text} {e : Ending} (h : e.Tidy)
    {q : Located Problem} (hq : q ∈ endingProblems (Position.start.advance before) e) :
    q.span.Placed (before ++ e.source) := by
  cases e with
  | clean => cases hq
  | openTag name parts text =>
    obtain ⟨-, rest, rfl⟩ := h
    rcases List.mem_append.mp hq with hq | hq
    · exact placed_of_mem_tagProblems ⟨rest, by simp [Ending.source]⟩ hq
    · rw [List.mem_singleton.mp hq]
      exact Span.placed_covering ⟨parts.flatMap TagPart.source ++ rest, by simp [Ending.source]⟩
  | closeTag name strays text =>
    obtain ⟨-, rest, rfl⟩ := h
    rcases List.mem_append.mp hq with hq | hq
    · exact placed_of_mem_closeTagProblems ⟨rest, by simp [Ending.source]⟩ hq
    · rw [List.mem_singleton.mp hq]
      exact Span.placed_covering ⟨strays.flatMap Stray.source ++ rest, by simp [Ending.source]⟩
  | expression text =>
    obtain ⟨rest, rfl⟩ := h
    rw [List.mem_singleton.mp hq]
    exact Span.placed_covering ⟨rest, by simp [Ending.source]⟩
  | comment opening text =>
    rw [List.mem_singleton.mp hq]
    cases opening with
    | none => exact Span.placed_covering List.prefix_rfl
    | some opening =>
      obtain ⟨rest, rfl⟩ := h
      exact Span.placed_covering ⟨rest, by simp [Ending.source]⟩

theorem allPlaced_endingNodes (before : Text) (e : Ending) :
    Node.AllPlaced (before ++ e.source) (endingNodes (Position.start.advance before) e) := by
  cases e with
  | clean => exact Node.allPlaced_nil
  | _ =>
    refine Node.allPlaced_cons.mpr ⟨?_, Node.allPlaced_nil, Node.allPlaced_nil⟩
    intro r hr
    rw [List.mem_singleton.mp hr]
    exact Span.placed_covering List.prefix_rfl

theorem Placed.closeAll (h : n.Placed s) : (n.closeAll (Position.start.advance s)).Placed s where
  frames := by
    intro f hf
    cases hf
  roots := by
    have hroots : (n.closeAll (Position.start.advance s)).roots.toList =
        n.roots.toList ++ Frame.collapse (Position.start.advance s) n.stack := by
      simp [Nesting.closeAll, Nesting.report]
    rw [hroots]
    exact Node.allPlaced_append.mpr ⟨h.roots, Frame.allPlaced_collapse h.frames⟩
  problems := by
    refine (h.report ?_).problems
    intro q hq
    obtain ⟨f, hf, rfl⟩ := List.mem_map.mp hq
    exact (h.frames f (List.mem_of_mem_filter hf)).openSpan

/-- Everything in the finished tree of a reading is placed in the template. -/
theorem placed_ofReading {r : Reading} (h : r.ending.Tidy) : (ofReading r).Placed r.source := by
  have hread : (ofConstructs r.constructs).Placed r.source :=
    (placed_ofConstructs r.constructs).mono (List.prefix_append _ _)
  have hproblems : ∀ q ∈ endingProblems r.endingStart r.ending, q.span.Placed r.source :=
    fun q => placed_of_mem_endingProblems h
  have hended := (hread.report hproblems).append
    (allPlaced_endingNodes (r.constructs.flatMap Construct.source) r.ending)
  rw [ofReading_eq, finish, r.endingStart_advance]
  exact hended.closeAll

theorem placed_ofText (d : Dialect) (s : Text) : (ofReading (.ofText d s)).Placed s := by
  have h := placed_ofReading (r := .ofText d s) (Reading.inRawText_tidy d none s).2
  rwa [Reading.source_ofText] at h

end Nesting

namespace Document

/-- Positions are a function of the offset everywhere: in tokens and their fragments, in nodes,
their attributes and close tags, in diagnostics, and in a cursor after any calls. They are ordered
by line and column as by their offset. -/
theorem spans_placed (d : Dialect) (name : Option String) (s : Text) :
    (∀ t ∈ tokenize d s, ∀ r ∈ t.spans, r.Placed s) ∧
    (∀ node ∈ Node.walk (parse d name s).children, ∀ r ∈ node.spans, r.Placed s) ∧
    (∀ x ∈ (parse d name s).diagnostics, x.span.Placed s) ∧
    (∀ calls, (Cursor.run { text := s } calls).position.Exact s) ∧
    ∀ p q : Position, p.Exact s → q.Exact s →
      (p.offset < q.offset ↔ p.line < q.line ∨ p.line = q.line ∧ p.column < q.column) := by
  have htidy : (Reading.ofText d s).ending.Tidy := (Reading.inRawText_tidy d none s).2
  have hplaced := Nesting.placed_ofReading htidy
  rw [Reading.source_ofText] at hplaced
  refine ⟨fun t ht r hr => placed_of_mem_tokenize d ht hr, hplaced.roots, ?_, ?_, ?_⟩
  · intro x hx
    obtain ⟨q, hq, rfl⟩ := (mem_diagnostics d name s).mp hx
    exact hplaced.problems q hq
  · intro calls
    have hstart : ({ text := s } : Cursor).position.Exact s :=
      Position.exact_advance List.nil_prefix
    exact Cursor.exact_run (c := { text := s }) hstart calls
  · intro p q hp hq
    exact hp.lt_iff hq

end Document

end StoreMarkup
