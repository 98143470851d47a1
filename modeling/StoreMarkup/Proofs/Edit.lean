import StoreMarkup.Proofs.Diagnostics
import StoreMarkup.Proofs.Relabeling
import StoreMarkup.Proofs.Scanning

/-! Two templates with the same tree but for where its parts stand: a change of the places goes
through every step that builds the tree. -/
namespace StoreMarkup

/-- A change of a template as far as its tree shows it: where the points go, and how the open tag
that starts at a point is written afterwards. -/
structure Edit where
  move : Position → Position
  rewrite : Position → Text → Text := fun _ t => t

namespace Edit

variable (e : Edit)

def span (s : Span) : Span := ⟨e.move s.start, e.move s.stop⟩

def located {α : Type} (x : Located α) : Located α := ⟨x.value, e.span x.span⟩

def attr (a : Attribute) : Attribute :=
  { a with value := a.value.map (List.map e.located), span := e.span a.span }

def closing : Closing → Closing
  | .selfClosed => .selfClosed
  | .tag text s => .tag text (e.span s)
  | .implied p => .implied (e.move p)

def element (x : Element) : Element :=
  { tag := x.tag
    attributes := x.attributes.map e.attr
    openText := e.rewrite x.openSpan.start x.openText
    openSpan := e.span x.openSpan
    closing := e.closing x.closing }

mutual

/-- The tree at its new places. -/
def node : Node → Node
  | .text content s => .text content (e.span s)
  | .expression opening body closing s => .expression opening body closing (e.span s)
  | .comment opening content closing s => .comment opening content closing (e.span s)
  | .element x children => .element (e.element x) (nodes children)

def nodes : List Node → List Node
  | [] => []
  | x :: rest => node x :: nodes rest

end

@[simp] theorem nodes_eq (xs : List Node) : e.nodes xs = xs.map e.node := by
  induction xs with
  | nil => simp [nodes]
  | cons x xs ih => simp [nodes, ih]

@[simp] theorem node_element (x : Element) (children : List Node) :
    e.node (.element x children) = .element (e.element x) (children.map e.node) := by
  simp [node]

def frame (f : Frame) : Frame :=
  { tag := f.tag
    attributes := f.attributes.map e.attr
    openText := e.rewrite f.openSpan.start f.openText
    openSpan := e.span f.openSpan
    children := f.children.map e.node }

/-- The tree under construction at its new places. -/
def nesting (n : Nesting) : Nesting :=
  { stack := n.stack.map e.frame
    roots := n.roots.map e.node
    problems := n.problems.map e.located }

/-- All points of a text that starts at a point keep their distance to it. -/
def Rigid (p : Position) (t : Text) : Prop :=
  ∀ u v, t = u ++ v → e.move (p.advance u) = (e.move p).advance u

section Rigid

variable {e} {p : Position} {t u : Text}

theorem Rigid.left (h : e.Rigid p (t ++ u)) : e.Rigid p t := by
  rintro v w rfl
  exact h v (w ++ u) (List.append_assoc v w u)

theorem Rigid.move (h : e.Rigid p t) : e.move (p.advance t) = (e.move p).advance t :=
  h t [] (List.append_nil t).symm

theorem Rigid.right (h : e.Rigid p (t ++ u)) : e.Rigid (p.advance t) u := by
  rintro v w rfl
  have hall := h (t ++ v) w (List.append_assoc t v w).symm
  rw [h.left.move]
  simpa using hall

theorem Rigid.covering (h : e.Rigid p t) : e.span (.covering p t) = .covering (e.move p) t := by
  simp [span, Span.covering, h.move]

/-- Values that follow each other in a text are moved with it. -/
theorem Rigid.locate {α : Type} {source : α → Text} {as : List α}
    (h : e.Rigid p (as.flatMap source)) :
    locate source (e.move p) as = (locate source p as).map e.located := by
  induction as generalizing p with
  | nil => rfl
  | cons a as ih =>
    rw [List.flatMap_cons] at h
    have hrest := ih h.right
    rw [h.left.move] at hrest
    simp [StoreMarkup.locate, Span.covering, hrest, located, span, h.left.move]

theorem Rigid.mem_locate {α : Type} {source : α → Text} {as : List α}
    (h : e.Rigid p (as.flatMap source)) {x : Located α} (hx : x ∈ StoreMarkup.locate source p as) :
    e.Rigid x.span.start (source x.value) := by
  obtain ⟨left, right, rfl, hspan⟩ := exists_of_mem_locate hx
  rw [List.flatMap_append, List.flatMap_cons] at h
  rw [hspan]
  exact h.right.left

theorem Rigid.fragments {v : Value} (h : e.Rigid p v.text) :
    v.locatedFragments (e.move p) = (v.locatedFragments p).map e.located := by
  rw [Value.text, List.append_assoc] at h
  have hinner := h.right.left
  rw [Value.locatedFragments, Value.locatedFragments, ← h.left.move, hinner.locate]

theorem Rigid.attribute? {part : TagPart} (h : e.Rigid p part.source) :
    part.attribute? (e.move p) = (part.attribute? p).map e.attr := by
  cases part with
  | stray s fault => rfl
  | «attribute» gap name value =>
    cases value with
    | none =>
      have hgap : e.Rigid p (gap ++ name) := h
      simp only [TagPart.attribute?, Option.map_some, attr, Option.map_none]
      rw [hgap.right.covering, hgap.left.move]
    | some v =>
      have hall : e.Rigid p (gap ++ (name ++ v.lead ++ v.text)) := by
        simpa [TagPart.source] using h
      have hvalue : e.Rigid p (gap ++ name ++ v.lead ++ v.text) := h
      simp only [TagPart.attribute?, Option.map_some, attr]
      rw [hall.right.covering, hall.left.move, ← hvalue.right.fragments, hvalue.left.move]

theorem Rigid.problem? {part : TagPart} (tagName : Text) (h : e.Rigid p part.source) :
    part.problem? tagName (e.move p) = (part.problem? tagName p).map e.located := by
  cases part with
  | «attribute» gap name value => rfl
  | stray s fault =>
    have hstray : e.Rigid p (s.gap ++ s.text) := h
    simp only [TagPart.problem?, Option.map_some, located]
    rw [hstray.right.covering, hstray.left.move]

theorem Rigid.strayProblem {s : Stray} (h : e.Rigid p s.source) :
    s.problem (e.move p) = e.located (s.problem p) := by
  have hstray : e.Rigid p (s.gap ++ s.text) := h
  simp only [Stray.problem, located]
  rw [hstray.right.covering, hstray.left.move]

theorem Rigid.tagAttributes {name : Text} {parts : List TagPart}
    (h : e.Rigid p ('<' :: name ++ parts.flatMap TagPart.source)) :
    tagAttributes (e.move p) name parts = (tagAttributes p name parts).map e.attr := by
  rw [StoreMarkup.tagAttributes, StoreMarkup.tagAttributes, ← h.left.move, h.right.locate,
    List.filterMap_map, List.map_filterMap]
  refine List.filterMap_congr ?_
  intro part hpart
  exact (h.right.mem_locate hpart).attribute?

theorem Rigid.tagProblems {name : Text} {parts : List TagPart}
    (h : e.Rigid p ('<' :: name ++ parts.flatMap TagPart.source)) :
    tagProblems (e.move p) name parts = (tagProblems p name parts).map e.located := by
  rw [StoreMarkup.tagProblems, StoreMarkup.tagProblems, ← h.left.move, h.right.locate,
    List.filterMap_map, List.map_filterMap]
  refine List.filterMap_congr ?_
  intro part hpart
  exact (h.right.mem_locate hpart).problem? name

theorem Rigid.closeTagProblems {name : Text} {strays : List Stray}
    (h : e.Rigid p ('<' :: '/' :: name ++ strays.flatMap Stray.source)) :
    closeTagProblems (e.move p) name strays = (closeTagProblems p name strays).map e.located := by
  rw [StoreMarkup.closeTagProblems, StoreMarkup.closeTagProblems, ← h.left.move, h.right.locate,
    List.map_map, List.map_map]
  refine List.map_congr_left ?_
  intro stray hstray
  exact (h.right.mem_locate hstray).strayProblem

end Rigid

/-- A change of the places keeps the shape of the tree. -/
def relabeling : Relabeling where
  move := e.move
  span := e.span
  closeText text := text
  node := e.node
  frame := e.frame
  problem := e.located
  start_span _ := rfl
  tag_frame _ := rfl
  openSpan_frame _ := rfl
  frame_append f nodes := by simp [frame, Frame.append, Relabeling.map_append_list]
  node_close f text s := by simp [Frame.close, Frame.element, frame, element, closing]
  node_selfClosed f := by simp [Frame.element, frame, element, closing]
  map_closeImplicitly f p := by
    by_cases h : closesOptionally f.tag = true <;>
      simp [Frame.closeImplicitly, Frame.element, frame, element, closing, h]
  problem_of_mem _ _ _ := rfl

section Nestings

variable {e} {p : Position} (n : Nesting)

theorem nesting_append (xs : List Node) :
    e.nesting (n.append xs) = (e.nesting n).append (xs.map e.node) :=
  e.relabeling.nesting_append n xs

theorem nesting_report (problems : List (Located Problem)) :
    e.nesting (n.report problems) = (e.nesting n).report (problems.map e.located) :=
  e.relabeling.nesting_report n problems

theorem nesting_closeElement (tag text : Text) (s : Span) :
    e.nesting (n.closeElement tag text s) = (e.nesting n).closeElement tag text (e.span s) :=
  e.relabeling.nesting_closeElement n tag text s

theorem nesting_openElement (f : Frame) (slash : Bool) :
    e.nesting (n.openElement f slash) = (e.nesting n).openElement (e.frame f) slash :=
  e.relabeling.nesting_openElement n f slash

/-- The frame of an open tag that moves with all that stands inside it. -/
theorem frame_opened {name gap : Text} {parts : List TagPart} {slash : Bool}
    (h : e.Rigid p (Construct.source (.openTag name parts gap slash))) :
    e.frame { tag := canonicalName name
              attributes := tagAttributes p name parts
              openText := Construct.source (.openTag name parts gap slash)
              openSpan := .covering p (Construct.source (.openTag name parts gap slash)) } =
      { tag := canonicalName name
        attributes := tagAttributes (e.move p) name parts
        openText := e.rewrite p (Construct.source (.openTag name parts gap slash))
        openSpan := .covering (e.move p) (Construct.source (.openTag name parts gap slash)) } := by
  have hbody : e.Rigid p ('<' :: name ++ parts.flatMap TagPart.source) := h.left.left
  rw [hbody.tagAttributes, ← h.covering]
  simp [frame, Span.covering]

/-- A construct that moves as a whole, and is written as before, does the same to the tree at its
new places. -/
theorem nesting_step {c : Construct} (h : e.Rigid p c.source)
    (hwritten : e.rewrite p c.source = c.source) :
    e.nesting (n.step ⟨c, .covering p c.source⟩) =
      (e.nesting n).step ⟨c, .covering (e.move p) c.source⟩ := by
  have hspan := h.covering
  cases c with
  | text content => simp [Nesting.step, nesting_append, node, hspan]
  | expression body => simp [Nesting.step, nesting_append, node, hspan]
  | comment opening content closing => simp [Nesting.step, nesting_append, node, hspan]
  | openTag name parts gap slash =>
    have hbody : e.Rigid p ('<' :: name ++ parts.flatMap TagPart.source) := h.left.left
    have hframe := frame_opened h
    rw [hwritten] at hframe
    simp only [Nesting.step, Nesting.openTag, nesting_openElement, nesting_report]
    simp only [Span.covering] at hframe ⊢
    rw [hframe, hbody.tagProblems]
  | closeTag name strays gap =>
    have hbody : e.Rigid p ('<' :: '/' :: name ++ strays.flatMap Stray.source) := h.left.left
    simp only [Nesting.step, Nesting.closeTag, nesting_closeElement, nesting_report, hspan]
    simp only [Span.covering, hbody.closeTagProblems]

/-- Constructs that follow each other and move together. -/
theorem nesting_foldl {cs : List Construct} (h : e.Rigid p (cs.flatMap Construct.source))
    (hwritten : ∀ x ∈ locate Construct.source p cs,
      e.rewrite x.span.start x.value.source = x.value.source) :
    e.nesting ((locate Construct.source p cs).foldl Nesting.step n) =
      (locate Construct.source (e.move p) cs).foldl Nesting.step (e.nesting n) := by
  induction cs generalizing p n with
  | nil => rfl
  | cons c cs ih =>
    rw [List.flatMap_cons] at h
    have hrest := ih (n.step ⟨c, .covering p c.source⟩) h.right fun x hx =>
      hwritten x (List.mem_cons_of_mem _ hx)
    rw [nesting_step n h.left (hwritten _ List.mem_cons_self), h.left.move] at hrest
    exact hrest

theorem Rigid.endingProblems {ending : Ending} (h : e.Rigid p ending.source) (ht : ending.Tidy) :
    Nesting.endingProblems (e.move p) ending = (Nesting.endingProblems p ending).map e.located := by
  cases ending with
  | clean => rfl
  | openTag name parts text =>
    obtain ⟨-, rest, rfl⟩ := ht
    have hparts : e.Rigid p ('<' :: name ++ parts.flatMap TagPart.source) := h.left
    simp [Nesting.endingProblems, hparts.tagProblems, located, hparts.left.covering]
  | closeTag name strays text =>
    obtain ⟨-, rest, rfl⟩ := ht
    have hstrays : e.Rigid p ('<' :: '/' :: name ++ strays.flatMap Stray.source) := h.left
    simp [Nesting.endingProblems, hstrays.closeTagProblems, located, hstrays.left.covering]
  | expression text =>
    obtain ⟨rest, rfl⟩ := ht
    have hopening : e.Rigid p Delimiter.dollar.opening := h.left
    simp [Nesting.endingProblems, located, hopening.covering]
  | comment opening text =>
    cases opening with
    | none =>
      have hall : e.Rigid p text := h
      simp [Nesting.endingProblems, located, hall.covering]
    | some opening =>
      obtain ⟨rest, rfl⟩ := ht
      have hopening : e.Rigid p opening := h.left
      simp [Nesting.endingProblems, located, hopening.covering]

theorem Rigid.endingNodes {ending : Ending} (h : e.Rigid p ending.source) :
    Nesting.endingNodes (e.move p) ending = (Nesting.endingNodes p ending).map e.node := by
  cases ending with
  | clean => rfl
  | _ => simp [Nesting.endingNodes, node, h.covering]

theorem nesting_closeAll (q : Position) :
    e.nesting (n.closeAll q) = (e.nesting n).closeAll (e.move q) :=
  e.relabeling.nesting_closeAll n q

/-- The end of a template at its new place. -/
theorem nesting_finish {ending : Ending} (h : e.Rigid p ending.source) (ht : ending.Tidy) :
    e.nesting (n.finish p ending) = (e.nesting n).finish (e.move p) ending := by
  rw [Nesting.finish, Nesting.finish, nesting_closeAll, nesting_append, nesting_report,
    h.endingProblems ht, h.endingNodes, h.move]

end Nestings

theorem valueKind_attr (e : Edit) (a : Attribute) : (e.attr a).valueKind = a.valueKind := by
  obtain ⟨name, value, quote, source, span⟩ := a
  cases value with
  | none => rfl
  | some fragments =>
    have hvalue : ∀ f : Located Fragment, (e.located f).value = f.value := fun _ => rfl
    simp [Attribute.valueKind, Attribute.expressions, attr, List.filter_map,
      Function.comp_def, hvalue]

theorem toJson_attr (e : Edit) (a : Attribute) : (e.attr a).toJson false = a.toJson false := by
  have hkind := e.valueKind_attr a
  obtain ⟨name, value, quote, source, span⟩ := a
  simp only [Attribute.toJson, hkind]
  cases value with
  | none => rfl
  | some fragments =>
    have hfragments : (fragments.map e.located).map (Fragment.toJson false) =
        fragments.map (Fragment.toJson false) := by
      simp [Fragment.toJson, located, withSpan, Function.comp_def]
    simp [attr, withSpan, hfragments]

theorem toJson_node (e : Edit) (node : Node) (children : List Json) :
    (e.node node).toJson false children = node.toJson false children := by
  cases node with
  | element x xs =>
    have hclosing : (e.element x).selfClosing = x.selfClosing := by
      simp only [Element.selfClosing, element]
      cases x.closing <;> rfl
    have hattributes : (e.element x).attributes.map (Attribute.toJson false) =
        x.attributes.map (Attribute.toJson false) := by
      simp [element, toJson_attr, Function.comp_def]
    rw [node_element]
    simp only [Node.toJson, withSpan, hclosing, hattributes]
    rfl
  | _ => simp [Node.toJson, node, withSpan]

/-- Without places, a moved tree is exported as before. -/
theorem exportAll_map (e : Edit) (nodes : List Node) :
    Node.exportAll false (nodes.map e.node) = Node.exportAll false nodes := by
  induction nodes using Node.forest_induction with
  | nil => rfl
  | cons node rest inside after =>
    have hchildren : (e.node node).children = node.children.map e.node := by
      cases node <;> simp [Node.children, Edit.node]
    rw [List.map_cons, Node.exportAll_cons, Node.exportAll_cons, after, hchildren, inside,
      toJson_node]

def diagnostic (e : Edit) (x : Diagnostic) : Diagnostic := { x with span := e.span x.span }

theorem roots_nesting (e : Edit) (n : Nesting) :
    (e.nesting n).roots.toList = n.roots.toList.map e.node := by
  simp [nesting]

theorem diagnostics_nesting (e : Edit) (n : Nesting) (collector : Collector) :
    (e.nesting n).problems.toList.map (Problem.diagnostic collector) =
      (n.problems.toList.map (Problem.diagnostic collector)).map e.diagnostic := by
  simp only [nesting, Array.toList_map, List.map_map]
  rfl

/-- Diagnostics whose order stays are moved before or after they are sorted. -/
theorem inSourceOrder_map (e : Edit) {ds : List Diagnostic} (h : ∀ a ∈ ds, ∀ b ∈ ds,
      a.span.start.offset ≤ b.span.start.offset ↔
        (e.move a.span.start).offset ≤ (e.move b.span.start).offset) :
    Diagnostic.inSourceOrder (ds.map e.diagnostic) =
      (Diagnostic.inSourceOrder ds).map e.diagnostic := by
  refine (List.map_mergeSort ?_).symm
  intro a ha b hb
  exact decide_eq_decide.mpr (h a ha b hb)

end Edit

end StoreMarkup
