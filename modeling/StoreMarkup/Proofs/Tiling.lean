import StoreMarkup.Proofs.Lossless
import StoreMarkup.Proofs.Origins

/-! The children of an element tile its body, and the nodes of a document tile the template. -/
namespace StoreMarkup

/-- From one offset to another there are only dropped characters. -/
def Filled (dropped : List Span) (lo hi : Nat) : Prop :=
  lo ≤ hi ∧ ∀ i, lo ≤ i → i < hi → ∃ r ∈ dropped, r.covers i

/-- Regions in source order between two offsets, with only dropped characters around them. -/
def Tiles (dropped : List Span) (lo hi : Nat) : List Span → Prop
  | [] => Filled dropped lo hi
  | r :: rs =>
    Filled dropped lo r.start.offset ∧ r.start.offset ≤ r.stop.offset ∧
      Tiles dropped r.stop.offset hi rs

section Tiles

variable {dropped : List Span} {lo mid hi : Nat} {rs ts : List Span}

theorem Filled.refl (lo : Nat) : Filled dropped lo lo := by
  refine ⟨Nat.le_refl lo, ?_⟩
  intro i hl hh
  omega

theorem Filled.trans (h : Filled dropped lo mid) (h' : Filled dropped mid hi) :
    Filled dropped lo hi := by
  refine ⟨Nat.le_trans h.1 h'.1, ?_⟩
  intro i hl hh
  by_cases hm : i < mid
  · exact h.2 i hl hm
  · exact h'.2 i (by omega) hh

theorem Tiles.le (h : Tiles dropped lo hi rs) : lo ≤ hi := by
  induction rs generalizing lo with
  | nil => exact h.1
  | cons r rs ih => exact Nat.le_trans (Nat.le_trans h.1.1 h.2.1) (ih h.2.2)

theorem Tiles.widen (h : Tiles dropped lo mid rs) (h' : Filled dropped mid hi) :
    Tiles dropped lo hi rs := by
  induction rs generalizing lo with
  | nil => exact h.trans h'
  | cons r rs ih => exact ⟨h.1, h.2.1, ih h.2.2⟩

theorem Tiles.prepend (h : Filled dropped lo mid) (h' : Tiles dropped mid hi rs) :
    Tiles dropped lo hi rs := by
  cases rs with
  | nil => exact h.trans h'
  | cons r rs => exact ⟨h.trans h'.1, h'.2⟩

theorem tiles_append :
    Tiles dropped lo hi (rs ++ ts) ↔ ∃ mid, Tiles dropped lo mid rs ∧ Tiles dropped mid hi ts := by
  constructor
  · intro h
    induction rs generalizing lo with
    | nil => exact ⟨lo, .refl lo, h⟩
    | cons r rs ih =>
      obtain ⟨mid, hr, ht⟩ := ih h.2.2
      exact ⟨mid, ⟨h.1, h.2.1, hr⟩, ht⟩
  · rintro ⟨mid, hr, ht⟩
    induction rs generalizing lo with
    | nil => exact ht.prepend hr
    | cons r rs ih => exact ⟨hr.1, hr.2.1, ih hr.2.2⟩

theorem Tiles.mono {others : List Span} (hsub : ∀ r ∈ dropped, r ∈ others)
    (h : Tiles dropped lo hi rs) : Tiles others lo hi rs := by
  have hfilled : ∀ {lo hi}, Filled dropped lo hi → Filled others lo hi := by
    rintro lo hi ⟨hle, hf⟩
    refine ⟨hle, ?_⟩
    intro i hl hh
    obtain ⟨r, hr, hc⟩ := hf i hl hh
    exact ⟨r, hsub r hr, hc⟩
  induction rs generalizing lo with
  | nil => exact hfilled h
  | cons r rs ih => exact ⟨hfilled h.1, h.2.1, ih h.2.2⟩

end Tiles

/-- Pieces that are kept tile the text around what is dropped. -/
theorem Laid.tiles {s : Text} {ps : List (Located Text)} {ds : List Span} (h : Laid s ps ds) :
    Tiles ds 0 s.length (ps.map Located.span) := by
  induction h with
  | start => exact .refl 0
  | keep t _ ih =>
    rw [List.map_append, tiles_append]
    refine ⟨_, ih, ?_⟩
    simp [Tiles, Span.covering, Position.start, Filled.refl]
  | drop t _ ih =>
    refine (ih.mono ?_).widen ⟨by simp, ?_⟩
    · intro r hr
      exact List.mem_append_left _ hr
    · intro i hl hh
      refine ⟨_, List.mem_append_right _ (List.mem_singleton.mpr rfl), ?_⟩
      simp [Span.covers, Span.covering, Position.start] at hh ⊢
      omega

namespace Node

/-- An element that ends with its open tag has no children. -/
def Regular (e : Element) (children : List Node) : Prop := e.closing = .selfClosed → children = []

/-- However the body of an element grew: if it ends with its open tag after all, it leaves that to
its parent. -/
theorem leaves_regular : Frame.Leaves (fun _ => True) Regular where
  append _ h := h
  selfClosed _ _ _ := rfl
  implied _ _ _ _ hclosing := by cases hclosing

end Node

namespace Nesting

open Node

theorem regular_ofReading (r : Reading) : EachElement Regular (ofReading r).roots.toList := by
  have hkept : (r.located.foldl step {}).Keeps (fun _ => True) Regular := by
    refine keeps_empty.foldl ?_
    intro x _ m hm
    refine hm.step leaves_regular ?_ ?_ ?_
    · intro _ _ _ _ _ _
      rfl
    · intros
      trivial
    · intro _ _ _ _ hclosing
      cases hclosing
  exact hkept.finish leaves_regular r.endingStart r.ending

end Nesting

/-- The body of an element from the end of its open tag to the start of its close tag is tiled by
its children. -/
def Node.BodyTiled (dropped : List Span) (e : Element) (children : List Node) : Prop :=
  ∀ close, e.closeSpan? = some close →
    Tiles dropped e.openSpan.stop.offset close.start.offset (children.map Node.span)

/-- An open tag, a body and a close tag tile a region if the body tiles what is between the tags. -/
theorem tiles_between {dropped : List Span} {lo hi : Nat} {first last : Span} {rs : List Span} :
    Tiles dropped lo hi (first :: rs ++ [last]) ↔
      Filled dropped lo first.start.offset ∧ first.start.offset ≤ first.stop.offset ∧
        Tiles dropped first.stop.offset last.start.offset rs ∧
        last.start.offset ≤ last.stop.offset ∧ Filled dropped last.stop.offset hi := by
  rw [List.cons_append, Tiles, tiles_append]
  constructor
  · rintro ⟨hlo, hfirst, mid, hrs, hgap, hlast, hhi⟩
    exact ⟨hlo, hfirst, hrs.widen hgap, hlast, hhi⟩
  · rintro ⟨hlo, hfirst, hrs, hlast, hhi⟩
    exact ⟨hlo, hfirst, _, hrs, .refl _, hlast, hhi⟩

namespace Node

theorem closing_of_closeSpan?_eq_none {e : Element} (h : e.closeSpan? = none) :
    e.closing = .selfClosed := by
  cases hc : e.closing with
  | selfClosed => rfl
  | _ => simp [Element.closeSpan?, hc] at h

theorem tiles_leaf {dropped : List Span} {lo hi : Nat} {node : Node} (hleaf : node.element? = none)
    (h : Tiles dropped lo hi (node.pieces.map Located.span)) : Tiles dropped lo hi [node.span] := by
  cases node with
  | element e cs => cases hleaf
  | _ => simpa [pieces, span] using h

/-- An element reaches from its open tag to its close tag, around what tiles its body. -/
theorem tiles_element {dropped : List Span} {lo hi : Nat} {e : Element} {cs : List Node}
    (hr : Regular e cs) (h : Tiles dropped lo hi ((element e cs).pieces.map Located.span)) :
    Tiles dropped lo hi [e.span] ∧ ∀ close, e.closeSpan? = some close →
      Tiles dropped e.openSpan.stop.offset close.start.offset
        ((piecesAll cs).map Located.span) := by
  cases hclose : e.closeSpan? with
  | none =>
    obtain rfl := hr (closing_of_closeSpan?_eq_none hclose)
    refine ⟨?_, by nofun⟩
    simpa [pieces, hclose, Element.span] using h
  | some close =>
    simp only [pieces, hclose, Option.map_some, Option.toList_some, List.map_append,
      List.map_cons, List.map_nil] at h
    obtain ⟨hlo, hopen, hbody, hend, hhi⟩ := tiles_between.mp h
    refine ⟨?_, ?_⟩
    · have := hbody.le
      simp only [Element.span, hclose]
      exact ⟨hlo, by simp only; omega, hhi⟩
    · rintro _ ⟨⟩
      exact hbody

/-- Where the pieces of a forest tile a region, so do its nodes, and so on inside each element. -/
theorem tiles_of_pieces {dropped : List Span} {lo hi : Nat} {nodes : List Node}
    (hr : EachElement Regular nodes)
    (h : Tiles dropped lo hi ((piecesAll nodes).map Located.span)) :
    Tiles dropped lo hi (nodes.map span) ∧ EachElement (BodyTiled dropped) nodes := by
  induction nodes using forest_induction generalizing lo hi with
  | nil => exact ⟨by simpa using h, eachElement_nil⟩
  | cons node rest inside after =>
    obtain ⟨hnode, hin, hrest⟩ := eachElement_cons.mp hr
    rw [piecesAll_cons, List.map_append, tiles_append] at h
    obtain ⟨mid, hpieces, hafter⟩ := h
    obtain ⟨htail, hbodies⟩ := after hrest hafter
    rw [List.map_cons, ← List.singleton_append, tiles_append, eachElement_cons]
    cases node with
    | element e cs =>
      obtain ⟨helement, hbody⟩ := tiles_element (hnode e cs rfl) hpieces
      refine ⟨⟨mid, helement, htail⟩, ?_, ?_, hbodies⟩
      · rintro _ _ ⟨⟩ close hc
        exact (inside hin (hbody close hc)).1
      · cases hclose : e.closeSpan? with
        | none =>
          obtain rfl := hnode e cs rfl (closing_of_closeSpan?_eq_none hclose)
          exact eachElement_nil
        | some close => exact (inside hin (hbody close hclose)).2
    | _ =>
      refine ⟨⟨mid, tiles_leaf rfl hpieces, htail⟩, ?_, eachElement_nil, hbodies⟩
      rintro e cs ⟨⟩

/-- The open tag of an element is one of the pieces of the forest around it. -/
theorem openTag_mem_piecesAll (nodes : List Node) :
    EachElement (fun e _ => ⟨e.openText, e.openSpan⟩ ∈ piecesAll nodes) nodes := by
  induction nodes using forest_induction with
  | nil => exact eachElement_nil
  | cons node rest inside after =>
    refine eachElement_cons.mpr ⟨?_, ?_, ?_⟩
    · rintro e cs rfl
      simp [pieces]
    · intro e cs he
      cases node with
      | element f fs =>
        have hin : _ ∈ piecesAll fs := inside e cs he
        simp [pieces, hin]
      | _ => simp [children] at he
    · intro e cs he
      have hafter := after e cs he
      simp [hafter]

end Node

theorem Laid.length_of_mem {s : Text} {ps : List (Located Text)} {ds : List Span}
    (h : Laid s ps ds) {piece : Located Text} (hp : piece ∈ ps) :
    piece.span.stop.offset = piece.span.start.offset + piece.value.length := by
  induction h with
  | start => cases hp
  | keep t _ ih =>
    rcases List.mem_append.mp hp with hp | hp
    · exact ih hp
    · obtain rfl := List.mem_singleton.mp hp
      simp [Span.covering]
  | drop t _ ih => exact ih hp

theorem Element.start_span (e : Element) : e.span.start = e.openSpan.start := by
  unfold span
  split <;> rfl

theorem Element.closeSpan?_of_not_selfClosing {e : Element} (h : e.selfClosing = false) :
    ∃ close, e.closeSpan? = some close ∧ e.span.stop = close.stop := by
  cases hc : e.closing <;> simp_all [selfClosing, span, closeSpan?]

/-- Each region starts where the one before it ends, and they reach from one offset to another. -/
def Contiguous (lo hi : Nat) : List Span → Prop
  | [] => lo = hi
  | r :: rs => r.start.offset = lo ∧ Contiguous r.stop.offset hi rs

/-- Regions in source order that do not overlap and lie between two offsets, where every other
character between the offsets was dropped. -/
structure Tiling (dropped : List Span) (lo hi : Nat) (rs : List Span) : Prop where
  ordered : rs.Pairwise fun a b => a.stop.offset ≤ b.start.offset
  inside : ∀ r ∈ rs, lo ≤ r.start.offset ∧ r.start.offset ≤ r.stop.offset ∧ r.stop.offset ≤ hi
  covered : ∀ i, lo ≤ i → i < hi → (∃ r ∈ rs, r.covers i) ∨ ∃ r ∈ dropped, r.covers i
  contiguous : dropped = [] → Contiguous lo hi rs

namespace Tiles

variable {dropped : List Span} {lo hi : Nat} {rs : List Span}

theorem inside (h : Tiles dropped lo hi rs) :
    ∀ r ∈ rs, lo ≤ r.start.offset ∧ r.start.offset ≤ r.stop.offset ∧ r.stop.offset ≤ hi := by
  induction rs generalizing lo with
  | nil => simp
  | cons r rs ih =>
    obtain ⟨hgap, hr, hrs⟩ := h
    intro t ht
    rcases List.mem_cons.mp ht with rfl | ht
    · exact ⟨hgap.1, hr, hrs.le⟩
    · obtain ⟨hlo, hlen, hhi⟩ := ih hrs t ht
      exact ⟨Nat.le_trans (Nat.le_trans hgap.1 hr) hlo, hlen, hhi⟩

theorem ordered (h : Tiles dropped lo hi rs) :
    rs.Pairwise fun a b => a.stop.offset ≤ b.start.offset := by
  induction rs generalizing lo with
  | nil => exact .nil
  | cons r rs ih =>
    obtain ⟨_, _, hrs⟩ := h
    refine .cons ?_ (ih hrs)
    intro t ht
    exact (hrs.inside t ht).1

theorem covered (h : Tiles dropped lo hi rs) {i : Nat} (hl : lo ≤ i) (hh : i < hi) :
    (∃ r ∈ rs, r.covers i) ∨ ∃ r ∈ dropped, r.covers i := by
  induction rs generalizing lo with
  | nil => exact Or.inr (h.2 i hl hh)
  | cons r rs ih =>
    obtain ⟨hgap, _, hrs⟩ := h
    by_cases hbefore : i < r.start.offset
    · exact Or.inr (hgap.2 i hl hbefore)
    · by_cases hin : i < r.stop.offset
      · exact Or.inl ⟨r, List.mem_cons_self, by simp [Span.covers]; omega⟩
      · rcases ih hrs (by omega) with ⟨t, ht, hc⟩ | hdropped
        · exact Or.inl ⟨t, List.mem_cons_of_mem r ht, hc⟩
        · exact Or.inr hdropped

theorem contiguous (h : Tiles [] lo hi rs) : Contiguous lo hi rs := by
  have hfilled : ∀ {lo hi}, Filled [] lo hi → lo = hi := by
    rintro lo hi ⟨hle, hf⟩
    rcases Nat.lt_or_ge lo hi with hlt | hge
    · obtain ⟨r, hr, _⟩ := hf lo (Nat.le_refl lo) hlt
      cases hr
    · omega
  induction rs generalizing lo with
  | nil => exact hfilled h
  | cons r rs ih => exact ⟨(hfilled h.1).symm, ih h.2.2⟩

theorem tiling (h : Tiles dropped lo hi rs) : Tiling dropped lo hi rs where
  ordered := h.ordered
  inside := h.inside
  covered _ hl hh := h.covered hl hh
  contiguous hnone := by
    subst hnone
    exact h.contiguous

end Tiles

/-- The open tag of an element is as long as its text. -/
theorem Document.stop_openSpan (d : Dialect) (name : Option String) (s : Text) :
    Node.EachElement
      (fun e _ => e.openSpan.stop.offset = e.span.start.offset + e.openText.length)
      (parse d name s).children := by
  intro e children he
  rw [e.start_span]
  exact (Nesting.laid_ofReading (.ofText d s)).length_of_mem
    (Node.openTag_mem_piecesAll _ e children he)

/-- The top-level nodes tile the template, and the children of an element tile its body. -/
theorem Document.children_tile (d : Dialect) (name : Option String) (s : Text) :
    Tiling ((parse d name s).regions .unexpectedClosingTag) 0 s.length
        ((parse d name s).children.map Node.span) ∧
      ∀ e children, .element e children ∈ Node.walk (parse d name s).children →
        e.selfClosing = false → ∃ close, e.closeSpan? = some close ∧ e.span.stop = close.stop ∧
          Tiling ((parse d name s).regions .unexpectedClosingTag)
            (e.span.start.offset + e.openText.length) close.start.offset
            (children.map Node.span) := by
  have hlaid := Nesting.laid_ofReading (.ofText d s)
  rw [Reading.source_ofText] at hlaid
  have hpieces : Tiles ((parse d name s).regions .unexpectedClosingTag) 0 s.length
      ((Node.piecesAll (parse d name s).children).map Located.span) := by
    refine hlaid.tiles.mono ?_
    intro r hr
    exact (regions_perm d name s .unexpectedClosingTag).mem_iff.mpr hr
  obtain ⟨hroots, hbodies⟩ :=
    Node.tiles_of_pieces (Nesting.regular_ofReading (.ofText d s)) hpieces
  refine ⟨hroots.tiling, ?_⟩
  intro e children he hself
  obtain ⟨close, hclose, hstop⟩ := e.closeSpan?_of_not_selfClosing hself
  refine ⟨close, hclose, hstop, ?_⟩
  rw [← stop_openSpan d name s e children he]
  exact (hbodies e children he close hclose).tiling

/-- A paragraph whose two texts stand around a close tag that ends nothing. -/
theorem Document.children_tile_around_stray : ∃ e children close,
    .element e children ∈ Node.walk (parse {} none "<p>a</i>b</p>".toList).children ∧
      e.selfClosing = false ∧ children.length = 2 ∧ e.closeSpan? = some close ∧
      Tiling ((parse {} none "<p>a</i>b</p>".toList).regions .unexpectedClosingTag)
        (e.span.start.offset + e.openText.length) close.start.offset
        (children.map Node.span) := by
  have hfound : ((Node.walk (parse {} none "<p>a</i>b</p>".toList).children).any fun node =>
      node.element?.any fun e => !e.selfClosing && node.children.length == 2) = true := by
    decide +kernel
  obtain ⟨node, hnode, he⟩ := List.any_eq_true.mp hfound
  cases node with
  | element e children =>
    obtain ⟨hself, hlength⟩ : e.selfClosing = false ∧ children.length = 2 := by
      simpa [Node.element?, Node.children] using he
    obtain ⟨close, hclose, _, htiling⟩ :=
      (children_tile {} none "<p>a</i>b</p>".toList).2 e children hnode hself
    exact ⟨e, children, close, hnode, hself, hlength, hclose, htiling⟩
  | _ => cases he

end StoreMarkup
