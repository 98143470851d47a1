import StoreMarkup.Proofs.Origins
import StoreMarkup.Proofs.Reparse

/-! A module tag may be left open: it means the same as with a slash at its end. -/
namespace StoreMarkup

open Node

namespace Frame

variable {f g : Frame} {p : Position}

/-- What an element that is left open leaves to the one around it. -/
def left (f : Frame) : List Node := .element (f.element .selfClosed) [] :: f.children.toList

theorem closeImplicitly_of_optional (h : closesOptionally f.tag = true) :
    f.closeImplicitly p = f.left := by
  simp [closeImplicitly, left, h]

theorem left_append (f : Frame) (nodes : List Node) : (f.append nodes).left = f.left ++ nodes := by
  simp [left, append, element]

theorem append_append (f : Frame) (xs ys : List Node) :
    (f.append xs).append ys = f.append (xs ++ ys) := by
  simp [append, appendList_appendList]

/-- The outermost of some frames, if it may be left open, leaves what the others leave. -/
theorem collapse_concat_left (h : closesOptionally g.tag = true) (inner : List Frame) :
    collapse p (inner ++ [g]) = g.left ++ collapse p inner := by
  rw [collapse_concat, closeImplicitly_of_optional (f := g.append _) h, left_append]

/-- Where frames are ended together, one that may be left open could have been ended before. -/
theorem collapse_left (h : closesOptionally g.tag = true) (inner outer : List Frame) (f : Frame) :
    collapse p (inner ++ g :: f :: outer) = collapse p (inner ++ f.append g.left :: outer) := by
  have hboth : (f.append ((g.append (collapse p inner)).closeImplicitly p)).closeImplicitly p =
      ((f.append g.left).append (collapse p inner)).closeImplicitly p := by
    rw [closeImplicitly_of_optional (f := g.append _) h, left_append, append_append]
  simp only [collapse, List.foldl_append, List.foldl_cons] at hboth ⊢
  rw [hboth]

theorem needed_left (h : closesOptionally g.tag = true) (inner outer : List Frame) :
    needed (inner ++ g :: outer) = needed (inner ++ outer) := by
  simp [needed, h]

end Frame

namespace Nesting

/-- A tree under construction with more open elements inside all others. -/
def within (base : Nesting) (inner : List Frame) : Nesting :=
  { base with stack := inner ++ base.stack }

/-- Two trees under construction, one with an element open that may be left open, the other without
it: it was ended there at once. No other element starts at the offset. -/
inductive LeftOpen (k : Nat) : Nesting → Nesting → Prop
  | intro (base : Nesting) (inner : List Frame) (g : Frame)
      (optional : closesOptionally g.tag = true)
      (others : (base.within inner).Each fun e => e.openSpan.start.offset ≠ k)
      (children : EachElement (fun e _ => e.openSpan.start.offset ≠ k) g.children.toList) :
      LeftOpen k (base.within (inner ++ [g])) ((base.append g.left).within inner)

variable {k : Nat} {n m base : Nesting}

theorem append_append (n : Nesting) (xs ys : List Node) :
    (n.append xs).append ys = n.append (xs ++ ys) := by
  cases h : n.stack <;> simp [append, h, appendList_appendList, Frame.append_append]

theorem LeftOpen.report (h : LeftOpen k n m) (problems : List (Located Problem)) :
    LeftOpen k (n.report problems) (m.report problems) := by
  obtain ⟨base, inner, g, optional, others, children⟩ := h
  have hreported := LeftOpen.intro (base.report problems) inner g optional
    ⟨others.frames, others.roots⟩ children
  rw [append_report] at hreported
  exact hreported

theorem LeftOpen.append (h : LeftOpen k n m) {nodes : List Node}
    (hnodes : EachElement (fun e _ => e.openSpan.start.offset ≠ k) nodes) :
    LeftOpen k (n.append nodes) (m.append nodes) := by
  obtain ⟨base, inner, g, optional, others, children⟩ := h
  cases inner with
  | nil =>
    -- The new nodes go to the element that is left open, and from it to the one around it.
    have hbody : EachElement (fun e _ => e.openSpan.start.offset ≠ k)
        (g.append nodes).children.toList := by
      rw [Frame.toList_append]
      exact eachElement_append.mpr ⟨children, hnodes⟩
    have happended := LeftOpen.intro base [] (g.append nodes) optional others hbody
    rw [Frame.left_append, ← append_append] at happended
    exact happended
  | cons f fs =>
    have happended := others.append (Frame.leaves_yields _) hnodes
    exact LeftOpen.intro base (f.append nodes :: fs) g optional happended children

theorem LeftOpen.push (h : LeftOpen k n m) {f : Frame} (hf : f.openSpan.start.offset ≠ k)
    (hchildren : f.children = #[]) :
    LeftOpen k { n with stack := f :: n.stack } { m with stack := f :: m.stack } := by
  obtain ⟨base, inner, g, optional, others, children⟩ := h
  exact LeftOpen.intro base (f :: inner) g optional (others.push (fun _ _ => hf) hchildren) children

section Close

theorem mismatch_congr {xs ys : List Frame} (h : Frame.needed xs = Frame.needed ys) (tag : Text)
    (span : Span) :
    mismatch tag xs span = mismatch tag ys span := by
  rw [mismatch, mismatch, h]

variable {inner i o : List Frame} {f : Frame} {tag text : Text} {span : Span}

/-- The close tag of an element inside. -/
theorem closeElement_within_of_some (h : splitFrames? tag inner = some (i, f, o)) :
    (base.within inner).closeElement tag text span =
      ((base.report (mismatch tag i span)).within o).append
      [(f.append (Frame.collapse span.start i)).close text span] :=
  closeElement_of_some _ (splitFrames?_append_of_some h) text span

/-- The close tag of an element around. -/
theorem closeElement_within_of_none (h : splitFrames? tag inner = none)
    (hbase : splitFrames? tag base.stack = some (i, f, o)) :
    (base.within inner).closeElement tag text span =
      append { base.report (mismatch tag (inner ++ i) span) with stack := o }
        [(f.append (Frame.collapse span.start (inner ++ i))).close text span] := by
  refine closeElement_of_some (base.within inner) ?_ text span
  rw [within, splitFrames?_append_of_none h, hbase]
  rfl

/-- The close tag of an element around ends the one that is left open, and then it is as if it had
been ended before. -/
theorem closeElement_around {g : Frame} (hg : closesOptionally g.tag = true) (htag : g.tag ≠ tag)
    (hinner : splitFrames? tag inner = none)
    (hbase : splitFrames? tag base.stack = some (i, f, o)) :
    (base.within (inner ++ [g])).closeElement tag text span =
      ((base.append g.left).within inner).closeElement tag text span := by
  have hskip : splitFrames? tag (inner ++ [g]) = none := by
    rw [splitFrames?_append_of_none hinner]
    simp [splitFrames?, htag]
  rw [closeElement_within_of_none hskip hbase]
  cases hstack : base.stack with
  | nil =>
    rw [hstack] at hbase
    cases hbase
  | cons h t =>
    have hadopted : base.append g.left = { base with stack := h.append g.left :: t } := by
      simp [Nesting.append, hstack]
    rw [hstack, splitFrames?] at hbase
    split at hbase
    · rename_i hhead
      cases hbase
      have hfound : splitFrames? tag (base.append g.left).stack =
          some ([], f.append g.left, o) := by
        rw [hadopted]
        exact if_pos hhead
      have hleft := Frame.collapse_concat_left (p := span.start) hg inner
      have hmismatch : mismatch tag (inner ++ [g]) span = mismatch tag inner span :=
        mismatch_congr (by simpa using Frame.needed_left hg inner []) tag span
      rw [closeElement_within_of_none hinner hfound]
      simp only [List.append_nil, hleft, hmismatch, Frame.append_append, hadopted]
      rfl
    · rename_i hhead
      obtain ⟨⟨i, f, o⟩, hs, he⟩ := Option.map_eq_some_iff.mp hbase
      cases he
      have hfound : splitFrames? tag (base.append g.left).stack =
          some (h.append g.left :: i, f, o) := by
        have hother : (h.append g.left).tag ≠ tag := hhead
        rw [hadopted, splitFrames?, if_neg hother, hs]
        rfl
      have hleft := Frame.collapse_left (p := span.start) hg inner i h
      have hmismatch : mismatch tag (inner ++ g :: h :: i) span =
          mismatch tag (inner ++ h.append g.left :: i) span :=
        mismatch_congr (by rw [Frame.needed_left hg]; simp [Frame.needed, Frame.append]) tag span
      rw [closeElement_within_of_none hinner hfound]
      simp only [List.append_assoc, List.singleton_append, hleft, hmismatch, hadopted]
      rfl

end Close

/-- Two trees under construction that end as the same, or an element that starts at the offset is
closed by its own tag in the first. -/
def Alike (k : Nat) (n m : Nesting) : Prop :=
  n = m ∨ LeftOpen k n m ∨ n.Each fun e => e.openSpan.start.offset = k → e.closing ≠ .selfClosed

theorem splitFrames?_stack_append {tag : Text} (h : splitFrames? tag base.stack = none)
    (nodes : List Node) :
    splitFrames? tag (base.append nodes).stack = none := by
  rw [splitFrames?_eq_none_iff] at h ⊢
  cases hstack : base.stack with
  | nil => simp [append, hstack]
  | cons f fs => simpa [append, hstack, Frame.append] using h

theorem LeftOpen.closeElement (h : LeftOpen k n m) (tag text : Text) (span : Span) :
    Alike k (n.closeElement tag text span) (m.closeElement tag text span) := by
  obtain ⟨base, inner, g, optional, others, children⟩ := h
  obtain ⟨hinner, houter⟩ := List.forall_mem_append.mp others.frames
  cases hsplit : splitFrames? tag inner with
  | some found =>
    obtain ⟨i, f, o⟩ := found
    obtain ⟨rfl, -⟩ := splitFrames?_eq_some hsplit
    obtain ⟨hi, hrest⟩ := List.forall_mem_append.mp hinner
    obtain ⟨⟨hyields, hchildren⟩, ho⟩ := List.forall_mem_cons.mp hrest
    have hopen := LeftOpen.intro (base.report (mismatch tag i span)) o g optional
      ⟨List.forall_mem_append.mpr ⟨ho, houter⟩, others.roots⟩ children
    rw [closeElement_within_of_some (splitFrames?_append_of_some hsplit),
      closeElement_within_of_some hsplit, ← append_report]
    exact Or.inr (Or.inl (hopen.append
      (Keeps.close (Frame.leaves_yields _) hi (fun _ => hyields _ (by simp)) hchildren)))
  | none =>
    by_cases htag : g.tag = tag
    · have hown : splitFrames? tag (inner ++ [g]) = some (inner, g, []) := by
        rw [splitFrames?_append_of_none hsplit]
        simp [splitFrames?, htag]
      have hbase : Each (fun e => e.openSpan.start.offset = k → e.closing ≠ .selfClosed)
          (base.report (mismatch tag inner span)) :=
        Each.mono (P := fun e => e.openSpan.start.offset ≠ k) ⟨houter, others.roots⟩ fun e he hk =>
          (he hk).elim
      rw [closeElement_within_of_some hown]
      have hleaves := Frame.leaves_yields fun e =>
        e.openSpan.start.offset = k → e.closing ≠ .selfClosed
      refine Or.inr (Or.inr (hbase.append hleaves (Keeps.close hleaves ?_ ?_ ?_)))
      · intro f hf
        obtain ⟨hyields, hchildren⟩ := hinner f hf
        exact ⟨fun closing hc hk => (hyields closing hc hk).elim,
          fun e cs he hk => (hchildren e cs he hk).elim⟩
      · intro _ _
        simp [Frame.element]
      · intro e cs he hk
        exact (children e cs he hk).elim
    · cases hbase : splitFrames? tag base.stack with
      | none =>
        have hn : splitFrames? tag (base.within (inner ++ [g])).stack = none := by
          rw [within, splitFrames?_append_of_none
            (by rw [splitFrames?_append_of_none hsplit]; simp [splitFrames?, htag]), hbase]
          rfl
        have hm : splitFrames? tag ((base.append g.left).within inner).stack = none := by
          rw [within, splitFrames?_append_of_none hsplit, splitFrames?_stack_append hbase]
          rfl
        rw [closeElement_of_none _ hn, closeElement_of_none _ hm]
        exact Or.inr (Or.inl ((LeftOpen.intro base inner g optional others children).report _))
      | some found => exact Or.inl (closeElement_around optional htag hsplit hbase)

theorem eachElement_leaf {P : Element → List Node → Prop} {node : Node} (h : node.element? = none)
    (hchildren : node.children = []) : EachElement P [node] := by
  refine eachElement_cons.mpr ⟨?_, by rw [hchildren]; exact eachElement_nil, eachElement_nil⟩
  rintro e cs rfl
  cases h

/-- A construct that starts elsewhere keeps two trees alike. -/
theorem alike_step (h : Alike k n m) {c : Located Construct} (hc : c.span.start.offset ≠ k) :
    Alike k (n.step c) (m.step c) := by
  obtain ⟨c, span⟩ := c
  rcases h with rfl | h | h
  · exact Or.inl rfl
  · cases c with
    | openTag name parts gap slash =>
      have hreported := h.report (tagProblems span.start name parts)
      refine Or.inr (Or.inl ?_)
      simp only [step, openTag, openElement]
      split
      · refine hreported.append (eachElement_cons.mpr ⟨?_, eachElement_nil, eachElement_nil⟩)
        rintro e cs ⟨⟩
        exact hc
      · exact hreported.push hc rfl
    | closeTag name strays gap =>
      exact (h.report (closeTagProblems span.start name strays)).closeElement _ _ span
    | _ => exact Or.inr (Or.inl (h.append (eachElement_leaf rfl rfl)))
  · refine Or.inr (Or.inr (each_step ?_ h))
    rintro e ⟨name, parts, gap, slash, -, -, -, -, hspan, -⟩ hk
    rw [hspan] at hk
    exact (hc hk).elim

theorem alike_foldl {cs : List (Located Construct)} (h : Alike k n m)
    (hcs : ∀ c ∈ cs, c.span.start.offset ≠ k) : Alike k (cs.foldl step n) (cs.foldl step m) := by
  induction cs generalizing n m with
  | nil => exact h
  | cons c cs ih =>
    obtain ⟨hc, hcs⟩ := List.forall_mem_cons.mp hcs
    exact ih (alike_step h hc) hcs

theorem openProblems_left {g : Frame} (h : closesOptionally g.tag = true)
    (inner outer : List Frame) :
    openProblems (inner ++ g :: outer) = openProblems (inner ++ outer) := by
  simp [openProblems, h]

theorem LeftOpen.closeAll (h : LeftOpen k n m) (stop : Position) :
    n.closeAll stop = m.closeAll stop := by
  obtain ⟨base, inner, g, optional, others, children⟩ := h
  cases hstack : base.stack with
  | nil =>
    have hcollapse := Frame.collapse_concat_left (p := stop) optional inner
    have hproblems := openProblems_left optional inner []
    rw [List.append_nil] at hproblems
    simp [Nesting.closeAll, within, Nesting.append, Nesting.report, hstack, hcollapse, hproblems,
      appendList_appendList]
  | cons f fs =>
    have hcollapse := Frame.collapse_left (p := stop) optional inner fs f
    have hproblems : openProblems (inner ++ g :: f :: fs) =
        openProblems (inner ++ f.append g.left :: fs) := by
      rw [openProblems_left optional]
      by_cases hf : closesOptionally f.tag = true <;> simp [openProblems, Frame.append, hf]
    simp [Nesting.closeAll, within, Nesting.append, Nesting.report, hstack, hcollapse, hproblems]

theorem alike_finish (h : Alike k n m) (p : Position) (e : Ending) : n.finish p e = m.finish p e ∨
    EachElement (fun e _ => e.openSpan.start.offset = k → e.closing ≠ .selfClosed)
      (n.finish p e).roots.toList := by
  rcases h with rfl | h | h
  · exact Or.inl rfl
  · exact Or.inl (((h.report _).append (eachElement_endingNodes p e)).closeAll _)
  · exact Or.inr (h.finish (Frame.leaves_yields _) p e)

end Nesting

end StoreMarkup
