import StoreMarkup.Proofs.Balance
import StoreMarkup.Proofs.Diagnostics
import StoreMarkup.Proofs.Lexing
import StoreMarkup.Proofs.Origins

/-! Raw text in the lexer and in the tree: the lexer counts on its own, and as long as all tags nest
it knows of the same script or style as the stack of open elements. -/
namespace StoreMarkup

section Names

variable {name tag : Text}

theorem isIsmlTag_iff :
    isIsmlTag name = true ↔ ∃ rest, canonicalName name = 'i' :: 's' :: rest := by
  have h : "is".toList = ['i', 's'] := rfl
  rw [isIsmlTag, h, List.isPrefixOf_iff_prefix]
  constructor
  · rintro ⟨rest, hr⟩
    exact ⟨rest, hr.symm⟩
  · rintro ⟨rest, hr⟩
    exact ⟨rest, hr.symm⟩

/-- The lower case of an ISML name is an ISML name. -/
theorem isIsmlTag_canonicalName (h : isIsmlTag name = true) :
    isIsmlTag (canonicalName name) = true := by
  obtain ⟨rest, hr⟩ := isIsmlTag_iff.mp h
  rw [hr]
  exact isIsmlTag_iff.mpr ⟨lowerAfter ['s', 'i'] rest, rfl⟩

theorem isVoid_canonicalName (h : isVoid name = true) : isVoid (canonicalName name) = true := by
  have hempty : ∀ t ∈ emptyTags, isVoid t = true := by decide
  have hhtml : ∀ t ∈ htmlVoidTags, isVoid t = true := by decide
  rw [isVoid, Bool.or_eq_true, List.contains_iff_mem, List.contains_iff_mem] at h
  rcases h with h | h
  · exact hempty _ h
  · exact hhtml _ h

/-- An element with raw text has a body and needs its close tag. -/
theorem kind_of_raw (h : tag ∈ rawTextTags) :
    isIsmlTag tag = false ∧ isVoid tag = false ∧ closesOptionally tag = false := by
  revert tag
  decide

theorem not_raw_of_isml (h : isIsmlTag tag = true) : tag ∉ rawTextTags := by
  intro hraw
  rw [(kind_of_raw hraw).1] at h
  cases h

end Names

section Closing

variable {tag : Text} {tags rest : List Text}

theorem mem_of_closeNearest? (h : closeNearest? tag tags = some rest) {t : Text} (ht : t ∈ rest) :
    t ∈ tags := by
  induction tags with
  | nil => cases h
  | cons u us ih =>
    rw [closeNearest?] at h
    split at h
    · cases h
      exact List.mem_cons_of_mem u ht
    · split at h
      · exact List.mem_cons_of_mem u (ih h)
      · cases h

/-- The nearest element of a name is the one with no other of its name inside. -/
theorem closeNearest?_first {inner outer : List Text} (hinner : ∀ t ∈ inner, t ≠ tag)
    (h : closeNearest? tag (inner ++ tag :: outer) = some rest) : rest = outer := by
  induction inner with
  | nil =>
    simp only [List.nil_append, closeNearest?, if_true] at h
    exact (Option.some.inj h).symm
  | cons u us ih =>
    have hus : ∀ t ∈ us, t ≠ tag := fun t ht => hinner t (List.mem_cons_of_mem u ht)
    rw [List.cons_append, closeNearest?, if_neg (hinner u List.mem_cons_self)] at h
    split at h
    · exact ih hus h
    · cases h

/-- No close tag reaches beyond an element that needs its own. -/
theorem closeNearest?_inside {stop : Text} {inner outer : List Text} (hne : stop ≠ tag)
    (hstop : closesOptionally stop = false)
    (h : closeNearest? tag (inner ++ stop :: outer) = some rest) :
    ∃ left, rest = left ++ stop :: outer ∧ left.length < inner.length ∧ ∀ t ∈ left, t ∈ inner := by
  induction inner with
  | nil => simp [closeNearest?, hne, hstop] at h
  | cons u us ih =>
    rw [List.cons_append, closeNearest?] at h
    split at h
    · cases h
      exact ⟨us, rfl, by simp, fun t ht => List.mem_cons_of_mem u ht⟩
    · split at h
      · obtain ⟨left, hrest, hlength, hmem⟩ := ih h
        exact ⟨left, hrest, Nat.lt_succ_of_lt hlength,
          fun t ht => List.mem_cons_of_mem u (hmem t ht)⟩
      · cases h

end Closing

/-- A tag that is read as one in this raw text, if any. -/
def Construct.Recognized (d : Dialect) (raw : Option RawText) : Construct → Prop
  | openTag name _ _ _ => recognizes d raw name false = true
  | closeTag name _ _ => recognizes d raw name true = true
  | _ => True

namespace RawText

/-- The raw text that a lexer is in agrees with the names of the open elements, innermost first: it
is the only element of its kind that is open, and inside it there are only ISML elements, not more
than were counted. -/
def Agrees (raw : Option RawText) (tags : List Text) : Prop :=
  match raw with
  | none => ∀ t ∈ tags, t ∉ rawTextTags
  | some r => r.tag ∈ rawTextTags ∧ ∃ inner outer, tags = inner ++ r.tag :: outer ∧
      (∀ t ∈ inner, isIsmlTag t = true) ∧ (∀ t ∈ outer, t ∉ rawTextTags) ∧ inner.length ≤ r.depth

variable {d : Dialect} {raw : Option RawText} {tags rest : List Text} {name : Text}

/-- An open tag without a slash. -/
theorem agrees_afterOpen (hname : recognizes d raw name false = true) (h : Agrees raw tags)
    (hrest : rest = if isVoid (canonicalName name) then tags else canonicalName name :: tags) :
    Agrees (afterOpen d raw name) rest := by
  cases raw with
  | none =>
    by_cases hraw : canonicalName name ∈ rawTextTags
    · -- Without HTML tags only ISML tags are read, and none of them has raw text.
      have hhtml : d.htmlTags = true := by
        by_contra hno
        have hisml : isIsmlTag name = true := by simpa [recognizes, hno] using hname
        exact not_raw_of_isml (isIsmlTag_canonicalName hisml) hraw
      rw [(kind_of_raw hraw).2.1] at hrest
      simp only [afterOpen, hhtml, List.contains_iff_mem.mpr hraw, Bool.and_self, if_true]
      exact ⟨hraw, [], tags, hrest, by simp, h, Nat.le_refl 0⟩
    · have hafter : afterOpen d none name = none := by simp [afterOpen, hraw]
      rw [hafter, hrest]
      intro t ht
      split at ht
      · exact h t ht
      · rcases List.mem_cons.mp ht with rfl | ht
        · exact hraw
        · exact h t ht
  | some r =>
    obtain ⟨hraw, inner, outer, rfl, hinner, houter, hdepth⟩ := h
    have hisml : isIsmlTag name = true := by simpa [recognizes] using hname
    by_cases hvoid : isVoid (canonicalName name) = true
    · rw [if_pos hvoid] at hrest
      unfold afterOpen
      dsimp only
      split
      · exact ⟨hraw, inner, outer, hrest, hinner, houter, Nat.le_succ_of_le hdepth⟩
      · exact ⟨hraw, inner, outer, hrest, hinner, houter, hdepth⟩
    · have hbody : isVoid name = false := by
        by_contra hno
        exact hvoid (isVoid_canonicalName (by simpa using hno))
      rw [if_neg hvoid] at hrest
      simp only [afterOpen, hisml, hbody, Bool.not_false, Bool.and_self, if_true]
      refine ⟨hraw, canonicalName name :: inner, outer, hrest, ?_, houter, Nat.succ_le_succ hdepth⟩
      intro t ht
      rcases List.mem_cons.mp ht with rfl | ht
      · exact isIsmlTag_canonicalName hisml
      · exact hinner t ht

theorem agrees_afterClose (hname : recognizes d raw name true = true) (h : Agrees raw tags)
    (hrest : closeNearest? (canonicalName name) tags = some rest) :
    Agrees (afterClose raw name) rest := by
  cases raw with
  | none =>
    intro t ht
    exact h t (mem_of_closeNearest? hrest ht)
  | some r =>
    obtain ⟨hraw, inner, outer, rfl, hinner, houter, hdepth⟩ := h
    unfold afterClose
    dsimp only
    split
    · rename_i heq
      -- The raw text ends with its own element, and there is no other of the kind.
      have hne : ∀ t ∈ inner, t ≠ canonicalName name := by
        rintro t ht rfl
        exact not_raw_of_isml (hinner _ ht) (heq ▸ hraw)
      rw [← heq] at hrest
      rw [closeNearest?_first hne hrest]
      exact houter
    · rename_i hne
      have hisml : isIsmlTag name = true := by simpa [recognizes, hne] using hname
      obtain ⟨left, rfl, hlength, hmem⟩ :=
        closeNearest?_inside (Ne.symm hne) (kind_of_raw hraw).2.2 hrest
      rw [if_pos hisml]
      cases hr : r.depth with
      | zero => omega
      | succ depth =>
        refine ⟨hraw, left, outer, rfl, fun t ht => hinner t (hmem t ht), houter, ?_⟩
        simp only
        omega

/-- A construct that nests keeps the lexer and the open elements in agreement. -/
theorem agrees_after {c : Construct} (hc : c.Recognized d raw) (h : Agrees raw tags)
    (hrest : openAfter? tags c.event?.toList = some rest) : Agrees (after d raw c) rest := by
  cases c with
  | openTag name parts gap slash =>
    cases slash with
    | true =>
      obtain rfl : tags = rest := by simpa [Construct.event?, openAfter?] using hrest
      exact h
    | false =>
      refine agrees_afterOpen hc h ?_
      by_cases hvoid : isVoid (canonicalName name) = true <;>
        simpa [Construct.event?, hvoid, openAfter?, TagEvent.nest?, eq_comm] using hrest
  | closeTag name strays gap =>
    refine agrees_afterClose hc h ?_
    simpa [Construct.event?, openAfter?_singleton, TagEvent.nest?] using hrest
  | _ =>
    obtain rfl : tags = rest := by simpa [Construct.event?, openAfter?] using hrest
    exact h

end RawText

namespace Reading

variable {d : Dialect} {raw : Option RawText} {s rest : Text} {c : Construct}

theorem recognized_of_step (h : step d raw s = .construct c rest) : c.Recognized d raw := by
  cases reads_of_step h with
  | openTag ho _ =>
    cases opens_of_opener? ho with
    | openTag _ _ hname => exact hname
  | closeTag ho _ =>
    cases opens_of_opener? ho with
    | closeTag _ hname => exact hname
  | _ => trivial

/-- What holds at the start of a template and is kept by each construct that is read there holds
between any two constructs. -/
theorem boundary_induction {P : List Construct → Prop} (start : P [])
    (step : ∀ cs c, c.Recognized d (cs.foldl (RawText.after d) none) → P cs → P (cs ++ [c]))
    {cs ds : List Construct} (h : (ofText d s).constructs = cs ++ ds) : P cs := by
  induction cs using List.reverseRecOn generalizing ds with
  | nil => exact start
  | append_singleton cs c ih =>
    rw [List.append_assoc, List.singleton_append] at h
    obtain ⟨rest, -, hrest⟩ := Lexer.gives_constructs [] h
    obtain ⟨after, hstep, -⟩ := step_of_inRawText hrest
    exact step cs c (recognized_of_step hstep) (ih h)

end Reading

namespace Nesting

variable {d : Dialect} {s : Text} {cs ds : List Construct}

/-- Before the end of a template the only problems of nesting are close tags. -/
theorem clean_ofConstructs (hstray : (ofConstructs cs).reported .unexpectedClosingTag = [])
    (hnest : (ofConstructs cs).reported .mismatchedNesting = []) : (ofConstructs cs).Clean := by
  intro code hcode
  cases code with
  | unexpectedClosingTag => exact hstray
  | mismatchedNesting => exact hnest
  | unterminatedElement => exact reported_ofConstructs rfl cs
  | _ => cases hcode

/-- If all tags nest, those before the last construct do, and it moves the open elements on. -/
theorem clean_concat {c : Construct} (h : (ofConstructs (cs ++ [c])).Clean) :
    (ofConstructs cs).Clean ∧
      openAfter? (ofConstructs cs).tags c.event?.toList = some (ofConstructs (cs ++ [c])).tags := by
  have hbefore := follows_ofConstructs cs
  have hafter := follows_step hbefore c
    (.covering (Position.start.advance (cs.flatMap Construct.source)) c.source)
  rw [← ofConstructs_concat] at hafter
  cases hrun : openAfter? [] (cs.filterMap Construct.event?) with
  | none =>
    rw [hrun] at hafter
    exact (hafter h).elim
  | some tags =>
    rw [hrun] at hbefore hafter
    obtain ⟨hclean, rfl⟩ := hbefore
    refine ⟨hclean, ?_⟩
    rw [Option.bind_some] at hafter
    cases hnext : openAfter? (ofConstructs cs).tags c.event?.toList with
    | none =>
      rw [hnext] at hafter
      exact (hafter h).elim
    | some rest =>
      rw [hnext] at hafter
      rw [hafter.2]

end Nesting

namespace Node

/-- Every element of a forest has an ISML name. -/
def AllIsml (nodes : List Node) : Prop := EachElement (fun e _ => isIsmlTag e.tag = true) nodes

/-- Below elements with raw text there are only elements with ISML names. -/
def RawPure (nodes : List Node) : Prop :=
  EachElement (fun e children => e.tag ∈ rawTextTags → AllIsml children) nodes

end Node

namespace Frame

open Node

variable {p : Position}

/-- What is finished inside open elements with raw text are ISML elements, and those that are open
inside are such, too. -/
structure StackPure (stack : List Frame) : Prop where
  bodies : ∀ f ∈ stack, RawPure f.children.toList
  inside : ∀ inner f outer, stack = inner ++ f :: outer → f.tag ∈ rawTextTags →
    AllIsml f.children.toList ∧ ∀ g ∈ inner, isIsmlTag g.tag = true ∧ AllIsml g.children.toList

theorem leaves_isml :
    Leaves (fun f => isIsmlTag f.tag = true) fun e _ => isIsmlTag e.tag = true where
  append _ h := h
  selfClosed h _ := h
  implied _ _ h _ := h

theorem allIsml_collapse {frames : List Frame}
    (h : ∀ f ∈ frames, isIsmlTag f.tag = true ∧ AllIsml f.children.toList) :
    AllIsml (collapse p frames) :=
  leaves_isml.collapse h

theorem StackPure.left {frames others : List Frame} (h : StackPure (frames ++ others)) :
    StackPure frames where
  bodies := fun f hf => h.bodies f (by simp [hf])
  inside := by
    rintro inner f outer rfl hraw
    exact h.inside inner f (outer ++ others) (by simp) hraw

theorem StackPure.right {frames others : List Frame} (h : StackPure (frames ++ others)) :
    StackPure others where
  bodies := fun f hf => h.bodies f (by simp [hf])
  inside := by
    rintro inner f outer rfl hraw
    obtain ⟨hf, hinner⟩ := h.inside (frames ++ inner) f outer (by simp) hraw
    exact ⟨hf, fun g hg => hinner g (by simp [hg])⟩

/-- Elements that are ended together keep what is inside raw text there. -/
theorem StackPure.collapse {frames : List Frame} (h : StackPure frames) :
    RawPure (collapse p frames) := by
  induction frames using List.reverseRecOn with
  | nil => exact eachElement_nil
  | append_singleton frames f ih =>
    rw [collapse_concat]
    refine eachElement_closeImplicitly ?_ ?_ (h.bodies f (by simp)) (ih h.left)
    · intro _ _
      exact eachElement_nil
    · intro _ hraw
      obtain ⟨hf, hinner⟩ := h.inside frames f [] rfl hraw
      exact eachElement_append.mpr ⟨hf, allIsml_collapse hinner⟩

/-- A new open element in raw text has an ISML name. -/
theorem StackPure.push {frame : Frame} {stack : List Frame} (h : StackPure stack)
    (hchildren : frame.children = #[])
    (hisml : (∃ f ∈ stack, f.tag ∈ rawTextTags) → isIsmlTag frame.tag = true) :
    StackPure (frame :: stack) where
  bodies := by
    intro f hf
    rcases List.mem_cons.mp hf with rfl | hf
    · rw [hchildren]
      exact eachElement_nil
    · exact h.bodies f hf
  inside := by
    have hempty : AllIsml frame.children.toList := by
      rw [hchildren]
      exact eachElement_nil
    intro inner f outer hstack hraw
    cases inner with
    | nil =>
      obtain ⟨rfl, -⟩ := List.cons.inj hstack
      exact ⟨hempty, by simp⟩
    | cons g inner =>
      obtain ⟨rfl, rfl⟩ := List.cons.inj hstack
      obtain ⟨hf, hinner⟩ := h.inside inner f outer rfl hraw
      refine ⟨hf, ?_⟩
      intro k hk
      rcases List.mem_cons.mp hk with rfl | hk
      · exact ⟨hisml ⟨f, by simp, hraw⟩, hempty⟩
      · exact hinner k hk

/-- New nodes in raw text are ISML elements or none. -/
theorem StackPure.append {f : Frame} {fs : List Frame} (h : StackPure (f :: fs)) {nodes : List Node}
    (hpure : RawPure nodes) (hisml : (∃ g ∈ f :: fs, g.tag ∈ rawTextTags) → AllIsml nodes) :
    StackPure (f.append nodes :: fs) := by
  refine ⟨?_, ?_⟩
  · intro g hg
    rcases List.mem_cons.mp hg with rfl | hg
    · rw [toList_append]
      exact eachElement_append.mpr ⟨h.bodies f List.mem_cons_self, hpure⟩
    · exact h.bodies g (List.mem_cons_of_mem f hg)
  · intro inner g outer hstack hraw
    cases inner with
    | nil =>
      obtain ⟨rfl, rfl⟩ := List.cons.inj hstack
      obtain ⟨hf, -⟩ := h.inside [] f fs rfl hraw
      rw [toList_append]
      exact ⟨eachElement_append.mpr ⟨hf, hisml ⟨f, List.mem_cons_self, hraw⟩⟩, by simp⟩
    | cons k inner =>
      obtain ⟨rfl, rfl⟩ := List.cons.inj hstack
      obtain ⟨hg, hinner⟩ := h.inside (f :: inner) g outer rfl hraw
      refine ⟨hg, ?_⟩
      intro k hk
      rcases List.mem_cons.mp hk with rfl | hk
      · obtain ⟨htag, hchildren⟩ := hinner f List.mem_cons_self
        rw [toList_append]
        exact ⟨htag, eachElement_append.mpr ⟨hchildren, hisml ⟨g, by simp, hraw⟩⟩⟩
      · exact hinner k (List.mem_cons_of_mem f hk)

section Close

variable {inner outer : List Frame} {frame : Frame} (text : Text) (span : Span)

/-- The element that a close tag ends. -/
theorem StackPure.close (h : StackPure (inner ++ frame :: outer)) :
    RawPure [(frame.append (Frame.collapse span.start inner)).close text span] := by
  refine eachElement_close text span ?_ (h.bodies frame (by simp)) h.left.collapse
  intro hraw
  obtain ⟨hf, hinner⟩ := h.inside inner frame outer rfl hraw
  exact eachElement_append.mpr ⟨hf, allIsml_collapse hinner⟩

/-- The element that a close tag ends in raw text. -/
theorem StackPure.allIsml_close (h : StackPure (inner ++ frame :: outer))
    (hraw : ∃ f ∈ outer, f.tag ∈ rawTextTags) :
    AllIsml [(frame.append (Frame.collapse span.start inner)).close text span] := by
  obtain ⟨f, hf, hraw⟩ := hraw
  obtain ⟨left, right, rfl⟩ := List.append_of_mem hf
  obtain ⟨-, hinner⟩ := h.inside (inner ++ frame :: left) f right (by simp) hraw
  obtain ⟨htag, hchildren⟩ := hinner frame (by simp)
  exact eachElement_close text span htag hchildren
    (allIsml_collapse fun g hg => hinner g (by simp [hg]))

end Close

end Frame

namespace Nesting

open Node

/-- Inside raw text there are only ISML elements, finished or open. -/
structure RawTextPure (n : Nesting) : Prop where
  roots : RawPure n.roots.toList
  stack : Frame.StackPure n.stack

variable {d : Dialect} {n : Nesting} {s : Text} {cs ds : List Construct}

theorem RawTextPure.append (h : n.RawTextPure) {nodes : List Node} (hpure : RawPure nodes)
    (hisml : (∃ f ∈ n.stack, f.tag ∈ rawTextTags) → AllIsml nodes) :
    (n.append nodes).RawTextPure := by
  unfold Nesting.append
  split
  · have hroots : (n.roots ++ nodes).toList = n.roots.toList ++ nodes := by simp
    refine ⟨?_, h.stack⟩
    rw [hroots]
    exact eachElement_append.mpr ⟨h.roots, hpure⟩
  · rename_i f fs hstack
    rw [hstack] at hisml
    exact ⟨h.roots, (hstack ▸ h.stack).append hpure hisml⟩

/-- In raw text only ISML tags are read as open tags. -/
theorem isml_of_recognized {raw : Option RawText} {name : Text}
    (hname : recognizes d raw name false = true) (hagrees : RawText.Agrees raw n.tags)
    (hraw : ∃ f ∈ n.stack, f.tag ∈ rawTextTags) : isIsmlTag (canonicalName name) = true := by
  obtain ⟨f, hf, hf'⟩ := hraw
  cases raw with
  | none => exact (hagrees f.tag (List.mem_map_of_mem hf) hf').elim
  | some r => exact isIsmlTag_canonicalName (by simpa [recognizes] using hname)

/-- A construct puts nothing but ISML elements into raw text. -/
theorem rawTextPure_step {raw : Option RawText} {c : Construct} (span : Span)
    (h : n.RawTextPure) (hc : c.Recognized d raw) (hagrees : RawText.Agrees raw n.tags) :
    (n.step ⟨c, span⟩).RawTextPure := by
  have he := n.step_effect c span
  have hreported : (n.report (c.faults span.start)).RawTextPure := ⟨h.roots, h.stack⟩
  generalize n.step _ = m at he ⊢
  cases he with
  | @node node event pieces children closing origin =>
    refine hreported.append ?_ ?_
    · refine eachElement_cons.mpr ⟨?_, by rw [children]; exact eachElement_nil, eachElement_nil⟩
      rintro e cs rfl _
      obtain rfl : cs = [] := children
      exact eachElement_nil
    · intro hraw
      refine eachElement_cons.mpr ⟨?_, by rw [children]; exact eachElement_nil, eachElement_nil⟩
      rintro e cs rfl
      obtain ⟨name, parts, gap, slash, rfl, htag, -⟩ := origin e rfl
      rw [htag]
      exact isml_of_recognized hc hagrees hraw
  | opened event text place children origin =>
    obtain ⟨name, parts, gap, slash, rfl, htag, -⟩ := origin
    refine ⟨h.roots, h.stack.push children ?_⟩
    intro hraw
    rw [htag]
    exact isml_of_recognized hc hagrees hraw
  | dropped event absent => exact ⟨h.roots, h.stack⟩
  | @closed tag inner outer frame event found =>
    obtain ⟨hstack, -⟩ := splitFrames?_eq_some found
    have hpure : Frame.StackPure (inner ++ frame :: outer) := by
      rw [← hstack]
      exact h.stack
    have houter : RawTextPure
        { (n.report (c.faults span.start)).report (mismatch tag inner span) with stack := outer } :=
      ⟨h.roots, (List.append_cons inner frame outer ▸ hpure).right⟩
    exact houter.append (hpure.close c.source span) (hpure.allIsml_close c.source span)

/-- Whatever is read while all tags nest, the lexer and the open elements agree, and inside raw text
there are only ISML elements. -/
theorem rawText_ofConstructs (h : (Reading.ofText d s).constructs = cs ++ ds)
    (hclean : (ofConstructs cs).Clean) :
    RawText.Agrees (cs.foldl (RawText.after d) none) (ofConstructs cs).tags ∧
      (ofConstructs cs).RawTextPure := by
  refine Reading.boundary_induction (P := fun cs => (ofConstructs cs).Clean →
    RawText.Agrees (cs.foldl (RawText.after d) none) (ofConstructs cs).tags ∧
      (ofConstructs cs).RawTextPure) ?_ ?_ h hclean
  · intro _
    refine ⟨?_, eachElement_nil, ?_, ?_⟩
    · intro t ht
      cases ht
    · intro f hf
      cases hf
    · intro inner f outer hstack
      cases inner <;> cases hstack
  · intro cs c hc ih hclean
    obtain ⟨hbefore, hnest⟩ := clean_concat hclean
    obtain ⟨hagrees, hpure⟩ := ih hbefore
    refine ⟨?_, ?_⟩
    · rw [List.foldl_concat]
      exact RawText.agrees_after hc hagrees hnest
    · rw [ofConstructs_concat]
      exact rawTextPure_step _ hpure hc hagrees

/-- The end of a template leaves nothing but ISML elements inside raw text. -/
theorem RawTextPure.finish (h : n.RawTextPure) (p : Position) (e : Ending) :
    RawPure (n.finish p e).roots.toList := by
  have hended := h.append (eachElement_endingNodes p e) fun _ => eachElement_endingNodes p e
  have hroots : (n.finish p e).roots.toList = (n.append (endingNodes p e)).roots.toList ++
      Frame.collapse (p.advance e.source) (n.append (endingNodes p e)).stack := by
    simp [finish_eq]
  rw [hroots]
  exact eachElement_append.mpr ⟨hended.roots, hended.stack.collapse⟩

end Nesting

/-- The raw text that a lexer is in and the open elements, innermost first, tell the same. -/
structure RawText.InStep (raw : Option RawText) (stack : List Frame) : Prop where
  present : raw.isSome = true ↔ ∃ f ∈ stack, f.tag ∈ rawTextTags
  /-- It is the only open element of its kind, all that is open inside is counted and ISML. -/
  only : ∀ r, raw = some r → ∃ inner f outer, stack = inner ++ f :: outer ∧ f.tag = r.tag ∧
    f.tag ∈ rawTextTags ∧ (∀ g ∈ inner ++ outer, g.tag ∉ rawTextTags) ∧
    (∀ g ∈ inner, isIsmlTag g.tag = true) ∧ inner.length ≤ r.depth

theorem RawText.Agrees.inStep {raw : Option RawText} {n : Nesting} (h : Agrees raw n.tags) :
    InStep raw n.stack := by
  cases raw with
  | none =>
    refine ⟨?_, by simp⟩
    simp only [Option.isSome_none, Bool.false_eq_true, false_iff]
    rintro ⟨f, hf, hraw⟩
    exact h f.tag (List.mem_map_of_mem hf) hraw
  | some r =>
    obtain ⟨hraw, inner, outer, htags, hinner, houter, hdepth⟩ := h
    obtain ⟨left, rest, hstack, rfl, hrest⟩ := List.map_eq_append_iff.mp htags
    obtain ⟨f, right, rfl, htag, rfl⟩ := List.map_eq_cons_iff.mp hrest
    have hfraw : f.tag ∈ rawTextTags := htag ▸ hraw
    refine ⟨?_, ?_⟩
    · simp only [Option.isSome_some, true_iff]
      exact ⟨f, by simp [hstack], hfraw⟩
    · rintro r' ⟨⟩
      refine ⟨left, f, right, hstack, htag, hfraw, ?_, ?_, by simpa using hdepth⟩
      · intro g hg
        rcases List.mem_append.mp hg with hg | hg
        · exact not_raw_of_isml (hinner g.tag (List.mem_map_of_mem hg))
        · exact houter g.tag (List.mem_map_of_mem hg)
      · intro g hg
        exact hinner g.tag (List.mem_map_of_mem hg)

namespace Document

/-- Between any two constructs, if no close tag was a problem so far, the lexer is in the raw text
of the one script or style that is open, if any, and all that is open inside has an ISML name. So a
document without such problems has only ISML elements below a script or a style. -/
theorem rawText_agrees (d : Dialect) (name : Option String) (s : Text) :
    (∀ cs ds, (Reading.ofText d s).constructs = cs ++ ds →
      (Nesting.ofConstructs cs).reported .unexpectedClosingTag = [] →
      (Nesting.ofConstructs cs).reported .mismatchedNesting = [] →
      ∃ l, Lexer.Gives (.start d s) (constructTokens .start cs) l ∧ l.mode = .markup ∧
        RawText.InStep l.raw (Nesting.ofConstructs cs).stack) ∧
    ((∀ x ∈ (parse d name s).diagnostics,
        x.code ≠ .unexpectedClosingTag ∧ x.code ≠ .mismatchedNesting) →
      Node.EachElement (fun e children => e.tag ∈ rawTextTags →
        Node.EachElement (fun inner _ => isIsmlTag inner.tag = true) children)
        (parse d name s).children) := by
  refine ⟨?_, ?_⟩
  · intro cs ds h hstray hnest
    obtain ⟨rest, hgives, -⟩ := Lexer.gives_constructs [] h
    have hclean := Nesting.clean_ofConstructs hstray hnest
    exact ⟨_, hgives, rfl, (Nesting.rawText_ofConstructs h hclean).1.inStep⟩
  · intro h
    have hnone : ∀ code, code = .unexpectedClosingTag ∨ code = .mismatchedNesting →
        (Nesting.ofConstructs (Reading.ofText d s).constructs).reported code = [] := by
      intro code hcode
      have hreported := (forall_code_iff (P := fun code =>
        code ≠ .unexpectedClosingTag ∧ code ≠ .mismatchedNesting) d name s).mp h code
          (by rcases hcode with rfl | rfl <;> simp)
      rw [Nesting.ofReading_eq, Nesting.reported_finish (by rcases hcode with rfl | rfl <;> rfl)]
        at hreported
      exact (List.append_eq_nil_iff.mp hreported).1
    have hclean := Nesting.clean_ofConstructs (hnone _ (Or.inl rfl)) (hnone _ (Or.inr rfl))
    have hall := (Nesting.rawText_ofConstructs (List.append_nil _).symm hclean).2
    exact hall.finish _ _

/-- An ISML element is open in the script, and the line break there is text. -/
theorem rawText_agrees_in_script :
    (∃ l, Lexer.Gives (.start {} "<script><isa><br></script>".toList) (constructTokens .start
        [.openTag "script".toList [] [] false, .openTag "isa".toList [] [] false,
          .text "<br>".toList]) l ∧ l.mode = .markup ∧
      RawText.InStep l.raw (Nesting.ofConstructs [.openTag "script".toList [] [] false,
        .openTag "isa".toList [] [] false, .text "<br>".toList]).stack) ∧
    Node.EachElement (fun e children => e.tag ∈ rawTextTags →
      Node.EachElement (fun inner _ => isIsmlTag inner.tag = true) children)
      (parse {} none "<script><isa><br></script>".toList).children := by
  have h := rawText_agrees {} none "<script><isa><br></script>".toList
  refine ⟨h.1 _ [.closeTag "script".toList [] []] ?_ ?_ ?_, h.2 ?_⟩
  all_goals decide +kernel

end Document

end StoreMarkup
