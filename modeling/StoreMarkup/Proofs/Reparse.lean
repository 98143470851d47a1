import StoreMarkup.Proofs.Coverage
import StoreMarkup.Proofs.Dropping
import StoreMarkup.Proofs.Segmentation

/-! Writing a document and parsing it again: where the dropped close tags joined nothing that was
apart, the tree stays and so do all other problems. -/
namespace StoreMarkup

section Marks

variable {ms : List (Construct × Bool)}

theorem exists_of_head_keptOf {b : Construct} (h : b ∈ (keptOf ms).head?) :
    ∃ mid right, ms = mid ++ (b, true) :: right ∧ ∀ m ∈ mid, m.2 = false := by
  induction ms with
  | nil => cases h
  | cons m ms ih =>
    obtain ⟨c, keep⟩ := m
    cases keep with
    | true =>
      cases h
      exact ⟨[], ms, rfl, by simp⟩
    | false =>
      obtain ⟨mid, right, rfl, hmid⟩ := ih h
      exact ⟨(c, false) :: mid, right, rfl, by simpa using hmid⟩

/-- The constructs that are kept are in a relation if those are that have only dropped ones between
them. -/
theorem isChain_keptOf {R : Construct → Construct → Prop}
    (h : ∀ left a mid b right, ms = left ++ (a, true) :: mid ++ (b, true) :: right →
      (∀ m ∈ mid, m.2 = false) → R a b) : (keptOf ms).IsChain R := by
  induction ms with
  | nil => exact .nil
  | cons m ms ih =>
    have hrest := ih fun left a mid b right hms => h (m :: left) a mid b right (by simp [hms])
    obtain ⟨c, keep⟩ := m
    cases keep with
    | false => exact hrest
    | true =>
      refine List.IsChain.cons hrest ?_
      intro b hb
      obtain ⟨mid, right, rfl, hmid⟩ := exists_of_head_keptOf hb
      exact h [] c mid b right rfl hmid

end Marks

/-- The tokens of a construct stand inside of it. -/
theorem Spread.within {k last : TokenKind} {before after : Text} {ts : List Token}
    (h : Spread k before ts last after) {t : Token} (ht : t ∈ ts) :
    before.length ≤ t.span.start.offset ∧ t.span.stop.offset ≤ after.length := by
  induction h with
  | nil => cases ht
  | @cons k kind last before gap text after ts hgap hrest ih =>
    have hprefix := hrest.isPrefix.length_le
    simp only [List.length_append] at hprefix
    rcases List.mem_cons.mp ht with rfl | ht
    · simp only [Token.place, Span.covering, Position.offset_advance, List.length_append,
        Position.start]
      omega
    · have := ih ht
      simp only [List.length_append] at this
      omega

namespace Reading

variable {d : Dialect} {s : Text} {cs ds : List Construct} {c : Construct}

/-- Leaving out close tags outside of raw text changes no raw text. -/
theorem stands_kept
    (hraw : ∀ region ∈ (Nesting.ofReading (ofText d s)).strays, ¬ Lexer.InRawText d s region.start)
    (h : (ofText d s).constructs = cs ++ ds) : Stands d none (keptOf (marked cs)) ∧
      (keptOf (marked cs)).foldl (RawText.after d) none = cs.foldl (RawText.after d) none := by
  induction cs using List.reverseRecOn generalizing ds with
  | nil => exact ⟨trivial, rfl⟩
  | append_singleton cs c ih =>
    rw [List.append_assoc, List.singleton_append] at h
    obtain ⟨hstands, hfold⟩ := ih h
    cases hdrops : (Nesting.ofConstructs cs).drops c with
    | true =>
      have hmarked : keptOf (marked (cs ++ [c])) = keptOf (marked cs) := by
        simp [marked_concat, keptOf, hdrops]
      have hnone := Lexer.after_eq_none h (hraw _ (mem_strays_of_drops h hdrops))
      obtain ⟨name, strays, gap, rfl, -⟩ := Nesting.exists_of_drops hdrops
      rw [hmarked, hfold, List.foldl_concat, hnone]
      exact ⟨hstands, rfl⟩
    | false =>
      have hmarked : keptOf (marked (cs ++ [c])) = keptOf (marked cs) ++ [c] := by
        simp [marked_concat, keptOf, hdrops]
      have hall : Stands d none (ofText d s).constructs := (segmented_inRawText d none s).stands
      rw [h, stands_append] at hall
      rw [hmarked, stands_append, List.foldl_concat, List.foldl_concat, hfold]
      exact ⟨⟨hstands, hall.2.1, trivial⟩, rfl⟩

/-- What is kept of a template is a reading again if no close tag is dropped in raw text and none
between two pieces of text. -/
theorem segmented_kept
    (hraw : ∀ region ∈ (Nesting.ofReading (ofText d s)).strays, ¬ Lexer.InRawText d s region.start)
    (hseparate : (ofText d s).kept.constructs.IsChain fun a b =>
      ¬ (a.isText = true ∧ b.isText = true)) :
    (ofText d s).kept.Segmented d none := by
  obtain ⟨hstands, hfold⟩ := stands_kept hraw (List.append_nil _).symm
  refine ⟨hstands, hseparate, ?_⟩
  have hends := (segmented_inRawText d none s).ends
  rw [kept, hfold]
  exact hends

/-- The tokens of a dropped close tag stand in a region that is dropped. -/
theorem contains_of_mem_tokens (h : (ofText d s).constructs = cs ++ c :: ds)
    (hdrops : (Nesting.ofConstructs cs).drops c = true) {x : Token}
    (hx : x ∈ c.tokens (Position.start.advance (cs.flatMap Construct.source))) :
    ∃ region ∈ (Nesting.ofReading (ofText d s)).strays, region.contains x.span = true := by
  refine ⟨_, mem_strays_of_drops h hdrops, ?_⟩
  have htidy : c.Tidy := (inRawText_tidy d none s).1 c (by rw [← ofText, h]; simp)
  obtain ⟨last, -, hspread⟩ := c.spread_tokens (k := .text) (cs.flatMap Construct.source) htidy rfl
  have hwithin := hspread.within hx
  simp only [Span.contains, Span.covering, Position.offset_advance, Position.start,
    Bool.and_eq_true, decide_eq_true_eq, List.length_append] at hwithin ⊢
  omega

theorem exists_of_isText (h : c.isText = true) : ∃ t, c = .text t := by
  cases c with
  | text t => exact ⟨t, rfl⟩
  | _ => cases h

/-- The tokens of two pieces of text and of the constructs between them. -/
theorem tokenize_texts {t t' : Text} {mid : List Construct}
    (h : (ofText d s).constructs = cs ++ .text t :: (mid ++ .text t' :: ds)) : ∃ p p' after,
      tokenize d s = constructTokens .start cs ++ .place p .text t :: (constructTokens
        (Position.start.advance ((cs ++ [Construct.text t]).flatMap Construct.source)) mid ++
          .place p' .text t' :: after) := by
  have htokens : tokenize d s = constructTokens .start (ofText d s).constructs ++
      (ofText d s).ending.tokens (ofText d s).endingStart := rfl
  rw [htokens, h, constructTokens_append, constructTokens_cons, constructTokens_append,
    constructTokens_cons]
  simp only [Construct.tokens, List.flatMap_append, List.flatMap_singleton, Position.advance_append,
    List.append_assoc, List.cons_append]
  exact ⟨_, _, _, rfl⟩

/-- Two pieces of text come together only if nothing but dropped close tags is between them. -/
theorem separate_kept
    (hseam : ∀ before t run t' after, tokenize d s = before ++ t :: (run ++ t' :: after) →
      t.kind = .text → t'.kind = .text →
      ∃ x ∈ run, ∀ region ∈ (Nesting.ofReading (ofText d s)).strays,
        region.contains x.span = false) :
    (ofText d s).kept.constructs.IsChain fun a b => ¬ (a.isText = true ∧ b.isText = true) := by
  refine isChain_keptOf ?_
  rintro left a mid b right hms hmid ⟨ha, hb⟩
  obtain ⟨ta, rfl⟩ := exists_of_isText ha
  obtain ⟨tb, rfl⟩ := exists_of_isText hb
  have hcs : (ofText d s).constructs = left.map Prod.fst ++ .text ta ::
      (mid.map Prod.fst ++ .text tb :: right.map Prod.fst) := by
    have hall := constructs_of_marked hms
    simpa using hall
  obtain ⟨p, p', after, htokens⟩ := tokenize_texts hcs
  obtain ⟨x, hx, houtside⟩ := hseam _ _ _ _ _ htokens rfl rfl
  -- The token that is outside of all regions belongs to a construct that is dropped.
  obtain ⟨⟨c, span⟩, hlocated, hxc⟩ := List.mem_flatMap.mp hx
  obtain ⟨before, behind, hmidsplit, hspan⟩ := exists_of_mem_locate hlocated
  obtain ⟨mid₁, mid₂, rfl, rfl, hmid₂⟩ := List.map_eq_append_iff.mp hmidsplit
  obtain ⟨⟨c', keep⟩, mid₂, rfl, hc, rfl⟩ := List.map_eq_cons_iff.mp hmid₂
  obtain rfl : c' = c := hc
  obtain rfl : keep = false := hmid (c', keep) (by simp)
  have hmarked : marked (ofText d s).constructs = (left ++ (.text ta, true) :: mid₁) ++
      (c', false) :: (mid₂ ++ (.text tb, true) :: right) := by
    rw [hms]
    simp
  have hsplit : (ofText d s).constructs = (left ++ (.text ta, true) :: mid₁).map Prod.fst ++
      c' :: (mid₂ ++ (.text tb, true) :: right).map Prod.fst := constructs_of_marked hmarked
  have hplace : span.start = Position.start.advance
      (((left ++ (.text ta, true) :: mid₁).map Prod.fst).flatMap Construct.source) := by
    simp only at hspan
    rw [hspan]
    simp [Span.covering, ← Position.advance_append]
  obtain ⟨region, hregion, hcontains⟩ := contains_of_mem_tokens hsplit (drops_of_marked hmarked)
    (hplace ▸ hxc)
  rw [houtside region hregion] at hcontains
  cases hcontains

end Reading

/-- A tree whose open tags are written as before is written as before. -/
theorem Edit.piecesText_map (e : Edit) (h : ∀ p t, e.rewrite p t = t) (nodes : List Node) :
    Node.piecesText (Node.piecesAll (nodes.map e.node)) =
      Node.piecesText (Node.piecesAll nodes) := by
  induction nodes using Node.forest_induction with
  | nil => rfl
  | cons node rest inside after =>
    simp only [List.map_cons, Node.piecesAll_cons, Node.piecesText, List.flatMap_append]
      at inside after ⊢
    rw [after]
    cases node with
    | element x children =>
      have hclose : ((e.element x).closeSpan?.map fun span =>
          (⟨(e.element x).closeText, span⟩ : Located Text)).toList.flatMap Located.value =
          (x.closeSpan?.map fun span => (⟨x.closeText, span⟩ : Located Text)).toList.flatMap
            Located.value := by
        cases hx : x.closing <;>
          simp [Edit.element, Edit.closing, Element.closeSpan?, Element.closeText, hx]
      have hopen : (e.element x).openText = x.openText := h _ _
      simp only [Node.children] at inside
      simp [Node.pieces, hopen, hclose, inside]
    | _ => simp [Node.pieces, Edit.node]

namespace Reading

variable (d : Dialect) (s : Text)

theorem source_ne_nil : ∀ c ∈ (ofText d s).constructs, c.source ≠ [] := by
  have hraw : ∀ raw, ∀ c ∈ (inRawText d raw s).constructs, c.source ≠ [] := by
    intro raw
    fun_induction inRawText d raw s with
    | case1 => simp
    | case2 raw s c rest h after ih =>
      intro b hb
      rcases List.mem_cons.mp hb with rfl | hb
      · exact (step_construct h).2
      · exact ih b hb
  exact hraw none

/-- The tree of what is kept of a template. -/
theorem ofReading_ofText_kept : Nesting.ofReading (ofText d s).kept =
    (Edit.dropping (ofText d s).segments).nesting ((Nesting.ofReading (ofText d s)).withProblems
      ((Nesting.ofReading (ofText d s)).problems.toList.filter (ofText d s).keeps)) :=
  ofReading_kept (source_ne_nil d s) (inRawText_tidy d none s).2

theorem roots_kept : (Nesting.ofReading (ofText d s).kept).roots.toList =
    (Nesting.ofReading (ofText d s)).roots.toList.map
      (Edit.dropping (ofText d s).segments).node := by
  rw [ofReading_ofText_kept, Edit.roots_nesting]
  rfl

/-- What is written of a tree is what is kept of the template. -/
theorem write_ofReading : Node.write (Nesting.ofReading (ofText d s)).roots.toList =
    (ofText d s).kept.source := by
  have hstrays : (Nesting.ofReading (ofText d s).kept).strays = [] := by
    rw [ofReading_ofText_kept, Nesting.strays, Nesting.reported]
    have hnone : Problem.ofCode .unexpectedClosingTag
        (((Nesting.ofReading (ofText d s)).problems.toList.filter (ofText d s).keeps).map
          (Edit.dropping (ofText d s).segments).located) = [] := by
      apply Problem.ofCode_eq_nil
      intro moved hmoved hcode
      obtain ⟨q, hq, rfl⟩ := List.mem_map.mp hmoved
      have hkeeps := (List.mem_filter.mp hq).2
      have hexpected : q.value.code = .unexpectedClosingTag := hcode
      simp [keeps, reportsDropped, hexpected] at hkeeps
    simpa [Edit.nesting, Nesting.withProblems] using hnone
  have hlaid := (Nesting.laid_ofReading (ofText d s).kept).piecesText_eq
  rw [roots_kept, hstrays, Text.without_nil, Edit.piecesText_map _ fun _ _ => rfl] at hlaid
  rw [Node.write_eq, hlaid]

end Reading

namespace Document

variable (d : Dialect) (name : Option String) (s : Text)

/-- The diagnostics of what is kept of a template are those that stay, at new places. -/
theorem inSourceOrder_kept : Diagnostic.inSourceOrder
    ((Nesting.ofReading (Reading.ofText d s).kept).problems.toList.map
      (Problem.diagnostic { sourceName := name })) =
    ((parse d name s).diagnostics.filter fun x => !Reading.reportsDropped
      (Nesting.ofReading (.ofText d s)).strays x.code x.span).map
        (Edit.dropping (Reading.ofText d s).segments).diagnostic := by
  have hproblems : (Nesting.ofReading (Reading.ofText d s).kept).problems.toList.map
      (Problem.diagnostic { sourceName := name }) =
      (((Nesting.ofReading (.ofText d s)).problems.toList.map
        (Problem.diagnostic { sourceName := name })).filter fun x => !Reading.reportsDropped
          (Nesting.ofReading (.ofText d s)).strays x.code x.span).map
            (Edit.dropping (Reading.ofText d s).segments).diagnostic := by
    rw [Reading.ofReading_ofText_kept, Edit.diagnostics_nesting, List.filter_map]
    rfl
  rw [hproblems, Edit.inSourceOrder_map, diagnostics_eq, Diagnostic.filter_inSourceOrder]
  intro a ha b hb
  have hstart : ∀ x, x ∈ ((Nesting.ofReading (.ofText d s)).problems.toList.map
      (Problem.diagnostic { sourceName := name })).filter (fun x => !Reading.reportsDropped
          (Nesting.ofReading (.ofText d s)).strays x.code x.span) →
      x.span.start.offset ≤ s.length ∧ (x.span.start.offset < s.length →
        (Reading.ofText d s).segments.KeptAt x.span.start.offset) := by
    intro x hx
    obtain ⟨hx, hstays⟩ := List.mem_filter.mp hx
    obtain ⟨q, hq, rfl⟩ := List.mem_map.mp hx
    refine ⟨((Nesting.placed_ofText d s).problems q hq).start.offset_le, ?_⟩
    intro hlt
    refine Reading.starts_of_keeps (Reading.source_ne_nil d s) hq hstays ?_
    rwa [Reading.source_ofText]
  obtain ⟨hale, hakept⟩ := hstart a ha
  obtain ⟨hble, hbkept⟩ := hstart b hb
  have hiff := @Segments.length_keptBefore_le_iff (Reading.ofText d s).segments a.span.start.offset
    b.span.start.offset (fun h => hakept (by omega)) (fun h => hbkept (by omega))
  simpa [Edit.dropping, Position.start] using hiff

/-- If no dropped close tag is in raw text, and no run of them between two pieces of text, then
writing a document and parsing it again gives the same tree, and the same diagnostics but for those
about the dropped close tags and what is inside them. -/
theorem parse_toSource
    (hraw : ∀ region ∈ (parse d name s).regions .unexpectedClosingTag,
      ¬ Lexer.InRawText d s region.start)
    (hseam : ∀ before t run t' after, tokenize d s = before ++ t :: (run ++ t' :: after) →
      t.kind = .text → t'.kind = .text →
      ∃ x ∈ run, ∀ region ∈ (parse d name s).regions .unexpectedClosingTag,
        region.contains x.span = false) :
    Node.exportAll false (parse d name (parse d name s).toSource).children =
      Node.exportAll false (parse d name s).children ∧
    (parse d name (parse d name s).toSource).diagnostics.map Diagnostic.code =
      ((parse d name s).diagnostics.filter fun x => !Reading.reportsDropped
        ((parse d name s).regions .unexpectedClosingTag) x.code x.span).map Diagnostic.code := by
  have hregions : ∀ region, region ∈ (parse d name s).regions .unexpectedClosingTag ↔
      region ∈ (Nesting.ofReading (.ofText d s)).strays := by
    intro region
    exact (regions_perm d name s .unexpectedClosingTag).mem_iff
  simp only [hregions] at hraw hseam
  have hsegmented := Reading.segmented_kept hraw (Reading.separate_kept hseam)
  have hsource : (parse d name s).toSource = (Reading.ofText d s).kept.source :=
    Reading.write_ofReading d s
  have hread : Reading.ofText d (parse d name s).toSource = (Reading.ofText d s).kept :=
    Reading.inRawText_eq_iff.mpr ⟨hsegmented, hsource.symm⟩
  refine ⟨?_, ?_⟩
  · rw [children_eq, children_eq, hread, Reading.roots_kept, Edit.exportAll_map]
  · have hfilter : (fun x : Diagnostic => !Reading.reportsDropped
        ((parse d name s).regions .unexpectedClosingTag) x.code x.span) =
        fun x : Diagnostic => !Reading.reportsDropped
          (Nesting.ofReading (.ofText d s)).strays x.code x.span := by
      funext x
      rw [Reading.reportsDropped_congr hregions]
    rw [hfilter, diagnostics_eq, hread, inSourceOrder_kept, List.map_map]
    rfl

/-- A close tag is dropped between text and an empty element that other text follows. -/
theorem parse_toSource_stray :
    (parse {} none "a</b><isa/>c".toList).toSource = "a<isa/>c".toList ∧
    Node.exportAll false (parse {} none (parse {} none "a</b><isa/>c".toList).toSource).children =
      Node.exportAll false (parse {} none "a</b><isa/>c".toList).children ∧
    (parse {} none (parse {} none "a</b><isa/>c".toList).toSource).diagnostics.map Diagnostic.code =
      ((parse {} none "a</b><isa/>c".toList).diagnostics.filter fun x => !Reading.reportsDropped
        ((parse {} none "a</b><isa/>c".toList).regions .unexpectedClosingTag) x.code x.span).map
          Diagnostic.code := by
  refine ⟨by decide +kernel, parse_toSource {} none "a</b><isa/>c".toList (by decide +kernel) ?_⟩
  intro before t run t' after h ht ht'
  have hkinds : (tokenize {} "a</b><isa/>c".toList).map Token.kind =
      [.text, .tagCloseStart, .tagCloseEnd, .tagOpenStart, .tagOpenEnd, .text,
        .endOfInput none] := by
    decide +kernel
  have hopen : TokenKind.tagOpenStart ∈ run.map Token.kind := by
    rw [h, List.map_append, List.map_cons, List.map_append, List.map_cons, ht, ht'] at hkinds
    generalize before.map Token.kind = ks, run.map Token.kind = js,
      after.map Token.kind = ls at hkinds ⊢
    simp [List.append_eq_cons_iff, List.cons_eq_append_iff] at hkinds
    simp [hkinds.2.1]
  obtain ⟨x, hx, hkind⟩ := List.mem_map.mp hopen
  have hkept : ∀ x ∈ tokenize {} "a</b><isa/>c".toList, x.kind = .tagOpenStart →
      ∀ region ∈ (parse {} none "a</b><isa/>c".toList).regions .unexpectedClosingTag,
        region.contains x.span = false := by
    decide +kernel
  exact ⟨x, hx, hkept x (by rw [h]; simp [hx]) hkind⟩

end Document

end StoreMarkup
