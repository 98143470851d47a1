import StoreMarkup.Proofs.Reparse

/-! A construct that a template ends inside changes nothing before it: it is reported once and
becomes the last text of the tree, and what stands before it is read as if the template ended
there. -/
namespace StoreMarkup

/-- The kind of construct that is reported as unfinished, if that is the problem. -/
def Code.unterminated? : Code → Option Unterminated
  | unterminatedTag => some .tag
  | unterminatedExpression => some .expression
  | unterminatedComment => some .comment
  | _ => none

section Problems

/-- What a problem says of an unfinished construct: its kind and where it starts. -/
def Problem.unfinished? (q : Located Problem) : Option (Unterminated × Position) :=
  q.value.code.unterminated?.map fun u => (u, q.span.start)

theorem Code.unterminated?_eq_none {code : Code} (h : code.isFinal = false) :
    code.unterminated? = none := by
  cases code with
  | unterminatedTag | unterminatedExpression | unterminatedComment => cases h
  | _ => rfl

theorem filterMap_unfinished_eq_nil {qs : List (Located Problem)}
    (h : ∀ q ∈ qs, q.value.code.unterminated? = none) : qs.filterMap Problem.unfinished? = [] := by
  refine List.filterMap_eq_nil_iff.mpr ?_
  intro q hq
  rw [Problem.unfinished?, h q hq]
  rfl

/-- An ending reports its construct once, and nothing else as unfinished. -/
theorem filterMap_endingProblems (p : Position) (e : Ending) :
    (Nesting.endingProblems p e).filterMap Problem.unfinished? =
      e.unterminated?.toList.map fun u => (u, p) := by
  cases e with
  | openTag name parts text =>
    have hparts : (tagProblems p name parts).filterMap Problem.unfinished? = [] := by
      refine filterMap_unfinished_eq_nil ?_
      intro q hq
      rw [code_of_mem_tagProblems hq]
      rfl
    rw [Nesting.endingProblems, List.filterMap_append, hparts]
    rfl
  | closeTag name strays text =>
    have hstrays : (closeTagProblems p name strays).filterMap Problem.unfinished? = [] := by
      refine filterMap_unfinished_eq_nil ?_
      intro q hq
      rw [code_of_mem_closeTagProblems hq]
      rfl
    rw [Nesting.endingProblems, List.filterMap_append, hstrays]
    rfl
  | _ => rfl

theorem unterminated?_of_mem_ofConstructs {cs : List Construct} {q : Located Problem}
    (h : q ∈ (Nesting.ofConstructs cs).problems.toList) : q.value.code.unterminated? = none := by
  refine Code.unterminated?_eq_none (Bool.eq_false_iff.mpr ?_)
  intro hfinal
  have hnone := Nesting.reported_ofConstructs hfinal cs
  have hmem : q ∈ Problem.ofCode q.value.code (Nesting.ofConstructs cs).problems.toList := by
    simpa [Problem.ofCode] using h
  rw [Nesting.reported] at hnone
  rw [hnone] at hmem
  cases hmem

theorem filterMap_ofReading (r : Reading) :
    (Nesting.ofReading r).problems.toList.filterMap Problem.unfinished? =
      r.ending.unterminated?.toList.map fun u => (u, r.endingStart) := by
  have hbefore : (Nesting.ofConstructs r.constructs).problems.toList.filterMap Problem.unfinished? =
      [] :=
    filterMap_unfinished_eq_nil fun q hq => unterminated?_of_mem_ofConstructs hq
  have hopen : (Nesting.openProblems (Nesting.ofConstructs r.constructs).stack).filterMap
      Problem.unfinished? = [] := by
    refine filterMap_unfinished_eq_nil ?_
    intro q hq
    rw [Nesting.code_of_mem_openProblems hq]
    rfl
  rw [Nesting.ofReading_eq, Nesting.finish_eq]
  simp only [Array.toList_appendList, List.filterMap_append, hbefore, hopen,
    filterMap_endingProblems, List.nil_append, List.append_nil]

/-- What a diagnostic says of an unfinished construct. -/
def Diagnostic.unfinished? (x : Diagnostic) : Option (Unterminated × Position) :=
  x.code.unterminated?.map fun u => (u, x.span.start)

/-- The diagnostics report the construct that the template ends inside, and no other. -/
theorem Document.unfinished_eq (d : Dialect) (name : Option String) (s : Text) :
    (parse d name s).diagnostics.filterMap Diagnostic.unfinished? =
      (Reading.ofText d s).ending.unterminated?.toList.map
        fun u => (u, (Reading.ofText d s).endingStart) := by
  have hperm := (diagnostics_perm d name s).filterMap Diagnostic.unfinished?
  have hsame : Diagnostic.unfinished? ∘ Problem.diagnostic { sourceName := name } =
      Problem.unfinished? := rfl
  rw [List.filterMap_map, hsame, filterMap_ofReading] at hperm
  cases hu : (Reading.ofText d s).ending.unterminated? with
  | none =>
    rw [hu] at hperm
    exact List.perm_nil.mp hperm
  | some u =>
    rw [hu] at hperm
    exact List.perm_singleton.mp hperm

end Problems

section Tree

variable {nodes : List Node} {x : Node} {p : Position}

/-- What comes last in the body of an element comes last when the element is closed. -/
theorem getLast?_walk_closeImplicitly (f : Frame) (h : (Node.walk nodes).getLast? = some x) :
    (Node.walk ((f.append nodes).closeImplicitly p)).getLast? = some x := by
  unfold Frame.closeImplicitly
  split <;> simp [Node.walk_cons, Node.children, Frame.append, List.getLast?_cons, h]

theorem getLast?_walk_foldl (frames : List Frame) (h : (Node.walk nodes).getLast? = some x) :
    (Node.walk (frames.foldl (fun nodes f => (f.append nodes).closeImplicitly p) nodes)).getLast? =
      some x := by
  induction frames generalizing nodes with
  | nil => exact h
  | cons f frames ih => exact ih (getLast?_walk_closeImplicitly f h)

/-- A node that is added last is the last of the finished tree. -/
theorem getLast?_walk_closeAll (n : Nesting) (h : (Node.walk [x]).getLast? = some x) :
    (Node.walk ((n.append [x]).roots.toList ++
      Frame.collapse p (n.append [x]).stack)).getLast? = some x := by
  cases hstack : n.stack with
  | nil => simp [Nesting.append, hstack, Frame.collapse, h]
  | cons f fs =>
    have hfirst := getLast?_walk_closeImplicitly (p := p) f h
    have hall := getLast?_walk_foldl (p := p) fs hfirst
    have hcollapse : Frame.collapse p (f.append [x] :: fs) =
        fs.foldl (fun nodes f => (f.append nodes).closeImplicitly p)
          ((f.append [x]).closeImplicitly p) := by
      simp [Frame.collapse, Frame.append]
    simp [Nesting.append, hstack, hcollapse, hall]

theorem getLast?_walk_ofReading (r : Reading) (h : r.ending.unterminated?.isSome = true) :
    (Node.walk (Nesting.ofReading r).roots.toList).getLast? =
      some (.text r.ending.source (.covering r.endingStart r.ending.source)) := by
  have hnodes : Nesting.endingNodes r.endingStart r.ending =
      [.text r.ending.source (.covering r.endingStart r.ending.source)] := by
    cases he : r.ending with
    | clean =>
      rw [he] at h
      cases h
    | _ => rfl
  rw [Nesting.ofReading_eq, Nesting.finish_eq, Array.toList_appendList, hnodes]
  exact getLast?_walk_closeAll _ (by simp [Node.walk_cons, Node.children])

end Tree

section Tokens

variable {d : Dialect} {raw : Option RawText} {s before after : Text} {k last : TokenKind}
  {ts : List Token} {t : Token} {e : Ending}

theorem Spread.le_stop (h : Spread k before ts last after) (ht : t ∈ ts) :
    before.length ≤ t.span.stop.offset := by
  have hstart := (h.within ht).1
  have hle := (h.covers List.prefix_rfl ht).text_eq.1
  omega

/-- Every token of an unfinished construct ends behind the start of the construct. -/
theorem lt_stop_of_mem_startedTokens (h : Reading.step d raw e.source = .ending e)
    (ht : t ∈ e.startedTokens (Position.start.advance before)) :
    before.length < t.span.stop.offset := by
  have htidy := Reading.step_ending_tidy h
  cases e with
  | clean => cases ht
  | openTag name parts text =>
    rcases List.mem_cons.mp ht with rfl | ht
    · simp [Token.place, Span.covering, Position.start]
    · have hparts : t ∈ partTokens (Position.start.advance (before ++ '<' :: name)) parts := by
        rw [Position.advance_append]
        exact ht
      obtain ⟨last, -, hspread⟩ := spread_partTokens (before ++ '<' :: name) htidy.1
        (rfl : TokenKind.tagOpenStart.insideTag = true)
      have hstop := hspread.le_stop hparts
      simp only [List.length_append, List.length_cons] at hstop
      omega
  | closeTag name strays text =>
    rcases List.mem_cons.mp ht with rfl | ht
    · simp [Token.place, Span.covering, Position.start]
    · have hstrays : t ∈ strayTokens (Position.start.advance (before ++ '<' :: '/' :: name))
          strays := by
        rw [Position.advance_append]
        exact ht
      obtain ⟨last, -, hspread⟩ := spread_strayTokens (before ++ '<' :: '/' :: name) htidy.1
        (rfl : TokenKind.tagCloseStart.insideTag = true)
      have hstop := hspread.le_stop hstrays
      simp only [List.length_append, List.length_cons] at hstop
      omega
  | expression text =>
    rw [List.mem_singleton.mp ht]
    simp [Token.place, Span.covering, Position.start, Delimiter.opening]
  | comment opening text =>
    cases opening with
    | none => cases ht
    | some opening =>
      rw [List.mem_singleton.mp ht]
      cases Reading.reads_of_step h with
      | unclosedComment _ hscan =>
        obtain ⟨r, hthrough⟩ := throughBracket?_of_cutOff hscan
        have hpos := List.length_pos_iff.mpr (throughBracket?_eq hthrough).2
        simp only [Token.place, Span.covering, Position.offset_advance, Position.start]
        omega

/-- A template ends at once only if nothing is left of it. -/
theorem source_ne_nil_of_unterminated (h : Reading.step d raw e.source = .ending e)
    (he : e.unterminated?.isSome = true) : e.source ≠ [] := by
  intro hnil
  rw [hnil] at h
  cases h
  cases he

/-- The constructs before an ending are read as what they are without the ending, too. -/
theorem Reading.ofText_before_ending (d : Dialect) (s : Text) :
    ofText d ((ofText d s).constructs.flatMap Construct.source) =
      ⟨(ofText d s).constructs, .clean⟩ := by
  obtain ⟨hstands, hseparate, -⟩ := segmented_inRawText d none s
  refine inRawText_eq_iff.mpr ⟨⟨hstands, hseparate, rfl⟩, ?_⟩
  simp [source, Ending.source]

theorem Reading.offset_endingStart (r : Reading) :
    r.endingStart.offset = (r.constructs.flatMap Construct.source).length := by
  simp [endingStart, Position.start]

/-- The tokens that end before an unfinished construct are those of the constructs before it. -/
theorem filter_tokenize (d : Dialect) (s : Text)
    (h : (Reading.ofText d s).ending.unterminated?.isSome = true) :
    (tokenize d s).filter (fun t => t.span.stop.offset ≤ (Reading.ofText d s).endingStart.offset) =
      (Reading.ofText d s).items.flatten := by
  have hends := (Reading.segmented_inRawText d none s).ends
  have hstart := (Reading.ofText d s).offset_endingStart
  obtain ⟨last, -, hspread⟩ := Reading.spread_constructs d s
  have hitems : ∀ t ∈ (Reading.ofText d s).items.flatten,
      t.span.stop.offset ≤ (Reading.ofText d s).endingStart.offset := by
    intro t ht
    rw [hstart]
    exact (hspread.within ht).2
  have hstarted : ∀ t ∈ (Reading.ofText d s).ending.startedTokens (Reading.ofText d s).endingStart,
      ¬ t.span.stop.offset ≤ (Reading.ofText d s).endingStart.offset := by
    intro t ht
    have hlt := lt_stop_of_mem_startedTokens hends ht
    rw [hstart]
    exact Nat.not_le.mpr hlt
  have hlast : ¬ (lastToken d s).span.stop.offset ≤ (Reading.ofText d s).endingStart.offset := by
    have hpos := List.length_pos_iff.mpr (source_ne_nil_of_unterminated hends h)
    simp only [lastToken, Token.place, Span.covering, Position.offset_advance, Reading.ofText]
      at hpos ⊢
    omega
  rw [tokenize_eq, List.filter_append, List.filter_append]
  rw [List.filter_eq_self.mpr (by simpa using hitems),
    List.filter_eq_nil_iff.mpr (by simpa using hstarted)]
  simp [hlast]

end Tokens

/-- A construct that starts at a point and does not end leaves everything before it as it is. All
that is left is the last text of the tree. The tokens that end before are those of the template up
to that point, which ends between two constructs. -/
structure Contained (d : Dialect) (s : Text) (nodes : List Node) (p : Position) : Prop where
  lastLeaf : (Node.walk nodes).getLast? =
    some (.text (s.drop p.offset) ⟨p, Position.start.advance s⟩)
  tokens : (tokenize d s).filter (fun t => t.span.stop.offset ≤ p.offset) =
    (tokenize d (s.take p.offset)).dropLast
  clean : ∃ stop, (tokenize d (s.take p.offset)).getLast? = some stop ∧ stop.kind = .endOfInput none

theorem getLast?_tokenize (d : Dialect) (s : Text) :
    (tokenize d s).getLast? = some (lastToken d s) := by
  rw [tokenize_eq, List.getLast?_concat]

theorem contained_ending (d : Dialect) (name : Option String) (s : Text)
    (h : (Reading.ofText d s).ending.unterminated?.isSome = true) :
    Contained d s (Document.parse d name s).children (Reading.ofText d s).endingStart := by
  have hsource := Reading.source_ofText d s
  have hbefore := Reading.ofText_before_ending d s
  have hstart := (Reading.ofText d s).offset_endingStart
  have htake : s.take (Reading.ofText d s).endingStart.offset =
      (Reading.ofText d s).constructs.flatMap Construct.source := by
    rw [hstart]
    exact (congrArg (List.take _) hsource.symm).trans List.take_left
  have hdrop : s.drop (Reading.ofText d s).endingStart.offset =
      (Reading.ofText d s).ending.source := by
    rw [hstart]
    exact (congrArg (List.drop _) hsource.symm).trans List.drop_left
  refine ⟨?_, ?_, ?_⟩
  · rw [hdrop, Document.children_eq, getLast?_walk_ofReading _ h, Span.covering,
      Reading.endingStart_advance, hsource]
  · rw [filter_tokenize d s h, htake, tokenize_eq, hbefore, List.dropLast_concat,
      Reading.flatten_items, Reading.flatten_items, Ending.startedTokens, List.append_nil]
  · refine ⟨_, getLast?_tokenize d _, ?_⟩
    rw [htake, lastToken, hbefore]
    rfl

/-- A document reports at most one unfinished construct, the one that the last token tells, and it
is contained. -/
theorem Document.unterminated_contained (d : Dialect) (name : Option String) (s : Text) :
    (∃ stop unterminated, (tokenize d s).getLast? = some stop ∧
      stop.kind = .endOfInput unterminated ∧
      (parse d name s).diagnostics.filterMap (fun x => x.code.unterminated?) =
        unterminated.toList) ∧
    ∀ x ∈ (parse d name s).diagnostics, x.code.unterminated?.isSome = true →
      Contained d s (parse d name s).children x.span.start := by
  have hunfinished := unfinished_eq d name s
  refine ⟨⟨_, _, getLast?_tokenize d s, rfl, ?_⟩, ?_⟩
  · have hkinds := congrArg (List.map Prod.fst) hunfinished
    simpa [List.map_filterMap, Diagnostic.unfinished?, Function.comp_def] using hkinds
  · intro x hx hcode
    obtain ⟨u, hu⟩ := Option.isSome_iff_exists.mp hcode
    have hmem : (u, x.span.start) ∈ (parse d name s).diagnostics.filterMap Diagnostic.unfinished? :=
      List.mem_filterMap.mpr ⟨x, hx, by rw [Diagnostic.unfinished?, hu]; rfl⟩
    rw [hunfinished] at hmem
    obtain ⟨v, hv, heq⟩ := List.mem_map.mp hmem
    obtain ⟨rfl, hstart⟩ := Prod.mk.inj heq
    rw [← hstart]
    exact contained_ending d name s (Option.isSome_of_mem (Option.mem_toList.mp hv))

/-- A module tag is left open, and the template ends inside the value of an attribute. -/
theorem Document.unterminated_contained_value :
    ∃ x ∈ (parse {} none "<isa>b<p c='d".toList).diagnostics,
      (x.code.unterminated?.isSome = true ∧ x.span.start.offset = 6) ∧
      Contained {} "<isa>b<p c='d".toList (parse {} none "<isa>b<p c='d".toList).children
        x.span.start := by
  have hfound : ((parse {} none "<isa>b<p c='d".toList).diagnostics.any fun x =>
      x.code.unterminated?.isSome && x.span.start.offset == 6) = true := by
    decide +kernel
  obtain ⟨x, hx, hcode⟩ := List.any_eq_true.mp hfound
  rw [Bool.and_eq_true, beq_iff_eq] at hcode
  exact ⟨x, hx, hcode, (unterminated_contained {} none _).2 x hx hcode.1⟩

end StoreMarkup
