import StoreMarkup.Proofs.Edit
import StoreMarkup.Proofs.Lexing
import StoreMarkup.Proofs.Segmentation
import StoreMarkup.Proofs.Spans

/-! A template that ends between constructs, with nothing open, can be continued: the tree of the
longer template is its own tree and behind it that of the continuation. -/
namespace StoreMarkup

namespace Position

/-- The point of a text as a point of the text with `s` in front. -/
def behind (s : Text) (p : Position) : Position :=
  { offset := p.offset + s.length
    line := p.line + s.count '\n'
    column := if p.line = 1 then p.column + ((start.advance s).column - 1) else p.column }

theorem one_le_column_advance {p : Position} (h : 1 ≤ p.column) (t : Text) :
    1 ≤ (p.advance t).column := by
  induction t generalizing p with
  | nil => exact h
  | cons c t ih =>
    refine ih (p := p.next c) ?_
    unfold next
    split
    · exact Nat.le_refl 1
    · exact Nat.le_succ_of_le h

theorem behind_start (s : Text) : start.behind s = start.advance s := by
  have hcolumn : 1 ≤ (start.advance s).column := one_le_column_advance (Nat.le_refl 1) s
  refine eq_of_eq ?_ ?_ ?_
  · simp [behind, start]
  · simp [behind, line_advance, start]
  · have hfirst : (start.behind s).column = 1 + ((start.advance s).column - 1) := rfl
    omega

theorem behind_next (s : Text) {p : Position} (hline : 1 ≤ p.line) (c : Char) :
    (p.next c).behind s = (p.behind s).next c := by
  by_cases hc : c = '\n'
  · have hlater : p.line + 1 ≠ 1 := by omega
    simp only [next, behind, hc, if_true, hlater, if_false, mk.injEq, and_true]
    omega
  · simp only [next, behind, hc, if_false, mk.injEq, true_and]
    split <;> omega

theorem behind_advance (s t : Text) {p : Position} (hline : 1 ≤ p.line) :
    (p.advance t).behind s = (p.behind s).advance t := by
  induction t generalizing p with
  | nil => rfl
  | cons c t ih =>
    have hnext : 1 ≤ (p.next c).line := by
      unfold next
      split
      · simp
      · exact hline
    have hrest := ih hnext
    rw [behind_next s hline] at hrest
    exact hrest

end Position

/-- The change that a text in front of a template is to its tree. -/
def Edit.behind (s : Text) : Edit := { move := Position.behind s }

theorem Edit.rigid_behind (s before t : Text) :
    (Edit.behind s).Rigid (Position.start.advance before) t := by
  rintro u v -
  refine Position.behind_advance s u ?_
  rw [Position.line_advance]
  exact Nat.le_add_right 1 _

namespace Nesting

/-- A tree under construction behind a finished one. -/
def following (base n : Nesting) : Nesting :=
  { stack := n.stack, roots := base.roots ++ n.roots, problems := base.problems ++ n.problems }

theorem append_append_list {α : Type} (xs ys : Array α) (zs : List α) :
    xs ++ (ys ++ zs) = xs ++ ys ++ zs := by
  apply Array.ext'
  simp

section Following

variable (base n : Nesting)

theorem following_append (nodes : List Node) :
    base.following (n.append nodes) = (base.following n).append nodes := by
  cases h : n.stack <;> simp [following, append, h, append_append_list]

theorem following_report (problems : List (Located Problem)) :
    base.following (n.report problems) = (base.following n).report problems := by
  simp [following, report, append_append_list]

theorem following_closeElement (tag text : Text) (span : Span) :
    base.following (n.closeElement tag text span) =
      (base.following n).closeElement tag text span := by
  have hstack : (base.following n).stack = n.stack := rfl
  rw [closeElement, closeElement, hstack]
  cases splitFrames? tag n.stack with
  | none => exact base.following_report n _
  | some found =>
    obtain ⟨inner, f, outer⟩ := found
    simp only
    split
    · exact base.following_append _ _
    · rw [following_append, ← following_report]
      rfl

theorem following_step (c : Located Construct) :
    base.following (n.step c) = (base.following n).step c := by
  obtain ⟨c, span⟩ := c
  cases c with
  | openTag name parts gap slash =>
    simp only [step, openTag, openElement]
    split
    · rw [following_append, following_report]
    · rw [← following_report]
      rfl
  | closeTag name strays gap =>
    simp only [step, closeTag]
    rw [following_closeElement, following_report]
  | _ => exact base.following_append n _

theorem following_foldl (cs : List (Located Construct)) :
    base.following (cs.foldl step n) = cs.foldl step (base.following n) := by
  induction cs generalizing n with
  | nil => rfl
  | cons c cs ih => rw [List.foldl_cons, List.foldl_cons, ih, following_step]

theorem following_finish (p : Position) (e : Ending) :
    base.following (n.finish p e) = (base.following n).finish p e := by
  rw [finish, finish, ← following_report, ← following_append]
  simp [closeAll, following, report, append_append_list]

theorem following_empty (h : n.stack = []) : n.following {} = n := by
  cases n
  simp_all [following]

end Following

end Nesting

namespace Reading

variable {d : Dialect} {s : Text}

/-- A template that ends behind a construct other than text, outside of raw text, is read in the
same way before any other. -/
theorem ofText_append (hclean : (ofText d s).ending = .clean)
    (hraw : (ofText d s).constructs.foldl (RawText.after d) none = none)
    (htext : ∀ c ∈ (ofText d s).constructs.getLast?, c.isText = false) (t : Text) :
    ofText d (s ++ t) =
      ⟨(ofText d s).constructs ++ (ofText d t).constructs, (ofText d t).ending⟩ := by
  have hs : (ofText d s).Segmented d none := segmented_inRawText d none s
  have ht : (ofText d t).Segmented d none := segmented_inRawText d none t
  refine inRawText_eq_iff.mpr ⟨⟨?_, ?_, ?_⟩, ?_⟩
  · rw [stands_append, hraw]
    exact ⟨hs.stands, ht.stands⟩
  · refine List.isChain_append.mpr ⟨hs.separate, ht.separate, ?_⟩
    rintro a ha b - ⟨hatext, -⟩
    rw [htext a ha] at hatext
    cases hatext
  · rw [List.foldl_append, hraw]
    exact ht.ends
  · have hsource := source_ofText d s
    have htsource := source_ofText d t
    rw [source, hclean, Ending.source, List.append_nil] at hsource
    rw [source] at htsource
    simp only [source, List.flatMap_append, List.append_assoc, hsource, htsource]

end Reading

namespace Nesting

/-- The tree of constructs behind others that leave nothing open. -/
theorem ofReading_append {cs ds : List Construct} {e : Ending}
    (hstack : (ofConstructs cs).stack = []) (he : e.Tidy) :
    ofReading ⟨cs ++ ds, e⟩ = (ofConstructs cs).following
      ((Edit.behind (cs.flatMap Construct.source)).nesting (ofReading ⟨ds, e⟩)) := by
  have hstart : (Edit.behind (cs.flatMap Construct.source)).move .start =
      Position.start.advance (cs.flatMap Construct.source) := Position.behind_start _
  have hrigid : ∀ u, (Edit.behind (cs.flatMap Construct.source)).Rigid .start u :=
    Edit.rigid_behind _ []
  have hempty : (Edit.behind (cs.flatMap Construct.source)).nesting {} = {} := by
    simp [Edit.nesting]
  have hconstructs : (Edit.behind (cs.flatMap Construct.source)).nesting (ofConstructs ds) =
      (locate Construct.source (Position.start.advance (cs.flatMap Construct.source)) ds).foldl
        step {} := by
    rw [ofConstructs, Edit.nesting_foldl {} (hrigid _) (fun _ _ => rfl), hstart, hempty]
  have hstop : (Edit.behind (cs.flatMap Construct.source)).move
      (Position.start.advance (ds.flatMap Construct.source)) =
      Position.start.advance ((cs ++ ds).flatMap Construct.source) := by
    rw [(hrigid (ds.flatMap Construct.source)).move]
    simp [hstart]
  rw [ofReading_eq, ofReading_eq, Reading.endingStart, Reading.endingStart,
    Edit.nesting_finish _ (Edit.rigid_behind _ _ _) he, hconstructs, hstop, following_finish,
    following_foldl, following_empty _ hstack, ofConstructs, ofConstructs, locate_append,
    List.foldl_append]

/-- A template that ends cleanly with nothing open has the tree of its constructs. -/
theorem ofReading_clean {cs : List Construct} (hstack : (ofConstructs cs).stack = []) :
    ofReading ⟨cs, .clean⟩ = ofConstructs cs := by
  rw [ofReading_eq, finish_eq]
  generalize ofConstructs cs = n at hstack
  obtain ⟨stack, roots, problems⟩ := n
  obtain rfl : stack = [] := hstack
  simp [endingNodes, endingProblems, openProblems, append, Frame.collapse]

end Nesting

namespace Reading

variable {d : Dialect} {s : Text} {ts : List Token} {stop : Token}

/-- The last token tells how a template ends, and the others are those of its constructs if it ends
cleanly. -/
theorem of_tokenize (htokens : tokenize d s = ts ++ [stop])
    (hclean : stop.kind = .endOfInput none) :
    (ofText d s).ending = .clean ∧ ts = constructTokens .start (ofText d s).constructs := by
  rw [tokenize, tokens, Ending.tokens_eq, ← List.append_assoc] at htokens
  obtain ⟨hts, hstop⟩ := List.append_inj' htokens rfl
  have hending : (ofText d s).ending = .clean := by
    refine Ending.eq_clean ?_
    rw [← (List.cons.inj hstop).1] at hclean
    simpa [Token.place] using hclean
  rw [hending, Ending.startedTokens, List.append_nil] at hts
  exact ⟨hending, hts.symm⟩

theorem isText_getLast {cs : List Construct}
    (h : ∀ last ∈ (constructTokens .start cs).getLast?, last.kind ≠ .text) :
    ∀ c ∈ cs.getLast?, c.isText = false := by
  intro c hc
  obtain ⟨before, rfl⟩ := List.getLast?_eq_some_iff.mp hc
  cases c with
  | text t =>
    refine
      (h (.place (Position.start.advance (before.flatMap Construct.source)) .text t) ?_ rfl).elim
    simp [constructTokens, locate_append, locate, Construct.tokens, Span.covering]
  | _ => rfl

end Reading

namespace Document

variable (d : Dialect) (name : Option String)

/-- A template that ends cleanly, not in text, outside of raw text and with no element open, is
parsed on its own in every longer one, and what follows is parsed on its own behind it. -/
theorem parse_append (s t : Text) {ts : List Token} {stop : Token}
    (htokens : tokenize d s = ts ++ [stop]) (hclean : stop.kind = .endOfInput none)
    (htext : ∀ last ∈ ts.getLast?, last.kind ≠ .text)
    (hraw : ¬ Lexer.InRawText d s (Position.start.advance s))
    (hstack : (Nesting.ofConstructs (Reading.ofText d s).constructs).stack = []) :
    (parse d name (s ++ t)).children = (parse d name s).children ++
      (parse d name t).children.map (Edit.behind s).node ∧
    (parse d name (s ++ t)).diagnostics = (parse d name s).diagnostics ++
      (parse d name t).diagnostics.map (Edit.behind s).diagnostic := by
  obtain ⟨hending, rfl⟩ := Reading.of_tokenize htokens hclean
  have hsource : (Reading.ofText d s).constructs.flatMap Construct.source = s := by
    have h := Reading.source_ofText d s
    rwa [Reading.source, hending, Ending.source, List.append_nil] at h
  have hnone : (Reading.ofText d s).constructs.foldl (RawText.after d) none = none := by
    refine Lexer.after_eq_none (List.append_nil _).symm ?_
    rwa [hsource]
  have hread := Reading.ofText_append hending hnone (Reading.isText_getLast htext) t
  have htidy : (Reading.ofText d t).ending.Tidy := (Reading.inRawText_tidy d none t).2
  have hfirst : Nesting.ofReading (.ofText d s) =
      Nesting.ofConstructs (Reading.ofText d s).constructs := by
    rw [← Nesting.ofReading_clean hstack, ← hending]
  have hnesting : Nesting.ofReading (.ofText d (s ++ t)) =
      (Nesting.ofReading (.ofText d s)).following
      ((Edit.behind s).nesting (Nesting.ofReading (.ofText d t))) := by
    rw [hread, Nesting.ofReading_append hstack htidy, hsource, hfirst]
  refine ⟨?_, ?_⟩
  · simp [children_eq, hnesting, Nesting.following, Edit.nesting]
  · have hproblems : (Nesting.ofReading (.ofText d (s ++ t))).problems.toList.map
        (Problem.diagnostic { sourceName := name }) =
        (Nesting.ofReading (.ofText d s)).problems.toList.map
          (Problem.diagnostic { sourceName := name }) ++
        ((Nesting.ofReading (.ofText d t)).problems.toList.map
          (Problem.diagnostic { sourceName := name })).map (Edit.behind s).diagnostic := by
      rw [← Edit.diagnostics_nesting, ← List.map_append, hnesting]
      simp [Nesting.following]
    rw [diagnostics_eq, hproblems, Diagnostic.inSourceOrder_append, Edit.inSourceOrder_map]
    · rfl
    · intro a _ b _
      simp [Edit.behind, Position.behind]
    · intro a ha b hb
      obtain ⟨q, hq, rfl⟩ := List.mem_map.mp ha
      obtain ⟨b, -, rfl⟩ := List.mem_map.mp hb
      calc q.span.start.offset ≤ s.length :=
        ((Nesting.placed_ofText d s).problems q hq).start.offset_le
        _ ≤ b.span.start.offset + s.length := Nat.le_add_left _ _

/-- A template behind one that has a line break and a close tag without its element in it. -/
theorem parse_append_stray :
    (parse {} none ("<isa/>\n</b>".toList ++ "<i></u>".toList)).children =
      (parse {} none "<isa/>\n</b>".toList).children ++
        (parse {} none "<i></u>".toList).children.map (Edit.behind "<isa/>\n</b>".toList).node ∧
    (parse {} none ("<isa/>\n</b>".toList ++ "<i></u>".toList)).diagnostics =
      (parse {} none "<isa/>\n</b>".toList).diagnostics ++
        (parse {} none "<i></u>".toList).diagnostics.map
          (Edit.behind "<isa/>\n</b>".toList).diagnostic := by
  refine @parse_append {} none "<isa/>\n</b>".toList "<i></u>".toList
    (tokenize {} "<isa/>\n</b>".toList).dropLast
    (.place (Position.start.advance "<isa/>\n</b>".toList) (.endOfInput none) []) ?_ rfl ?_ ?_ ?_
  all_goals decide +kernel

end Document

end StoreMarkup
