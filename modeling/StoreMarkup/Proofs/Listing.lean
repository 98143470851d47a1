import StoreMarkup.Check.Listing
import StoreMarkup.Proofs.ProblemPlaces
import StoreMarkup.Proofs.Spans

/-! The listing of a check. Errors and warnings are taken apart and sorted again by line and column,
and still come out as the document has them: no warning starts where an error does. -/
namespace StoreMarkup

namespace Diagnostic

variable {a : Diagnostic} {ds es : List Diagnostic}

/-- What starts before some diagnostics, and not after the others, comes first wherever it stood. -/
theorem inSourceOrder_append_cons (hds : ∀ b ∈ ds, ¬ NotAfter b a) (hes : ∀ b ∈ es, NotAfter a b) :
    inSourceOrder (ds ++ a :: es) = a :: inSourceOrder (ds ++ es) := by
  induction ds with
  | nil =>
    rw [List.nil_append, List.nil_append, inSourceOrder_cons]
    exact orderedInsert_of_forall fun b hb => hes b (mem_inSourceOrder.mp hb)
  | cons b ds ih =>
    rw [List.cons_append, List.cons_append, inSourceOrder_cons, inSourceOrder_cons,
      ih fun c hc => hds c (List.mem_cons_of_mem b hc),
      List.orderedInsert_of_not_le NotAfter _ (hds b List.mem_cons_self)]

/-- Taking sorted diagnostics of two kinds apart loses nothing if no two of different kinds start
together. -/
theorem inSourceOrder_apart {first : Diagnostic → Bool} (hsorted : ds.Pairwise NotAfter)
    (hapart : ∀ a ∈ ds, ∀ b ∈ ds, first a = true → first b = false →
      a.span.start.offset ≠ b.span.start.offset) :
    inSourceOrder (ds.filter first ++ ds.filter (!first ·)) = ds := by
  induction ds with
  | nil => exact List.mergeSort_nil
  | cons a ds ih =>
    obtain ⟨hle, hsorted⟩ := List.pairwise_cons.mp hsorted
    have ih := ih hsorted fun b hb c hc =>
      hapart b (List.mem_cons_of_mem a hb) c (List.mem_cons_of_mem a hc)
    cases ha : first a with
    | true =>
      rw [List.filter_cons_of_pos ha, List.filter_cons_of_neg (by simp [ha]), List.cons_append,
        inSourceOrder_cons, ih]
      exact orderedInsert_of_forall hle
    -- All of the first kind start behind it, so that it is sorted before them again.
    | false =>
      rw [List.filter_cons_of_neg (by simp [ha]), List.filter_cons_of_pos (by simp [ha]),
        inSourceOrder_append_cons, ih]
      · intro b hb hba
        obtain ⟨hb, hfirst⟩ := List.mem_filter.mp hb
        exact hapart b (List.mem_cons_of_mem a hb) a List.mem_cons_self hfirst ha
          (Nat.le_antisymm hba (hle b hb))
      · intro b hb
        exact hle b (List.mem_of_mem_filter hb)

/-- Lines and columns of exact places are ordered as their offsets are. -/
theorem inLineOrder_eq {s : Text} (h : ∀ b ∈ ds, b.span.start.Exact s) :
    inLineOrder ds = inSourceOrder ds := by
  rw [← List.map_id (inLineOrder ds), inLineOrder, inSourceOrder]
  rw [List.map_mergeSort (s := fun a b => decide (a.span.start.offset ≤ b.span.start.offset)),
    List.map_id]
  intro a ha b hb
  have hlt := (h b hb).lt_iff (h a ha)
  rw [Bool.eq_iff_iff]
  simp only [Bool.or_eq_true, Bool.and_eq_true, decide_eq_true_eq, beq_iff_eq, id]
  omega

/-- The line of a named diagnostic starts with the name. -/
theorem describe_eq {name : String} (hsource : a.sourceName = some name) (hname : name ≠ "") :
    a.describe = name ++ s!":{a.span.start.line}:{a.span.start.column}: " ++
      s!"{a.severity.label}: {a.message} [{a.code.label}]" := by
  have hshown : shownName a.sourceName = some name := by
    rw [hsource, shownName, Option.filter_some, if_pos (by simpa using hname)]
  rw [describe, hshown]
  simp only [describeAt, Span.label, toString, String.append_assoc]

end Diagnostic

namespace Document

variable (d : Dialect) (name : Option String) (s : Text)

theorem exact_of_mem_diagnostics {x : Diagnostic} (h : x ∈ (parse d name s).diagnostics) :
    x.span.start.Exact s := by
  obtain ⟨q, hq, rfl⟩ := (mem_diagnostics d name s).mp h
  exact ((Nesting.placed_ofText d s).problems q hq).start

theorem sourceName_of_mem_diagnostics {x : Diagnostic} (h : x ∈ (parse d name s).diagnostics) :
    x.sourceName = name := by
  obtain ⟨q, -, rfl⟩ := (mem_diagnostics d name s).mp h
  rfl

/-- An error and a warning never start together. -/
theorem offset_ne_of_isError {x y : Diagnostic} (hx : x ∈ (parse d name s).diagnostics)
    (hy : y ∈ (parse d name s).diagnostics) (herror : x.isError = true)
    (hwarning : y.isError = false) :
    x.span.start.offset ≠ y.span.start.offset := by
  have hxcode := (isError_of_mem d name s hx).mp herror
  have hycode : y.code = .malformedClosingTag := by
    by_contra hcode
    rw [(isError_of_mem d name s hy).mpr hcode] at hwarning
    cases hwarning
  obtain ⟨q, hq, rfl⟩ := (mem_diagnostics d name s).mp hx
  obtain ⟨q', hq', rfl⟩ := (mem_diagnostics d name s).mp hy
  exact ((Reading.reports_of_mem hq').offset_ne (Reading.reports_of_mem hq) hycode hxcode).symm

/-- The order of lines and columns undoes what taking errors and warnings apart did. -/
theorem inLineOrder_errors_append (strict : Bool) :
    inLineOrder ((parse d name s).errors ++ if strict then (parse d name s).warnings else []) =
      if strict then (parse d name s).diagnostics else (parse d name s).errors := by
  have hsorted : (parse d name s).diagnostics.Pairwise Diagnostic.NotAfter :=
    Diagnostic.pairwise_inSourceOrder _
  have hexact := fun x => exact_of_mem_diagnostics (x := x) d name s
  cases strict with
  | true =>
    rw [if_pos rfl, if_pos rfl, Diagnostic.inLineOrder_eq (s := s)]
    · refine Diagnostic.inSourceOrder_apart hsorted ?_
      intro x hx y hy
      exact offset_ne_of_isError d name s hx hy
    · intro x hx
      rcases List.mem_append.mp hx with hx | hx
      · exact hexact x (List.mem_of_mem_filter hx)
      · exact hexact x (List.mem_of_mem_filter hx)
  | false =>
    rw [if_neg Bool.false_ne_true, if_neg Bool.false_ne_true, List.append_nil,
      Diagnostic.inLineOrder_eq (s := s)]
    · exact Diagnostic.inSourceOrder_of_pairwise (hsorted.filter _)
    · intro x hx
      exact hexact x (List.mem_of_mem_filter hx)

end Document

theorem Report.problemLines_ofDocument (d : Dialect) (limit : Option Int) (s : Text) {name : String}
    (hname : name ≠ "") (strict : Bool) :
    (ofDocument limit (.parse d (some name) s)).problemLines strict =
      (if strict then (Document.parse d (some name) s).diagnostics
        else (Document.parse d (some name) s).errors).map Diagnostic.describe := by
  rw [problemLines, ← Document.inLineOrder_errors_append]
  refine List.map_congr_left ?_
  intro x hx
  have hmem : x ∈ (Document.parse d (some name) s).diagnostics := by
    rw [Report.ofDocument, Document.inLineOrder_errors_append] at hx
    split at hx
    · exact hx
    · exact List.mem_of_mem_filter hx
  exact (Diagnostic.describe_eq (Document.sourceName_of_mem_diagnostics d _ s hmem) hname).symm

/-- For each template the listing of a check has the lines of its diagnostics, or of its errors if
warnings do not count, as they stand in the document. -/
theorem CheckResult.lines_ofDocument (d : Dialect) (limit : Option Int) (s : Text) {name : String}
    (hname : name ≠ "") {result : CheckResult} {before after : List Report}
    (hreports : result.reports = before ++ .ofDocument limit (.parse d (some name) s) :: after) :
    result.lines = before.flatMap (·.problemLines result.failOnWarning) ++
      (if result.failOnWarning then (Document.parse d (some name) s).diagnostics
        else (Document.parse d (some name) s).errors).map Diagnostic.describe ++
      (after.flatMap (·.problemLines result.failOnWarning) ++
        result.unreadable.map (fun u => s!"{u.sourceName}: unreadable: {u.reason.message}") ++
        [result.summaryLine]) := by
  rw [lines, hreports, List.flatMap_append, List.flatMap_cons,
    Report.problemLines_ofDocument d limit s hname]
  simp only [List.append_assoc]

/-- The warning inside a stray closing tag is found first and listed last. -/
theorem CheckResult.lines_strayClosingTag :
    "a.isml" ≠ "" ∧
    (CheckResult.mk {} true [.ofDocument none (.parse {} (some "a.isml") "</b x>".toList)]
      []).lines.dropLast =
      ["a.isml:1:1: error: Closing tag </b> has no matching open tag [unexpected-closing-tag]",
        "a.isml:1:5: warning: Unexpected content in closing tag: 'x' [malformed-closing-tag]"] := by
  refine ⟨by decide, ?_⟩
  have hproblems : (Nesting.ofReading (.ofText {} "</b x>".toList)).problems.toList.map
        (Problem.diagnostic { sourceName := some "a.isml" }) =
      [⟨.warning, .malformedClosingTag, "Unexpected content in closing tag: 'x'",
          ⟨⟨4, 1, 5⟩, ⟨5, 1, 6⟩⟩, some "a.isml"⟩,
        ⟨.error, .unexpectedClosingTag, "Closing tag </b> has no matching open tag",
          ⟨⟨0, 1, 1⟩, ⟨6, 1, 7⟩⟩, some "a.isml"⟩] := by
    decide +kernel
  rw [@lines_ofDocument {} none "</b x>".toList "a.isml" (by decide) (CheckResult.mk {} true [_] [])
    [] [] rfl, Document.diagnostics_eq, hproblems, Diagnostic.inSourceOrder_cons,
    Diagnostic.inSourceOrder_cons, Diagnostic.inSourceOrder_of_pairwise .nil]
  decide +kernel

end StoreMarkup
