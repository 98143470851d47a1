import StoreMarkup.Proofs.Diagnostics

/-! Collecting diagnostics: what any sequence of calls leaves in a collector, and what is handed
out. -/
namespace StoreMarkup

/-- Diagnostics in the order of their starts, where those that start together stand as they were
given. -/
structure Diagnostic.Sorted (given sorted : List Diagnostic) : Prop where
  perm : sorted.Perm given
  ordered : sorted.Pairwise NotAfter
  stable : ∀ offset, sorted.filter (fun d => d.span.start.offset == offset) =
    given.filter fun d => d.span.start.offset == offset

theorem Diagnostic.sorted_inSourceOrder (ds : List Diagnostic) : Sorted ds (inSourceOrder ds) where
  perm := List.mergeSort_perm _ _
  ordered := pairwise_inSourceOrder ds
  stable offset := by
    rw [filter_inSourceOrder, inSourceOrder_of_pairwise]
    apply List.Pairwise.imp_of_mem _ (List.pairwise_of_forall fun _ _ => trivial)
    intro a b ha hb _
    have hstart := beq_iff_eq.mp (List.mem_filter.mp ha).2
    have hother := beq_iff_eq.mp (List.mem_filter.mp hb).2
    exact Nat.le_of_eq (hstart.trans hother.symm)

namespace Collector

variable {name : Option String} {before later : List Call} {answers : List Answer} {c : Collector}
  {code : Code} {message : String} {span : Span} {severity : Option Severity}

/-- The diagnostic that was taken, if one was. -/
def Answer.diagnostic? : Answer → Option Diagnostic
  | reported d => some d
  | _ => none

theorem run_cons (c : Collector) (call : Call) (calls : List Call) : run c (call :: calls) =
    ((c.call call).1 :: (run (c.call call).2 calls).1, (run (c.call call).2 calls).2) := rfl

theorem call_freeze : c.call .freeze =
    (.handedOut (Diagnostic.inSourceOrder c.reported.toList), { c with frozen := true }) := rfl

theorem call_report (h : c.frozen = false) : c.call (.report code message span severity) =
    (.reported (c.diagnostic code message span severity),
      { c with reported := c.reported.push (c.diagnostic code message span severity) }) := by
  simp [Collector.call, report, h]

theorem call_report_frozen (h : c.frozen = true) :
    c.call (.report code message span severity) = (.refused .frozen, c) := by
  simp [Collector.call, report, h]

/-- What a collector knows of the calls before: whether one of them froze it, and what it took. -/
structure Tracks (name : Option String) (before : List Call) (answers : List Answer)
    (c : Collector) :
    Prop where
  sourceName : c.sourceName = name
  frozen : c.frozen = true ↔ .freeze ∈ before
  reported : c.reported.toList = answers.filterMap Answer.diagnostic?

theorem tracks_start (name : Option String) : Tracks name [] [] { sourceName := name } where
  sourceName := rfl
  frozen := by simp
  reported := rfl

theorem Tracks.call (h : Tracks name before answers c) (call : Call) :
    Tracks name (before ++ [call]) (answers ++ [(c.call call).1]) (c.call call).2 := by
  obtain ⟨hname, hfrozen, hreported⟩ := h
  have hkept : ∀ {answer : Answer}, answer.diagnostic? = none →
      c.reported.toList = (answers ++ [answer]).filterMap Answer.diagnostic? := by
    intro answer hnone
    simp [hreported, hnone]
  cases call with
  | freeze =>
    rw [call_freeze]
    exact ⟨hname, by simp, hkept rfl⟩
  | report code message span severity =>
    have hbefore : c.frozen = true ↔
        Call.freeze ∈ before ++ [.report code message span severity] := by
      simp [hfrozen]
    by_cases h : c.frozen = true
    · rw [call_report_frozen h]
      exact ⟨hname, hbefore, hkept rfl⟩
    · rw [call_report (Bool.not_eq_true _ ▸ h)]
      refine ⟨hname, hbefore, ?_⟩
      rw [List.filterMap_append, ← hreported, Array.toList_push]
      rfl

/-- Whatever the calls, a collector knows that much of them. -/
theorem Tracks.run (h : Tracks name before answers c) (calls : List Call) :
    Tracks name (before ++ calls) (answers ++ (run c calls).1) (run c calls).2 := by
  induction calls generalizing before answers c with
  | nil => simpa [Collector.run] using h
  | cons call calls ih =>
    have hrest := ih (h.call call)
    rw [List.append_assoc, List.append_assoc] at hrest
    rw [run_cons]
    exact hrest

theorem tracks_run (name : Option String) (calls : List Call) :
    Tracks name calls (run { sourceName := name } calls).1 (run { sourceName := name } calls).2 :=
  (tracks_start name).run calls

/-- A call to a frozen collector changes nothing. -/
theorem call_frozen (h : c.frozen = true) (call : Call) : (c.call call).2 = c := by
  cases call with
  | freeze =>
    rw [call_freeze]
    cases c
    cases h
    rfl
  | report code message span severity => rw [call_report_frozen h]

/-- Once frozen, a collector answers each call as if it were the only one. -/
theorem run_frozen (h : c.frozen = true) (calls : List Call) :
    run c calls = (calls.map fun call => (c.call call).1, c) := by
  induction calls with
  | nil => rfl
  | cons call calls ih =>
    rw [run_cons, call_frozen h call, ih]
    rfl

/-- All that is handed out after the first time is the same. -/
theorem handedOut_frozen {ds : List Diagnostic} (h : c.frozen = true)
    (hmem : .handedOut ds ∈ (run c later).1) :
    (c.call .freeze).1 = .handedOut ds := by
  rw [run_frozen h, List.mem_map] at hmem
  obtain ⟨call, -, hanswer⟩ := hmem
  cases call with
  | freeze => exact hanswer
  | report code message span severity =>
    rw [call_report_frozen h] at hanswer
    cases hanswer

/-- A problem as it is reported: its code tells the severity. -/
def reportOf (p : Located Problem) : Call := .report p.value.code p.value.message p.span none

theorem run_reports (h : c.frozen = false) (problems : List (Located Problem)) :
    (run c (problems.map reportOf)).2 =
      { c with reported := c.reported ++ (problems.map (Problem.diagnostic c)).toArray } := by
  induction problems generalizing c with
  | nil => simp [run]
  | cons p problems ih =>
    rw [List.map_cons, reportOf, run_cons, call_report h]
    dsimp only
    rw [ih]
    · rw [List.push_append_toArray]
      rfl
    · exact h

theorem size_push (d : Diagnostic) : { c with reported := c.reported.push d }.size = c.size + 1 :=
  Array.size_push ..

theorem errorCount_push (d : Diagnostic) : { c with reported := c.reported.push d }.errorCount =
    c.errorCount + if d.severity = .error then 1 else 0 := by
  rw [errorCount, Array.countP_push, errorCount]
  simp only [Diagnostic.isError, beq_iff_eq]

end Collector

namespace Document

variable (d : Dialect) (name : Option String) (s : Text)

/-- The diagnostics of a document are handed out after its problems were reported in their order. -/
theorem handedOut_diagnostics : ((Collector.run { sourceName := name }
    ((Nesting.ofReading (.ofText d s)).problems.toList.map Collector.reportOf)).2.call .freeze).1 =
      .handedOut (parse d name s).diagnostics := by
  rw [Collector.run_reports rfl, Collector.call_freeze, diagnostics_eq]
  simp

/-- Errors and warnings that make up the diagnostics together, each kind in the order it stands
there. -/
structure Separates (errors warnings diagnostics : List Diagnostic) : Prop where
  errors_sublist : errors.Sublist diagnostics
  warnings_sublist : warnings.Sublist diagnostics
  complementary : (errors ++ warnings).Perm diagnostics
  severity_errors : ∀ x ∈ errors, x.severity = .error
  severity_warnings : ∀ x ∈ warnings, x.severity = .warning

theorem separates (doc : Document) : Separates doc.errors doc.warnings doc.diagnostics where
  errors_sublist := List.filter_sublist
  warnings_sublist := List.filter_sublist
  complementary := List.filter_append_perm _ _
  severity_errors x hx := by simpa [Diagnostic.isError] using (List.mem_filter.mp hx).2
  severity_warnings x hx := by
    have hsome := (List.mem_filter.mp hx).2
    cases hseverity : x.severity with
    | error => simp [Diagnostic.isError, hseverity] at hsome
    | warning => rfl

end Document

/-- Whatever was asked of a collector before: it hands out what it took, sorted. Once it has, it
takes no more and always hands out the same, and until then every report adds one diagnostic. The
diagnostics of a document are handed out in this way, and its errors and warnings are what they
consist of. -/
theorem Collector.run_sound {name : Option String} {before : List Call} {answers : List Answer}
    {c : Collector} (hrun : run { sourceName := name } before = (answers, c)) :
    (∃ ds, (c.call .freeze).1 = .handedOut ds ∧
      Diagnostic.Sorted (answers.filterMap Answer.diagnostic?) ds) ∧
    (.freeze ∈ before → ∀ code message span severity, ∃ c',
      c.call (.report code message span severity) = (.refused .frozen, c') ∧
      c'.size = c.size ∧ c'.errorCount = c.errorCount ∧
      ∀ later ds, .handedOut ds ∈ (run c' later).1 → (c.call .freeze).1 = .handedOut ds) ∧
    (.freeze ∉ before → ∀ code message span severity, ∃ c',
      c.call (.report code message span severity) =
        (.reported ⟨severity.getD code.defaultSeverity, code, message, span, name⟩, c') ∧
      c'.size = c.size + 1 ∧
      c'.errorCount = c.errorCount + if severity.getD code.defaultSeverity = .error then 1 else 0) ∧
    ∀ (d : Dialect) (s : Text),
      ((run { sourceName := name }
        ((Nesting.ofReading (.ofText d s)).problems.toList.map reportOf)).2.call .freeze).1 =
          .handedOut (Document.parse d name s).diagnostics ∧
      Document.Separates (Document.parse d name s).errors (Document.parse d name s).warnings
        (Document.parse d name s).diagnostics := by
  have htracks := tracks_run name before
  rw [hrun] at htracks
  refine ⟨?_, ?_, ?_, fun d s => ⟨Document.handedOut_diagnostics d name s, Document.separates _⟩⟩
  · refine ⟨_, rfl, ?_⟩
    rw [← htracks.reported]
    exact Diagnostic.sorted_inSourceOrder _
  · intro hfreeze code message span severity
    have hfrozen := htracks.frozen.mpr hfreeze
    exact ⟨c, call_report_frozen hfrozen, rfl, rfl, fun later ds => handedOut_frozen hfrozen⟩
  · intro hfreeze code message span severity
    have hopen : c.frozen = false := by
      rw [← Bool.not_eq_true, htracks.frozen]
      exact hfreeze
    have hname : c.sourceName = name := htracks.sourceName
    subst hname
    exact ⟨_, call_report hopen, size_push _, errorCount_push _⟩

theorem Collector.run_sound_unordered : ∃ a b c,
    run { sourceName := none } [.report .unterminatedTag "later" (.point ⟨7, 1, 8⟩) none,
      .report .unterminatedTag "earlier" (.point .start) (some .warning), .freeze] =
        ([.reported a, .reported b, .handedOut [b, a]], c) ∧ c.size = 2 ∧ c.errorCount = 1 ∧
    (∃ ds, (c.call .freeze).1 = .handedOut ds ∧ Diagnostic.Sorted [a, b] ds) ∧
    ∃ c', c.call (.report .unterminatedTag "too late" (.point .start) none) =
      (.refused .frozen, c') ∧
      c'.size = c.size := by
  obtain ⟨a, ha⟩ : ∃ a : Diagnostic,
    a = ⟨.error, .unterminatedTag, "later", .point ⟨7, 1, 8⟩, none⟩ := ⟨_, rfl⟩
  obtain ⟨b, hb⟩ : ∃ b : Diagnostic,
    b = ⟨.warning, .unterminatedTag, "earlier", .point .start, none⟩ := ⟨_, rfl⟩
  have hsort : Diagnostic.inSourceOrder [a, b] = [b, a] := by
    simp [ha, hb, Diagnostic.inSourceOrder, List.mergeSort, Span.point, Position.start]
  have hrun : run { sourceName := none } [.report .unterminatedTag "later" (.point ⟨7, 1, 8⟩) none,
      .report .unterminatedTag "earlier" (.point .start) (some .warning), .freeze] =
      ([.reported a, .reported b, .handedOut [b, a]], ⟨none, #[a, b], true⟩) := by
    rw [← hsort, ha, hb]
    rfl
  have hsound := run_sound hrun
  obtain ⟨c', hcall, hsize, -⟩ :=
    hsound.2.1 (by simp) .unterminatedTag "too late" (.point .start) none
  refine ⟨a, b, _, hrun, rfl, ?_, hsound.1, c', hcall, hsize⟩
  rw [ha, hb]
  rfl

end StoreMarkup
