import StoreMarkup.CommandLine.Run
import StoreMarkup.Proofs.FileTrees

/-! The verdict on a source directory, from the documents of its templates. -/
namespace StoreMarkup

/-- Whether a build can go on with a document. With `strict` warnings count, too. -/
def Document.Passes (strict : Bool) (doc : Document) : Prop :=
  (∀ x ∈ doc.diagnostics, x.isError = false) ∧ (strict = true → doc.diagnostics = [])

instance (strict : Bool) (doc : Document) : Decidable (doc.Passes strict) :=
  inferInstanceAs (Decidable (_ ∧ _))

theorem Document.errors_eq_nil {doc : Document} :
    doc.errors = [] ↔ ∀ x ∈ doc.diagnostics, x.isError = false := by
  simp [Document.errors]

/-- Errors and warnings together are all that is wrong with a document. -/
theorem Document.diagnostics_eq_nil {doc : Document} :
    doc.diagnostics = [] ↔ doc.errors = [] ∧ doc.warnings = [] := by
  constructor
  · intro h
    simp [Document.errors, Document.warnings, h]
  · rintro ⟨herrors, hwarnings⟩
    rw [List.eq_nil_iff_forall_not_mem]
    intro x hx
    have hwarning : x ∈ doc.warnings := by
      simp [Document.warnings, hx, Document.errors_eq_nil.mp herrors x hx]
    simp [hwarnings] at hwarning

theorem Report.failed_ofDocument (limit : Option Int) (strict : Bool) (doc : Document) :
    (Report.ofDocument limit doc).failed strict = false ↔ doc.Passes strict := by
  have hfailed : (Report.ofDocument limit doc).failed strict = false ↔
      doc.errors = [] ∧ (strict = true → doc.warnings = []) := by
    simp [Report.failed, Report.isValid, Report.ofDocument]
  rw [hfailed, Document.Passes, ← Document.errors_eq_nil]
  constructor
  · rintro ⟨herrors, hwarnings⟩
    exact ⟨herrors, fun hstrict => Document.diagnostics_eq_nil.mpr ⟨herrors, hwarnings hstrict⟩⟩
  · rintro ⟨herrors, hnone⟩
    exact ⟨herrors, fun hstrict => (Document.diagnostics_eq_nil.mp (hnone hstrict)).2⟩

namespace Check

/-- What reading a template comes to: its file is read and its bytes are text, or one of the two
fails. -/
inductive Reads (c : Check) (host : Host) (path : Path) : Except ReadError Text → Prop
  | text {bytes : Bytes} {source : Text} : host.read path = .ok bytes →
      host.codecs.decodeText c.encoding bytes = .ok source → Reads c host path (.ok source)
  | faulty {bytes : Bytes} {error : DecodeError} : host.read path = .ok bytes →
      host.codecs.decodeText c.encoding bytes = .error error →
      Reads c host path (.error (.decode error))
  | unread {error : FileError} : host.read path = .error error →
      Reads c host path (.error (.file path error))

/-- The templates in their order, each either with the report on its text or with the reason why it
cannot be read. -/
inductive Places (c : Check) (host : Host) :
    List Template → List Report → List Unreadable → Prop
  | nil : Places c host [] [] []
  | report {t : Template} {ts : List Template} {reports : List Report}
      {unreadable : List Unreadable} {source : Text} :
      c.Reads host (c.pathOf t) (.ok source) → Places c host ts reports unreadable →
      Places c host (t :: ts)
        (.ofDocument none (.parse c.dialect (some t.sourceName) source) :: reports) unreadable
  | unreadable {t : Template} {ts : List Template} {reports : List Report}
      {unreadable : List Unreadable} {reason : ReadError} :
      c.Reads host (c.pathOf t) (.error reason) → Places c host ts reports unreadable →
      Places c host (t :: ts) reports (⟨t.sourceName, reason⟩ :: unreadable)

/-- The document of a template, unless its file cannot be read or its bytes are no text. -/
def document? (c : Check) (host : Host) (t : Template) : Option Document := do
  let bytes ← (host.read (c.pathOf t)).toOption
  let source ← (host.codecs.decodeText c.encoding bytes).toOption
  return .parse c.dialect (some t.sourceName) source

variable {c : Check} {host : Host} {templates : List Template} {reports : List Report}
  {unreadable : List Unreadable}

theorem reads_readText (c : Check) (host : Host) (path : Path) :
    c.Reads host path (c.readText host path) := by
  cases hread : host.read path with
  | error e =>
    simp only [readText, hread]
    exact .unread hread
  | ok bytes =>
    cases htext : host.codecs.decodeText c.encoding bytes with
    | error e =>
      simp only [readText, hread, htext]
      exact .faulty hread htext
    | ok source =>
      simp only [readText, hread, htext]
      exact .text hread htext

/-- A template has a document exactly if it is read. -/
theorem Reads.document?_eq {t : Template} {read : Except ReadError Text}
    (h : c.Reads host (c.pathOf t) read) :
    c.document? host t = read.toOption.map (.parse c.dialect (some t.sourceName)) := by
  cases h with
  | text hread htext => simp [document?, hread, htext, Except.toOption]
  | faulty hread htext => simp [document?, hread, htext, Except.toOption]
  | unread hread => simp [document?, hread, Except.toOption]

theorem places_gather (c : Check) (host : Host) (templates : List Template) :
    c.Places host templates
      (c.gather (templates.map fun t => c.checkFile host t.sourceName (c.pathOf t))).reports
      (c.gather (templates.map fun t =>
        c.checkFile host t.sourceName (c.pathOf t))).unreadable := by
  induction templates with
  | nil => exact .nil
  | cons t ts ih =>
    have hreads := reads_readText c host (c.pathOf t)
    rw [List.map_cons, checkFile]
    cases hread : c.readText host (c.pathOf t) with
    | ok source =>
      rw [hread] at hreads
      exact .report hreads ih
    | error reason =>
      rw [hread] at hreads
      exact .unreadable hreads ih

/-- The reports are those on the documents. -/
theorem Places.reports_eq (h : c.Places host templates reports unreadable) :
    reports = (templates.filterMap (c.document? host)).map (Report.ofDocument none) := by
  induction h with
  | nil => rfl
  | report hreads _ ih => simp [hreads.document?_eq, Except.toOption, ih]
  | unreadable hreads _ ih => simp [hreads.document?_eq, Except.toOption, ih]

theorem Places.length_unreadable (h : c.Places host templates reports unreadable) :
    unreadable.length = templates.countP fun t => (c.document? host t).isNone := by
  induction h with
  | nil => rfl
  | report hreads _ ih => simp [hreads.document?_eq, Except.toOption, ih]
  | unreadable hreads _ ih => simp [hreads.document?_eq, Except.toOption, ih]

/-- The numbers of a check, counted over the documents. -/
def totals (c : Check) (host : Host) (templates : List Template) : Json :=
  let documents := templates.filterMap (c.document? host)
  .object [("templates", .nat documents.length),
    ("failed", .nat (documents.countP fun doc => ¬ doc.Passes c.failOnWarning)),
    ("unreadable", .nat (templates.countP fun t => (c.document? host t).isNone)),
    ("errors", .nat ((documents.flatMap Document.diagnostics).countP (·.isError))),
    ("warnings", .nat ((documents.flatMap Document.diagnostics).countP fun x => !x.isError))]

section Result

variable {result : CheckResult}

theorem length_failedReports (h : c.Places host templates result.reports result.unreadable)
    (hstrict : result.failOnWarning = c.failOnWarning) :
    result.failedReports.length =
      (templates.filterMap (c.document? host)).countP fun doc => ¬ doc.Passes c.failOnWarning := by
  rw [CheckResult.failedReports, h.reports_eq, hstrict, ← List.countP_eq_length_filter,
    List.countP_map]
  refine List.countP_congr ?_
  intro doc _
  simp [← Report.failed_ofDocument none]

theorem errorCount_eq (h : c.Places host templates result.reports result.unreadable) :
    result.errorCount =
      ((templates.filterMap (c.document? host)).flatMap Document.diagnostics).countP
        (·.isError) := by
  rw [CheckResult.errorCount, h.reports_eq, List.flatMap_map, List.countP_eq_length_filter,
    List.filter_flatMap]
  rfl

theorem warningCount_eq (h : c.Places host templates result.reports result.unreadable) :
    result.warningCount =
      ((templates.filterMap (c.document? host)).flatMap Document.diagnostics).countP
        fun x => !x.isError := by
  rw [CheckResult.warningCount, h.reports_eq, List.flatMap_map, List.countP_eq_length_filter,
    List.filter_flatMap]
  rfl

theorem stats_eq (h : c.Places host templates result.reports result.unreadable)
    (hstrict : result.failOnWarning = c.failOnWarning) :
    result.toJson.get? "stats" = some (c.totals host templates) := by
  have hreports : result.reports.length = (templates.filterMap (c.document? host)).length := by
    rw [h.reports_eq, List.length_map]
  rw [totals, ← hreports, ← length_failedReports h hstrict, ← h.length_unreadable,
    ← errorCount_eq h, ← warningCount_eq h]
  rfl

theorem failed_eq_false_iff (h : c.Places host templates result.reports result.unreadable)
    (hstrict : result.failOnWarning = c.failOnWarning) :
    result.failed = false ↔
      ∀ t ∈ templates, ∃ doc, c.document? host t = some doc ∧ doc.Passes c.failOnWarning := by
  have hunreadable : result.unreadable = [] ↔ ∀ t ∈ templates, c.document? host t ≠ none := by
    rw [← List.length_eq_zero_iff, h.length_unreadable, List.countP_eq_zero]
    simp
  have hreports : result.failedReports = [] ↔
      ∀ doc ∈ templates.filterMap (c.document? host), doc.Passes c.failOnWarning := by
    rw [← List.length_eq_zero_iff, length_failedReports h hstrict, List.countP_eq_zero]
    simp
  have hfailed : result.failed = false ↔ result.unreadable = [] ∧ result.failedReports = [] := by
    simp [CheckResult.failed]
  rw [hfailed, hunreadable, hreports]
  constructor
  · rintro ⟨hdecodes, hpasses⟩ t ht
    obtain ⟨doc, hdoc⟩ := Option.ne_none_iff_exists'.mp (hdecodes t ht)
    exact ⟨doc, hdoc, hpasses doc (List.mem_filterMap.mpr ⟨t, ht, hdoc⟩)⟩
  · intro hall
    constructor
    · intro t ht
      obtain ⟨doc, hdoc, -⟩ := hall t ht
      simp [hdoc]
    · intro doc hdoc
      obtain ⟨t, ht, hdoc⟩ := List.mem_filterMap.mp hdoc
      obtain ⟨doc', hdoc', hpasses⟩ := hall t ht
      rw [hdoc] at hdoc'
      cases hdoc'
      exact hpasses

end Result

theorem run_eq {entries : List (Text × FileTree)}
    (hdir : host.find c.sourceDir = .ok (.directory entries))
    (hworkers : ∀ n ∈ c.maxWorkers, 1 ≤ n) :
    c.run host = .ok (c.gather ((Template.collect entries).map fun t =>
      c.checkFile host t.sourceName (c.pathOf t))) := by
  have hnone : c.maxWorkers.any (· ≤ 0) = false := by
    rw [Option.any_eq_false]
    intro n hn
    have hpos : ¬ n ≤ 0 := by
      have hone := hworkers n hn
      omega
    simpa using hpos
  simp [run, collect, hdir, hnone]

/-- The exit status of the command is that of the check that its arguments ask for. -/
theorem status_run {result : CheckResult} {settings : Settings} {arguments : List Text}
    {o : CommandLine.Options}
    (ho : CommandLine.Options.ofArguments settings arguments = .ok o)
    (hworkers : ∀ n ∈ (o.toCheck settings).maxWorkers, 1 ≤ n)
    (hrun : (o.toCheck settings).run host = .ok result) :
    (CommandLine.run settings arguments host).status =
      if result.failed then .failed else .ok := by
  have hnone : o.workers.filter (· < 1) = none := by
    rw [Option.filter_eq_none_iff]
    intro n hn
    have hge : ¬ n < 1 := by
      have hone := hworkers n hn
      omega
    simpa using hge
  simp only [CommandLine.run, ho, CommandLine.runCheck, hnone, hrun,
    CommandLine.Completion.ofResult]

/-- A check of a directory has a result, whatever the encodings are. Each template that is collected
is in it once, and what counts is what reading its file gives. The numbers of the result are those
of the documents, and the command ends with status 0 exactly if all templates are read and have
documents that pass, and with status 1 otherwise. -/
theorem verdict_exact {entries : List (Text × FileTree)}
    (hdir : host.find c.sourceDir = .ok (.directory entries))
    (hworkers : ∀ n ∈ c.maxWorkers, 1 ≤ n) :
    ∃ result, c.run host = .ok result ∧
      c.Places host (Template.collect entries) result.reports result.unreadable ∧
      (host.root.Proper → ∀ t ∈ Template.collect entries, ∃ content,
        (FileTree.directory entries).Holds t.path content ∧ host.read (c.pathOf t) = content) ∧
      result.toJson.get? "stats" = some (c.totals host (Template.collect entries)) ∧
      ∀ settings arguments o, CommandLine.Options.ofArguments settings arguments = .ok o →
        o.toCheck settings = c →
        ((CommandLine.run settings arguments host).status.code = 0 ↔
          ∀ t ∈ Template.collect entries,
            ∃ doc, c.document? host t = some doc ∧ doc.Passes c.failOnWarning) ∧
        ((CommandLine.run settings arguments host).status.code = 1 ↔
          ¬ ∀ t ∈ Template.collect entries,
            ∃ doc, c.document? host t = some doc ∧ doc.Passes c.failOnWarning) := by
  have hrun := run_eq hdir hworkers
  have hplaces := places_gather c host (Template.collect entries)
  refine ⟨_, hrun, hplaces, ?_, ?_, ?_⟩
  · intro hproper t ht
    exact Template.read_of_mem_collect hproper hdir ht
  · exact stats_eq hplaces rfl
  · intro settings arguments o ho hcheck
    subst hcheck
    rw [← failed_eq_false_iff hplaces rfl, status_run ho hworkers hrun]
    cases (gather _ _).failed <;> simp [CommandLine.ExitStatus.code]

/-- The entries of a source directory with a template that leaves an element open. Its last byte is
the euro sign of its encoding. -/
def shopEntries : List (Text × FileTree) :=
  [("default".toList,
    .directory [("a.isml".toList, .file (.ok (Utf8.encode "<isif>".toList ++ [0x80])))])]

/-- A host with an encoding that has a euro sign among the characters of one byte. -/
def shopHost : Host where
  root := .directory [("shop".toList, .directory shopEntries)]
  codecs name :=
    if name = "cp1252".toList then
      .ok fun bytes => .ok (bytes.map fun b => if b = 0x80 then '€' else Char.ofNat b.toNat)
    else Codecs.basic name

theorem mem_collect_shopEntries :
    ⟨["default".toList, "a.isml".toList]⟩ ∈ Template.collect shopEntries := by
  have htemplate : Template.isTemplate ⟨["default".toList, "a.isml".toList]⟩ = true := by
    decide +kernel
  simpa [Template.collect, Template.languages, shopEntries, Template.below, Template.filesBelow,
    FileTree.isDirectory, FileTree.files, FileTree.filesOf] using htemplate

theorem verdict_exact_open :
    shopHost.find ⟨[], ["shop".toList]⟩ = .ok (.directory shopEntries) ∧
      (∀ n ∈ (none : Option Int), 1 ≤ n) ∧
      (CommandLine.run {} ["shop".toList, "--encoding=cp1252".toList] shopHost).status.code =
        1 := by
  have hdir : shopHost.find ⟨[], ["shop".toList]⟩ = .ok (.directory shopEntries) := rfl
  have hworkers : ∀ n ∈ (none : Option Int), 1 ≤ n := by simp
  refine ⟨hdir, hworkers, ?_⟩
  obtain ⟨result, -, -, -, -, hstatus⟩ :=
    verdict_exact (c := { sourceDir := ⟨[], ["shop".toList]⟩, encoding := "cp1252".toList })
      hdir hworkers
  have ho : (CommandLine.Options.ofArguments {}
      ["shop".toList, "--encoding=cp1252".toList]).toOption =
        some ⟨"shop".toList, "cp1252".toList, none, false, false, false, false⟩ := by
    decide +kernel
  obtain ⟨o, hoptions, rfl⟩ : ∃ o, CommandLine.Options.ofArguments {}
      ["shop".toList, "--encoding=cp1252".toList] = .ok o ∧
        o = ⟨"shop".toList, "cp1252".toList, none, false, false, false, false⟩ := by
    cases hoptions : CommandLine.Options.ofArguments {}
        ["shop".toList, "--encoding=cp1252".toList] with
    | error e =>
      rw [hoptions] at ho
      cases ho
    | ok o =>
      rw [hoptions] at ho
      exact ⟨o, rfl, Option.some.inj ho⟩
  refine (hstatus _ _ _ hoptions (by decide +kernel)).2.mpr ?_
  intro hall
  obtain ⟨doc, hdoc, hpasses⟩ := hall _ mem_collect_shopEntries
  have hfails : ((document? { sourceDir := ⟨[], ["shop".toList]⟩, encoding := "cp1252".toList }
      shopHost ⟨["default".toList, "a.isml".toList]⟩).any
      fun doc => decide (doc.Passes false)) = false := by decide +kernel
  rw [hdoc] at hfails
  simp [hpasses] at hfails

end Check

end StoreMarkup
