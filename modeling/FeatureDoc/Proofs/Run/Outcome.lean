import FeatureDoc.Proofs.Report.Json
import FeatureDoc.Proofs.Report.Text
import FeatureDoc.Proofs.Run.Batch
import FeatureDoc.Run.CommandLine

/-!
# Outcomes of runs

A run fails as a whole or not at all. It is refused if a setting, a filter or a path is wrong, and
it breaks off if something cannot be read; in both cases it prints nothing. Else it reports every
file, and the status tells whether all of them are documents. What the filters keep has no part in
this.

* `Settings.fails_ofEnvironment` and `Selection.fails_parse` say which settings and which filters
  are refused.
* `Format.Presents` says what a report of a summary is, and `Summary.narrow` what is reported of a
  summary under two filters.
* `Arguments.run_of_refused`, `Arguments.run_of_breaksOff` and `Arguments.run_of_completes` are the
  three ways in which a run can go, in the order in which they are told apart.
* `Arguments.run_outcome` is the main statement.
-/

namespace FeatureDoc

/-! ## Settings -/

theorem LogLevel.fails_parse {text : String} : Fails (LogLevel.parse text) ↔
    lowercase text ∉ ["trace", "debug", "info", "warn", "warning", "error"] := by
  unfold LogLevel.parse
  split <;> simp_all

theorem Format.fails_parse {text : String} :
    Fails (Format.parse text) ↔ lowercase text ∉ ["text", "json"] := by
  unfold Format.parse
  split <;> simp_all

theorem Format.eq_of_parse {text : String} {format : Format} (h : Format.parse text = .ok format) :
    format = if lowercase text = "json" then .json else .text := by
  unfold Format.parse at h
  split at h
  · next htext => cases h; simp [htext]
  · next htext => cases h; simp [htext]
  · cases h

namespace Settings

variable {environment : String → Option String}

/-- A variable of the environment is set to something that is not among the choices. -/
def Invalid (environment : String → Option String) : Prop :=
  (∃ text, environment logLevelVariable = some text ∧
    lowercase text ∉ ["trace", "debug", "info", "warn", "warning", "error"]) ∨
  ∃ text, environment formatVariable = some text ∧ lowercase text ∉ ["text", "json"]

theorem fails_ofEnvironment : Fails (ofEnvironment environment) ↔ Invalid environment := by
  unfold ofEnvironment Invalid
  rw [fails_read_both_iff]
  simp only [LogLevel.fails_parse, Format.fails_parse]

/-- The form of the report that an environment asks for, given that it is valid. -/
def formatOf (environment : String → Option String) : Format :=
  match environment formatVariable with
  | some text => if lowercase text = "json" then .json else .text
  | none => .text

theorem format_of_ofEnvironment {settings : Settings}
    (h : ofEnvironment environment = .ok settings) :
    settings.format = formatOf environment := by
  obtain ⟨logLevel, -, h⟩ := bind_eq_ok_iff.1 h
  obtain ⟨format, hformat, h⟩ := bind_eq_ok_iff.1 h
  cases h
  unfold formatOf
  cases htext : environment formatVariable with
  | none =>
    rw [htext] at hformat
    cases hformat
    rfl
  | some text =>
    rw [htext, Option.mapM_some] at hformat
    obtain ⟨given, hparse, heq⟩ := bind_eq_ok_iff.1 hformat
    cases heq
    exact Format.eq_of_parse hparse

end Settings

/-! ## Filters -/

/-- A filter is there and malformed. -/
def Selection.Malformed (tags lines : Option String) : Prop :=
  (∃ text, tags = some text ∧ Fails (TagExpr.parse text)) ∨
    ∃ text, lines = some text ∧ Fails (LineRange.parse text)

theorem Selection.fails_parse {tags lines : Option String} :
    Fails (parse tags lines) ↔ Malformed tags lines := fails_read_both_iff

theorem Selection.eq_of_parse {tags lines : Option String} {selection : Selection}
    (h : parse tags lines = .ok selection) :
    tags.mapM TagExpr.parse = .ok selection.tags ∧
      lines.mapM LineRange.parse = .ok selection.lines := by
  obtain ⟨tags', htags, h⟩ := bind_eq_ok_iff.1 h
  obtain ⟨lines', hlines, h⟩ := bind_eq_ok_iff.1 h
  cases h
  exact ⟨htags, hlines⟩

/-! ## Reports -/

/-- What a tag expression and then a line range leave of the features of a summary, where each of
them may be missing. -/
def Summary.narrow (s : Summary) (tags : Option TagExpr) (lines : Option LineRange) : Summary :=
  let tagged := match tags with
    | some e => s.features.filter (.tags e)
    | none => s.features
  let left := match lines with
    | some r => tagged.filter (.lines r)
    | none => tagged
  ⟨left, s.failures⟩

theorem Summary.select_eq_narrow (s : Summary) (selection : Selection) :
    s.select selection = s.narrow selection.tags selection.lines := by
  obtain ⟨tags, lines⟩ := selection
  cases tags <;> cases lines <;> rfl

theorem Summary.report_eq (s : Summary) (format : Format) :
    s.report format none = .ok (Chunk.concat (format.chunks s)) := rfl

/-- The text is a report of the summary: for readers, the tree of its lines; for programs, a JSON
text from which all that is reported can be read. -/
def Format.Presents (format : Format) (s : Summary) (text : String) : Prop :=
  match format with
  | .text => text = s.plainText
  | .json => ∃ document, text = document ++ "\n" ∧ SummaryView.ofText? document = some (.of s)

theorem Format.presents_concat (format : Format) (s : Summary) :
    format.Presents s (Chunk.concat (format.chunks s)) := by
  cases format with
  | text => exact TextReport.concat_chunks s
  | json =>
    exact ⟨_, Except.ok.inj (s.report_json_eq.symm.trans (s.report_eq .json)).symm,
      SummaryView.ofText?_pretty s⟩

/-! ## Requests -/

namespace Request

variable {r : Request} {format : Format} {disk : Disk}

theorem execute_of_malformed {e : FilterError} (h : Selection.parse r.tags r.lines = .error e) :
    r.execute format disk = .error (.filter e) := by
  rw [execute, h]
  rfl

variable {selection : Selection} (hselection : Selection.parse r.tags r.lines = .ok selection)

include hselection

theorem execute_of_fault {e : RunError} (h : disk.collect r.paths = .error e) :
    r.execute format disk = .error e := by
  rw [execute, hselection, h]
  rfl

/-- The report is written once all files are read. -/
theorem execute_eq {files : List String} (h : disk.collect r.paths = .ok files) :
    r.execute format disk = (Summary.readFiles disk files).map fun summary =>
      (summary.select selection, Chunk.concat (format.chunks (summary.select selection))) := by
  have hread : r.execute format disk = Summary.readFiles disk files >>= fun summary =>
      .ok (summary.select selection, Chunk.concat (format.chunks (summary.select selection))) := by
    rw [execute, hselection, h]
    rfl
  rw [hread]
  cases Summary.readFiles disk files with
  | error e => rfl
  | ok summary => rfl

end Request

/-! ## Ways of a run -/

namespace Disk

/-- Some of the files cannot be read as text. -/
def HasUnreadable (disk : Disk) (files : List String) : Prop :=
  ∃ path ∈ files, disk.read? path = none

/-- Some of the files can be read as text but not as documents. -/
def HasErrors (disk : Disk) (files : List String) : Prop :=
  ∃ path ∈ files, ∃ text, disk.read? path = some text ∧ Fails (parse text)

/-- What some files hold, before any filter. -/
def batch (disk : Disk) (files : List String) : Summary := .ofSources (disk.sources files)

theorem hasFailures_iff {disk : Disk} {files : List String} :
    (disk.batch files).hasFailures = true ↔ disk.HasErrors files := by
  rw [batch, Summary.hasFailures_ofSources]
  constructor
  · rintro ⟨⟨path, text⟩, hmem, hfails⟩
    obtain ⟨hpath, htext⟩ := mem_sources.1 hmem
    exact ⟨path, hpath, text, htext, hfails⟩
  · rintro ⟨path, hpath, text, htext, hfails⟩
    exact ⟨(path, text), mem_sources.2 ⟨hpath, htext⟩, hfails⟩

end Disk

namespace CommandLine

variable {a : Arguments} {environment : String → Option String} {disk : Disk}

/-- What is printed is a report with these failures, whatever its features are. -/
def Outcome.Reports (o : Outcome) (format : Format) (failures : List FileFailure) : Prop :=
  ∃ features, format.Presents ⟨features, failures⟩ o.stdout

namespace Arguments

/-- A setting is invalid, a filter is malformed, or the first path with a fault is missing or leads
to a feature file whose path is not text. -/
def Refused (a : Arguments) (environment : String → Option String) (disk : Disk) : Prop :=
  Settings.Invalid environment ∨ Selection.Malformed a.tags a.lines ∨
    (∃ path, FirstFault disk.PathFault a.paths (.pathNotFound path)) ∨
    ∃ shown, FirstFault disk.PathFault a.paths (.unreadable (.name shown))

/-- The first path with a fault leads to a place that cannot be read, or there is none and some file
cannot be read as text. -/
def BreaksOff (a : Arguments) (disk : Disk) : Prop :=
  (∃ reason, FirstFault disk.PathFault a.paths (.unreadable (.directory reason))) ∨
    ∃ files, disk.collect a.paths = .ok files ∧ disk.HasUnreadable files

/-- Some file can be read as text but not as a document. -/
def MeetsErrors (a : Arguments) (disk : Disk) : Prop :=
  ∃ files, disk.collect a.paths = .ok files ∧ disk.HasErrors files

/-- The form of the report: the one that is given, else the one of the environment. -/
def reportFormat (a : Arguments) (environment : String → Option String) : Format :=
  a.format.getD (Settings.formatOf environment)

theorem run_of_setting {e : SettingError} (h : Settings.ofEnvironment environment = .error e) :
    a.run environment disk = ⟨2, ""⟩ := by
  rw [run, h]
  rfl

theorem run_of_error {settings : Settings} {e : RunError}
    (hsettings : Settings.ofEnvironment environment = .ok settings)
    (h : ∀ format, Request.execute ⟨a.paths, a.tags, a.lines⟩ format disk = .error e) :
    a.run environment disk = ⟨exitCode e, ""⟩ := by
  rw [run, hsettings]
  simp only [h]

theorem run_of_fault {e : RunError} (hvalid : ¬ Settings.Invalid environment)
    (hformed : ¬ Selection.Malformed a.tags a.lines) (h : FirstFault disk.PathFault a.paths e) :
    a.run environment disk = ⟨exitCode e, ""⟩ := by
  obtain ⟨settings, hsettings⟩ := not_fails_iff.1 (mt Settings.fails_ofEnvironment.1 hvalid)
  obtain ⟨selection, hselection⟩ := not_fails_iff.1 (mt Selection.fails_parse.1 hformed)
  exact run_of_error hsettings fun format =>
    Request.execute_of_fault hselection (Disk.collect_eq_error_iff.2 h)

theorem run_of_refused (h : a.Refused environment disk) : a.run environment disk = ⟨2, ""⟩ := by
  -- A stage is reached only when those before it succeed, so its cause is the one that is left.
  cases hsettings : Settings.ofEnvironment environment with
  | error e => exact run_of_setting hsettings
  | ok settings =>
    have hvalid : ¬ Settings.Invalid environment := fun hinvalid =>
      not_fails_ok settings (hsettings ▸ Settings.fails_ofEnvironment.2 hinvalid)
    cases hselection : Selection.parse a.tags a.lines with
    | error e => exact run_of_error hsettings fun format => Request.execute_of_malformed hselection
    | ok selection =>
      have hformed : ¬ Selection.Malformed a.tags a.lines := fun hmalformed =>
        not_fails_ok selection (hselection ▸ Selection.fails_parse.2 hmalformed)
      rcases (h.resolve_left hvalid).resolve_left hformed with ⟨path, hfault⟩ | ⟨shown, hfault⟩
      · exact run_of_fault hvalid hformed hfault
      · exact run_of_fault hvalid hformed hfault

section NotRefused

variable (h : ¬ a.Refused environment disk)

include h

/-- A run that is not refused finds its files or a place that cannot be read. -/
theorem collect_of_not_refused :
    (∃ reason, FirstFault disk.PathFault a.paths (.unreadable (.directory reason))) ∨
      ∃ files, disk.collect a.paths = .ok files := by
  simp only [Refused, not_or, not_exists] at h
  obtain ⟨-, -, hmissing, hname⟩ := h
  cases hcollect : disk.collect a.paths with
  | ok files => exact .inr ⟨files, rfl⟩
  | error e =>
    have hfault := Disk.collect_eq_error_iff.1 hcollect
    obtain ⟨front, path, back, -, -, hpath⟩ := id hfault
    rcases hpath.cases with rfl | ⟨shown, rfl⟩ | ⟨reason, rfl⟩
    · exact absurd hfault (hmissing path)
    · exact absurd hfault (hname shown)
    · exact .inl ⟨reason, hfault⟩

/-- A run that is not refused and finds files depends on what comes of reading them. -/
theorem run_of_collect {files : List String} (hfiles : disk.collect a.paths = .ok files) :
    ∃ selection, Selection.parse a.tags a.lines = .ok selection ∧ a.run environment disk =
      match Summary.readFiles disk files with
      | .error e => ⟨exitCode e, ""⟩
      | .ok summary => ⟨if summary.hasFailures then 1 else 0,
          Chunk.concat ((a.reportFormat environment).chunks (summary.select selection))⟩ := by
  simp only [Refused, not_or] at h
  obtain ⟨hvalid, hformed, -⟩ := h
  obtain ⟨settings, hsettings⟩ := not_fails_iff.1 (mt Settings.fails_ofEnvironment.1 hvalid)
  obtain ⟨selection, hselection⟩ := not_fails_iff.1 (mt Selection.fails_parse.1 hformed)
  have hformat : (settings.override a.logLevel a.format).format = a.reportFormat environment :=
    congrArg a.format.getD (Settings.format_of_ofEnvironment hsettings)
  have hexecute := @Request.execute_eq ⟨a.paths, a.tags, a.lines⟩ (a.reportFormat environment) disk
    selection hselection _ hfiles
  refine ⟨selection, hselection, ?_⟩
  rw [run, hsettings]
  simp only [hformat, hexecute]
  cases Summary.readFiles disk files with
  | error e => rfl
  | ok summary => rfl

theorem run_of_breaksOff (hbreaks : a.BreaksOff disk) : a.run environment disk = ⟨1, ""⟩ := by
  rcases hbreaks with ⟨reason, hfault⟩ | ⟨files, hfiles, hunreadable⟩
  · simp only [Refused, not_or] at h
    exact run_of_fault h.1 h.2.1 hfault
  · obtain ⟨first, hfirst⟩ := exists_find?_eq_some hunreadable
    obtain ⟨selection, -, hrun⟩ := run_of_collect h hfiles
    rw [hrun, Summary.readFiles_eq_error hfirst]
    rfl

theorem run_of_completes (hbreaks : ¬ a.BreaksOff disk) :
    ∃ selection files, Selection.parse a.tags a.lines = .ok selection ∧
      disk.collect a.paths = .ok files ∧ a.run environment disk =
        ⟨if (disk.batch files).hasFailures then 1 else 0, Chunk.concat
          ((a.reportFormat environment).chunks ((disk.batch files).select selection))⟩ := by
  obtain ⟨hread, hreadable⟩ := not_or.1 hbreaks
  obtain ⟨files, hfiles⟩ := (collect_of_not_refused h).resolve_left hread
  obtain ⟨selection, hselection, hrun⟩ := run_of_collect h hfiles
  have hall : ∀ path ∈ files, disk.read? path ≠ none := fun path hpath hnone =>
    hreadable ⟨files, hfiles, path, hpath, hnone⟩
  rw [Summary.readFiles_eq_ok hall] at hrun
  exact ⟨selection, files, hselection, hfiles, hrun⟩

end NotRefused

/-- The status of a run. -/
theorem code_run_iff :
    ((a.run environment disk).code = 2 ↔ a.Refused environment disk) ∧
    ((a.run environment disk).code = 1 ↔
      ¬ a.Refused environment disk ∧ (a.BreaksOff disk ∨ a.MeetsErrors disk)) ∧
    ((a.run environment disk).code = 0 ↔
      ¬ a.Refused environment disk ∧ ¬ a.BreaksOff disk ∧ ¬ a.MeetsErrors disk) := by
  by_cases hrefused : a.Refused environment disk
  · simp [run_of_refused hrefused, hrefused]
  by_cases hbreaks : a.BreaksOff disk
  · simp [run_of_breaksOff hrefused hbreaks, hrefused, hbreaks]
  obtain ⟨selection, files, -, hfiles, hrun⟩ := run_of_completes hrefused hbreaks
  have hmeets : a.MeetsErrors disk ↔ (disk.batch files).hasFailures = true := by
    simp [MeetsErrors, hfiles, Disk.hasFailures_iff]
  cases hfailures : (disk.batch files).hasFailures <;>
    simp [hrun, hrefused, hbreaks, hmeets, hfailures]

/-- Other filters that are well-formed leave the status and the failures as they are. -/
theorem run_filters {tags lines : Option String} (h : ¬ Selection.Malformed a.tags a.lines)
    (h' : ¬ Selection.Malformed tags lines) :
    ({ a with tags, lines }.run environment disk).code = (a.run environment disk).code ∧
    (((a.run environment disk).stdout = "" ∧
        ({ a with tags, lines }.run environment disk).stdout = "") ∨
      ∃ files, disk.collect a.paths = .ok files ∧
        (a.run environment disk).Reports (a.reportFormat environment)
          (disk.batch files).failures ∧
        ({ a with tags, lines }.run environment disk).Reports (a.reportFormat environment)
          (disk.batch files).failures) := by
  have hsame : { a with tags, lines }.Refused environment disk ↔ a.Refused environment disk := by
    simp only [Refused, h, h', false_or]
  by_cases hrefused : a.Refused environment disk
  · rw [run_of_refused hrefused, run_of_refused (hsame.2 hrefused)]
    exact ⟨rfl, .inl ⟨rfl, rfl⟩⟩
  have hrefused' := mt hsame.1 hrefused
  by_cases hbreaks : a.BreaksOff disk
  · rw [run_of_breaksOff hrefused hbreaks, run_of_breaksOff hrefused' hbreaks]
    exact ⟨rfl, .inl ⟨rfl, rfl⟩⟩
  · obtain ⟨selection, files, -, hfiles, hrun⟩ := run_of_completes hrefused hbreaks
    obtain ⟨selection', files', -, hfiles', hrun'⟩ := run_of_completes hrefused' hbreaks
    cases hfiles.symm.trans hfiles'
    rw [hrun, hrun']
    exact ⟨rfl, .inr ⟨files, hfiles, ⟨_, Format.presents_concat _ _⟩, _,
      Format.presents_concat _ _⟩⟩

/-- **A run fails as a whole or not at all, and its filters have no part in this.** -/
theorem run_outcome (a : Arguments) (environment : String → Option String) (disk : Disk) :
    let outcome := a.run environment disk
    let format := a.reportFormat environment
    (outcome.code = 2 ↔ a.Refused environment disk) ∧
    (outcome.code = 1 ↔
      ¬ a.Refused environment disk ∧ (a.BreaksOff disk ∨ a.MeetsErrors disk)) ∧
    (outcome.code = 0 ↔
      ¬ a.Refused environment disk ∧ ¬ a.BreaksOff disk ∧ ¬ a.MeetsErrors disk) ∧
    (a.Refused environment disk ∨ a.BreaksOff disk → outcome.stdout = "") ∧
    (¬ a.Refused environment disk → ¬ a.BreaksOff disk →
      ∃ tags lines files, a.tags.mapM TagExpr.parse = .ok tags ∧
        a.lines.mapM LineRange.parse = .ok lines ∧ disk.collect a.paths = .ok files ∧
        ((disk.batch files).narrow tags lines).report format none = .ok outcome.stdout ∧
        format.Presents ((disk.batch files).narrow tags lines) outcome.stdout) ∧
    ∀ tags lines, ¬ Selection.Malformed a.tags a.lines → ¬ Selection.Malformed tags lines →
      let outcome' := { a with tags, lines }.run environment disk
      outcome'.code = outcome.code ∧
        ((outcome.stdout = "" ∧ outcome'.stdout = "") ∨
          ∃ files, disk.collect a.paths = .ok files ∧
            outcome.Reports format (disk.batch files).failures ∧
            outcome'.Reports format (disk.batch files).failures) := by
  obtain ⟨htwo, hone, hzero⟩ := @code_run_iff a environment disk
  refine ⟨htwo, hone, hzero, fun hsilent => ?_, fun hrefused hbreaks => ?_,
    fun tags lines hformed hformed' => run_filters hformed hformed'⟩
  · by_cases hrefused : a.Refused environment disk
    · rw [run_of_refused hrefused]
    · rw [run_of_breaksOff hrefused (hsilent.resolve_left hrefused)]
  · obtain ⟨selection, files, hselection, hfiles, hrun⟩ := run_of_completes hrefused hbreaks
    obtain ⟨htags, hlines⟩ := Selection.eq_of_parse hselection
    rw [Summary.select_eq_narrow] at hrun
    rw [hrun]
    exact ⟨_, _, files, htags, hlines, hfiles, Summary.report_eq _ _, Format.presents_concat _ _⟩

/-- A document and a file that is none, under two filters. -/
theorem run_outcome_bad_file :
    let environment : String → Option String := fun name =>
      if name = Settings.formatVariable then some "JSON" else none
    let disk : Disk := ⟨fun _ => .file, fun path =>
      some (if path = "a" then "Feature: A\n@t\nScenario: S\nGiven x\n" else "Feature B\n")⟩
    let a : Arguments := { paths := ["a", "b"], tags := some "@t" }
    let outcome := a.run environment disk
    outcome.code = 1 ∧
      ({ a with tags := none, lines := some "7" }.run environment disk).code = 1 ∧
      Format.json.Presents ((disk.batch ["a", "b"]).narrow (some (.tag "t")) none) outcome.stdout := by
  intro environment disk a outcome
  have hsettings : Settings.ofEnvironment environment = .ok ⟨.warn, .json⟩ := by decide +kernel
  have hvalid := mt Settings.fails_ofEnvironment.2 (not_fails_iff.2 ⟨_, hsettings⟩)
  have htags : Selection.parse a.tags a.lines = .ok ⟨some (.tag "t"), none⟩ := by decide +kernel
  have hformed := mt Selection.fails_parse.2 (not_fails_iff.2 ⟨_, htags⟩)
  have hlines : Selection.parse none (some "7") = .ok ⟨none, some ⟨7, 7⟩⟩ := by decide +kernel
  have hformed' := mt Selection.fails_parse.2 (not_fails_iff.2 ⟨_, hlines⟩)
  have hfiles : disk.collect a.paths = .ok ["a", "b"] := rfl
  have hfault : ∀ e, ¬ FirstFault disk.PathFault a.paths e := by
    intro e he
    cases hfiles.symm.trans (Disk.collect_eq_error_iff.2 he)
  have hrefused : ¬ a.Refused environment disk := by
    rintro (h | h | ⟨path, h⟩ | ⟨shown, h⟩)
    · exact hvalid h
    · exact hformed h
    · exact hfault _ h
    · exact hfault _ h
  have hbreaks : ¬ a.BreaksOff disk := by
    rintro (⟨reason, h⟩ | ⟨files, -, path, -, hnone⟩)
    · exact hfault _ h
    · cases hnone
  have hparse : parse "Feature B\n" = .error ⟨[.unexpectedToken .colon .stepBody "B" 1]⟩ := by
    decide +kernel
  have herrors : a.MeetsErrors disk :=
    ⟨["a", "b"], hfiles, "b", by decide, "Feature B\n", rfl, _, hparse⟩
  obtain ⟨-, hone, -, -, hreport, hfilters⟩ := run_outcome a environment disk
  have hcode : outcome.code = 1 := hone.2 ⟨hrefused, .inr herrors⟩
  obtain ⟨tags, lines, files, htags', hlines', hfiles', -, hpresents⟩ := hreport hrefused hbreaks
  cases (Selection.eq_of_parse htags).1.symm.trans htags'
  cases (Selection.eq_of_parse htags).2.symm.trans hlines'
  cases hfiles.symm.trans hfiles'
  exact ⟨hcode, (hfilters none (some "7") hformed hformed').1.trans hcode, hpresents⟩

/-- A run that asks for nothing wrong may be refused or break off all the same, for what is below a
directory: here beside a file that is a document. -/
theorem run_stopped :
    let environment : String → Option String := fun _ => none
    let disk : Visit → Disk := fun v =>
      ⟨fun _ => .directory [.entry ⟨.text "d/a.feature", true⟩, v], fun _ => some "Feature: A\n"⟩
    let stray := disk (.entry ⟨.bytes "d/bad\uFFFD.feature", true⟩)
    let locked := disk (.failure "Permission denied (os error 13)")
    let a : Arguments := { paths := ["d"] }
    ¬ Settings.Invalid environment ∧ ¬ Selection.Malformed a.tags a.lines ∧
      (stray.find "d" ≠ .missing ∧ a.run environment stray = ⟨2, ""⟩) ∧
      (locked.find "d" ≠ .missing ∧ a.run environment locked = ⟨1, ""⟩) ∧
      ∀ v path, ∃ text, (disk v).read? path = some text ∧ ¬ Fails (parse text) := by
  intro environment disk stray locked a
  have hsettings : Settings.ofEnvironment environment = .ok ⟨.warn, .text⟩ := by decide +kernel
  have hparse : parse "Feature: A\n" = .ok ⟨[⟨"A", 1, [], [], none, []⟩]⟩ := by decide +kernel
  refine ⟨mt Settings.fails_ofEnvironment.2 (not_fails_iff.2 ⟨_, hsettings⟩), ?_,
    ⟨by simp [stray, disk], by decide +kernel⟩, ⟨by simp [locked, disk], by decide +kernel⟩, ?_⟩
  · rintro (⟨_, h, -⟩ | ⟨_, h, -⟩) <;> cases h
  · exact fun v path => ⟨_, rfl, not_fails_iff.2 ⟨_, hparse⟩⟩

end Arguments

end CommandLine

end FeatureDoc
