import DocDirectives.Proofs.Lint.Totals
import DocDirectives.Proofs.Session.Memory

/-! # Checking with one session

    One session checks all the files of a folder, in the order in which they are visited. It keeps
    nothing from one comment to the next, so every file adds to the report what it adds when a
    session that has read nothing checks it alone. -/

namespace DocDirectives

namespace Lint

/-- A report and what reading a declaration has given. -/
def entry (options : LintOptions) (d : Declaration) (r : LintReport) :
    Except Failure (List Directive) → LintReport
  | .ok ds =>
    let counted := { r with directives := r.directives + ds.length }
    if options.warnDuplicates then counted.pushAll (repeatIssues d ds) else counted
  | .error e => r.push (failureIssue options d e)

theorem checkDeclaration_eq_entry (p : Parser) (catalog : Catalog) (options : LintOptions)
    (f : SourceFile) (r : LintReport) (d : Declaration) :
    checkDeclaration p catalog options f r d =
      entry options d r (p.parseDeclaration catalog f d) := by
  unfold checkDeclaration entry
  cases p.parseDeclaration catalog f d <;> rfl

end Lint

/-- Whether a file is in a known language. -/
def isSource (file : String) : Bool := (Language.ofPath? file).isSome

theorem FileTree.sources_eq (t : FileTree) (path : String) :
    t.sources path = (t.walk path).filter isSource := rfl

/-- The files below a folder are visited once each. -/
theorem FileTree.walk_perm {t : FileTree} {path : String} {p : Position}
    (hlocate : t.locate path = .ok p) (hfolder : t.at? p = some .folder) :
    (t.walk path).Perm ((t.files.filterMap fun f => below? p f.1).map (join path)) := by
  rw [walk, hlocate]
  simp only [hfolder]
  exact (List.mergeSort_perm _ _).map _

namespace Session

open LintReport

variable {t : FileTree} {catalog : Catalog} {options : LintOptions} {f : SourceFile}

/-! ### The loops of a check -/

/-- Check declarations, one behind the other, into a report. -/
def checkDeclarations (s : Session) (catalog : Catalog) (options : LintOptions) (f : SourceFile)
    (r : LintReport) : List Declaration → LintReport × Session
  | [] => (r, s)
  | d :: ds =>
    let (given, s') := s.parse (f.site catalog d) d.documentation
    s'.checkDeclarations catalog options f (Lint.entry options d r given) ds

/-- Check a scanned file. -/
def checkSource (s : Session) (catalog : Catalog) (options : LintOptions) (f : SourceFile) :
    LintReport × Session :=
  s.checkDeclarations catalog options f { files := 1, declarations := f.declarations.length }
    f.documented

/-- Scan a file and check it. -/
def lintFile (s : Session) (t : FileTree) (catalog : Catalog) (options : LintOptions)
    (file : String) : Except Failure LintReport × Session :=
  match t.scan file with
  | .error e => (.error e, s)
  | .ok f =>
    let (r, s') := s.checkSource catalog options f
    (.ok r, s')

/-- Check the files of known languages among those visited, into a report. -/
def lintVisits (s : Session) (t : FileTree) (catalog : Catalog) (options : LintOptions)
    (r : LintReport) : List String → LintReport × Session
  | [] => (r, s)
  | file :: files =>
    if isSource file then
      match s.lintFile t catalog options file with
      | (.ok found, s') => s'.lintVisits t catalog options (r.merge found) files
      | (.error e, s') =>
        s'.lintVisits t catalog options (r.push (Lint.unreadableIssue file e)) files
    else s.lintVisits t catalog options r files

/-- Check a folder whose files are visited in an order. -/
def lintFolder (s : Session) (t : FileTree) (catalog : Catalog) (options : LintOptions)
    (path : String) (visits : List String) : Except Failure LintReport × Session :=
  if t.has path then
    let (r, s') := s.lintVisits t catalog options {} visits
    (.ok r, s')
  else (.error (.invalidArgument s!"path '{path}' does not exist"), s)

/-! ### What the loops give -/

/-- A session checks declarations as its reader does, and keeps its reader. -/
theorem checkDeclarations_spec (s : Session) (r : LintReport) (ds : List Declaration) :
    (s.checkDeclarations catalog options f r ds).1 =
        ds.foldl (Lint.checkDeclaration s.parser catalog options f) r ∧
      (s.checkDeclarations catalog options f r ds).2.parser = s.parser := by
  induction ds generalizing s r with
  | nil => exact ⟨rfl, rfl⟩
  | cons d ds ih =>
    have hentry : Lint.entry options d r (s.parse (f.site catalog d) d.documentation).1 =
        Lint.checkDeclaration s.parser catalog options f r d := by
      rw [parse_result, Lint.checkDeclaration_eq_entry, Parser.parseDeclaration]
    have hcons : s.checkDeclarations catalog options f r (d :: ds) =
        (s.parse (f.site catalog d) d.documentation).2.checkDeclarations catalog options f
          (Lint.checkDeclaration s.parser catalog options f r d) ds := by
      rw [← hentry]
      rfl
    rw [hcons, List.foldl_cons, ← parser_parse s (f.site catalog d) d.documentation]
    exact ih _ _

theorem checkSource_spec (s : Session) (catalog : Catalog) (options : LintOptions)
    (f : SourceFile) :
    (s.checkSource catalog options f).1 = Lint.checkSource s.parser catalog options f ∧
      (s.checkSource catalog options f).2.parser = s.parser :=
  checkDeclarations_spec s _ f.documented

/-- A session checks files as its reader does, without those in no known language. -/
theorem lintVisits_spec (s : Session) (r : LintReport) (files : List String) :
    (s.lintVisits t catalog options r files).1 =
        (files.filter isSource).foldl (t.lintInto s.parser catalog options) r ∧
      (s.lintVisits t catalog options r files).2.parser = s.parser := by
  induction files generalizing s r with
  | nil => exact ⟨rfl, rfl⟩
  | cons file files ih =>
    rw [lintVisits]
    by_cases hknown : isSource file = true
    · rw [if_pos hknown, List.filter_cons_of_pos hknown, List.foldl_cons, FileTree.lintInto,
        FileTree.lintFile, lintFile]
      cases t.scan file with
      | error e => exact ih s _
      | ok f =>
        obtain ⟨hreport, hkept⟩ := checkSource_spec s catalog options f
        dsimp only
        rw [hreport, Except.map, ← hkept]
        exact ih _ _
    · rw [if_neg hknown, List.filter_cons_of_neg hknown]
      exact ih s r

/-- The report on a folder, whatever the session has read before: the sum of what its files add. -/
theorem lintFolder_eq (s : Session) {path : String} (hhas : t.has path = true)
    (visits : List String) :
    (s.lintFolder t catalog options path visits).1 =
      .ok (total ((visits.filter isSource).map (t.part s.parser catalog options))) := by
  rw [lintFolder, if_pos hhas, ← FileTree.foldl_lintInto, ← (lintVisits_spec s {} visits).1]

/-! ### The report on a folder -/

/-- What a file adds to the report on its folder: all that a session finds that has read nothing
    and checks the file alone, and then the file is counted and has no issue that says that it
    cannot be scanned; or one such issue, and then the file is not counted. -/
inductive Adds (s : Session) (t : FileTree) (catalog : Catalog) (options : LintOptions)
    (file : String) (added : LintReport) : Prop
  | checked {f : SourceFile} : t.scan file = .ok f →
      added = ((fresh s.cursor.classifier s.ignored).checkSource catalog options f).1 →
      added.files = 1 → added.unscanned = 0 → Adds s t catalog options file added
  | unscanned {e : Failure} : t.scan file = .error e →
      added = { issues := [Lint.unreadableIssue file e], errors := 1 } →
      Adds s t catalog options file added

theorem adds_part (s : Session) (t : FileTree) (catalog : Catalog) (options : LintOptions)
    (file : String) : Adds s t catalog options file (t.part s.parser catalog options file) := by
  cases h : t.scan file with
  | error e => exact .unscanned h (FileTree.part_of_error h)
  | ok f =>
    have hfresh := (checkSource_spec (fresh s.cursor.classifier s.ignored) catalog options f).1
    rw [FileTree.part_of_ok h]
    exact .checked h hfresh.symm (Lint.files_checkSource _ _ _ f)
      (Lint.unscanned_checkSource _ _ _ f)

/-- A folder that is there has a report, in every order in which its files are visited and
    whatever the session has read before. The counters of errors and warnings count the issues, so
    the run passes just when none of them is an error. The report is the sum of what the files of
    known languages add, and each of them is counted or has its one issue. The files visited in
    another order give the same counters, and the issues file by file in that order; in the order of
    the folder the report is that of a reader. -/
theorem lintFolder_visits (s : Session) (t : FileTree) (catalog : Catalog) (options : LintOptions)
    {path : String} {visits : List String} (hhas : t.has path = true)
    (hvisits : visits.Perm (t.walk path)) :
    ∃ r, (s.lintFolder t catalog options path visits).1 = .ok r ∧
      (r.errors = r.count .error ∧ r.warnings = r.count .warning ∧
        (r.passed = true ↔ ∀ i ∈ r.issues, i.severity ≠ .error)) ∧
      (r = total ((visits.filter isSource).map (t.part s.parser catalog options)) ∧
        ∀ file ∈ visits.filter isSource,
          Adds s t catalog options file (t.part s.parser catalog options file)) ∧
      r.files + r.unscanned = (t.sources path).length ∧
      (∀ (s' : Session) (visits' : List String), s'.parser = s.parser →
        visits'.Perm (t.walk path) →
        ∃ r', (s'.lintFolder t catalog options path visits').1 = .ok r' ∧
          r'.counters = r.counters ∧ r'.issues = (visits'.filter isSource).flatMap fun file =>
            (t.part s.parser catalog options file).issues) ∧
      (visits = t.walk path → t.lintFolder s.parser catalog options path = .ok r) := by
  have htallied := FileTree.tallied_files t s.parser catalog options (visits.filter isSource)
  refine ⟨_, lintFolder_eq s hhas visits, ⟨htallied.errors, htallied.warnings, htallied.passed_iff⟩,
    ⟨rfl, fun file _ => adds_part s t catalog options file⟩, ?_, ?_, ?_⟩
  · rw [FileTree.files_add_unscanned, FileTree.sources_eq]
    exact (hvisits.filter _).length_eq
  · intro s' visits' hparser hvisits'
    have hperm := (hvisits'.trans hvisits.symm).filter isSource
    refine ⟨_, lintFolder_eq s' hhas visits', ?_, ?_⟩
    · rw [hparser]
      exact counters_total_of_perm (hperm.map _)
    · rw [hparser, issues_total, List.flatMap_map]
  · rintro rfl
    rw [FileTree.lintFolder, if_pos hhas, FileTree.foldl_lintInto, FileTree.sources_eq]

/-- A folder with a source that has faults, one that is no text, and a file in no known language. -/
def mixedFolder : FileTree where
  folders := [["p"]]
  files := [(["p", "a.rs"], .text "use m::B;\n/// @Gone\nfn a() {}\n/// @B @B\nfn b() {}\n"),
    (["p", "b.py"], .binary), (["p", "c.txt"], .binary)]

/-- A session whose last comment has failed. -/
def interrupted : Session :=
  ((fresh .directives .standard).parse ⟨"type Fixture", [.plain "app::A"], .trusting⟩ "@A(1 2)").2

/-- The source that is no text is visited first. -/
theorem lintFolder_visits_mixed :
    (mixedFolder.has "p" = true ∧
      ["p/b.py", "p/c.txt", "p/a.rs"].Perm (mixedFolder.walk "p")) ∧
    ∃ r, (interrupted.lintFolder mixedFolder .trusting .strict "p"
        ["p/b.py", "p/c.txt", "p/a.rs"]).1 = .ok r ∧
      (r.errors = r.count .error ∧ r.warnings = r.count .warning ∧ r.passed = false) ∧
      r.files + r.unscanned = (mixedFolder.sources "p").length ∧
      (r.files, r.declarations, r.directives, r.errors, r.warnings) = (1, 2, 2, 2, 1) ∧
      r.issues.map Issue.code = ["E000", "E002", "W002"] := by
  have hhas : mixedFolder.has "p" = true := by decide +kernel
  have hvisits : ["p/b.py", "p/c.txt", "p/a.rs"].Perm (mixedFolder.walk "p") := by
    refine .trans ?_ (FileTree.walk_perm (p := ["p"]) (by decide +kernel) (by decide +kernel)).symm
    decide +kernel
  have hrun : (interrupted.lintFolder mixedFolder .trusting .strict "p"
      ["p/b.py", "p/c.txt", "p/a.rs"]).1.toOption.map (fun r =>
        ((r.files, r.declarations, r.directives, r.errors, r.warnings),
          r.issues.map Issue.code)) = some ((1, 2, 2, 2, 1), ["E000", "E002", "W002"]) := by
    decide +kernel
  obtain ⟨r, hr, ⟨herrors, hwarnings, -⟩, -, hfiles, -⟩ :=
    lintFolder_visits interrupted mixedFolder .trusting .strict hhas hvisits
  rw [hr] at hrun
  obtain ⟨hcounters, hcodes⟩ := Prod.mk.inj (Option.some.inj hrun)
  refine ⟨⟨hhas, hvisits⟩, r, hr, ⟨herrors, hwarnings, ?_⟩, hfiles, hcounters, hcodes⟩
  have h2 : r.errors = 2 := by simpa using congrArg (fun x => x.2.2.2.1) hcounters
  simp [passed, h2]

end Session

end DocDirectives
