import DocDirectives.Project
import DocDirectives.Proofs.Lint.Agreement

/-! # Totals of a run

    The report on a folder is the sum of what its files add, and a file adds either the report of
    its check or one issue that says why it cannot be scanned. The counters of errors and warnings
    count the issues, however the report was put together, and no counter depends on the order of
    the files. -/

namespace DocDirectives

namespace LintReport

/-! ### Counters -/

/-- How many issues of a report have a severity. -/
def count (r : LintReport) (severity : Severity) : Nat :=
  r.issues.countP fun i => i.severity = severity

/-- How many issues of a report speak of a file that cannot be scanned. -/
def unscanned (r : LintReport) : Nat := r.issues.countP fun i => i.code = "E000"

/-- The counters of a report, without its issues. -/
def counters (r : LintReport) : LintReport := { r with issues := [] }

/-- The counters of errors and warnings count the issues. -/
structure Tallied (r : LintReport) : Prop where
  errors : r.errors = r.count .error
  warnings : r.warnings = r.count .warning

theorem empty_merge (r : LintReport) : merge {} r = r := by
  simp only [merge, Nat.zero_add, List.nil_append]

theorem files_push (r : LintReport) (i : Issue) : (r.push i).files = r.files := by
  cases h : i.severity <;> simp [push, h]

theorem files_pushAll (r : LintReport) (is : List Issue) : (r.pushAll is).files = r.files :=
  List.foldlRecOn (motive := fun s : LintReport => s.files = r.files) is _ rfl fun s hs i _ => by
    rw [files_push, hs]

theorem count_merge (r s : LintReport) (severity : Severity) :
    (r.merge s).count severity = r.count severity + s.count severity :=
  List.countP_append

theorem unscanned_merge (r s : LintReport) : (r.merge s).unscanned = r.unscanned + s.unscanned :=
  List.countP_append

theorem counters_merge (r s : LintReport) :
    (r.merge s).counters = r.counters.merge s.counters := rfl

namespace Tallied

theorem merge {r s : LintReport} (hr : r.Tallied) (hs : s.Tallied) : (r.merge s).Tallied where
  errors := by rw [count_merge, ← hr.errors, ← hs.errors]; rfl
  warnings := by rw [count_merge, ← hr.warnings, ← hs.warnings]; rfl

theorem push {r : LintReport} (hr : r.Tallied) (i : Issue) : (r.push i).Tallied := by
  rw [push_eq_merge]
  refine hr.merge ?_
  cases h : i.severity <;> constructor <;> simp [LintReport.push, count, h]

theorem pushAll {r : LintReport} (hr : r.Tallied) (is : List Issue) : (r.pushAll is).Tallied := by
  induction is generalizing r with
  | nil => exact hr
  | cons i is ih => exact ih (hr.push i)

theorem total {rs : List LintReport} (h : ∀ r ∈ rs, r.Tallied) : (total rs).Tallied := by
  induction rs with
  | nil => exact ⟨rfl, rfl⟩
  | cons r rs ih =>
    obtain ⟨hr, hrs⟩ := List.forall_mem_cons.1 h
    exact hr.merge (ih hrs)

/-- A run passes just when none of its issues is an error. -/
theorem passed_iff {r : LintReport} (hr : r.Tallied) :
    r.passed = true ↔ ∀ i ∈ r.issues, i.severity ≠ .error := by
  rw [passed, decide_eq_true_iff, hr.errors, count, List.countP_eq_zero]
  simp only [decide_eq_true_eq]

end Tallied

/-- The counters of a sum do not depend on the order. -/
theorem counters_total_of_perm {rs ss : List LintReport} (h : rs.Perm ss) :
    (total rs).counters = (total ss).counters := by
  induction h with
  | nil => rfl
  | cons r _ ih =>
    change (r.merge (total _)).counters = (r.merge (total _)).counters
    rw [counters_merge, counters_merge, ih]
  | swap r s rs =>
    change (s.merge (r.merge (total rs))).counters = (r.merge (s.merge (total rs))).counters
    simp only [counters, merge, Nat.add_left_comm]
  | trans _ _ ih ih' => exact ih.trans ih'

end LintReport

open LintReport

/-! ### Checks of files -/

namespace Lint

variable {p : Parser} {catalog : Catalog} {options : LintOptions} {f : SourceFile}

theorem tallied_share (d : Declaration) : (share p catalog options f d).Tallied := by
  have hempty : ∀ n, Tallied { directives := n } := fun _ => ⟨rfl, rfl⟩
  unfold share checkDeclaration
  cases p.parseDeclaration catalog f d with
  | error e => exact (hempty 0).push _
  | ok ds =>
    cases options.warnDuplicates with
    | false => exact hempty _
    | true => exact (hempty _).pushAll _

theorem tallied_checkSource (p : Parser) (catalog : Catalog) (options : LintOptions)
    (f : SourceFile) : (checkSource p catalog options f).Tallied := by
  rw [checkSource_eq]
  refine Tallied.merge ⟨rfl, rfl⟩ (Tallied.total fun r hr => ?_)
  obtain ⟨d, -, rfl⟩ := List.mem_map.1 hr
  exact tallied_share d

theorem files_checkDeclaration (r : LintReport) (d : Declaration) :
    (checkDeclaration p catalog options f r d).files = r.files := by
  unfold checkDeclaration
  cases p.parseDeclaration catalog f d with
  | error e => exact files_push r _
  | ok ds =>
    cases options.warnDuplicates with
    | false => rfl
    | true => exact files_pushAll _ _

/-- The check of a file counts that file. -/
theorem files_checkSource (p : Parser) (catalog : Catalog) (options : LintOptions)
    (f : SourceFile) : (checkSource p catalog options f).files = 1 :=
  List.foldlRecOn (motive := fun r : LintReport => r.files = 1) f.documented _ rfl
    fun r hr d _ => by rw [files_checkDeclaration, hr]

/-- A scanned file has no issue that says that it cannot be scanned. -/
theorem unscanned_checkSource (p : Parser) (catalog : Catalog) (options : LintOptions)
    (f : SourceFile) : (checkSource p catalog options f).unscanned = 0 := by
  rw [unscanned, List.countP_eq_zero]
  intro i hi
  obtain ⟨d, -, hi⟩ := mem_issues_iff.1 hi
  rcases share_cases p catalog options f d with ⟨e, j, -, hj, hissues, -⟩ | ⟨ds, -, hcodes, -⟩
  · rw [hissues, List.mem_singleton] at hi
    simpa [hi] using hj.code.2
  · simp [hcodes i hi]

end Lint

namespace FileTree

variable {t : FileTree} {p : Parser} {catalog : Catalog} {options : LintOptions}

/-- What a file adds to the report on its folder. -/
def part (t : FileTree) (p : Parser) (catalog : Catalog) (options : LintOptions) (file : String) :
    LintReport := t.lintInto p catalog options {} file

theorem lintInto_eq_merge (r : LintReport) (file : String) :
    t.lintInto p catalog options r file = r.merge (t.part p catalog options file) := by
  unfold part lintInto
  cases t.lintFile p catalog options file with
  | error e => exact push_eq_merge r _
  | ok s => exact congrArg r.merge (empty_merge s).symm

theorem part_of_error {file : String} {e : Failure} (h : t.scan file = .error e) :
    t.part p catalog options file = { issues := [Lint.unreadableIssue file e], errors := 1 } := by
  rw [part, lintInto, lintFile, h]
  rfl

theorem part_of_ok {file : String} {f : SourceFile} (h : t.scan file = .ok f) :
    t.part p catalog options file = Lint.checkSource p catalog options f := by
  rw [part, lintInto, lintFile, h]
  exact empty_merge _

theorem tallied_part (t : FileTree) (p : Parser) (catalog : Catalog) (options : LintOptions)
    (file : String) : (t.part p catalog options file).Tallied := by
  cases h : t.scan file with
  | error e =>
    rw [part_of_error h]
    exact ⟨rfl, rfl⟩
  | ok f =>
    rw [part_of_ok h]
    exact Lint.tallied_checkSource p catalog options f

/-- A file is counted, or it has the one issue that says why it cannot be scanned. -/
theorem files_add_unscanned_part (t : FileTree) (p : Parser) (catalog : Catalog)
    (options : LintOptions) (file : String) :
    (t.part p catalog options file).files + (t.part p catalog options file).unscanned = 1 := by
  cases h : t.scan file with
  | error e =>
    rw [part_of_error h]
    rfl
  | ok f => rw [part_of_ok h, Lint.files_checkSource, Lint.unscanned_checkSource]

/-- The report on files is the sum of what they add. -/
theorem foldl_lintInto (files : List String) :
    files.foldl (t.lintInto p catalog options) {} =
      total (files.map (t.part p catalog options)) := by
  rw [foldl_eq_merge lintInto_eq_merge, empty_merge]
  rfl

theorem tallied_files (t : FileTree) (p : Parser) (catalog : Catalog) (options : LintOptions)
    (files : List String) :
    (total (files.map (t.part p catalog options))).Tallied := by
  refine Tallied.total fun r hr => ?_
  obtain ⟨file, -, rfl⟩ := List.mem_map.1 hr
  exact tallied_part t p catalog options file

/-- Every file is counted or has its issue, whatever the others are. -/
theorem files_add_unscanned (files : List String) :
    (total (files.map (t.part p catalog options))).files +
      (total (files.map (t.part p catalog options))).unscanned = files.length := by
  induction files with
  | nil => rfl
  | cons file files ih =>
    have hfile := files_add_unscanned_part t p catalog options file
    change (merge _ (total _)).files + (merge _ (total _)).unscanned = _
    rw [unscanned_merge, List.length_cons, merge]
    dsimp only
    omega

end FileTree

end DocDirectives
