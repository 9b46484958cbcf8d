import DocDirectives.Proofs.Session.Checking

/-! # Options of a check

    The options of a check do not decide what is found in a file. To tolerate unresolved names
    relabels the errors that report them as warnings, in place; to warn of repetitions inserts
    warnings where their declarations stand. The counters follow, and the totals stay. -/

namespace DocDirectives

namespace Issue

/-- Whether an issue reports an unresolved name as an error. -/
def unresolved (i : Issue) : Bool := i.code = "E002"

/-- Whether an issue reports a repetition. -/
def repetition (i : Issue) : Bool := i.code = "W002"

/-- An issue as it is reported where unresolved names are tolerated. -/
def tolerate (i : Issue) : Issue :=
  if i.unresolved then { i with severity := .warning, code := "W001" } else i

end Issue

namespace LintReport

/-- `r'` has the totals of `r`. -/
structure SameTotals (r r' : LintReport) : Prop where
  files : r'.files = r.files
  declarations : r'.declarations = r.declarations
  directives : r'.directives = r.directives

/-- `r'` is `r` with unresolved names as warnings, each in its place. -/
structure Relabels (r r' : LintReport) : Prop extends SameTotals r r' where
  severity : ∀ i ∈ r.issues, i.unresolved → i.severity = .error
  issues : r'.issues = r.issues.map Issue.tolerate
  errors : r'.errors + r.issues.countP Issue.unresolved = r.errors
  warnings : r'.warnings = r.warnings + r.issues.countP Issue.unresolved

/-- `r'` is `r` with warnings of repetitions inserted, `added d` where the issues `own d` of the
    declaration `d` stand. -/
structure Inserts (ds : List Declaration) (own added : Declaration → List Issue)
    (r r' : LintReport) : Prop extends SameTotals r r' where
  issues : r.issues = ds.flatMap own
  extended : r'.issues = ds.flatMap fun d => own d ++ added d
  repetitions : ∀ d ∈ ds, ∀ i ∈ added d,
    i.severity = .warning ∧ i.repetition ∧ i.location = d.location ∧ i.context = some d.label
  kept : r'.issues.filter (fun i => !i.repetition) = r.issues
  errors : r'.errors = r.errors
  warnings : r'.warnings = r.warnings + r'.issues.countP Issue.repetition

end LintReport

namespace Lint

open LintReport

variable {p : Parser} {catalog : Catalog} {options : LintOptions} {f : SourceFile}
  {d : Declaration} {u : Bool}

/-! ### Totals -/

theorem declarations_pushAll (r : LintReport) (is : List Issue) :
    (r.pushAll is).declarations = r.declarations :=
  List.foldlRecOn (motive := fun s : LintReport => s.declarations = r.declarations) is _ rfl
    fun s hs i _ => by cases h : i.severity <;> simp [push, h, hs]

theorem declarations_checkDeclaration (r : LintReport) (d : Declaration) :
    (checkDeclaration p catalog options f r d).declarations = r.declarations := by
  unfold checkDeclaration
  cases p.parseDeclaration catalog f d with
  | error e => exact declarations_pushAll r [_]
  | ok ds =>
    cases options.warnDuplicates with
    | false => rfl
    | true => exact declarations_pushAll _ _

/-- The check of a file counts its declarations. -/
theorem declarations_checkSource (p : Parser) (catalog : Catalog) (options : LintOptions)
    (f : SourceFile) :
    (checkSource p catalog options f).declarations = f.declarations.length :=
  List.foldlRecOn (motive := fun r : LintReport => r.declarations = f.declarations.length)
    f.documented _ rfl fun r hr d _ => by rw [declarations_checkDeclaration, hr]

/-- How many directives a declaration adds does not depend on the options. -/
theorem directives_share (options options' : LintOptions) (d : Declaration) :
    (share p catalog options' f d).directives = (share p catalog options f d).directives := by
  cases h : p.parseDeclaration catalog f d with
  | error e => rw [(share_of_error options' h).2, (share_of_error options h).2]
  | ok ds => rw [(share_of_ok h).2, (share_of_ok h).2]

theorem sameTotals_checkSource (p : Parser) (catalog : Catalog) (options options' : LintOptions)
    (f : SourceFile) :
    SameTotals (checkSource p catalog options f) (checkSource p catalog options' f) where
  files := by rw [files_checkSource, files_checkSource]
  declarations := by rw [declarations_checkSource, declarations_checkSource]
  directives := by
    rw [directives_checkSource, directives_checkSource]
    simp only [directives_share options options']

/-! ### Unresolved names -/

theorem tolerate_of_code {i : Issue} (h : i.code ≠ "E002") : i.tolerate = i := by
  simp [Issue.tolerate, Issue.unresolved, h]

theorem tolerate_failureIssue (w : Bool) (d : Declaration) (e : Failure) :
    (failureIssue ⟨false, w⟩ d e).tolerate = failureIssue ⟨true, w⟩ d e := by
  cases e <;> simp [failureIssue, Issue.tolerate, Issue.unresolved]

/-- Where unresolved names are tolerated, a declaration adds the same issues, relabelled. -/
theorem issues_share_tolerant (w : Bool) (d : Declaration) :
    (share p catalog ⟨true, w⟩ f d).issues =
      (share p catalog ⟨false, w⟩ f d).issues.map Issue.tolerate := by
  cases h : p.parseDeclaration catalog f d with
  | error e =>
    rw [(share_of_error _ h).1, (share_of_error _ h).1, List.map_singleton,
      tolerate_failureIssue]
  | ok ds =>
    rw [(share_of_ok h).1, (share_of_ok h).1]
    cases w with
    | false => rfl
    | true =>
      have hsame : ∀ i ∈ repeatIssues d ds, i.tolerate = i := by
        intro i hi
        exact tolerate_of_code (by simp [code_of_mem_repeatIssues hi])
      simp only [if_true]
      rw [List.map_congr_left hsame, List.map_id']

/-- Only an error reports an unresolved name under its own code. -/
theorem severity_of_unresolved {i : Issue} (hi : i ∈ (checkSource p catalog options f).issues)
    (hcode : i.unresolved) : i.severity = .error := by
  obtain ⟨d, -, hi⟩ := mem_issues_iff.1 hi
  rcases share_cases p catalog options f d with ⟨e, j, -, hj, hissues, -⟩ | ⟨ds, -, hcodes, -⟩
  · rw [hissues, List.mem_singleton] at hi
    subst hi
    cases hj with
    | malformed => rfl
    | unknown => rfl
    | tolerated => simp [Issue.unresolved] at hcode
  · simp [Issue.unresolved, hcodes i hi] at hcode

/-- Relabelled errors are counted among the warnings. -/
theorem countP_tolerate {is : List Issue} (h : ∀ i ∈ is, i.unresolved → i.severity = .error) :
    ((is.map Issue.tolerate).countP fun i => i.severity = .error) + is.countP Issue.unresolved =
        is.countP (fun i => i.severity = .error) ∧
      ((is.map Issue.tolerate).countP fun i => i.severity = .warning) =
        is.countP (fun i => i.severity = .warning) + is.countP Issue.unresolved := by
  induction is with
  | nil => exact ⟨rfl, rfl⟩
  | cons i is ih =>
    obtain ⟨herrors, hwarnings⟩ := ih fun j hj => h j (List.mem_cons_of_mem i hj)
    have hi := h i List.mem_cons_self
    rw [List.map_cons, List.countP_cons, List.countP_cons, List.countP_cons, List.countP_cons,
      List.countP_cons]
    by_cases hcode : i.unresolved = true
    · have hwarning : i.tolerate.severity = .warning := by rw [Issue.tolerate, if_pos hcode]
      simp only [hwarning, hcode, hi hcode, reduceCtorEq, decide_true, decide_false, if_true,
        Bool.false_eq_true, if_false]
      omega
    · have hsame : i.tolerate = i := if_neg hcode
      simp only [hsame, hcode, Bool.false_eq_true, if_false]
      omega

/-- To tolerate unresolved names relabels the errors that report them. -/
theorem relabels_checkSource (p : Parser) (catalog : Catalog) (w : Bool) (f : SourceFile) :
    Relabels (checkSource p catalog ⟨false, w⟩ f) (checkSource p catalog ⟨true, w⟩ f) := by
  have hissues : (checkSource p catalog ⟨true, w⟩ f).issues =
      (checkSource p catalog ⟨false, w⟩ f).issues.map Issue.tolerate := by
    rw [issues_checkSource, issues_checkSource, List.map_flatMap]
    simp only [issues_share_tolerant]
  have hseverity : ∀ i ∈ (checkSource p catalog ⟨false, w⟩ f).issues, i.unresolved →
      i.severity = .error := fun i => severity_of_unresolved
  have hstrict := tallied_checkSource p catalog ⟨false, w⟩ f
  have htolerant := tallied_checkSource p catalog ⟨true, w⟩ f
  obtain ⟨herrors, hwarnings⟩ := countP_tolerate hseverity
  refine ⟨sameTotals_checkSource p catalog _ _ f, hseverity, hissues, ?_, ?_⟩
  · rw [hstrict.errors, htolerant.errors, count, count, hissues]
    exact herrors
  · rw [hstrict.warnings, htolerant.warnings, count, count, hissues]
    exact hwarnings

/-! ### Repetitions -/

/-- The issues of repetition of a declaration, when it can be read. -/
def repeatsOf (p : Parser) (catalog : Catalog) (f : SourceFile) (d : Declaration) : List Issue :=
  match p.parseDeclaration catalog f d with
  | .ok ds => repeatIssues d ds
  | .error _ => []

/-- Where repetitions are warned of, they stand behind what a declaration adds without. -/
theorem issues_share_repeats (u : Bool) (d : Declaration) :
    (share p catalog ⟨u, true⟩ f d).issues =
      (share p catalog ⟨u, false⟩ f d).issues ++ repeatsOf p catalog f d := by
  unfold repeatsOf
  cases h : p.parseDeclaration catalog f d with
  | error e =>
    rw [(share_of_error _ h).1, (share_of_error _ h).1, List.append_nil]
    cases e <;> rfl
  | ok ds =>
    rw [(share_of_ok h).1, (share_of_ok h).1]
    rfl

theorem of_mem_repeatsOf {i : Issue} (hi : i ∈ repeatsOf p catalog f d) :
    i.severity = .warning ∧ i.repetition ∧ i.location = d.location ∧
      i.context = some d.label := by
  unfold repeatsOf at hi
  cases h : p.parseDeclaration catalog f d with
  | error e =>
    rw [h] at hi
    cases hi
  | ok ds =>
    rw [h] at hi
    obtain ⟨name, -, rfl⟩ := List.mem_map.1 hi
    exact ⟨rfl, by simp [Issue.repetition], rfl, rfl⟩

/-- Without the option nothing is a repetition. -/
theorem repetition_of_mem_share {i : Issue} (hi : i ∈ (share p catalog ⟨u, false⟩ f d).issues) :
    i.repetition = false := by
  cases h : p.parseDeclaration catalog f d with
  | error e =>
    obtain ⟨j, hj, hissues, -⟩ := share_of_failure ⟨u, false⟩ h
    rw [hissues, List.mem_singleton] at hi
    subst hi
    simpa [Issue.repetition] using hj.code.1
  | ok ds =>
    rw [(share_of_ok h).1] at hi
    cases hi

/-- Repetitions are counted among the warnings. -/
theorem countP_repetition {is : List Issue} (h : ∀ i ∈ is, i.repetition → i.severity = .warning) :
    is.countP (fun i => i.severity = .error) =
        (is.filter fun i => !i.repetition).countP (fun i => i.severity = .error) ∧
      is.countP (fun i => i.severity = .warning) =
        (is.filter fun i => !i.repetition).countP (fun i => i.severity = .warning) +
          is.countP Issue.repetition := by
  induction is with
  | nil => exact ⟨rfl, rfl⟩
  | cons i is ih =>
    obtain ⟨herrors, hwarnings⟩ := ih fun j hj => h j (List.mem_cons_of_mem i hj)
    have hi := h i List.mem_cons_self
    rw [List.countP_cons, List.countP_cons, List.countP_cons]
    by_cases hcode : i.repetition = true
    · rw [List.filter_cons_of_neg (by simp [hcode])]
      simp only [hcode, hi hcode, reduceCtorEq, decide_true, decide_false, if_true,
        Bool.false_eq_true, if_false]
      omega
    · rw [List.filter_cons_of_pos (by simp [hcode]), List.countP_cons, List.countP_cons]
      simp only [hcode, Bool.false_eq_true, if_false]
      omega

/-- To warn of repetitions inserts warnings at the places of their declarations. -/
theorem inserts_checkSource (p : Parser) (catalog : Catalog) (u : Bool) (f : SourceFile) :
    Inserts f.documented (fun d => (share p catalog ⟨u, false⟩ f d).issues)
      (repeatsOf p catalog f) (checkSource p catalog ⟨u, false⟩ f)
      (checkSource p catalog ⟨u, true⟩ f) := by
  have hissues : (checkSource p catalog ⟨u, true⟩ f).issues = f.documented.flatMap fun d =>
      (share p catalog ⟨u, false⟩ f d).issues ++ repeatsOf p catalog f d := by
    rw [issues_checkSource]
    simp only [issues_share_repeats]
  have hkept : (checkSource p catalog ⟨u, true⟩ f).issues.filter (fun i => !i.repetition) =
      (checkSource p catalog ⟨u, false⟩ f).issues := by
    rw [hissues, issues_checkSource, List.filter_flatMap]
    refine List.flatMap_congr fun d _ => ?_
    have hown : ∀ i ∈ (share p catalog ⟨u, false⟩ f d).issues, (!i.repetition) = true := by
      intro i hi
      simp [repetition_of_mem_share hi]
    have hadded : ∀ i ∈ repeatsOf p catalog f d, ¬(!i.repetition) = true := by
      intro i hi
      simp [(of_mem_repeatsOf hi).2.1]
    rw [List.filter_append, List.filter_eq_self.2 hown, List.filter_eq_nil_iff.2 hadded,
      List.append_nil]
  have hseverity : ∀ i ∈ (checkSource p catalog ⟨u, true⟩ f).issues, i.repetition →
      i.severity = .warning := by
    intro i hi hcode
    rw [hissues] at hi
    obtain ⟨d, -, hi⟩ := List.mem_flatMap.1 hi
    rcases List.mem_append.1 hi with hi | hi
    · rw [repetition_of_mem_share hi] at hcode
      cases hcode
    · exact (of_mem_repeatsOf hi).1
  have hplain := tallied_checkSource p catalog ⟨u, false⟩ f
  have hwarned := tallied_checkSource p catalog ⟨u, true⟩ f
  obtain ⟨herrors, hwarnings⟩ := countP_repetition hseverity
  rw [hkept] at herrors hwarnings
  refine ⟨sameTotals_checkSource p catalog _ _ f, issues_checkSource, hissues,
    fun d _ i => of_mem_repeatsOf, hkept, ?_, ?_⟩
  · rw [hwarned.errors, hplain.errors]
    exact herrors
  · rw [hwarned.warnings, hplain.warnings]
    exact hwarnings

/-! ### The law -/

/-- The options relabel and insert, and change nothing else. Where unresolved names are tolerated,
    each error that reports one is a warning in its place, with the same words, and is counted so.
    Where repetitions are warned of, the warnings stand where the issues of their declarations do
    and are counted; without them the issues are the same in the same order. Files, declarations
    and directives are counted alike. A session reports the same, whatever it has read before. -/
theorem checkSource_options (p : Parser) (catalog : Catalog) (f : SourceFile) :
    (∀ w, Relabels (checkSource p catalog ⟨false, w⟩ f) (checkSource p catalog ⟨true, w⟩ f)) ∧
    (∀ u, Inserts f.documented (fun d => (share p catalog ⟨u, false⟩ f d).issues)
      (repeatsOf p catalog f) (checkSource p catalog ⟨u, false⟩ f)
      (checkSource p catalog ⟨u, true⟩ f)) ∧
    ∀ (s : Session) (options : LintOptions), s.parser = p →
      (s.checkSource catalog options f).1 = checkSource p catalog options f := by
  refine ⟨fun w => relabels_checkSource p catalog w f,
    fun u => inserts_checkSource p catalog u f, ?_⟩
  rintro s options rfl
  exact (Session.checkSource_spec s catalog options f).1

end Lint

end DocDirectives
