import DocDirectives.Proofs.Lint.Share
import DocDirectives.Proofs.Reading

/-! # Checking and reading agree

    The check of a file and its reading look at the same declarations. The check goes on where the
    reading stops, so it finds no fault but repetitions just when the file can be read, and the
    first other fault that it finds is the failure of the reading. -/

namespace DocDirectives.Lint

variable {p : Parser} {catalog : Catalog} {options : LintOptions} {f : SourceFile}

/-- The issue that reports the failure of a declaration. -/
inductive Reports (options : LintOptions) (d : Declaration) : Failure → Issue → Prop
  | malformed {construct expected : String} :
      Reports options d (.unexpected d.label construct expected)
        ⟨.error, "E001", (Failure.unexpected d.label construct expected).message, d.location,
          some d.label, none⟩
  | unknown {name : String} : options.unresolvedAsWarning = false →
      Reports options d (.unresolved name d.label)
        ⟨.error, "E002", s!"Annotation @{name} does not resolve to a known type", d.location,
          some d.label, some s!"Import the type behind @{name} or add it to the ignored names"⟩
  | tolerated {name : String} : options.unresolvedAsWarning = true →
      Reports options d (.unresolved name d.label)
        ⟨.warning, "W001", s!"Annotation @{name} does not resolve to a known type", d.location,
          some d.label, some s!"Import the type behind @{name} or add it to the ignored names"⟩

/-! ### Codes -/

theorem Reports.code {d : Declaration} {e : Failure} {i : Issue} (h : Reports options d e i) :
    i.code ≠ "W002" ∧ i.code ≠ "E000" := by
  cases h <;> simp

theorem code_of_mem_repeatIssues {d : Declaration} {ds : List Directive} {i : Issue}
    (h : i ∈ repeatIssues d ds) : i.code = "W002" := by
  obtain ⟨name, -, rfl⟩ := List.mem_map.1 h
  rfl

/-- A declaration that fails is reported by one issue. -/
theorem share_of_failure (options : LintOptions) {d : Declaration} {e : Failure}
    (h : p.parseDeclaration catalog f d = .error e) :
    ∃ i, Reports options d e i ∧ (share p catalog options f d).issues = [i] ∧
      (share p catalog options f d).directives = 0 := by
  obtain ⟨hissues, hdirectives⟩ := share_of_error options h
  refine ⟨failureIssue options d e, ?_, hissues, hdirectives⟩
  rcases Parser.directives_error h with ⟨construct, expected, rfl⟩ | ⟨name, rfl⟩
  · exact .malformed
  · cases hw : options.unresolvedAsWarning with
    | false =>
      simp only [failureIssue, hw]
      exact .unknown hw
    | true =>
      simp only [failureIssue, hw]
      exact .tolerated hw

/-- A declaration that can be read has no issues but repetitions. -/
theorem code_of_mem_share {d : Declaration} {ds : List Directive} {i : Issue}
    (h : p.parseDeclaration catalog f d = .ok ds)
    (hi : i ∈ (share p catalog options f d).issues) : i.code = "W002" := by
  rw [(share_of_ok h).1] at hi
  split at hi
  · exact code_of_mem_repeatIssues hi
  · cases hi

/-! ### The check of a file -/

theorem mem_issues_iff {i : Issue} : i ∈ (checkSource p catalog options f).issues ↔
    ∃ d ∈ f.documented, i ∈ (share p catalog options f d).issues := by
  rw [issues_checkSource, List.mem_flatMap]

/-- A file can be read when its check finds only repetitions. -/
theorem exists_parseSource_iff : (∃ all, p.parseSource catalog f = .ok all) ↔
    ∀ i ∈ (checkSource p catalog options f).issues, i.code = "W002" := by
  constructor
  · rintro ⟨all, hall⟩ i hi
    obtain ⟨d, hd, hi⟩ := mem_issues_iff.1 hi
    cases hp : p.parseDeclaration catalog f d with
    | ok ds => exact code_of_mem_share hp hi
    | error e =>
      obtain ⟨ds, hds⟩ := Parser.exists_of_parseSource hall hd
      exact absurd (hp.symm.trans hds) (by simp)
  · intro hcodes
    cases hs : p.parseSource catalog f with
    | ok all => exact ⟨all, rfl⟩
    | error e =>
      obtain ⟨before, d, behind, hdoc, -, hd⟩ := Parser.parseSource_eq_error_iff.1 hs
      obtain ⟨i, hi, hissues, -⟩ := share_of_failure options hd
      have hmem : i ∈ (checkSource p catalog options f).issues :=
        mem_issues_iff.2 ⟨d, by simp [hdoc], by simp [hissues]⟩
      exact absurd (hcodes i hmem) hi.code.1

theorem sum_directives_of_gives {ds : List Declaration} {all : List DeclarationDirectives}
    (h : List.Forall₂ (Parser.Gives p catalog f) ds all) :
    (ds.map fun d => (share p catalog options f d).directives).sum =
      (all.map fun r => r.directives.length).sum := by
  induction h with
  | nil => rfl
  | cons hd _ ih =>
    rw [List.map_cons, List.map_cons, List.sum_cons, List.sum_cons, ih, (share_of_ok hd.2).2]

/-- The check of a file that can be read counts what is read. -/
theorem directives_of_parseSource {all : List DeclarationDirectives}
    (h : p.parseSource catalog f = .ok all) :
    (checkSource p catalog options f).directives =
      (all.map fun r => r.directives.length).sum := by
  rw [directives_checkSource, sum_directives_of_gives (Parser.parseSource_eq_ok_iff.1 h)]

/-- The first issue that is no repetition reports the failure of the reading. -/
theorem first_issue_of_parseSource {e : Failure} (h : p.parseSource catalog f = .error e) :
    ∃ before d behind i, f.documented = before ++ d :: behind ∧
      (∀ b ∈ before, ∃ ds, p.parseDeclaration catalog f b = .ok ds) ∧
      p.parseDeclaration catalog f d = .error e ∧ Reports options d e i ∧
      (checkSource p catalog options f).issues.find? (fun j => j.code != "W002") = some i := by
  obtain ⟨before, d, behind, hdoc, hbefore, hd⟩ := Parser.parseSource_eq_error_iff.1 h
  obtain ⟨i, hi, hissues, -⟩ := share_of_failure options hd
  refine ⟨before, d, behind, i, hdoc, hbefore, hd, hi, ?_⟩
  have hnone : (before.flatMap fun b => (share p catalog options f b).issues).find?
      (fun j => j.code != "W002") = none := by
    rw [List.find?_eq_none]
    intro j hj
    obtain ⟨b, hb, hj⟩ := List.mem_flatMap.1 hj
    obtain ⟨ds, hds⟩ := hbefore b hb
    simp [code_of_mem_share hds hj]
  rw [issues_checkSource, hdoc, List.flatMap_append, List.find?_append, hnone, Option.none_or,
    List.flatMap_cons, hissues, List.singleton_append, List.find?_cons_of_pos]
  simpa using hi.code.1

/-- What a declaration adds to the report on its file. -/
theorem share_cases (p : Parser) (catalog : Catalog) (options : LintOptions) (f : SourceFile)
    (d : Declaration) :
    (∃ e i, p.parseDeclaration catalog f d = .error e ∧ Reports options d e i ∧
      (share p catalog options f d).issues = [i] ∧ i.code ≠ "W002" ∧
      (share p catalog options f d).directives = 0) ∨
    ∃ ds, p.parseDeclaration catalog f d = .ok ds ∧
      (∀ i ∈ (share p catalog options f d).issues, i.code = "W002") ∧
      (share p catalog options f d).directives = ds.length ∧
      (options.warnDuplicates = true → (share p catalog options f d).issues.length +
        (ds.map Directive.name).dedup.length = ds.length) := by
  cases h : p.parseDeclaration catalog f d with
  | error e =>
    obtain ⟨i, hi, hissues, hdirectives⟩ := share_of_failure options h
    exact .inl ⟨e, i, rfl, hi, hissues, hi.code.1, hdirectives⟩
  | ok ds =>
    refine .inr ⟨ds, rfl, fun i => code_of_mem_share h, (share_of_ok h).2, ?_⟩
    intro hw
    rw [(share_of_ok h).1, if_pos hw]
    exact length_repeatIssues d ds

/-- A comment fails by its text or by a name, so no issue speaks of a file that cannot be scanned. A
    file can be read just when its check finds only repetitions, and then the check counts what is
    read. When it cannot be read, the first issue that is no repetition reports the failure, on the
    first declaration that fails. The report is put together from what each documented declaration
    adds: one issue that is no repetition, or its directives and an issue for each repetition. -/
theorem checkSource_agrees (p : Parser) (catalog : Catalog) (options : LintOptions)
    (f : SourceFile) :
    ((∀ site text e, p.parse site text = .error e →
        (∃ construct expected, e = .unexpected site.context construct expected) ∨
          ∃ name, e = .unresolved name site.context) ∧
      ∀ i ∈ (checkSource p catalog options f).issues, i.code ≠ "E000") ∧
    (((∃ all, p.parseSource catalog f = .ok all) ↔
        ∀ i ∈ (checkSource p catalog options f).issues, i.code = "W002") ∧
      ∀ all, p.parseSource catalog f = .ok all →
        (checkSource p catalog options f).directives =
          (all.map fun r => r.directives.length).sum) ∧
    (∀ e, p.parseSource catalog f = .error e →
      ∃ before d behind i, f.documented = before ++ d :: behind ∧
        (∀ b ∈ before, ∃ ds, p.parseDeclaration catalog f b = .ok ds) ∧
        p.parseDeclaration catalog f d = .error e ∧ Reports options d e i ∧
        (checkSource p catalog options f).issues.find? (fun j => j.code != "W002") = some i) ∧
    (checkSource p catalog options f).issues =
      f.documented.flatMap (fun d => (share p catalog options f d).issues) ∧
    (checkSource p catalog options f).directives =
      (f.documented.map fun d => (share p catalog options f d).directives).sum ∧
    ∀ d ∈ f.documented,
      (∃ e i, p.parseDeclaration catalog f d = .error e ∧ Reports options d e i ∧
        (share p catalog options f d).issues = [i] ∧ i.code ≠ "W002" ∧
        (share p catalog options f d).directives = 0) ∨
      ∃ ds, p.parseDeclaration catalog f d = .ok ds ∧
        (∀ i ∈ (share p catalog options f d).issues, i.code = "W002") ∧
        (share p catalog options f d).directives = ds.length ∧
        (options.warnDuplicates = true → (share p catalog options f d).issues.length +
          (ds.map Directive.name).dedup.length = ds.length) := by
  refine ⟨⟨fun site text e => Parser.directives_error, ?_⟩,
    ⟨exists_parseSource_iff, fun all => directives_of_parseSource⟩,
    fun e => first_issue_of_parseSource, issues_checkSource, directives_checkSource,
    fun d _ => share_cases p catalog options f d⟩
  intro i hi
  obtain ⟨d, -, hi⟩ := mem_issues_iff.1 hi
  rcases share_cases p catalog options f d with ⟨e, j, -, hj, hissues, -⟩ | ⟨ds, -, hcodes, -⟩
  · rw [hissues, List.mem_singleton] at hi
    exact hi ▸ hj.code.2
  · rw [hcodes i hi]
    decide

end DocDirectives.Lint
