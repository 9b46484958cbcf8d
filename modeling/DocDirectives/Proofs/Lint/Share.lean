import Mathlib
import DocDirectives.Lint

/-! # Shares of a report

    The report on a file is put together from the shares of its documented declarations: each adds
    its own issues and counts and changes nothing else. A declaration that can be read adds its
    directives and an issue for each repeated type, one that cannot adds one issue. -/

namespace DocDirectives

namespace LintReport

/-! ### Reports one behind the other -/

theorem merge_empty (r : LintReport) : r.merge {} = r := by
  simp only [merge, Nat.add_zero, List.append_nil]

theorem merge_assoc (r s t : LintReport) : (r.merge s).merge t = r.merge (s.merge t) := by
  simp only [merge, Nat.add_assoc, List.append_assoc]

theorem push_eq_merge (r : LintReport) (i : Issue) : r.push i = r.merge (push {} i) := by
  cases h : i.severity <;> simp [push, h, merge]

theorem pushAll_eq_merge (r : LintReport) (is : List Issue) :
    r.pushAll is = r.merge (pushAll {} is) := by
  induction is generalizing r with
  | nil => exact (merge_empty r).symm
  | cons i is ih =>
    have hcons : ∀ s : LintReport, s.pushAll (i :: is) = (s.push i).pushAll is := fun _ => rfl
    rw [hcons, hcons, ih, ih (push {} i), push_eq_merge r, merge_assoc]

theorem issues_push (r : LintReport) (i : Issue) : (r.push i).issues = r.issues ++ [i] := by
  cases h : i.severity <;> simp [push, h]

theorem directives_push (r : LintReport) (i : Issue) : (r.push i).directives = r.directives := by
  cases h : i.severity <;> simp [push, h]

theorem issues_pushAll (r : LintReport) (is : List Issue) :
    (r.pushAll is).issues = r.issues ++ is := by
  induction is generalizing r with
  | nil => exact (List.append_nil r.issues).symm
  | cons i is ih => rw [pushAll, List.foldl_cons, ← pushAll, ih, issues_push, List.append_assoc,
      List.singleton_append]

theorem directives_pushAll (r : LintReport) (is : List Issue) :
    (r.pushAll is).directives = r.directives := by
  induction is generalizing r with
  | nil => rfl
  | cons i is ih => rw [pushAll, List.foldl_cons, ← pushAll, ih, directives_push]

/-- Several reports as one. -/
def total (rs : List LintReport) : LintReport := rs.foldr merge {}

theorem issues_total (rs : List LintReport) : (total rs).issues = rs.flatMap issues := by
  induction rs with
  | nil => rfl
  | cons r rs ih => rw [List.flatMap_cons, ← ih]; rfl

theorem directives_total (rs : List LintReport) :
    (total rs).directives = (rs.map directives).sum := by
  induction rs with
  | nil => rfl
  | cons r rs ih => rw [List.map_cons, List.sum_cons, ← ih]; rfl

/-- A loop that adds to a report whatever is in it gives the sum of what is added. -/
theorem foldl_eq_merge {α : Type} {add : LintReport → α → LintReport}
    (hadd : ∀ r a, add r a = r.merge (add {} a)) (as : List α) (r : LintReport) :
    as.foldl add r = r.merge (total (as.map (add {}))) := by
  induction as generalizing r with
  | nil => exact (merge_empty r).symm
  | cons a as ih =>
    rw [List.foldl_cons, ih, hadd, merge_assoc]
    rfl

end LintReport

namespace Lint

open LintReport

/-! ### The share of a declaration -/

/-- What a declaration adds to a report. -/
def share (p : Parser) (catalog : Catalog) (options : LintOptions) (f : SourceFile)
    (d : Declaration) : LintReport := checkDeclaration p catalog options f {} d

variable {p : Parser} {catalog : Catalog} {options : LintOptions} {f : SourceFile}
  {d : Declaration}

/-- A step of the check adds the share of its declaration. -/
theorem checkDeclaration_eq_merge (r : LintReport) (d : Declaration) :
    checkDeclaration p catalog options f r d = r.merge (share p catalog options f d) := by
  unfold share checkDeclaration
  cases p.parseDeclaration catalog f d with
  | error e => exact push_eq_merge r _
  | ok ds =>
    have hcounted : { r with directives := r.directives + ds.length } =
        r.merge { directives := ds.length } := by simp [merge]
    simp only [hcounted, Nat.zero_add]
    cases options.warnDuplicates with
    | false => rfl
    | true =>
      simp only [if_true]
      rw [pushAll_eq_merge (r.merge _), merge_assoc, ← pushAll_eq_merge]

theorem foldl_checkDeclaration (ds : List Declaration) (r : LintReport) :
    ds.foldl (checkDeclaration p catalog options f) r =
      r.merge (total (ds.map (share p catalog options f))) :=
  foldl_eq_merge checkDeclaration_eq_merge ds r

/-- The report on a file is the sum of the shares. -/
theorem checkSource_eq (p : Parser) (catalog : Catalog) (options : LintOptions) (f : SourceFile) :
    checkSource p catalog options f =
      merge { files := 1, declarations := f.declarations.length }
        (total (f.documented.map (share p catalog options f))) :=
  foldl_checkDeclaration f.documented _

theorem issues_checkSource : (checkSource p catalog options f).issues =
    f.documented.flatMap fun d => (share p catalog options f d).issues := by
  rw [checkSource_eq, merge, issues_total, List.flatMap_map, List.nil_append]

theorem directives_checkSource : (checkSource p catalog options f).directives =
    (f.documented.map fun d => (share p catalog options f d).directives).sum := by
  rw [checkSource_eq, merge, directives_total, List.map_map, Nat.zero_add]
  rfl

/-! ### What a share holds -/

theorem share_of_error (options : LintOptions) {e : Failure}
    (h : p.parseDeclaration catalog f d = .error e) :
    (share p catalog options f d).issues = [failureIssue options d e] ∧
      (share p catalog options f d).directives = 0 := by
  simp only [share, checkDeclaration, h]
  exact ⟨issues_push {} _, directives_push {} _⟩

theorem share_of_ok {ds : List Directive} (h : p.parseDeclaration catalog f d = .ok ds) :
    (share p catalog options f d).issues =
        (if options.warnDuplicates then repeatIssues d ds else []) ∧
      (share p catalog options f d).directives = ds.length := by
  simp only [share, checkDeclaration, h]
  cases options.warnDuplicates with
  | false => simp
  | true => simp [issues_pushAll, directives_pushAll]

/-! ### Repeated names -/

/-- Every name is a repetition or the first of its kind that was not seen before. -/
theorem length_repeats (seen ns : List String) :
    (repeats seen ns).length + (ns.toFinset \ seen.toFinset).card = ns.length := by
  induction ns generalizing seen with
  | nil => simp [repeats]
  | cons n ns ih =>
    rw [repeats, List.toFinset_cons]
    by_cases h : n ∈ seen
    · have hin : n ∈ seen.toFinset := List.mem_toFinset.2 h
      rw [if_pos (List.contains_iff_mem.2 h), Finset.insert_sdiff_of_mem _ hin, List.length_cons,
        List.length_cons, ← ih seen]
      omega
    · have hout : n ∉ seen.toFinset := fun hn => h (List.mem_toFinset.1 hn)
      -- once seen, the name no longer counts among the new ones
      have hnew : insert n ns.toFinset \ seen.toFinset =
          insert n (ns.toFinset \ (n :: seen).toFinset) := by
        ext m
        simp only [Finset.mem_sdiff, Finset.mem_insert, List.toFinset_cons, not_or]
        by_cases hm : m = n
        · simp [hm, hout]
        · simp [hm]
      have hfresh : n ∉ ns.toFinset \ (n :: seen).toFinset := by simp
      rw [if_neg (by simpa using h), hnew, Finset.card_insert_of_notMem hfresh, List.length_cons,
        ← ih (n :: seen)]
      omega

/-- There are as many issues of repetition as directives beyond the first of each type. -/
theorem length_repeatIssues (d : Declaration) (ds : List Directive) :
    (repeatIssues d ds).length + ((ds.map Directive.name).dedup).length = ds.length := by
  have h := length_repeats [] (ds.map Directive.name)
  rw [List.toFinset_nil, Finset.sdiff_empty, List.card_toFinset, List.length_map] at h
  rw [repeatIssues, List.length_map]
  exact h

end Lint

end DocDirectives
