import DocDirectives.Lint
import DocDirectives.Proofs.Prose
import DocDirectives.Proofs.Reading

/-! # Comments without a mark

    Only documentation with an `@` is parsed. Nothing is lost by that: a token of another kind than
    the mark is prose, and a token is a mark only when its text is an `@`, so a comment without one
    is read without a failure and gives no directives, whatever it is about and whatever is known
    there. What is read or checked in a file is then the same when every comment is parsed. -/

namespace DocDirectives

/-! ### Loops that leave members out -/

section Loops

variable {α β ε : Type} {keep : α → Bool}

/-- A loop may leave out what gives something that is not shown. -/
theorem filter_mapM {f : α → Except ε β} {shown : β → Bool}
    (hskip : ∀ x, keep x = false → ∃ y, f x = .ok y ∧ shown y = false) (xs : List α) :
    ((xs.filter keep).mapM f).map (List.filter shown) = (xs.mapM f).map (List.filter shown) := by
  induction xs with
  | nil => rfl
  | cons x xs ih =>
    cases hkeep : keep x with
    | false =>
      obtain ⟨y, hy, hshown⟩ := hskip x hkeep
      rw [List.filter_cons_of_neg (by simp [hkeep]), ih, mapM_cons_ok hy]
      cases xs.mapM f with
      | error e => rfl
      | ok ys => simp [Except.map, hshown]
    | true =>
      rw [List.filter_cons_of_pos hkeep]
      cases hx : f x with
      | error e => rw [mapM_cons_error hx, mapM_cons_error hx]
      | ok y =>
        have hcons : ∀ r : Except ε (List β), (r.map (y :: ·)).map (List.filter shown) =
            (r.map (List.filter shown)).map fun ys => if shown y then y :: ys else ys := by
          intro r
          cases r with
          | error e => rfl
          | ok ys => simp [Except.map, List.filter_cons]
        rw [mapM_cons_ok hx, mapM_cons_ok hx, hcons, hcons, ih]

/-- A loop may leave out what changes nothing. -/
theorem filter_foldl {step : β → α → β} (hskip : ∀ b x, keep x = false → step b x = b)
    (xs : List α) (b : β) : (xs.filter keep).foldl step b = xs.foldl step b := by
  have hstep : (fun b x => if keep x = true then step b x else b) = step := by
    funext b x
    cases hkeep : keep x with
    | false => exact (hskip b x hkeep).symm
    | true => rfl
  rw [List.foldl_filter, hstep]

end Loops

/-! ### Reading every comment -/

/-- The directives of every declaration, whether or not its documentation may hold one. -/
def Parser.parseEvery (p : Parser) (catalog : Catalog) (f : SourceFile) :
    Except Failure (List DeclarationDirectives) :=
  f.declarations.mapM fun d => (p.parseDeclaration catalog f d).map fun ds => ⟨d, ds⟩

/-- The instances of every declaration that has any, all of them being parsed. -/
def Host.readEvery {α : Type} (h : Host α) (p : Parser) (f : SourceFile) :
    Except Failure (List (Declaration × List (Attached α))) :=
  (f.declarations.mapM fun d => (h.attachedTo p f d).map fun as => (d, as)).map fun all =>
    all.filter fun (_, as) => !as.isEmpty

/-- Check a scanned file, every declaration of it. -/
def Lint.checkEvery (p : Parser) (catalog : Catalog) (options : LintOptions) (f : SourceFile) :
    LintReport :=
  f.declarations.foldl (checkDeclaration p catalog options f)
    { files := 1, declarations := f.declarations.length }

/-! ### Declarations without a mark -/

section Unmarked

variable {ignored : IgnoredNames} {f : SourceFile} {d : Declaration}

/-- No token of a text without an `@` is a mark. -/
theorem Classifier.kind_ne_start {cs : List Char} (h : '@' ∉ cs) {t : Token}
    (ht : t ∈ directives.tokens cs) : t.kind ≠ .start := by
  intro hkind
  have hmem : ∀ x ∈ t.text.toList, x ∈ cs := fun x => mem_of_mem_tokens ht
  obtain ⟨fragment, -, rfl⟩ := List.mem_map.1 ht
  obtain rfl : fragment = ['@'] := kindOf_eq_start_iff.1 hkind
  exact h (hmem '@' (by simp [token]))

/-- A text without an `@` gives no directives. -/
theorem Parser.parse_of_unmarked {text : String} (h : '@' ∉ text.toList) (site : Site) :
    Parser.parse ⟨.directives, ignored⟩ site text = .ok [] := by
  have hskip := Parser.directives_append site ignored []
    fun t (ht : t ∈ Classifier.directives.tokens text.toList) => Classifier.kind_ne_start h ht
  rw [List.append_nil] at hskip
  rw [Parser.parse, hskip, Parser.directives]

theorem Declaration.parse_of_unmarked (h : d.mayHoldDirective = false) (site : Site) :
    Parser.parse ⟨.directives, ignored⟩ site d.documentation = .ok [] := by
  refine Parser.parse_of_unmarked (fun hmark => ?_) site
  rw [mayHoldDirective, List.contains_iff_mem.2 hmark] at h
  cases h

theorem Host.attachedTo_of_unmarked {α : Type} (host : Host α) (h : d.mayHoldDirective = false) :
    host.attachedTo ⟨.directives, ignored⟩ f d = .ok [] := by
  rw [attachedTo, Parser.parseDeclaration, d.parse_of_unmarked h]
  rfl

theorem Lint.checkDeclaration_of_unmarked {catalog : Catalog} {options : LintOptions}
    (r : LintReport) (h : d.mayHoldDirective = false) :
    checkDeclaration ⟨.directives, ignored⟩ catalog options f r d = r := by
  rw [checkDeclaration, Parser.parseDeclaration, d.parse_of_unmarked h]
  cases hw : options.warnDuplicates <;> rfl

/-- Documentation that cannot hold a directive is read without a failure and gives none, for every
    label, table of symbols, catalog and set of ignored names. So a file gives the same when every
    declaration is parsed: the same failure or the same directives, up to declarations without any;
    the same instances; the same report. -/
theorem marked_suffices (ignored : IgnoredNames) :
    (∀ d : Declaration, d.mayHoldDirective = false → ∀ context symbols catalog,
      Parser.parse ⟨.directives, ignored⟩ ⟨context, symbols, catalog⟩ d.documentation = .ok []) ∧
    ∀ f : SourceFile,
      (∀ catalog : Catalog,
        (Parser.parseSource ⟨.directives, ignored⟩ catalog f).map
            (List.filter fun g => !g.directives.isEmpty) =
          (Parser.parseEvery ⟨.directives, ignored⟩ catalog f).map
            (List.filter fun g => !g.directives.isEmpty)) ∧
      (∀ (α : Type) (h : Host α),
        h.readSource ⟨.directives, ignored⟩ f = h.readEvery ⟨.directives, ignored⟩ f) ∧
      ∀ (catalog : Catalog) (options : LintOptions),
        Lint.checkSource ⟨.directives, ignored⟩ catalog options f =
          Lint.checkEvery ⟨.directives, ignored⟩ catalog options f := by
  refine ⟨fun d hd context symbols catalog => d.parse_of_unmarked hd _, fun f => ⟨?_, ?_, ?_⟩⟩
  · intro catalog
    refine filter_mapM (fun d hd => ⟨⟨d, []⟩, ?_, rfl⟩) f.declarations
    rw [Parser.parseDeclaration, d.parse_of_unmarked hd]
    rfl
  · intro α h
    refine filter_mapM (fun d hd => ⟨(d, []), ?_, rfl⟩) f.declarations
    rw [h.attachedTo_of_unmarked hd]
    rfl
  · intro catalog options
    exact filter_foldl (fun r d => Lint.checkDeclaration_of_unmarked r) f.declarations _

end Unmarked

end DocDirectives
