import DocDirectives.Proofs.Reading
import DocDirectives.Proofs.Session.Agreement

/-! # A session keeps nothing

    A session goes from comment to comment with one cursor, and a comment that fails leaves the
    cursor in the middle of its tokens. The next comment is read as by a session that has read
    nothing: loading drops the tokens and the place, and what is kept, the classifier and the
    ignored names, is a `Parser`. So a file that fails has no part in what the files behind it
    give. -/

namespace DocDirectives.Session

variable {catalog : Catalog} {f : SourceFile} {t : FileTree}

/-- The reader that a session keeps between two comments. -/
def parser (s : Session) : Parser := ⟨s.cursor.classifier, s.ignored⟩

/-! ### Comments -/

theorem rest_load (c : Cursor) (text : String) :
    (c.load text).rest = c.classifier.tokens text.toList := rfl

/-- A session reads a comment as its reader does, wherever the last comment has left its cursor. -/
theorem parse_result (s : Session) (site : Site) (text : String) :
    (s.parse site text).1 = s.parser.parse site text := by
  rw [parse, Cursor.Outcome.result_eq_seen, Cursor.seen_comment, rest_load, Parser.parse, parser]
  cases Parser.directives site s.ignored (s.cursor.classifier.tokens text.toList) <;> rfl

theorem parser_parse (s : Session) (site : Site) (text : String) :
    (s.parse site text).2.parser = s.parser := by
  have h := ((s.cursor.load text).comment site s.ignored []).onward.classifier
  rw [parse, parser, parser, h]
  rfl

/-- A comment that fails leaves the cursor in the middle of its tokens. -/
example : ((fresh .directives .standard).parse ⟨"type Fixture", [.plain "app::A"], .trusting⟩
    "@A(1 2) @A").2.cursor.position = 4 := by decide +kernel

/-! ### Files -/

/-- What a session gives for declarations, and what it keeps. -/
theorem parseDeclarations_spec (s : Session) (ds : List Declaration) :
    (s.parseDeclarations catalog f ds).1 =
        (ds.mapM fun d => (s.parser.parseDeclaration catalog f d).map fun rs => ⟨d, rs⟩) ∧
      (s.parseDeclarations catalog f ds).2.parser = s.parser := by
  induction ds generalizing s with
  | nil => exact ⟨rfl, rfl⟩
  | cons d ds ih =>
    have hresult : (s.parse (f.site catalog d) d.documentation).1 =
        s.parser.parseDeclaration catalog f d := parse_result s _ _
    have hkept := parser_parse s (f.site catalog d) d.documentation
    rw [parseDeclarations]
    rcases hstep : s.parse (f.site catalog d) d.documentation with ⟨r, s'⟩
    rw [hstep] at hresult hkept
    obtain ⟨hall, hs'⟩ := ih s'
    rw [hkept] at hall hs'
    cases r with
    | error e =>
      rw [mapM_cons_error (by rw [← hresult]; rfl)]
      exact ⟨rfl, hkept⟩
    | ok rs =>
      rw [mapM_cons_ok (by rw [← hresult]; rfl), ← hall]
      dsimp only
      rcases hrest : s'.parseDeclarations catalog f ds with ⟨r', s''⟩
      rw [hrest] at hs'
      cases r' <;> exact ⟨rfl, hs'⟩

theorem parseSource_spec (s : Session) (catalog : Catalog) (f : SourceFile) :
    (s.parseSource catalog f).1 = s.parser.parseSource catalog f ∧
      (s.parseSource catalog f).2.parser = s.parser := parseDeclarations_spec s f.documented

/-- What a session gives for one file: it is scanned, and its declarations are read. -/
def parseFile (s : Session) (t : FileTree) (catalog : Catalog) (path : String) :
    Except Failure (List DeclarationDirectives) :=
  match t.scan path with
  | .error e => .error e
  | .ok f => (s.parseSource catalog f).1

theorem parseFile_eq (s : Session) (t : FileTree) (catalog : Catalog) (path : String) :
    s.parseFile t catalog path = t.parseFile s.parser catalog path := by
  rw [parseFile, FileTree.parseFile]
  cases t.scan path with
  | error e => rfl
  | ok f => exact (parseSource_spec s catalog f).1

/-- What a session gives for files, and what it keeps. -/
theorem parseFiles_spec (s : Session) (t : FileTree) (catalog : Catalog) (paths : List String) :
    (s.parseFiles t catalog paths).1 = t.parseFiles s.parser catalog paths ∧
      (s.parseFiles t catalog paths).2.parser = s.parser := by
  induction paths generalizing s with
  | nil => exact ⟨rfl, rfl⟩
  | cons path paths ih =>
    rw [parseFiles, FileTree.parseFiles, List.filterMap_cons, ← FileTree.parseFiles,
      FileTree.parseFile]
    cases t.scan path with
    | error e => exact ih s
    | ok f =>
      obtain ⟨hresult, hkept⟩ := parseSource_spec s catalog f
      dsimp only
      rcases hstep : s.parseSource catalog f with ⟨r, s'⟩
      rw [hstep] at hresult hkept
      obtain ⟨hall, hs'⟩ := ih s'
      rw [hkept] at hall hs'
      rw [← hresult]
      cases r with
      | error e => exact ⟨hall, hs'⟩
      | ok ds => exact ⟨congrArg _ hall, hs'⟩

/-! ### Calls -/

/-- What a session is asked for. -/
inductive Call where
  | parse (site : Site) (text : String)
  | parseSource (catalog : Catalog) (f : SourceFile)
  | parseFiles (t : FileTree) (catalog : Catalog) (paths : List String)
  | setIgnored (ignored : IgnoredNames)

/-- The session that a call leaves. -/
def call (s : Session) : Call → Session
  | .parse site text => (s.parse site text).2
  | .parseSource catalog f => (s.parseSource catalog f).2
  | .parseFiles t catalog paths => (s.parseFiles t catalog paths).2
  | .setIgnored ignored => s.setIgnored ignored

/-- The session that calls leave. -/
def after (s : Session) (calls : List Call) : Session := calls.foldl call s

/-- The names that are ignored from a call on. -/
def Call.ignored (before : IgnoredNames) : Call → IgnoredNames
  | .setIgnored ignored => ignored
  | _ => before

/-- A session that has read nothing, with the classifier of `s` and the names that are ignored
    behind the calls. -/
def renewed (s : Session) (calls : List Call) : Session :=
  fresh s.cursor.classifier (calls.foldl Call.ignored s.ignored)

theorem parser_call (s : Session) (c : Call) :
    (s.call c).parser = ⟨s.cursor.classifier, c.ignored s.ignored⟩ := by
  cases c with
  | parse site text => exact parser_parse s site text
  | parseSource catalog f => exact (parseSource_spec s catalog f).2
  | parseFiles t catalog paths => exact (parseFiles_spec s t catalog paths).2
  | setIgnored ignored => rfl

theorem parser_after (s : Session) (calls : List Call) :
    (s.after calls).parser = (s.renewed calls).parser := by
  induction calls generalizing s with
  | nil => rfl
  | cons c calls ih =>
    obtain ⟨hclassifier, hignored⟩ := Parser.mk.inj (parser_call s c)
    calc (s.after (c :: calls)).parser
      _ = ((s.call c).renewed calls).parser := ih (s.call c)
      _ = (s.renewed (c :: calls)).parser := by
        rw [renewed, hclassifier, hignored]
        rfl

/-- Behind any calls a session gives what one gives that has read nothing, and that is what the
    reader gives that it keeps: for a comment, and for several files, of which each gives what it
    gives alone and those that fail give nothing. -/
theorem parse_after (s : Session) (calls : List Call) :
    (∀ (site : Site) (text : String),
      ((s.after calls).parse site text).1 = ((s.renewed calls).parse site text).1 ∧
      ((s.renewed calls).parse site text).1 = (s.renewed calls).parser.parse site text) ∧
    ∀ (t : FileTree) (catalog : Catalog) (paths : List String),
      (((s.after calls).parseFiles t catalog paths).1 = paths.filterMap fun path =>
        match (s.renewed calls).parseFile t catalog path with
        | .ok ds => some (path, ds)
        | .error _ => none) ∧
      ((s.after calls).parseFiles t catalog paths).1 =
        t.parseFiles (s.renewed calls).parser catalog paths := by
  constructor
  · intro site text
    rw [parse_result, parse_result, parser_after]
    exact ⟨rfl, rfl⟩
  · intro t catalog paths
    rw [(parseFiles_spec _ t catalog paths).1, parser_after]
    refine ⟨?_, rfl⟩
    simp only [parseFile_eq]
    rfl

end DocDirectives.Session
