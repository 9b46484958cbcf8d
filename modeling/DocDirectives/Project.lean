import DocDirectives.Declaration.Scan
import DocDirectives.FileTree
import DocDirectives.Lint

/-! # Files of a project

    Scanning, reading and checking of files in a tree. The language of a file is known before it is
    read. A file that fails is skipped when many are read, and becomes one issue when many are
    checked. -/

namespace DocDirectives

namespace FileTree

/-- Scan a file. -/
def scan (t : FileTree) (path : String) : Except Failure SourceFile :=
  match Language.ofPath? path with
  | none => .error (.unsupported path)
  | some l =>
    match t.readText path with
    | .error e => .error (.unreadable path e)
    | .ok content => .ok (.scan l path content)

/-- The imports of a file. -/
def imports (t : FileTree) (path : String) : Except Failure SymbolTable :=
  if !t.isFile path then .error (.invalidArgument s!"file '{path}' does not exist")
  else
    match Language.ofPath? path with
    | none => .error (.unsupported path)
    | some l =>
      match t.readText path with
      | .error e => .error (.unreadable path e)
      | .ok content => .ok (importsOf l content)

/-- Scan a file and parse its directives. -/
def parseFile (t : FileTree) (p : Parser) (catalog : Catalog) (path : String) :
    Except Failure (List DeclarationDirectives) :=
  match t.scan path with
  | .error e => .error e
  | .ok f => p.parseSource catalog f

/-- The directives of several files, without the files that fail. -/
def parseFiles (t : FileTree) (p : Parser) (catalog : Catalog) (paths : List String) :
    List (String × List DeclarationDirectives) :=
  paths.filterMap fun path =>
    match t.parseFile p catalog path with
    | .ok ds => some (path, ds)
    | .error _ => none

/-- The instances that a host builds for a file. -/
def readInstances {α : Type} (t : FileTree) (h : Host α) (p : Parser) (path : String) :
    Except Failure (List (Declaration × List (Attached α))) :=
  match t.scan path with
  | .error e => .error e
  | .ok f => h.readSource p f

/-- Check a file. -/
def lintFile (t : FileTree) (p : Parser) (catalog : Catalog) (options : LintOptions)
    (path : String) : Except Failure LintReport :=
  (t.scan path).map (Lint.checkSource p catalog options)

/-- Add a file to a report. -/
def lintInto (t : FileTree) (p : Parser) (catalog : Catalog) (options : LintOptions)
    (r : LintReport) (path : String) : LintReport :=
  match t.lintFile p catalog options path with
  | .ok s => r.merge s
  | .error e => r.push (Lint.unreadableIssue path e)

/-- The files below a path that are in a known language. -/
def sources (t : FileTree) (path : String) : List String :=
  (t.walk path).filter fun file => (Language.ofPath? file).isSome

/-- Check every file of a known language at and below a path. -/
def lintFolder (t : FileTree) (p : Parser) (catalog : Catalog) (options : LintOptions)
    (path : String) : Except Failure LintReport :=
  if t.has path then .ok ((t.sources path).foldl (t.lintInto p catalog options) {})
  else .error (.invalidArgument s!"path '{path}' does not exist")

end FileTree

end DocDirectives
