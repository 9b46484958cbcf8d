import DocDirectives.Reading

/-! # Checking directives

    The linter parses the documentation of every declaration without building anything. A
    declaration that fails is one issue; a type named twice on one declaration is one when that is
    asked for. A report counts what was looked at and what was found. -/

namespace DocDirectives

inductive Severity where
  | error
  | warning
  deriving DecidableEq, Repr

namespace Severity

def text : Severity → String
  | error => "error"
  | warning => "warning"

end Severity

/-- A finding of the linter. -/
structure Issue where
  severity : Severity
  code : String
  message : String
  location : Location
  context : Option String
  suggestion : Option String
  deriving DecidableEq, Repr

namespace Issue

def toJson (i : Issue) : Json :=
  .object [("severity", .string i.severity.text), ("code", .string i.code),
    ("message", .string i.message), ("location", i.location.toJson),
    ("context", .ofString? i.context), ("suggestion", .ofString? i.suggestion)]

end Issue

/-- What is reported, and how severely. -/
structure LintOptions where
  unresolvedAsWarning : Bool := false
  warnDuplicates : Bool := false
  deriving DecidableEq, Repr

namespace LintOptions

/-- Every check, at full severity. -/
def strict : LintOptions := { warnDuplicates := true }

end LintOptions

/-- Counts and issues of a run. -/
structure LintReport where
  files : Nat := 0
  declarations : Nat := 0
  directives : Nat := 0
  issues : List Issue := []
  errors : Nat := 0
  warnings : Nat := 0
  deriving DecidableEq, Repr

namespace LintReport

/-- A run passes when it has no errors. -/
def passed (r : LintReport) : Bool := r.errors = 0

/-- Add an issue. -/
def push (r : LintReport) (i : Issue) : LintReport :=
  match i.severity with
  | .error => { r with issues := r.issues ++ [i], errors := r.errors + 1 }
  | .warning => { r with issues := r.issues ++ [i], warnings := r.warnings + 1 }

def pushAll (r : LintReport) (is : List Issue) : LintReport := is.foldl push r

/-- Two runs as one. -/
def merge (r s : LintReport) : LintReport where
  files := r.files + s.files
  declarations := r.declarations + s.declarations
  directives := r.directives + s.directives
  issues := r.issues ++ s.issues
  errors := r.errors + s.errors
  warnings := r.warnings + s.warnings

def toJson (r : LintReport) : Json :=
  .object [("files_checked", .ofNat r.files), ("declarations_checked", .ofNat r.declarations),
    ("annotations_found", .ofNat r.directives), ("issues", .array (r.issues.map Issue.toJson)),
    ("errors", .ofNat r.errors), ("warnings", .ofNat r.warnings)]

end LintReport

namespace Lint

/-- The issue of a documentation that does not parse. -/
def failureIssue (options : LintOptions) (d : Declaration) (e : Failure) : Issue :=
  let issue := fun severity code message suggestion =>
    (⟨severity, code, message, d.location, some d.label, suggestion⟩ : Issue)
  match e with
  | .unresolved name _ =>
    let message := s!"Annotation @{name} does not resolve to a known type"
    let suggestion := s!"Import the type behind @{name} or add it to the ignored names"
    if options.unresolvedAsWarning then issue .warning "W001" message (some suggestion)
    else issue .error "E002" message (some suggestion)
  | .unexpected _ _ _ => issue .error "E001" e.message none
  | _ => issue .error "E000" e.message none

/-- The names of a list that have occurred before in it or in `seen`. -/
def repeats (seen : List String) : List String → List String
  | [] => []
  | n :: ns => if seen.contains n then n :: repeats seen ns else repeats (n :: seen) ns

/-- One issue for each directive whose type was named before on the same declaration. -/
def repeatIssues (d : Declaration) (directives : List Directive) : List Issue :=
  (repeats [] (directives.map Directive.name)).map fun name =>
    ⟨.warning, "W002", s!"Annotation {name} appears more than once", d.location, some d.label, none⟩

/-- Check one declaration. -/
def checkDeclaration (p : Parser) (catalog : Catalog) (options : LintOptions) (f : SourceFile)
    (r : LintReport) (d : Declaration) : LintReport :=
  match p.parseDeclaration catalog f d with
  | .ok ds =>
    let counted := { r with directives := r.directives + ds.length }
    if options.warnDuplicates then counted.pushAll (repeatIssues d ds) else counted
  | .error e => r.push (failureIssue options d e)

/-- Check a scanned file. -/
def checkSource (p : Parser) (catalog : Catalog) (options : LintOptions) (f : SourceFile) :
    LintReport :=
  f.documented.foldl (checkDeclaration p catalog options f)
    { files := 1, declarations := f.declarations.length }

/-- The issue of a file that cannot be read. -/
def unreadableIssue (path : String) (e : Failure) : Issue :=
  ⟨.error, "E000", s!"Failed to scan file: {e.message}", { file := path }, none, none⟩

end Lint

end DocDirectives
