import DocDirectives.Lint
import DocDirectives.Terminal

/-! # Reports

    How results are shown: as JSON on one line, as indented JSON, or as text for a terminal with or
    without colours. -/

namespace DocDirectives

/-- Form of a report. -/
inductive ReportFormat where
  | text
  | json
  | prettyJson
  deriving DecidableEq, Repr

namespace ReportFormat

/-- The format of a name; what is not JSON is text. -/
def ofName : String → ReportFormat
  | "json" => json
  | "json-pretty" => prettyJson
  | _ => text

end ReportFormat

namespace Report

open Terminal (padLeft padRight)

/-! ### Lint reports -/

/-- The lines of an issue. -/
def issueText (color : Bool) (i : Issue) : String :=
  let severity :=
    match i.severity with
    | .error => Style.paint color [.bold, .red] "ERROR"
    | .warning => Style.paint color [.bold, .yellow] "WARN"
  let place := Style.paint color [.dimmed] s!"{i.location.file}:{i.location.line}"
  let code := Style.paint color [.dimmed] i.code
  let label := Style.paint color [.cyan] "hint:"
  let hint :=
    match i.suggestion with
    | some suggestion => s!"  {label} {suggestion}\n"
    | none => ""
  s!"{severity} {place} - {i.message} ({code})\n" ++ hint

/-- The verdict of a run. -/
def verdictText (color : Bool) (r : LintReport) : String :=
  let warnings := Style.paint color [.yellow] (toString r.warnings)
  let good := Style.paint color [.bold, .green] "OK"
  if 0 < r.errors then
    let errors := Style.paint color [.bold, .red] (toString r.errors)
    s!"{errors} errors, {warnings} warnings\n"
  else if 0 < r.warnings then s!"{good} {warnings} warnings\n"
  else s!"{good} No issues found\n"

/-- A lint report in a format. -/
def lint (format : ReportFormat) (color : Bool) (r : LintReport) : String :=
  match format with
  | .json => r.toJson.compact
  | .prettyJson => r.toJson.pretty
  | .text =>
    String.join (r.issues.map (issueText color)) ++ "\n" ++
      s!"Checked {r.files} files, {r.declarations} declarations, {r.directives} annotations\n" ++
      verdictText color r

/-! ### Directives of files -/

/-- The directives of one file. -/
structure FileDirectives where
  path : String
  declarations : List DeclarationDirectives

namespace FileDirectives

def toJson (f : FileDirectives) : Json :=
  .object [("path", .string f.path),
    ("declarations", .array (f.declarations.map DeclarationDirectives.toJson))]

end FileDirectives

/-- The line of a directive: an `@`, the name, the arguments. -/
def directiveText (color : Bool) (d : Directive) : String :=
  "    @" ++ Style.paint color [.green] d.name ++ d.arguments.text ++ "\n"

/-- The lines of a declaration. -/
def declarationText (color : Bool) (d : DeclarationDirectives) : String :=
  "  " ++ Style.paint color [.cyan] d.declaration.label ++
    s!" (line {d.declaration.location.line})\n" ++
    String.join (d.directives.map (directiveText color))

/-- The lines of a file. -/
def fileText (color : Bool) (f : FileDirectives) : String :=
  Style.paint color [.bold] f.path ++ "\n" ++
    (if f.declarations.isEmpty then "  " ++ Style.paint color [.dimmed] "no annotations" ++ "\n"
    else "") ++
    String.join (f.declarations.map (declarationText color))

/-- The directives of files in a format. -/
def files (format : ReportFormat) (color : Bool) (fs : List FileDirectives) : String :=
  match format with
  | .json => (Json.array (fs.map FileDirectives.toJson)).compact
  | .prettyJson => (Json.array (fs.map FileDirectives.toJson)).pretty
  | .text => String.join (fs.map (fileText color))

/-! ### Tokens -/

def tokenJson (t : Token) : Json :=
  .object [("kind", .string t.kind.label), ("value", .string t.text)]

/-- The line of a token: its number, its kind, its text. -/
def tokenText (color : Bool) (index : Nat) (t : Token) : String :=
  Style.paint color [.dimmed] (padLeft 4 (toString index)) ++ "  " ++ padRight 20 t.kind.text ++
    " " ++ t.text ++ "\n"

/-- A list of tokens in a format. -/
def tokens (format : ReportFormat) (color : Bool) (ts : List Token) : String :=
  match format with
  | .json => (Json.array (ts.map tokenJson)).compact
  | .prettyJson => (Json.array (ts.map tokenJson)).pretty
  | .text => String.join (ts.zipIdx.map fun (t, i) => tokenText color i t)

end Report

end DocDirectives
