import DocDirectives.FileTree
import DocDirectives.Lint
import DocDirectives.Toml.Document
import DocDirectives.Toml.Writer

/-! # Configuration

    Settings have three sections: which names the parser ignores, which types are known, and what
    the linter reports. Whatever is missing has its default, and what is unknown is passed over. -/

namespace DocDirectives

structure Config where
  /-- Names ignored besides the conventional tags. -/
  ignoredNames : List String := []
  /-- Qualified names of existing types. -/
  knownTypes : List String := []
  /-- Whether every import is believed to be a type. -/
  trustImports : Bool := false
  lint : LintOptions := {}
  deriving DecidableEq, Repr

namespace Config

def ignored (c : Config) : IgnoredNames := .withNames c.ignoredNames

def parser (c : Config) : Parser := { ignored := c.ignored }

def registry (c : Config) : Registry := .ofNames c.knownTypes

def catalog (c : Config) : Catalog := if c.trustImports then .trusting else c.registry.catalog

/-! ### Reading -/

open Toml (Value Entries)

def strings? : Value → Option (List String)
  | .array vs => vs.mapM fun v => match v with
    | .string s => some s
    | _ => none
  | _ => none

def boolean? : Value → Option Bool
  | .boolean b => some b
  | _ => none

/-- The two fields of a section, by name from a table or by place from an array. A moment counts
    as a table without either. -/
def sectionFields? (first second : String) : Option Value → Option (Option Value × Option Value)
  | none => some (none, none)
  | some (.table _ es) => some (es.lookup first, es.lookup second)
  | some (.array vs) => some (vs[0]?, vs[1]?)
  | some (.tables ts) =>
    some ((ts[0]?).map (Value.table .named), (ts[1]?).map (Value.table .named))
  | some .moment => some (none, none)
  | _ => none

/-- A field that may be missing. -/
def field? {α : Type} (read : Value → Option α) (default : α) : Option Value → Option α
  | none => some default
  | some v => read v

/-- The settings in a document. -/
def ofEntries? (root : Entries) : Option Config := do
  let (ignoredNames, _) ← sectionFields? "ignored_names" "" (root.lookup "parser")
  let (knownTypes, trustImports) ←
    sectionFields? "known_types" "trust_imports" (root.lookup "catalog")
  let (unresolved, duplicates) ←
    sectionFields? "unresolved_as_warning" "warn_duplicate_annotations" (root.lookup "lint")
  return {
    ignoredNames := ← field? strings? [] ignoredNames
    knownTypes := ← field? strings? [] knownTypes
    trustImports := ← field? boolean? false trustImports
    lint := {
      unresolvedAsWarning := ← field? boolean? false unresolved
      warnDuplicates := ← field? boolean? false duplicates } }

/-- The settings in a text. -/
def ofText? (text : String) : Option Config := (Toml.document? text).bind ofEntries?

/-- The settings in a file. -/
def load (t : FileTree) (path : String) : Except Failure Config :=
  match t.readText path with
  | .error e => .error (.unreadable path e)
  | .ok text =>
    match ofText? text with
    | some c => .ok c
    | none => .error .configuration

/-- The settings in a file, or the default ones when there is no file. -/
def loadOrDefault (t : FileTree) (path : String) : Except Failure Config :=
  if t.isFile path then load t path else .ok {}

/-! ### Writing -/

/-- The settings as a text. -/
def text (c : Config) : String :=
  String.ofList (
    Toml.writeTable "parser"
      [Toml.writeEntry "ignored_names" (Toml.writeStrings c.ignoredNames)] ++ ['\n'] ++
    Toml.writeTable "catalog"
      [Toml.writeEntry "known_types" (Toml.writeStrings c.knownTypes),
        Toml.writeEntry "trust_imports" (Toml.writeBool c.trustImports)] ++ ['\n'] ++
    Toml.writeTable "lint"
      [Toml.writeEntry "unresolved_as_warning" (Toml.writeBool c.lint.unresolvedAsWarning),
        Toml.writeEntry "warn_duplicate_annotations" (Toml.writeBool c.lint.warnDuplicates)])

/-- Write the settings to a file. -/
def save (c : Config) (t : FileTree) (path : String) : Except Failure FileTree :=
  match t.write path c.text with
  | .ok t => .ok t
  | .error e => .error (.io e)

end Config

end DocDirectives
