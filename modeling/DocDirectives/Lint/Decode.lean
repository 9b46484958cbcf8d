import DocDirectives.Lint

/-! # Lint reports read back from JSON

    A report, an issue or a location is an object with its fields, in any order and with others
    between them, or else an array of exactly its fields in order. A field that may be missing in
    an object may be `null` too. The counts are taken as they are, and sums of them wrap around. -/

namespace DocDirectives

namespace Json

/-- The fields of a record, by name from an object or by place from an array. A field that is
    missing from an object is `none`. -/
def fields? (names : List String) : Json → Option (List (Option Json))
  | object members => some (names.map fun n => members.lookup n)
  | array items => if items.length = names.length then some (items.map some) else none
  | _ => none

def asString? : Json → Option String
  | string s => some s
  | _ => none

/-- A count that fits in 64 bits. -/
def asCount? : Json → Option Nat
  | integer i => if 0 ≤ i ∧ i.toNat < UInt64.size then some i.toNat else none
  | _ => none

/-- A value that may be missing or `null`. -/
def optional? {α : Type} (read : Json → Option α) : Option Json → Option (Option α)
  | none => some none
  | some null => some none
  | some value => (read value).map some

end Json

open Json (fields? asString? asCount? optional?)

namespace Severity

/-- The severity of a word. -/
def ofText? : String → Option Severity
  | "error" => some error
  | "warning" => some warning
  | _ => none

/-- The severity of a word, or of an object that holds the word as its only name, with `null`. -/
def ofJson? : Json → Option Severity
  | .string s => ofText? s
  | .object [(name, .null)] => ofText? name
  | _ => none

end Severity

namespace Location

def ofJson? (value : Json) : Option Location :=
  match fields? ["file", "line", "column"] value with
  | some [some file, some line, column] => do
    return { file := ← asString? file, line := ← asCount? line
             column := ← optional? asCount? column }
  | _ => none

end Location

namespace Issue

def ofJson? (value : Json) : Option Issue :=
  match fields? ["severity", "code", "message", "location", "context", "suggestion"] value with
  | some [some severity, some code, some message, some location, context, suggestion] => do
    return { severity := ← Severity.ofJson? severity
             code := ← asString? code
             message := ← asString? message
             location := ← Location.ofJson? location
             context := ← optional? asString? context
             suggestion := ← optional? asString? suggestion }
  | _ => none

/-- A list of issues. -/
def listOfJson? : Json → Option (List Issue)
  | .array items => items.mapM ofJson?
  | _ => none

end Issue

namespace LintReport

def ofJson? (value : Json) : Option LintReport :=
  match fields? ["files_checked", "declarations_checked", "annotations_found", "issues", "errors",
      "warnings"] value with
  | some [some files, some declarations, some directives, some issues, some errors,
      some warnings] => do
    return { files := ← asCount? files
             declarations := ← asCount? declarations
             directives := ← asCount? directives
             issues := ← Issue.listOfJson? issues
             errors := ← asCount? errors
             warnings := ← asCount? warnings }
  | _ => none

/-- The counts as words of 64 bits, without what is above them. -/
def wrapped (r : LintReport) : LintReport :=
  { r with
    files := r.files % UInt64.size
    declarations := r.declarations % UInt64.size
    directives := r.directives % UInt64.size
    errors := r.errors % UInt64.size
    warnings := r.warnings % UInt64.size }

/-- Counts that fit in a word stay as they are. -/
theorem wrapped_eq_self {r : LintReport} (files : r.files < UInt64.size)
    (declarations : r.declarations < UInt64.size) (directives : r.directives < UInt64.size)
    (errors : r.errors < UInt64.size) (warnings : r.warnings < UInt64.size) : r.wrapped = r := by
  simp only [wrapped, Nat.mod_eq_of_lt, *]

/-- Several reports as one, in order. Their counts are taken as they are, so the sums may be too
    large for a word. -/
def ofJsons (values : List Json) : Except Failure LintReport :=
  match values.mapM ofJson? with
  | some reports => .ok (reports.foldl merge {}).wrapped
  | none => .error .json

end LintReport

end DocDirectives
