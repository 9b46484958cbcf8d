import DocDirectives.Json

/-! # Imported names

    A symbol is a name that a source file imports, perhaps under an alias. A directive names a type
    by the last segment of a qualified name: the first symbol with that alias, or else the first
    whose own last segment it is. The separators of all languages count, whatever the language of
    the file. -/

namespace DocDirectives

/-- Characters from the end of a name back to a separator, of a name written backwards. -/
def segmentBackwards : List Char → List Char
  | [] => []
  | '\\' :: _ => []
  | '.' :: _ => []
  | ':' :: ':' :: _ => []
  | c :: cs => c :: segmentBackwards cs

/-- The last segment of a qualified name: what stands behind its last separator. -/
def lastSegment (cs : List Char) : List Char := (segmentBackwards cs.reverse).reverse

/-- The last segment of a qualified name. -/
def shortName (name : String) : String := String.ofList (lastSegment name.toList)

/-- A name that a source file imports. -/
structure Symbol where
  fullName : String
  short : String
  otherName : Option String
  deriving DecidableEq, Repr

/-- Imports of one source file, in the order of the source. -/
abbrev SymbolTable := List Symbol

namespace Symbol

/-- An import under its own name. -/
def plain (fullName : String) : Symbol := ⟨fullName, shortName fullName, none⟩

/-- An import under another name. -/
def renamed (fullName otherName : String) : Symbol :=
  ⟨fullName, shortName fullName, some otherName⟩

/-- An import with or without an alias. -/
def ofImport (fullName : String) : Option String → Symbol
  | none => plain fullName
  | some otherName => renamed fullName otherName

def toJson (s : Symbol) : Json :=
  .object [("fully_qualified_name", .string s.fullName), ("short_name", .string s.short),
    ("alias", .ofString? s.otherName)]

end Symbol

/-- How a directive name was found. A symbol found by its own last segment still has to be a known
    type; an alias is taken at its word. -/
inductive Resolution where
  | byAlias (s : Symbol)
  | byShort (s : Symbol)
  | unresolved
  deriving DecidableEq, Repr

namespace Resolution

def symbol? : Resolution → Option Symbol
  | byAlias s => some s
  | byShort s => some s
  | unresolved => none

end Resolution

namespace SymbolTable

/-- Look up the last segment of a directive name, aliases first. -/
def resolve (table : SymbolTable) (name : String) : Resolution :=
  let short := shortName name
  match table.find? fun s => s.otherName == some short with
  | some s => .byAlias s
  | none =>
    match table.find? fun s => s.short == short with
    | some s => .byShort s
    | none => .unresolved

def toJson (table : SymbolTable) : Json := .array (table.map Symbol.toJson)

end SymbolTable

end DocDirectives
