import DocDirectives.Language
import DocDirectives.Symbol

/-! # Declarations

    A declaration is a program element together with the documentation comment in front of it. Its
    label names it in messages: the kind, and the qualified name. -/

namespace DocDirectives

/-- A place in a source file. Columns count bytes from one. -/
structure Location where
  file : String := ""
  line : Nat := 0
  column : Option Nat := none
  deriving DecidableEq, Repr

namespace Location

def toJson (l : Location) : Json :=
  .object [("file", .string l.file), ("line", .ofNat l.line),
    ("column", (l.column.map Json.ofNat).getD .null)]

end Location

/-- What a comment documents. -/
inductive DeclarationKind where
  | type
  | function
  | method
  | field
  deriving DecidableEq, Repr

namespace DeclarationKind

def text : DeclarationKind → String
  | type => "type"
  | function => "function"
  | method => "method"
  | field => "field"

end DeclarationKind

/-- A program element with its documentation, which is empty when there is none. Methods and fields
    have the type around them as owner. -/
structure Declaration where
  kind : DeclarationKind
  name : String
  owner : Option String
  location : Location
  documentation : String
  deriving DecidableEq, Repr

namespace Declaration

/-- The name of the declaration in messages. -/
def label (d : Declaration) : String :=
  let name :=
    match d.owner with
    | some owner => owner ++ "::" ++ d.name
    | none => d.name
  d.kind.text ++ " " ++ name

/-- Whether the documentation may hold a directive. -/
def mayHoldDirective (d : Declaration) : Bool := d.documentation.toList.contains '@'

def toJson (d : Declaration) : Json :=
  .object [("kind", .string d.kind.text), ("name", .string d.name), ("owner", .ofString? d.owner),
    ("location", d.location.toJson), ("documentation", .string d.documentation)]

end Declaration

/-- What reading directives needs of one file. -/
structure SourceFile where
  path : String
  language : Language
  symbols : SymbolTable
  declarations : List Declaration

namespace SourceFile

/-- The first declaration with a label. -/
def find? (f : SourceFile) (label : String) : Option Declaration :=
  f.declarations.find? fun d => d.label == label

/-- The declarations whose documentation may hold a directive. -/
def documented (f : SourceFile) : List Declaration :=
  f.declarations.filter Declaration.mayHoldDirective

def toJson (f : SourceFile) : Json :=
  .object [("path", .string f.path), ("language", .string f.language.name),
    ("symbols", SymbolTable.toJson f.symbols),
    ("declarations", .array (f.declarations.map Declaration.toJson))]

end SourceFile

end DocDirectives
