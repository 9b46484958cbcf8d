import DocDirectives.Declaration
import DocDirectives.Parser

/-! # Reading the directives of a source file

    The directives of every documented declaration, in source order, and the instances that a host
    builds of them. A declaration that fails ends the reading of its file. -/

namespace DocDirectives

/-- The directives of one declaration. -/
structure DeclarationDirectives where
  declaration : Declaration
  directives : List Directive

namespace DeclarationDirectives

def toJson (d : DeclarationDirectives) : Json :=
  .object [("declaration", d.declaration.toJson),
    ("results", .array (d.directives.map Directive.toJson))]

end DeclarationDirectives

/-- Where the comment of a declaration stands. -/
def SourceFile.site (f : SourceFile) (catalog : Catalog) (d : Declaration) : Site :=
  ⟨d.label, f.symbols, catalog⟩

namespace Parser

/-- The directives of a declaration. -/
def parseDeclaration (p : Parser) (catalog : Catalog) (f : SourceFile) (d : Declaration) :
    Except Failure (List Directive) := p.parse (f.site catalog d) d.documentation

/-- The directives of every documented declaration. -/
def parseSource (p : Parser) (catalog : Catalog) (f : SourceFile) :
    Except Failure (List DeclarationDirectives) :=
  f.documented.mapM fun d => (p.parseDeclaration catalog f d).map fun ds => ⟨d, ds⟩

end Parser

/-- An instance together with the directive that it was built from. -/
structure Attached (α : Type) where
  typeName : String
  context : String
  inst : α

namespace Host

variable {α : Type}

/-- Build the instance of a directive. -/
def attach (h : Host α) (d : Directive) : Except Failure (Attached α) :=
  match h.construct d.name d.arguments with
  | .ok inst => .ok ⟨d.name, d.context, inst⟩
  | .error message => .error (.construction d.name d.context message)

/-- The instances of a declaration, one for each directive. -/
def attachedTo (h : Host α) (p : Parser) (f : SourceFile) (d : Declaration) :
    Except Failure (List (Attached α)) :=
  match p.parseDeclaration h.catalog f d with
  | .ok ds => ds.mapM h.attach
  | .error e => .error e

/-- The instance of the first directive that names a type. Other directives are not built. -/
def firstOf (h : Host α) (p : Parser) (f : SourceFile) (d : Declaration) (typeName : String) :
    Except Failure (Option α) :=
  match p.parseDeclaration h.catalog f d with
  | .error e => .error e
  | .ok ds =>
    match ds.find? fun r => r.name == typeName with
    | some r => (h.attach r).map fun a => some a.inst
    | none => .ok none

/-- The instances of every documented declaration that has any. -/
def readSource (h : Host α) (p : Parser) (f : SourceFile) :
    Except Failure (List (Declaration × List (Attached α))) :=
  (f.documented.mapM fun d => (h.attachedTo p f d).map fun as => (d, as)).map fun all =>
    all.filter fun (_, as) => !as.isEmpty

end Host

end DocDirectives
