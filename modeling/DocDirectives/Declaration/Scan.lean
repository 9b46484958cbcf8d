import DocDirectives.Declaration
import DocDirectives.Declaration.Braces
import DocDirectives.Declaration.Head
import DocDirectives.Declaration.Line
import DocDirectives.Imports

/-! # Scanning a source text

    The scan goes over the lines once and keeps what is pending: the documentation read since the
    last line of code, the nesting of braces, and in Python the class whose body is being read. A
    line of code takes the pending documentation and gives at most one declaration. -/

namespace DocDirectives

open Text

/-- A Python class and the indentation of its body, once the first line of it was seen. -/
structure OpenClass where
  name : List Char
  bodyIndentation : Option Nat
  deriving DecidableEq, Repr

/-- What is pending between two lines. -/
structure Scanner where
  mode : Mode := .code
  documentation : List (List Char) := []
  nesting : Nesting := {}
  openClass : Option OpenClass := none
  deriving DecidableEq, Repr

/-- A declaration as its line gives it. -/
structure Found where
  kind : DeclarationKind
  name : List Char
  owner : Option (List Char)
  deriving DecidableEq, Repr

namespace Scanner

/-- Join lines of documentation without the empty ones at both ends. -/
def joinDocumentation (lines : List (List Char)) : List Char :=
  let kept := lines.dropWhile List.isEmpty
  joinWith ['\n'] (kept.reverse.dropWhile List.isEmpty).reverse

/-- The declaration of a line that is a member of the file or of a module, and the block that the
    line announces. -/
def fileMember (heads : Heads) (line : List Char) : Option Found × Option ScopeKind :=
  match heads.typeHead line with
  | some (keyword, name) =>
    (some ⟨.type, name, none⟩, some (.owner name (heads.fieldOwners.contains keyword)))
  | none =>
    if heads.opensImpl line then
      (none, (Head.implTarget? line).map fun target => .owner target false)
    else if heads.opensModule line then (none, some .file)
    else ((heads.function line).map fun name => ⟨.function, name, none⟩, none)

/-- The declaration of a line that is a member of a type. -/
def typeMember (heads : Heads) (owner : List Char) (fields : Bool) (line : List Char) :
    Option Found :=
  match heads.method line with
  | some name => some ⟨.method, name, some owner⟩
  | none =>
    if fields then (heads.field line).map fun name => ⟨.field, name, some owner⟩ else none

/-- Read a line of code between braces. -/
def braceLine (l : Language) (n : Nesting) (line : List Char) : Nesting × Option Found :=
  match n.current with
  | some .file =>
    let (found, announced) := fileMember l.heads line
    (Nesting.followLine l { n with announced := announced.or n.announced } line, found)
  | some (.owner name fields) => (n.followLine l line, typeMember l.heads name fields line)
  | none => (n.followLine l line, none)

/-- Read a line of indented code. A line in the first column closes the class; the first line behind
    the class line sets the indentation of its members. -/
def indentedLine (heads : Heads) (c : Option OpenClass) (indent : Nat) (line : List Char) :
    Option OpenClass × Option Found :=
  if indent = 0 then
    match heads.typeHead line with
    | some (_, name) => (some ⟨name, none⟩, some ⟨.type, name, none⟩)
    | none => (none, (heads.function line).map fun name => ⟨.function, name, none⟩)
  else
    match c with
    | none => (none, none)
    | some c =>
      let body := c.bodyIndentation.getD indent
      (some { c with bodyIndentation := some body },
        if indent = body then
          (heads.method line).map fun name => ⟨.method, name, some c.name⟩
        else none)

/-- Read a line of code: what was pending is taken. -/
def codeLine (l : Language) (s : Scanner) (line trimmed : List Char) : Scanner × Option Found :=
  if l.usesBraces then
    let (nesting, found) := braceLine l s.nesting trimmed
    ({ s with documentation := [], nesting := nesting }, found)
  else
    let (openClass, found) := indentedLine l.heads s.openClass (indentation line) trimmed
    ({ s with documentation := [], openClass := openClass }, found)

/-- Lines of the documentation block being read. -/
def blockLines : Mode → List (List Char)
  | .block lines => lines
  | _ => []

/-- Add a line to the documentation block being read; when it closes, the block replaces the
    documentation pending before. -/
def addToBlock (s : Scanner) (text : List Char) (closes : Bool) : Scanner :=
  let lines := blockLines s.mode ++ [text]
  if closes then { s with mode := .code, documentation := lines }
  else { s with mode := .block lines }

/-- Read one line. -/
def step (l : Language) (s : Scanner) (line : List Char) : Scanner × Option Found :=
  let trimmed := trim line
  match LineKind.of l.commentStyle s.mode trimmed with
  | .inBlock text closes => (s.addToBlock text closes, none)
  | .opensBlock text closes => (s.addToBlock text closes, none)
  | .inComment closes => (if closes then { s with mode := .code } else s, none)
  | .documentation text => ({ s with documentation := s.documentation ++ [text] }, none)
  | .comment goesOn => (if goesOn then { s with mode := .comment } else s, none)
  | .blank => (s, none)
  | .decorator => (s, none)
  | .code => codeLine l s line trimmed

/-- The declaration found on a line, with the documentation pending in front of it. -/
def declaration (path : String) (s : Scanner) (number : Nat) (line : List Char) (f : Found) :
    Declaration where
  kind := f.kind
  name := String.ofList f.name
  owner := f.owner.map String.ofList
  location := { file := path, line := number, column := some (indentation line + 1) }
  documentation := String.ofList (joinDocumentation s.documentation)

/-- The declarations of the lines from line `number` on. -/
def declarations (l : Language) (path : String) (s : Scanner) (number : Nat) :
    List (List Char) → List Declaration
  | [] => []
  | line :: lines =>
    let (next, found) := step l s line
    (found.map (declaration path s number line)).toList ++
      declarations l path next (number + 1) lines

end Scanner

/-- Scan a source text for its imports and its documented declarations. -/
def SourceFile.scan (l : Language) (path content : String) : SourceFile where
  path := path
  language := l
  symbols := importsOf l content
  declarations := Scanner.declarations l path {} 1 (lines content.toList)

end DocDirectives
