import DocDirectives.Language
import DocDirectives.Imports.UseTree
import DocDirectives.Imports.Visibility

/-! # Imports of a source file

    An import statement begins in the first column of a line and goes on until it is complete: up
    to a semicolon, or in Python until no parenthesis and no backslash holds it open. Lines of one
    statement are joined by a space. Each statement gives the symbols that it imports by name. -/

namespace DocDirectives

open Text

namespace ImportStatement

/-- Whether a line begins an import statement. -/
def beginsAt (l : Language) (line : List Char) : Bool :=
  match l with
  | .rust => startsWith "use ".toList ((afterVisibility? line).getD line)
  | .php => startsWith "use ".toList line
  | .java => startsWith "import ".toList line
  | .python => startsWith "import ".toList line || startsWith "from ".toList line

/-- Whether a statement needs no further line. -/
def isComplete (l : Language) (statement : List Char) : Bool :=
  match l with
  | .python => statement.count '(' ≤ statement.count ')' && statement.getLast? != some '\\'
  | _ => statement.contains ';'

/-- The statements in a list of lines, `held` being one that is not complete yet. What is held at
    the end is dropped. -/
def collect (l : Language) (held : Option (List Char)) : List (List Char) → List (List Char)
  | [] => []
  | line :: lines =>
    match held with
    | some front =>
      let statement := front ++ ' ' :: trim line
      if isComplete l statement then statement :: collect l none lines
      else collect l (some statement) lines
    | none =>
      let statement := trimEnd line
      if startsBlank line || !beginsAt l statement then collect l none lines
      else if isComplete l statement then statement :: collect l none lines
      else collect l (some statement) lines

/-- The text in front of the first semicolon, trimmed. -/
def body (cs : List Char) : List Char := trim (before [';'] cs)

/-- Symbols of `use …;` with an optional visibility. -/
def rustSymbols (statement : List Char) : List Symbol :=
  match after? "use ".toList ((afterVisibility? statement).getD statement) with
  | some rest => UseTree.symbolsOfList [':', ':'] (body rest)
  | none => []

/-- Symbols of `use …;` where functions and constants are no types. -/
def phpSymbols (statement : List Char) : List Symbol :=
  match after? "use ".toList statement with
  | some rest =>
    let rest := trimStart rest
    if startsWith "function ".toList rest || startsWith "const ".toList rest then []
    else UseTree.symbolsOfList ['\\'] (body rest)
  | none => []

/-- The symbol of `import a.b.C;` or `import static a.b.C.member;`. -/
def javaSymbols (statement : List Char) : List Symbol :=
  match after? "import ".toList statement with
  | some rest =>
    let rest := trimStart rest
    let path := body ((after? "static ".toList rest).getD rest)
    if path.isEmpty || endsWith ['.', '*'] path then [] else [.plain (String.ofList path)]
  | none => []

/-- A name of a module: nothing for a star, and no second point behind a relative module. -/
def memberSymbol? (source part : List Char) : Option Symbol :=
  let (name, newName) := UseTree.splitAlias part
  if name = ['*'] then none
  else
    let full := if source.getLast? = some '.' then source ++ name else source ++ ['.'] ++ name
    some (Symbol.ofImport (String.ofList full) (newName.map String.ofList))

/-- A module, perhaps under another name. -/
def moduleSymbol (part : List Char) : Symbol :=
  let (path, newName) := UseTree.splitAlias part
  Symbol.ofImport (String.ofList path) (newName.map String.ofList)

/-- Symbols of `import a.b as c, d` or `from a.b import C, D as E`. Parentheses and backslashes are
    layout, and a hash sign begins a comment. -/
def pythonSymbols (statement : List Char) : List Symbol :=
  let clean := trim (before ['#'] (statement.filter fun c => c ≠ '(' ∧ c ≠ ')' ∧ c ≠ '\\'))
  match after? "import ".toList clean with
  | some names => (UseTree.splitTopLevel names).map moduleSymbol
  | none =>
    match after? "from ".toList clean with
    | none => []
    | some rest =>
      match cut? " import ".toList rest with
      | none => []
      | some (source, names) =>
        (UseTree.splitTopLevel names).filterMap (memberSymbol? (trim source))

/-- The symbols that a statement imports. -/
def symbols (l : Language) (statement : List Char) : List Symbol :=
  match l with
  | .rust => rustSymbols statement
  | .php => phpSymbols statement
  | .java => javaSymbols statement
  | .python => pythonSymbols statement

end ImportStatement

/-- The imports of a source text. -/
def importsOf (l : Language) (content : String) : SymbolTable :=
  (ImportStatement.collect l none (lines content.toList)).flatMap (ImportStatement.symbols l)

end DocDirectives
