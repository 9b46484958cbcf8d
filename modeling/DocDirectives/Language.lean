import DocDirectives.Text.Slice

/-! # Languages

    The languages whose sources are scanned, and what distinguishes them: the names of their files,
    the separator of their qualified names, and the marks of their comments. -/

namespace DocDirectives

/-- A scanned language. -/
inductive Language where
  | rust
  | python
  | java
  | php
  deriving DecidableEq, Repr

/-- Marks of documentation, plain comments and attributes, each at the beginning of a line. -/
structure CommentStyle where
  /-- Begins a line of documentation. -/
  docLine : List (List Char)
  /-- Begins a line that looks like documentation and is none. -/
  notDocLine : List (List Char)
  /-- Opening and closing mark of a documentation block. -/
  docBlock : Option (List Char × List Char)
  /-- Decorates a line inside a documentation block. -/
  blockLine : Option (List Char)
  /-- Begins a plain comment. -/
  plain : List (List Char)
  /-- Begins an attribute or a decorator, which may stand between documentation and its
      declaration. -/
  decorator : List (List Char)

namespace Language

/-- Every language, in the order in which file names are tried. -/
def all : List Language := [rust, python, java, php]

def name : Language → String
  | rust => "rust"
  | python => "python"
  | java => "java"
  | php => "php"

/-- Extensions of the files of a language. -/
def extensions : Language → List String
  | rust => ["rs"]
  | python => ["py", "pyi"]
  | java => ["java"]
  | php => ["php"]

/-- Separator of qualified names in imports. -/
def separator : Language → List Char
  | rust => [':', ':']
  | python => ['.']
  | java => ['.']
  | php => ['\\']

/-- Whether blocks stand between braces; otherwise they are indented. -/
def usesBraces : Language → Bool
  | python => false
  | _ => true

/-- `/**` and `*/`. -/
def starBlock : Option (List Char × List Char) := some (['/', '*', '*'], ['*', '/'])

def commentStyle : Language → CommentStyle
  | rust =>
    { docLine := [['/', '/', '/']]
      notDocLine := [['/', '/', '/', '/']]
      docBlock := starBlock
      blockLine := some ['*']
      plain := [['/', '/'], ['/', '*']]
      decorator := [['#', '[']] }
  | python =>
    { docLine := [['#']]
      notDocLine := [['#', '!']]
      docBlock := none
      blockLine := none
      plain := []
      decorator := [['@']] }
  | java =>
    { docLine := []
      notDocLine := []
      docBlock := starBlock
      blockLine := some ['*']
      plain := [['/', '/'], ['/', '*']]
      decorator := [['@']] }
  | php =>
    { docLine := []
      notDocLine := []
      docBlock := starBlock
      blockLine := some ['*']
      plain := [['/', '/'], ['/', '*'], ['#']]
      decorator := [['#', '[']] }

end Language

/-! ### File names -/

namespace FileName

/-- The parts of a path between slashes; empty parts and parts that stay in place are left out. -/
def parts (path : List Char) : List (List Char) :=
  (Text.splitOn '/' path).filter fun p => !p.isEmpty && p ≠ ['.']

/-- What follows the last point of a file name, unless the name begins with that point. -/
def extension? (name : List Char) : Option (List Char) :=
  match name.reverse.span (· != '.') with
  | (_, []) => none
  | (_, [_]) => none
  | (tail, _) => some tail.reverse

end FileName

namespace Language

/-- The language of a file, by the extension of its name. Case counts. -/
def ofPath? (path : String) : Option Language :=
  match (FileName.parts path.toList).getLast? with
  | none => none
  | some file =>
    if file = ['.', '.'] then none
    else
      match FileName.extension? file with
      | none => none
      | some ext => all.find? fun l => l.extensions.contains (String.ofList ext)

end Language

end DocDirectives
