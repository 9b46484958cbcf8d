import DocDirectives.Literal

/-! # Arguments of a directive

    Positional values in source order, and named values in a map. A constructor takes one list: the
    positional values, and behind them the map of named values if there are any. -/

namespace DocDirectives

/-- The arguments of one directive. -/
structure Arguments where
  positional : List Literal := []
  named : LiteralMap := {}

namespace Arguments

/-- The arguments of a directive written without parentheses: a single `null`. -/
def placeholder : Arguments := { positional := [.null] }

/-- Add a positional value. -/
def push (a : Arguments) (v : Literal) : Arguments := { a with positional := a.positional ++ [v] }

/-- Set a named value. -/
def set (a : Arguments) (n : String) (v : Literal) : Arguments :=
  { a with named := a.named.insert (.name n) v }

def isEmpty (a : Arguments) : Bool := a.positional.isEmpty && a.named.isEmpty

/-- The list that a constructor takes. -/
def forConstructor (a : Arguments) : List Literal :=
  if a.named.isEmpty then a.positional else a.positional ++ [a.named.toLiteral]

/-- Whether these are the arguments of a directive without parentheses. -/
def isPlaceholder (a : Arguments) : Bool :=
  match a.positional with
  | [.null] => a.named.isEmpty
  | _ => false

/-- The arguments as they are shown, each named one with its name: nothing for the placeholder. -/
def chars (a : Arguments) : List Char :=
  if a.isPlaceholder then []
  else
    let parts := a.positional.map Literal.chars ++
      a.named.entries.map fun (k, v) => k.chars ++ ['='] ++ v.chars
    ['('] ++ (parts.intersperse [',', ' ']).flatten ++ [')']

def text (a : Arguments) : String := String.ofList a.chars

def toJson (a : Arguments) : Json :=
  .object [("positional", .array (a.positional.map Literal.toJson)), ("named", a.named.toJson)]

end Arguments

/-- A recognised directive: the type it names, the declaration it documents, its arguments. -/
structure Directive where
  name : String
  context : String
  arguments : Arguments

namespace Directive

def toJson (d : Directive) : Json :=
  .object [("name", .string d.name), ("context", .string d.context),
    ("arguments", d.arguments.toJson)]

end Directive

end DocDirectives
