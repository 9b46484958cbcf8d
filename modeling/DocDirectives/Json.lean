import DocDirectives.Number.Shortest

/-! # JSON text

    A JSON value whose object members keep the order in which they were put, repeated names
    included, and its two written forms: one line without spaces, or one member a line indented by
    two spaces. -/

namespace DocDirectives

open Number (Binary64 Layout Integer.text)

/-- A JSON value. -/
inductive Json where
  | null
  | bool (b : Bool)
  | integer (i : Int)
  | real (x : Binary64)
  | string (s : String)
  | array (items : List Json)
  | object (members : List (String × Json))

namespace Json

instance : Inhabited Json := ⟨null⟩

/-- Numbers from `0.00001` up to sixteen digits before the point are written positionally, and an
    exponent has a sign. Of two equally near decimals the one with an even last digit is written. -/
def layout : Layout := { lowest := -4, highest := 16, plus := true, tie := .toEven }

/-- Two lowercase hexadecimal digits. -/
def hexPair (n : Nat) : List Char := [Nat.digitChar (n / 16), Nat.digitChar (n % 16)]

/-- One character inside a JSON string. Control characters are escaped, all others but the quote
    and the backslash stand for themselves. -/
def escapeChar (c : Char) : List Char :=
  match c with
  | '"' => ['\\', '"']
  | '\\' => ['\\', '\\']
  | '\n' => ['\\', 'n']
  | '\r' => ['\\', 'r']
  | '\t' => ['\\', 't']
  | '\x08' => ['\\', 'b']
  | '\x0c' => ['\\', 'f']
  | c => if c.toNat < 0x20 then ['\\', 'u', '0', '0'] ++ hexPair c.toNat else [c]

/-- A JSON string literal. -/
def quote (s : String) : List Char := ['"'] ++ s.toList.flatMap escapeChar ++ ['"']

/-- The text of a real: there is no JSON number for infinity and NaN. -/
def realText (x : Binary64) : List Char :=
  if x.isNaN || x.isInfinite then "null".toList else layout.finite x

/-- The text of a value that holds no other value. -/
def leaf : Json → List Char
  | null => "null".toList
  | bool b => (if b then "true" else "false").toList
  | integer i => Integer.text i
  | real x => realText x
  | string s => quote s
  | array _ => ['[', ']']
  | object _ => ['{', '}']

/-! ### On one line -/

mutual

def compactChars : Json → List Char
  | array items => ['['] ++ compactItems items ++ [']']
  | object members => ['{'] ++ compactMembers members ++ ['}']
  | value => leaf value

def compactItems : List Json → List Char
  | [] => []
  | [item] => compactChars item
  | item :: items => compactChars item ++ [','] ++ compactItems items

def compactMembers : List (String × Json) → List Char
  | [] => []
  | [(name, value)] => quote name ++ [':'] ++ compactChars value
  | (name, value) :: members =>
    quote name ++ [':'] ++ compactChars value ++ [','] ++ compactMembers members

end

/-! ### Indented -/

/-- A line break and the indentation of nesting depth `depth`. -/
def freshLine (depth : Nat) : List Char := '\n' :: List.replicate (2 * depth) ' '

mutual

def prettyChars (depth : Nat) : Json → List Char
  | array (item :: items) =>
    ['['] ++ prettyItems (depth + 1) (item :: items) ++ freshLine depth ++ [']']
  | object (member :: members) =>
    ['{'] ++ prettyMembers (depth + 1) (member :: members) ++ freshLine depth ++ ['}']
  | value => leaf value

def prettyItems (depth : Nat) : List Json → List Char
  | [] => []
  | [item] => freshLine depth ++ prettyChars depth item
  | item :: items =>
    freshLine depth ++ prettyChars depth item ++ [','] ++ prettyItems depth items

def prettyMembers (depth : Nat) : List (String × Json) → List Char
  | [] => []
  | [(name, value)] => freshLine depth ++ quote name ++ [':', ' '] ++ prettyChars depth value
  | (name, value) :: members =>
    freshLine depth ++ quote name ++ [':', ' '] ++ prettyChars depth value ++ [','] ++
      prettyMembers depth members

end

/-- The value on one line. -/
def compact (value : Json) : String := String.ofList (compactChars value)

/-- The value with one member a line. -/
def pretty (value : Json) : String := String.ofList (prettyChars 0 value)

/-- A text or `null`. -/
def ofString? : Option String → Json
  | some s => string s
  | none => null

/-- A count. -/
def ofNat (n : Nat) : Json := integer n

end Json

end DocDirectives
