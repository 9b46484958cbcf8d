import DocDirectives.Toml.Value

/-! # Writing TOML

    A string is written in the plainest form that holds it: in double quotes when nothing in it has
    to be escaped, else in single quotes, else in three double or three single quotes, else in
    double quotes with escapes. A list of two or more items has one item a line. -/

namespace DocDirectives.Toml

/-- What decides the form of a string. -/
structure Shape where
  /-- Length of the longest run of single quotes. -/
  singles : Nat
  /-- Length of the longest run of double quotes. -/
  doubles : Nat
  /-- Whether a control character other than the tab and the line feed occurs. -/
  control : Bool
  backslash : Bool
  lineFeed : Bool

/-- Length of the longest run of a character, `run` being the length of the one that `cs` goes on
    with. -/
def longestRun (c : Char) (run : Nat) : List Char → Nat
  | [] => run
  | d :: cs => if d = c then longestRun c (run + 1) cs else max run (longestRun c 0 cs)

def isControl (c : Char) : Bool := c.toNat < 0x20 || c.toNat == 0x7F

namespace Shape

def of (cs : List Char) : Shape where
  singles := longestRun '\'' 0 cs
  doubles := longestRun '"' 0 cs
  control := cs.any fun c => isControl c && c != '\t' && c != '\n'
  backslash := cs.contains '\\'
  lineFeed := cs.contains '\n'

end Shape

/-- Four hexadecimal digits. -/
def hexDigits (n : Nat) : List Char :=
  let digit := fun k => (Nat.digitChar (n / Nat.pow 16 k % 16)).toUpper
  [digit 3, digit 2, digit 1, digit 0]

/-- A string between double quotes, where `most` double quotes in a row need no escape and `lines`
    says whether a line feed stands for itself; `run` double quotes stand in front. -/
def escaped (most : Nat) (lines : Bool) (run : Nat) : List Char → List Char
  | [] => []
  | c :: cs =>
    match c with
    | '"' =>
      if most < run + 1 then ['\\', '"'] ++ escaped most lines 0 cs
      else '"' :: escaped most lines (run + 1) cs
    | '\\' => ['\\', '\\'] ++ escaped most lines 0 cs
    | '\x08' => ['\\', 'b'] ++ escaped most lines 0 cs
    | '\t' => ['\\', 't'] ++ escaped most lines 0 cs
    | '\n' => (if lines then ['\n'] else ['\\', 'n']) ++ escaped most lines 0 cs
    | '\x0c' => ['\\', 'f'] ++ escaped most lines 0 cs
    | '\r' => ['\\', 'r'] ++ escaped most lines 0 cs
    | c =>
      (if isControl c then ['\\', 'u'] ++ hexDigits c.toNat else [c]) ++ escaped most lines 0 cs

/-- A string as it is written. -/
def writeString (s : String) : List Char :=
  let cs := s.toList
  let shape := Shape.of cs
  let fresh := if shape.lineFeed then ['\n'] else []
  let triple := fun c : Char => [c, c, c]
  if !shape.control && !shape.backslash && shape.doubles = 0 && !shape.lineFeed then
    ['"'] ++ escaped 0 false 0 cs ++ ['"']
  else if !shape.control && shape.singles = 0 && !shape.lineFeed then ['\''] ++ cs ++ ['\'']
  else if !shape.control && !shape.backslash && shape.doubles ≤ 2 then
    triple '"' ++ fresh ++ escaped 2 true 0 cs ++ triple '"'
  else if !shape.control && shape.singles ≤ 2 then
    triple '\'' ++ fresh ++ cs ++ triple '\''
  else if shape.lineFeed then triple '"' ++ fresh ++ escaped 2 true 0 cs ++ triple '"'
  else ['"'] ++ escaped 0 false 0 cs ++ ['"']

/-- A list of strings: on one line when there is at most one. -/
def writeStrings : List String → List Char
  | [] => ['[', ']']
  | [s] => ['['] ++ writeString s ++ [']']
  | ss =>
    ['[', '\n'] ++ (ss.flatMap fun s => "    ".toList ++ writeString s ++ [',', '\n']) ++ [']']

def writeBool (b : Bool) : List Char := (if b then "true" else "false").toList

/-- An entry on a line. -/
def writeEntry (key : String) (value : List Char) : List Char :=
  key.toList ++ " = ".toList ++ value ++ ['\n']

/-- A table with its header. -/
def writeTable (name : String) (entries : List (List Char)) : List Char :=
  ['['] ++ name.toList ++ [']', '\n'] ++ entries.flatten

end DocDirectives.Toml
