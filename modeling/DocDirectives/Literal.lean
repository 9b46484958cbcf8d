import DocDirectives.Json

/-! # Literals

    The values that the arguments of a directive denote. A map keeps its entries in the order in
    which their keys were first inserted; inserting a key again replaces the value where it stands.
    `keys_insert` says what an insertion does to the keys, `get?_insert` what it does to the
    values. -/

namespace DocDirectives

open Number (Binary64 Layout Integer.text)

/-- Key of a map entry: a 64-bit index or a name. An index is never equal to a name, even to one
    that is written with the same digits. -/
inductive Key where
  | index (i : Int64)
  | name (s : String)
  deriving DecidableEq

namespace Key

/-- The written form of a key. -/
def chars : Key → List Char
  | index i => Integer.text i.toInt
  | name s => s.toList

def text (k : Key) : String := String.ofList k.chars

end Key

/-- The value of a literal. `null` is the argument of a directive written without parentheses. -/
inductive Literal where
  | null
  | bool (b : Bool)
  | integer (i : Int64)
  | float (x : Binary64)
  | string (s : String)
  | map (entries : List (Key × Literal))

/-- Entries of a map in order of first insertion. -/
structure LiteralMap where
  entries : List (Key × Literal) := []

namespace LiteralMap

def empty : LiteralMap := {}

def keys (m : LiteralMap) : List Key := m.entries.map Prod.fst

def size (m : LiteralMap) : Nat := m.entries.length

def isEmpty (m : LiteralMap) : Bool := m.entries.isEmpty

/-- Set the value of `k`, in place when `k` is there and at the end when it is not. -/
def put (k : Key) (v : Literal) : List (Key × Literal) → List (Key × Literal)
  | [] => [(k, v)]
  | (k', v') :: es => if k' = k then (k', v) :: es else (k', v') :: put k v es

/-- The value of `k` in a list of entries. -/
def find? (k : Key) : List (Key × Literal) → Option Literal
  | [] => none
  | (k', v) :: es => if k' = k then some v else find? k es

/-- Set the value of a key. -/
def insert (m : LiteralMap) (k : Key) (v : Literal) : LiteralMap := ⟨put k v m.entries⟩

/-- The value of a key. -/
def get? (m : LiteralMap) (k : Key) : Option Literal := find? k m.entries

/-- The value of a name; an index written with the same digits is another key. -/
def getNamed? (m : LiteralMap) (n : String) : Option Literal := m.get? (.name n)

/-- The map of a list of entries, inserted in order. -/
def ofList (es : List (Key × Literal)) : LiteralMap :=
  es.foldl (fun m (k, v) => m.insert k v) empty

/-- One past an index, which is where the entries behind it continue. -/
def bound : Key → Int
  | .index i => i.toInt + 1
  | .name _ => 0

/-- Index of an entry written without a key: one past the largest index that is not negative, zero
    when there is none, and no more than the largest 64-bit number. -/
def nextIndex (m : LiteralMap) : Int64 :=
  Int64.ofInt (min Int64.maxValue.toInt ((m.keys.map bound).foldl max 0))

/-- Append a value under the next index. -/
def push (m : LiteralMap) (v : Literal) : LiteralMap := m.insert (.index m.nextIndex) v

/-! ### Laws -/

/-- An insertion adds the key at the end unless it is there already. -/
theorem keys_insert (m : LiteralMap) (k : Key) (v : Literal) :
    (m.insert k v).keys = if k ∈ m.keys then m.keys else m.keys ++ [k] := by
  obtain ⟨es⟩ := m
  simp only [insert, keys]
  induction es with
  | nil => simp [put]
  | cons e es ih =>
    obtain ⟨k', v'⟩ := e
    by_cases h : k' = k
    · simp [put, h]
    · have h' : ¬k = k' := fun e => h e.symm
      simp only [put, h, if_false, List.map_cons, List.mem_cons, h', false_or]
      rw [ih]
      split <;> simp_all

/-- After an insertion the key has the new value, and every other key the value it had. -/
theorem get?_insert (m : LiteralMap) (k k' : Key) (v : Literal) :
    (m.insert k v).get? k' = if k = k' then some v else m.get? k' := by
  obtain ⟨es⟩ := m
  simp only [insert, get?]
  induction es with
  | nil => simp [put, find?]
  | cons e es ih =>
    obtain ⟨k₁, v₁⟩ := e
    by_cases h : k₁ = k
    · subst h
      by_cases h' : k₁ = k' <;> simp [put, find?, h']
    · simp only [put, h, if_false, find?, ih]
      by_cases h' : k₁ = k'
      · subst h'
        simp [Ne.symm h]
      · simp [h']

end LiteralMap

namespace Literal

instance : Inhabited Literal := ⟨null⟩

/-- Numbers from `0.0001` up to sixteen digits before the point are shown positionally, and an
    exponent has a sign only when it is negative. Of two equally near decimals the larger is
    shown. -/
def layout : Layout := { lowest := -3, highest := 16, plus := false, tie := .up }

/-- The text of a float. -/
def floatChars (x : Binary64) : List Char :=
  if x.isNaN then ['N', 'a', 'N']
  else if x.isInfinite then (if x.signBit then ['-'] else []) ++ ['i', 'n', 'f']
  else layout.finite x

mutual

/-- The text of a literal. Strings stand between quotes as they are, nothing in them escaped. -/
def chars : Literal → List Char
  | null => ['n', 'u', 'l', 'l']
  | bool b => if b then ['t', 'r', 'u', 'e'] else ['f', 'a', 'l', 's', 'e']
  | integer i => Integer.text i.toInt
  | float x => floatChars x
  | string s => ['"'] ++ s.toList ++ ['"']
  | map es => ['{'] ++ entriesChars es ++ ['}']

def entriesChars : List (Key × Literal) → List Char
  | [] => []
  | [(k, v)] => k.chars ++ [':', ' '] ++ chars v
  | (k, v) :: es => k.chars ++ [':', ' '] ++ chars v ++ [',', ' '] ++ entriesChars es

end

def text (v : Literal) : String := String.ofList v.chars

mutual

/-- The literal as JSON. A map becomes an object, an index its decimal text. -/
def toJson : Literal → Json
  | null => .null
  | bool b => .bool b
  | integer i => .integer i.toInt
  | float x => .real x
  | string s => .string s
  | map es => .object (entriesJson es)

def entriesJson : List (Key × Literal) → List (String × Json)
  | [] => []
  | (k, v) :: es => (k.text, toJson v) :: entriesJson es

end

end Literal

namespace LiteralMap

/-- The map as a literal. -/
def toLiteral (m : LiteralMap) : Literal := .map m.entries

def toJson (m : LiteralMap) : Json := m.toLiteral.toJson

end LiteralMap

end DocDirectives
