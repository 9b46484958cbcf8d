import DocDirectives.Number.Integer

/-! # TOML values

    A document is a table. A table remembers how it came to be, because that decides who may still
    add to it: one that a header named is closed to dotted keys, one that dotted keys made is
    closed to headers, and one written in braces is closed to both. -/

namespace DocDirectives.Toml

/-- How a table came to be. -/
inductive Origin where
  /-- It lies on the way to a table that a header named. -/
  | passed
  /-- A header named it. -/
  | named
  /-- Dotted keys made it. -/
  | dotted
  /-- It was written in braces. -/
  | braces
  deriving DecidableEq, Repr

/-- A value. Of floats and moments only the shape matters. -/
inductive Value where
  | string (s : String)
  | integer (i : Int64)
  | float
  | boolean (b : Bool)
  | moment
  | array (items : List Value)
  | table (origin : Origin) (entries : List (String × Value))
  /-- A list of tables, each begun by a header in double brackets. -/
  | tables (items : List (List (String × Value)))

/-- The entries of a table. -/
abbrev Entries := List (String × Value)

namespace Entries

/-- Put an entry in place of the one with its key, or at the end. -/
def put (k : String) (v : Value) : Entries → Entries
  | [] => [(k, v)]
  | (k', v') :: es => if k' = k then (k, v) :: es else (k', v') :: put k v es

/-- Set the value of a dotted key. The tables on the way are made or gone through; the one that
    takes the value must be new or made by dotted keys, and the key must be new in it. -/
def setDotted (es : Entries) (path : List String) (v : Value) : Option Entries :=
  match path with
  | [] => none
  | [k] => if (es.lookup k).isSome then none else some (es ++ [(k, v)])
  | k :: rest =>
    match es.lookup k with
    | none => (setDotted [] rest v).map fun inner => es ++ [(k, .table .dotted inner)]
    | some (.table .dotted inner) =>
      (setDotted inner rest v).map fun inner => put k (.table .dotted inner) es
    | some (.table .passed inner) =>
      if rest.length ≤ 1 then none
      else (setDotted inner rest v).map fun inner => put k (.table .passed inner) es
    | some (.tables items) =>
      if rest.length ≤ 1 then none
      else
        match items.getLast? with
        | none => none
        | some last =>
          (setDotted last rest v).map fun inner => put k (.tables (items.dropLast ++ [inner])) es
    | some _ => none

/-- Change the table that a header named: the last one where there is a list of them. -/
def updateAt (es : Entries) (path : List String) (f : Entries → Option Entries) :
    Option Entries :=
  match path with
  | [] => f es
  | k :: rest =>
    match es.lookup k with
    | none => (updateAt [] rest f).map fun inner => es ++ [(k, .table .passed inner)]
    | some (.table .braces _) => none
    | some (.table origin inner) =>
      (updateAt inner rest f).map fun inner => put k (.table origin inner) es
    | some (.tables items) =>
      match items.getLast? with
      | none => none
      | some last =>
        (updateAt last rest f).map fun inner => put k (.tables (items.dropLast ++ [inner])) es
    | some _ => none

/-- Begin the table of a header. It is new, or has only been passed so far. -/
def begin? (k : String) (es : Entries) : Option Entries :=
  match es.lookup k with
  | none => some (es ++ [(k, .table .named [])])
  | some (.table .passed inner) => some (put k (.table .named inner) es)
  | some _ => none

/-- Begin one more table of a list. -/
def beginNext? (k : String) (es : Entries) : Option Entries :=
  match es.lookup k with
  | none => some (es ++ [(k, .tables [[]])])
  | some (.tables items) => some (put k (.tables (items ++ [[]])) es)
  | some _ => none

end Entries

end DocDirectives.Toml
