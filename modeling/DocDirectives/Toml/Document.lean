import DocDirectives.Toml.Lexical

/-! # TOML documents

    A document is read line by line: an entry goes to the table of the last header, or to the root
    in front of all headers. Each item of an array, each entry of a table in braces and each line of
    the document uses up one unit of fuel, and the length of the text is enough. -/

namespace DocDirectives.Toml

open Text

mutual

/-- Read a value. -/
def value (fuel : Nat) (cs : List Char) : Read Value :=
  match fuel with
  | 0 => none
  | n + 1 =>
    match cs with
    | '"' :: _ => (string? cs).map fun (s, rest) => (.string s, rest)
    | '\'' :: _ => (string? cs).map fun (s, rest) => (.string s, rest)
    | '[' :: rest => (items n (skipTrivia rest)).map fun (vs, rest) => (.array vs, rest)
    | '{' :: rest =>
      match skipWs rest with
      | '}' :: behind => some (.table .braces [], behind)
      | inside => (braces n [] inside).map fun (es, rest) => (.table .braces es, rest)
    | _ => word? cs

/-- Read the items of an array up to and with its closing bracket. -/
def items (fuel : Nat) (cs : List Char) : Read (List Value) :=
  match fuel with
  | 0 => none
  | n + 1 =>
    match cs with
    | ']' :: rest => some ([], rest)
    | _ =>
      match value n cs with
      | none => none
      | some (v, rest) =>
        match skipTrivia rest with
        | ',' :: more => (items n (skipTrivia more)).map fun (vs, rest) => (v :: vs, rest)
        | ']' :: behind => some ([v], behind)
        | _ => none

/-- Read the entries of a table in braces up to and with the closing one, `es` being those read
    before. -/
def braces (fuel : Nat) (es : Entries) (cs : List Char) : Read Entries :=
  match fuel with
  | 0 => none
  | n + 1 =>
    match key? cs with
    | some (path, '=' :: rest) =>
      match value n (skipWs rest) with
      | none => none
      | some (v, rest) =>
        match es.setDotted path v with
        | none => none
        | some es =>
          match skipWs rest with
          | ',' :: more => braces n es more
          | '}' :: behind => some (es, behind)
          | _ => none
    | _ => none

end

/-- Read a header: its path, and whether it begins one more table of a list. -/
def header? (cs : List Char) : Read (List String × Bool) :=
  match cs with
  | '[' :: '[' :: rest =>
    match key? rest with
    | some (path, ']' :: ']' :: behind) => some ((path, true), behind)
    | _ => none
  | '[' :: rest =>
    match key? rest with
    | some (path, ']' :: behind) => some ((path, false), behind)
    | _ => none
  | _ => none

/-- Read an entry. -/
def entry? (cs : List Char) : Read (List String × Value) :=
  match key? cs with
  | some (path, '=' :: rest) =>
    (value (rest.length + 1) (skipWs rest)).map fun (v, rest) => ((path, v), rest)
  | _ => none

/-- Begin the table of a header. -/
def beginTable? (root : Entries) (path : List String) (more : Bool) : Option Entries :=
  match path.getLast? with
  | none => none
  | some last =>
    root.updateAt path.dropLast (if more then Entries.beginNext? last else Entries.begin? last)

/-- Read lines, `here` being the table of the last header. -/
def readLines (fuel : Nat) (root : Entries) (here : List String) (cs : List Char) :
    Option Entries :=
  match fuel with
  | 0 => none
  | n + 1 =>
    match skipWs cs with
    | [] => some root
    | '[' :: rest =>
      match header? ('[' :: rest) with
      | none => none
      | some ((path, more), behind) =>
        match beginTable? root path more, endOfLine? behind with
        | some root, some lines => readLines n root path lines
        | _, _ => none
    | line =>
      match endOfLine? line with
      | some lines => readLines n root here lines
      | none =>
        match entry? line with
        | none => none
        | some ((path, v), behind) =>
          match root.updateAt here (fun es => es.setDotted path v), endOfLine? behind with
          | some root, some lines => readLines n root here lines
          | _, _ => none

/-- The root table of a document. A byte order mark in front is left out. -/
def document? (text : String) : Option Entries :=
  let cs :=
    match text.toList with
    | '\uFEFF' :: rest => rest
    | cs => cs
  readLines (cs.length + 1) [] [] cs

end DocDirectives.Toml
