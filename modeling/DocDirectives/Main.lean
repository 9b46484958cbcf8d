import DocDirectives.Command

/-! # The program

    The command line is answered by a function of a file tree. Here the part of the real files that
    the words of the command line may name is read into such a tree, the answer is printed, and a
    file that the answer has written is written. -/

namespace DocDirectives.Program

/-- The contents of a file that was read as bytes. -/
def contentsOf (bytes : ByteArray) : Contents :=
  match String.fromUTF8? bytes with
  | some s => .text s
  | none => .binary

/-- Add the real file or folder at a path, and what is in it, at a position. -/
partial def addReal (t : FileTree) (path : String) (p : Position) : IO FileTree := do
  let place := (← IO.currentDir) / path
  if ← place.isDir then
    let mut t := { t with folders := p :: t.folders }
    for entry in ← place.readDir do
      t ← addReal t (path ++ "/" ++ entry.fileName) (p ++ [entry.fileName])
    return t
  else if ← place.pathExists then
    return { t with files := (p, contentsOf (← IO.FS.readBinFile place)) :: t.files }
  else return t

/-- Add the folders that lead to a position, and what the last name stands for. -/
def addWord (t : FileTree) (word : String) : IO FileTree := do
  let (origin, parts) := FileTree.start word
  let mut t := t
  let mut p := origin
  let mut path := if origin.isEmpty then "." else "/"
  unless origin.isEmpty do t := { t with folders := origin :: t.folders }
  for part in parts.dropLast do
    p := FileTree.enter p part
    path := path ++ "/" ++ part
    if ← ((← IO.currentDir) / path).isDir then t := { t with folders := p :: t.folders }
  match parts.getLast? with
  | some part => addReal t (path ++ "/" ++ part) (FileTree.enter p part)
  | none => return t

/-- The value of a word that is an option with its value behind `=` or behind its letter. -/
def attachedValues (word : String) : List String :=
  match word.toList with
  | '-' :: '-' :: cs => [String.ofList ((cs.dropWhile (· != '=')).drop 1)]
  | '-' :: _ :: '=' :: cs => [String.ofList cs]
  | '-' :: _ :: cs => [String.ofList cs]
  | _ => [word]

/-- The part of the real files that a command line may be about. -/
def realTree (args : List String) : IO FileTree := do
  let words := "." :: Command.defaultConfigFile :: args.flatMap attachedValues
  let named := if args.head? = some "lint" then words else words.drop 1
  (named.filter (· != "")).foldlM addWord {}

/-- Whether the terminal is to be coloured. -/
def wantsColor : IO Bool := do
  if (← IO.getEnv "NO_COLOR").isSome then return false
  if (← IO.getEnv "CLICOLOR_FORCE").any (· != "0") then return true
  return false

end DocDirectives.Program

open DocDirectives in
/-- Answer the command line. -/
def main (args : List String) : IO UInt32 := do
  let before ← Program.realTree args
  let outcome := Command.answer before (← Program.wantsColor) args
  for (p, contents) in outcome.files.files do
    if let .text s := contents then
      unless before.files.lookup p == some contents do
        IO.FS.writeFile ("/".intercalate p) s
  (← IO.getStdout).putStr outcome.output
  if let some complaint := outcome.complaint then
    (← IO.getStderr).putStrLn complaint
  return UInt32.ofNat outcome.exit
