import DocDirectives.Failure
import DocDirectives.Text.Slice

/-! # File trees

    The folders and files that a program can see, as a value. Every file and folder has one
    position, the list of names that leads to it; the empty position is the folder where the
    program was started. A path is followed part by part, so that each part but the last has to be
    a folder; a part `..` that has nothing to cancel stays in the position. -/

namespace DocDirectives

/-- What a file holds: text, or bytes that are no UTF-8. -/
inductive Contents where
  | text (s : String)
  | binary
  deriving DecidableEq, Repr

/-- The names that lead to a file or folder. -/
abbrev Position := List String

/-- A tree of folders and files. -/
structure FileTree where
  folders : List Position := []
  files : List (Position × Contents) := []

/-- What stands at a position. -/
inductive FileNode where
  | folder
  | file (contents : Contents)
  deriving DecidableEq, Repr

namespace FileTree

/-- Whether a position is a folder whatever else there is: the start, a folder above it, or the
    root of all. -/
def isOuter (p : Position) : Bool := p = ["/"] || p.all (· == "..")

/-- What stands at a position. -/
def at? (t : FileTree) (p : Position) : Option FileNode :=
  match t.files.lookup p with
  | some c => some (.file c)
  | none => if isOuter p || t.folders.contains p then some .folder else none

/-- One part further. Above the root is the root. -/
def enter (p : Position) (part : String) : Position :=
  if part = "" ∨ part = "." then p
  else if part = ".." then
    if p = ["/"] then p else if isOuter p then p ++ [".."] else p.dropLast
  else p ++ [part]

/-- Follow the parts of a path from a position; each is entered from a folder. -/
def follow (t : FileTree) (p : Position) : List String → Except FileTrouble Position
  | [] => .ok p
  | part :: parts =>
    match t.at? p with
    | some .folder => follow t (enter p part) parts
    | some (.file _) => .error .notFolder
    | none => .error .missing

/-- The parts of a path, and the position that it starts from. -/
def start (path : String) : Position × List String :=
  let parts := (Text.splitOn '/' path.toList).map String.ofList
  if path.startsWith "/" then (["/"], parts) else ([], parts)

/-- The position of a path, whether or not there is something at it. -/
def locate (t : FileTree) (path : String) : Except FileTrouble Position :=
  if path = "" then .error .missing
  else
    let (origin, parts) := start path
    t.follow origin parts

/-- What stands at a path. -/
def find (t : FileTree) (path : String) : Except FileTrouble FileNode :=
  match t.locate path with
  | .error e => .error e
  | .ok p =>
    match t.at? p with
    | some node => .ok node
    | none => .error .missing

def isFile (t : FileTree) (path : String) : Bool :=
  match t.find path with
  | .ok (.file _) => true
  | _ => false

def isFolder (t : FileTree) (path : String) : Bool :=
  match t.find path with
  | .ok .folder => true
  | _ => false

/-- Whether there is a file or a folder at a path. -/
def has (t : FileTree) (path : String) : Bool :=
  match t.find path with
  | .ok _ => true
  | .error _ => false

/-- The text of a file. -/
def readText (t : FileTree) (path : String) : Except FileTrouble String :=
  match t.find path with
  | .error e => .error e
  | .ok .folder => .error .isFolder
  | .ok (.file .binary) => .error .notText
  | .ok (.file (.text s)) => .ok s

/-- The position at which a file would be written. A path that ends in `/` names a folder, whatever
    stands there. -/
def writable (t : FileTree) (path : String) : Except FileTrouble Position :=
  let name := String.ofList (Text.dropTails ['/'] path.toList)
  if name = "" ∧ path ≠ "" then .error .isFolder
  else
    match t.locate name with
    | .error e => .error e
    | .ok p =>
      if name ≠ path then .error .isFolder
      else
        match t.at? p with
        | some .folder => .error .isFolder
        | _ => .ok p

/-- Write a file, new or in place of the one that is there. -/
def write (t : FileTree) (path content : String) : Except FileTrouble FileTree :=
  (t.writable path).map fun p =>
    { t with files := (p, .text content) :: t.files.filter fun f => f.1 ≠ p }

/-! ### Walking -/

/-- Order of positions: by the first name that differs, a folder before what is in it. -/
def before : Position → Position → Bool
  | [], _ => true
  | _ :: _, [] => false
  | a :: p, b :: q => if a = b then before p q else decide (a < b)

/-- The names behind a position, downwards. -/
def below? (p q : Position) : Option Position :=
  match p.isPrefixOf? q with
  | some (name :: names) => if name = ".." ∨ name = "/" then none else some (name :: names)
  | _ => none

/-- A path further down. -/
def join (path : String) (below : Position) : String :=
  path ++ (if path.endsWith "/" then "" else "/") ++ "/".intercalate below

/-- The paths of all files at and below a path, folder by folder, in the order of their names. -/
def walk (t : FileTree) (path : String) : List String :=
  match t.locate path with
  | .error _ => []
  | .ok p =>
    match t.at? p with
    | some (.file _) => [path]
    | some .folder =>
      ((t.files.filterMap fun f => below? p f.1).mergeSort before).map (join path)
    | none => []

end FileTree

end DocDirectives
