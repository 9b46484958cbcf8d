import DocDirectives.Language
import DocDirectives.Imports.Visibility
import DocDirectives.Symbol
import DocDirectives.Text.Word

/-! # Heads of declarations

    A declaration is recognised by the beginning of its first line: modifiers, a keyword, a name.
    Each language has a record of recognisers, and each recogniser reads the trimmed line from its
    first character. -/

namespace DocDirectives

open Text

/-- Recognisers of one language. -/
structure Heads where
  /-- Keyword and name of a type. -/
  typeHead : List Char → Option (List Char × List Char)
  /-- Keywords of the types whose bodies hold fields. -/
  fieldOwners : List (List Char)
  /-- Name of a function outside a type. -/
  function : List Char → Option (List Char)
  /-- Name of a function inside a type. -/
  method : List Char → Option (List Char)
  /-- Name of a field. -/
  field : List Char → Option (List Char)
  /-- Whether a block begins whose body is read like the file itself. -/
  opensModule : List Char → Bool
  /-- Whether a block of methods for a type begins. -/
  opensImpl : List Char → Bool

namespace Head

/-! ### Pieces -/

/-- What stands behind a keyword and at least one blank. -/
def afterWord? (word : String) (cs : List Char) : Option (List Char) :=
  match after? word.toList cs with
  | some rest => if startsBlank rest then some (trimStart rest) else none
  | none => none

/-- What stands behind the first of some keywords that is there. -/
def afterAnyWord? (words : List String) (cs : List Char) : Option (List Char) :=
  words.findSome? fun w => afterWord? w cs

/-- What stands behind a run of qualifiers; `step?` reads one of them. -/
def dropAll (step? : List Char → Option (List Char)) (cs : List Char) : List Char :=
  match step? cs with
  | some rest => if rest.length < cs.length then dropAll step? rest else cs
  | none => cs
termination_by cs.length

/-- A name of ASCII letters, digits and underscores, and what stands behind it. -/
def asciiName? : List Char → Option (List Char × List Char)
  | c :: cs =>
    if isNameStart c then some (c :: cs.takeWhile isNameChar, cs.dropWhile isNameChar) else none
  | [] => none

/-- A name that goes on over all word characters. -/
def wordName? : List Char → Option (List Char)
  | c :: cs => if isNameStart c then some (c :: cs.takeWhile isWord) else none
  | [] => none

/-- Whether a text is one whole name. -/
def isName : List Char → Bool
  | c :: cs => isNameStart c && cs.all isWord
  | [] => false

/-- Whether a word that was read before `cs` ends there. -/
def endsWord : List Char → Bool
  | c :: _ => !isWord c
  | [] => true

/-- The first of some keywords that is there, with the name behind it. -/
def keywordAndName? (keywords : List String) (name? : List Char → Option (List Char))
    (cs : List Char) : Option (List Char × List Char) :=
  keywords.findSome? fun k => ((afterWord? k cs).bind name?).map fun n => (k.toList, n)

/-! ### Rust -/

/-- Read a head behind the visibility, or in front of it when there is no head behind. -/
def visible {α : Type} (head : List Char → Option α) (cs : List Char) : Option α :=
  ((afterVisibility? cs).bind head).or (head cs)

/-- One qualifier of a function; `extern` may name its calling convention in quotes. -/
def functionQualifier? (cs : List Char) : Option (List Char) :=
  match afterAnyWord? ["default", "const", "async", "unsafe"] cs with
  | some rest => some rest
  | none =>
    match afterWord? "extern" cs with
    | some ('"' :: rest) =>
      match cut? ['"'] rest with
      | some (_, behind) => if startsBlank behind then some (trimStart behind) else none
      | none => none
    | other => other

def rustFunction : List Char → Option (List Char) :=
  visible fun cs =>
    ((afterWord? "fn" (dropAll functionQualifier? cs)).bind asciiName?).map Prod.fst

/-- A field has one colon behind its name; two would make it a path. -/
def rustField : List Char → Option (List Char) :=
  visible fun cs =>
    match asciiName? cs with
    | none => none
    | some (name, rest) =>
      match trimStart rest with
      | [':'] => some name
      | ':' :: c :: _ => if c = ':' then none else some name
      | _ => none

def rustModule (cs : List Char) : Bool :=
  (visible (fun cs =>
    match (afterWord? "mod" cs).bind asciiName? with
    | some (_, rest) => (after? ['{'] (trimStart rest)).map fun _ => ()
    | none => none) cs).isSome

def rustImpl (cs : List Char) : Bool :=
  match after? "impl".toList ((afterWord? "unsafe" cs).getD cs) with
  | some rest => endsWord rest
  | none => false

/-- What stands behind a list of generic parameters, `depth` angle brackets being open. A list that
    is never closed takes everything. -/
def afterAngles (depth : Nat) : List Char → List Char
  | [] => []
  | c :: cs =>
    if c = '<' then afterAngles (depth + 1) cs
    else if c = '>' then if depth ≤ 1 then cs else afterAngles (depth - 1) cs
    else afterAngles depth cs

/-- The type to which an `impl` block adds methods: in `impl<G> Trait for path::Name<A> where …` the
    last segment of the path behind `for`, without generic arguments. -/
def implTarget? (line : List Char) : Option (List Char) :=
  match after? "impl".toList (trimStart (dropLeads "unsafe".toList line)) with
  | none => none
  | some rest =>
    let rest := if startsWith ['<'] rest then afterAngles 0 rest else rest
    let header := before " where ".toList (before ['{'] rest)
    let target :=
      match cut? " for ".toList header with
      | some (_, behind) => behind
      | none => header
    let path := (dropLeads ['&'] (trim target)).takeWhile fun c => c ≠ '<' ∧ !isBlank c
    let name := lastSegment path
    if name.isEmpty then none else some name

def rust : Heads where
  typeHead :=
    visible (keywordAndName? ["struct", "enum", "trait", "union", "type"]
      fun cs => (asciiName? cs).map Prod.fst)
  fieldOwners := ["struct".toList, "union".toList]
  function := rustFunction
  method := rustFunction
  field := rustField
  opensModule := rustModule
  opensImpl := rustImpl

/-! ### Java -/

def javaModifiers : List String :=
  ["public", "protected", "private", "static", "abstract", "final", "sealed", "non-sealed",
    "strictfp"]

/-- Words in front of a parenthesis that are no method names. -/
def javaReserved : List String :=
  ["if", "for", "while", "switch", "catch", "synchronized", "return", "new", "throw", "else", "do",
    "try"]

/-- A character of a written type. -/
def isTypeChar (c : Char) : Bool :=
  isWord c || c == '.' || c == '<' || c == '>' || c == '[' || c == ']' || c == ',' || c == '?'

/-- The last of a row of written types and modifiers, when it is a name in front of an opening
    parenthesis. -/
def callName? (cs : List Char) : Option (List Char) :=
  let word := cs.takeWhile isTypeChar
  let rest := cs.dropWhile isTypeChar
  let behind := trimStart rest
  if isName word && startsWith ['('] behind then some word
  else if _ : !word.isEmpty ∧ startsBlank rest then callName? behind
  else none
termination_by cs.length
decreasing_by
  rename_i h
  have hlen : word.length + rest.length = cs.length := by
    rw [← List.length_append]
    exact congrArg List.length List.takeWhile_append_dropWhile
  have hpos : word.length ≠ 0 := fun h0 => by
    have := List.length_eq_zero_iff.1 h0
    simp_all
  have := (List.dropWhile_sublist isBlank (l := rest)).length_le
  show (List.dropWhile isBlank rest).length < cs.length
  omega

def javaMethod (cs : List Char) : Option (List Char) :=
  (callName? cs).filter fun name => !javaReserved.contains (String.ofList name)

/-- A field is a name behind a written type, in front of `=` or `;`. -/
def javaField (cs : List Char) : Option (List Char) :=
  let inLine := fun c => isTypeChar c || isBlank c
  let front := trimEnd (cs.takeWhile inLine)
  let name := (front.reverse.takeWhile fun c => !isBlank c).reverse
  match cs.dropWhile inLine with
  | c :: _ =>
    if (c = '=' ∨ c = ';') ∧ isName name ∧ name.length + 2 ≤ front.length then some name else none
  | [] => none

def java : Heads where
  typeHead := fun cs =>
    keywordAndName? ["class", "interface", "enum", "record", "@interface"]
      (fun cs => (asciiName? cs).map Prod.fst) (dropAll (afterAnyWord? javaModifiers) cs)
  fieldOwners := ["class".toList]
  function := fun _ => none
  method := javaMethod
  field := javaField
  opensModule := fun _ => false
  opensImpl := fun _ => false

/-! ### PHP -/

def phpFunction (cs : List Char) : Option (List Char) :=
  let modifiers := ["public", "protected", "private", "static", "abstract", "final"]
  match afterWord? "function" (dropAll (afterAnyWord? modifiers) cs) with
  | some ('&' :: rest) => wordName? rest
  | some rest => wordName? rest
  | none => none

/-- The variable behind a dollar sign. -/
def dollarName? : List Char → Option (List Char)
  | '$' :: cs => wordName? cs
  | _ => none

/-- What stands behind a written type and blanks. -/
def afterPhpType? (cs : List Char) : Option (List Char) :=
  let isPart := fun c => isWord c || c == '\\' || c == '|'
  let cs := (after? ['?'] cs).getD cs
  let rest := cs.dropWhile isPart
  if !(cs.takeWhile isPart).isEmpty && startsBlank rest then some (trimStart rest) else none

/-- A field is a variable behind at least one modifier and perhaps a type. -/
def phpField (cs : List Char) : Option (List Char) :=
  let modifier? := afterAnyWord? ["public", "protected", "private", "static", "readonly", "var"]
  match modifier? cs with
  | none => none
  | some rest =>
    let rest := dropAll modifier? rest
    ((afterPhpType? rest).bind dollarName?).or (dollarName? rest)

def phpModule (cs : List Char) : Bool :=
  match after? "namespace".toList cs with
  | some rest => endsWord rest && (rest.takeWhile (· != ';')).contains '{'
  | none => false

def php : Heads where
  typeHead := fun cs =>
    keywordAndName? ["class", "interface", "trait", "enum"] wordName?
      (dropAll (afterAnyWord? ["abstract", "final", "readonly"]) cs)
  fieldOwners := ["class".toList, "trait".toList]
  function := phpFunction
  method := phpFunction
  field := phpField
  opensModule := phpModule
  opensImpl := fun _ => false

/-! ### Python -/

def pythonFunction (cs : List Char) : Option (List Char) :=
  (afterWord? "def" ((afterWord? "async" cs).getD cs)).bind wordName?

def python : Heads where
  typeHead := keywordAndName? ["class"] wordName?
  fieldOwners := []
  function := pythonFunction
  method := pythonFunction
  field := fun _ => none
  opensModule := fun _ => false
  opensImpl := fun _ => false

end Head

/-- The recognisers of a language. -/
def Language.heads : Language → Heads
  | .rust => Head.rust
  | .python => Head.python
  | .java => Head.java
  | .php => Head.php

end DocDirectives
