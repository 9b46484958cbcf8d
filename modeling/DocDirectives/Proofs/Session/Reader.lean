import DocDirectives.Project
import DocDirectives.Proofs.Session.Outcome

/-! # Reading with a cursor

    A session keeps one cursor for all the comments that it reads. It looks at the lookahead and the
    token behind it, reads a token at a time, and wherever it stops, at the end of the comment or at
    a failure in the middle of a list, there the cursor stays until the next comment is loaded. -/

namespace DocDirectives

namespace Cursor

variable {α : Type}

/-- Read a token of kind `k`, and give its text. -/
def expect (k : Kind) (construct : String) (c : Cursor) : Outcome Mismatch String c :=
  if c.isNext k then ⟨.ok c.advance.2.currentText, c.advance.2, onward_advance c⟩
  else .fail ⟨construct, k.text⟩ c

/-! ### Lists -/

/-- Read items with commas between them, and perhaps one behind the last, up to the closer. -/
def items (closer : Kind) (n : Nat)
    (item : α → (c : Cursor) → c.left < n → Outcome Mismatch α c) (a : α) (c : Cursor)
    (h : c.left < n) : Outcome Mismatch α c :=
  (item a c h).andThen fun a' c₁ h₁ =>
    if hc : c₁.isNext .comma then
      have hlt := Nat.lt_of_lt_of_le (left_advance_of_isNext hc) h₁.left_le
      (if c₁.advance.2.isNext closer then .pure a' c₁.advance.2
        else items closer n item a' c₁.advance.2 (Nat.lt_trans hlt h)).behind (onward_advance c₁)
    else .pure a' c₁
termination_by c.left

/-- Read a list in brackets: the opener, items unless the closer is next, and the closer. -/
def bracketed (opener closer : Kind) (construct : String) (a : α) (c : Cursor)
    (list : (c' : Cursor) → c'.left < c.left → Outcome Mismatch α c') : Outcome Mismatch α c :=
  if h : c.isNext opener then
    ((if c.advance.2.isNext closer then .pure a c.advance.2
      else list c.advance.2 (left_advance_of_isNext h)).andThen fun a' c' _ =>
        (expect closer construct c').map fun _ => a').behind (onward_advance c)
  else .fail ⟨construct, opener.text⟩ c

/-! ### Literals and arguments -/

/-- Kinds of the tokens that are literals by themselves. -/
def isScalar : Kind → Bool
  | .string | .integer | .float | .yes | .no => true
  | _ => false

/-- Read a literal that is one token. A number out of range is read before it fails. -/
def scalar (c : Cursor) : Outcome Mismatch Literal c :=
  match c.nextKind with
  | none => .fail ⟨"literal", "a literal value"⟩ c
  | some k =>
    if isScalar k then
      (expect k "literal" c).andThen fun lexeme c' _ => .ofExcept (Grammar.atom ⟨k, lexeme⟩) c'
    else .fail ⟨"literal", "a literal value"⟩ c

/-- Take the token read last as the key of an entry, and read its colon. -/
def colonKey (c : Cursor) : Outcome Mismatch Key c :=
  match c.currentToken with
  | some t => (expect .colon "array" c).map fun _ => Grammar.keyOf t
  | none => .fail ⟨"array", "an entry key"⟩ c

/-- Read the key of an entry and its colon; the next index, when there is no key. -/
def entryKey (m : LiteralMap) (c : Cursor) : Outcome Mismatch Key c :=
  if c.peekKind = some .colon then (colonKey c.advance.2).behind (onward_advance c)
  else .pure (.index m.nextIndex) c

/-- Read a literal. -/
def literal (c : Cursor) : Outcome Mismatch Literal c :=
  if c.isNext .openBrace then
    (bracketed .openBrace .closeBrace "array" .empty c fun c₁ h₁ =>
      items .closeBrace c.left (fun m c₂ h₂ =>
        (entryKey m c₂).andThen fun k c₃ h₃ =>
          have := Nat.lt_of_le_of_lt h₃.left_le h₂
          (literal c₃).map fun v => m.insert k v) LiteralMap.empty c₁ h₁).map LiteralMap.toLiteral
  else scalar c
termination_by c.left

/-- Read an argument, and its name when it has one. -/
def argument (a : Arguments) (c : Cursor) : Outcome Mismatch Arguments c :=
  if c.peekKind = some .assign then
    ((expect .assign "assignment" c.advance.2).andThen fun _ c' _ =>
      (literal c').map fun v => a.set c.advance.2.currentText v).behind (onward_advance c)
  else (literal c).map fun v => a.push v

/-- Read an argument list, if one is next. -/
def parenthesis (c : Cursor) : Outcome Mismatch (Option Arguments) c :=
  if c.isNext .openParen then
    (bracketed .openParen .closeParen "parenthesis" {} c fun c₁ h₁ =>
      items .closeParen c.left (fun a c₂ _ => argument a c₂) {} c₁ h₁).map some
  else .pure none c

/-! ### Directives -/

/-- Read on to the parenthesis that closes a group that is `depth` deep. -/
def closing {ε : Type} (depth : Nat) (c : Cursor) : Outcome ε Unit c :=
  if h : c.lookahead.isSome then
    have := left_advance_lt h
    (match c.nextKind with
    | some .openParen => closing (depth + 1) c.advance.2
    | some .closeParen =>
      if depth - 1 = 0 then .pure () c.advance.2 else closing (depth - 1) c.advance.2
    | _ => closing depth c.advance.2).behind (onward_advance c)
  else .pure () c
termination_by c.left

/-- Read a group of parentheses, if one is next. -/
def skip {ε : Type} (c : Cursor) : Outcome ε Unit c :=
  if c.isNext .openParen then closing 0 c else .pure () c

/-- Read a directive behind its `@`. An ignored one gives nothing. -/
def directive (site : Site) (ignored : IgnoredNames) (c : Cursor) :
    Outcome Failure (Option Directive) c :=
  (if !c.advance.1 then .fail (site.failure ⟨"directive", "annotation name"⟩) c.advance.2
  else if ignored.contains c.advance.2.currentText then (skip c.advance.2).map fun _ => none
  else
    match site.typeOf? c.advance.2.currentText with
    | none => .fail (.unresolved c.advance.2.currentText site.context) c.advance.2
    | some typeName =>
      ((parenthesis c.advance.2).mapError site.failure).map fun a =>
        some ⟨typeName, site.context, a.getD .placeholder⟩).behind (onward_advance c)

/-- Read the directives of a comment, `ds` being those read before. -/
def comment (site : Site) (ignored : IgnoredNames) (ds : List Directive) (c : Cursor) :
    Outcome Failure (List Directive) c :=
  if h : c.lookahead.isSome then
    have := left_advance_lt h
    (if c.isNext .start then
      (directive site ignored c.advance.2).andThen fun d c' h' =>
        have := h'.left_le
        comment site ignored (ds ++ d.toList) c'
    else comment site ignored ds c.advance.2).behind (onward_advance c)
  else .pure ds c
termination_by c.left

end Cursor

/-! ### Sessions -/

/-- A reader of comments, with the cursor that it keeps. -/
structure Session where
  cursor : Cursor
  ignored : IgnoredNames

namespace Session

/-- A session that has read nothing. -/
def fresh (classifier : Classifier) (ignored : IgnoredNames) : Session := ⟨{ classifier }, ignored⟩

/-- Ignore other names from now on. -/
def setIgnored (s : Session) (ignored : IgnoredNames) : Session := { s with ignored }

/-- Read a comment, and keep the cursor where the reading leaves it. -/
def parse (s : Session) (site : Site) (text : String) :
    Except Failure (List Directive) × Session :=
  let o := (s.cursor.load text).comment site s.ignored []
  (o.result, { s with cursor := o.cursor })

/-- Read the comments of declarations, up to the first that fails. -/
def parseDeclarations (s : Session) (catalog : Catalog) (f : SourceFile) :
    List Declaration → Except Failure (List DeclarationDirectives) × Session
  | [] => (.ok [], s)
  | d :: ds =>
    match s.parse (f.site catalog d) d.documentation with
    | (.error e, s') => (.error e, s')
    | (.ok rs, s') =>
      match s'.parseDeclarations catalog f ds with
      | (.error e, s'') => (.error e, s'')
      | (.ok all, s'') => (.ok (⟨d, rs⟩ :: all), s'')

/-- Read the documented declarations of a file. -/
def parseSource (s : Session) (catalog : Catalog) (f : SourceFile) :
    Except Failure (List DeclarationDirectives) × Session :=
  s.parseDeclarations catalog f f.documented

/-- Read several files, without those that fail. -/
def parseFiles (s : Session) (t : FileTree) (catalog : Catalog) :
    List String → List (String × List DeclarationDirectives) × Session
  | [] => ([], s)
  | path :: paths =>
    match t.scan path with
    | .error _ => s.parseFiles t catalog paths
    | .ok f =>
      match s.parseSource catalog f with
      | (.error _, s') => s'.parseFiles t catalog paths
      | (.ok ds, s') =>
        let (files, s'') := s'.parseFiles t catalog paths
        ((path, ds) :: files, s'')

end Session

end DocDirectives
