import DocDirectives.Arguments
import DocDirectives.Token

/-! # Grammar of arguments

    Literals and argument lists, read from the front of a token list:

        Arguments := '(' [ Value (',' Value)* [','] ] ')'
        Value     := key '=' Literal | Literal
        Literal   := string | integer | float | 'true' | 'false' | Array
        Array     := '{' [ Entry (',' Entry)* [','] ] '}'
        Entry     := [ key ':' ] Literal

    A key is any one token: what makes a value an assignment, or an entry keyed, is its second
    token. Every reader hands back the tokens behind what it read, with the proof that they are
    fewer, and by that measure the readers end. -/

namespace DocDirectives

open Number (Binary64)

/-- Why a token list is not in the grammar: in reading `construct`, `expected` had to be next. -/
structure Mismatch where
  construct : String
  expected : String
  deriving DecidableEq, Repr

/-- What was read from the front of `ts`, and the fewer tokens behind it. -/
structure Parsed (α : Type) (ts : List Token) where
  value : α
  rest : List Token
  shorter : rest.length < ts.length

namespace Parsed

/-- The same result, read from a longer list. -/
def widen {α : Type} {ts us : List Token} (p : Parsed α ts) (h : ts.length ≤ us.length) :
    Parsed α us := ⟨p.value, p.rest, Nat.lt_of_lt_of_le p.shorter h⟩

/-- Another value with the same tokens behind it. -/
def map {α β : Type} {ts : List Token} (f : α → β) (p : Parsed α ts) : Parsed β ts :=
  ⟨f p.value, p.rest, p.shorter⟩

end Parsed

namespace Grammar

/-- Whether the first token is of kind `k`. -/
def isNext (k : Kind) : List Token → Bool
  | t :: _ => t.kind == k
  | [] => false

theorem length_tail_lt {k : Kind} {ts : List Token} (h : isNext k ts = true) :
    ts.tail.length < ts.length := by
  cases ts with
  | nil => cases h
  | cons t ts => exact Nat.lt_succ_self _

/-! ### Text of literals -/

/-- A lexeme without the quotes around it; a lexeme without two quotes stays as it is. What is
    between the quotes is taken as it is, doubled quotes included. -/
def unquote (lexeme : String) : String :=
  match lexeme.toList with
  | '"' :: cs => if cs.getLast? = some '"' then String.ofList cs.dropLast else lexeme
  | _ => lexeme

/-- Key written by a token in front of a colon: an index when it is an integer in range, otherwise
    the name it spells. -/
def keyOf (t : Token) : Key :=
  match t.kind with
  | .integer =>
    match Number.Integer.ofText? t.text.toList with
    | some i => .index i
    | none => .name t.text
  | .string => .name (unquote t.text)
  | _ => .name t.text

/-- Key of the next entry and the tokens of its literal. -/
def entryKey (m : LiteralMap) : List Token → Key × List Token
  | k :: c :: rest =>
    if c.kind = .colon then (keyOf k, rest) else (.index m.nextIndex, k :: c :: rest)
  | ts => (.index m.nextIndex, ts)

theorem length_entryKey_le (m : LiteralMap) (ts : List Token) :
    (entryKey m ts).2.length ≤ ts.length := by
  unfold entryKey
  split
  · split
    · exact Nat.le_of_lt (Nat.lt_succ_of_lt (Nat.lt_succ_self _))
    · exact Nat.le_refl _
  · exact Nat.le_refl _

/-- Name of the next argument, when it has one, and the tokens of its literal. -/
def argumentName : List Token → Option String × List Token
  | k :: a :: rest => if a.kind = .assign then (some k.text, rest) else (none, k :: a :: rest)
  | ts => (none, ts)

theorem length_argumentName_le (ts : List Token) : (argumentName ts).2.length ≤ ts.length := by
  unfold argumentName
  split
  · split
    · exact Nat.le_of_lt (Nat.lt_succ_of_lt (Nat.lt_succ_self _))
    · exact Nat.le_refl _
  · exact Nat.le_refl _

/-! ### Literals -/

/-- The value of a token that is a literal by itself. -/
def atom (t : Token) : Except Mismatch Literal :=
  match t.kind with
  | .string => .ok (.string (unquote t.text))
  | .integer =>
    match Number.Integer.ofText? t.text.toList with
    | some i => .ok (.integer i)
    | none => .error ⟨"literal", "an integer within the 64-bit signed range"⟩
  | .float =>
    match Binary64.ofText? t.text.toList with
    | some x => .ok (.float x)
    | none => .error ⟨"literal", "a float"⟩
  | .yes => .ok (.bool true)
  | .no => .ok (.bool false)
  | _ => .error ⟨"literal", "a literal value"⟩

mutual

/-- Read a literal. -/
def literal (ts : List Token) : Except Mismatch (Parsed Literal ts) :=
  match ts with
  | [] => .error ⟨"literal", "a literal value"⟩
  | t :: rest =>
    if t.kind = .openBrace then
      if h : isNext .closeBrace rest then
        .ok ⟨.map [], rest.tail, Nat.lt_succ_of_lt (length_tail_lt h)⟩
      else
        match entries {} rest with
        | .error e => .error e
        | .ok p => .ok ((p.map LiteralMap.toLiteral).widen (Nat.le_succ _))
    else
      match atom t with
      | .error e => .error e
      | .ok v => .ok ⟨v, rest, Nat.lt_succ_self _⟩
termination_by 2 * ts.length

/-- Read the entries of an array up to and with its closing brace, `m` being those read before. -/
def entries (m : LiteralMap) (ts : List Token) : Except Mismatch (Parsed LiteralMap ts) :=
  have hkey := length_entryKey_le m ts
  match literal (entryKey m ts).2 with
  | .error e => .error e
  | .ok p =>
    have hp := Nat.lt_of_lt_of_le p.shorter hkey
    let m' := m.insert (entryKey m ts).1 p.value
    if hc : isNext .comma p.rest then
      have htail := Nat.lt_trans (length_tail_lt hc) hp
      if hb : isNext .closeBrace p.rest.tail then
        .ok ⟨m', p.rest.tail.tail, Nat.lt_trans (length_tail_lt hb) htail⟩
      else
        match entries m' p.rest.tail with
        | .error e => .error e
        | .ok q => .ok (q.widen (Nat.le_of_lt htail))
    else if hb : isNext .closeBrace p.rest then
      .ok ⟨m', p.rest.tail, Nat.lt_trans (length_tail_lt hb) hp⟩
    else .error ⟨"array", Kind.closeBrace.text⟩
termination_by 2 * ts.length + 1

end

/-! ### Argument lists -/

/-- Add an argument, under its name if it has one. -/
def addArgument (a : Arguments) (name : Option String) (v : Literal) : Arguments :=
  match name with
  | some n => a.set n v
  | none => a.push v

/-- Read arguments up to and with the closing parenthesis, `a` being those read before. -/
def arguments (a : Arguments) (ts : List Token) : Except Mismatch (Parsed Arguments ts) :=
  have hname := length_argumentName_le ts
  match literal (argumentName ts).2 with
  | .error e => .error e
  | .ok p =>
    have hp := Nat.lt_of_lt_of_le p.shorter hname
    let a' := addArgument a (argumentName ts).1 p.value
    if hc : isNext .comma p.rest then
      have htail := Nat.lt_trans (length_tail_lt hc) hp
      if hb : isNext .closeParen p.rest.tail then
        .ok ⟨a', p.rest.tail.tail, Nat.lt_trans (length_tail_lt hb) htail⟩
      else
        match arguments a' p.rest.tail with
        | .error e => .error e
        | .ok q => .ok (q.widen (Nat.le_of_lt htail))
    else if hb : isNext .closeParen p.rest then
      .ok ⟨a', p.rest.tail, Nat.lt_trans (length_tail_lt hb) hp⟩
    else .error ⟨"parenthesis", Kind.closeParen.text⟩
termination_by ts.length

/-- Read an argument list in parentheses. -/
def parenthesis (ts : List Token) : Except Mismatch (Parsed Arguments ts) :=
  match ts with
  | [] => .error ⟨"parenthesis", Kind.openParen.text⟩
  | t :: rest =>
    if t.kind = .openParen then
      if h : isNext .closeParen rest then
        .ok ⟨{}, rest.tail, Nat.lt_succ_of_lt (length_tail_lt h)⟩
      else
        match arguments {} rest with
        | .error e => .error e
        | .ok p => .ok (p.widen (Nat.le_succ _))
    else .error ⟨"parenthesis", Kind.openParen.text⟩

/-! ### Skipping -/

/-- The tokens behind a group of parentheses that is `depth` deep: behind the one that closes it, or
    none when nothing does. Only parentheses count. -/
def closeGroup (depth : Nat) : List Token → List Token
  | [] => []
  | t :: ts =>
    match t.kind with
    | .openParen => closeGroup (depth + 1) ts
    | .closeParen => if depth ≤ 1 then ts else closeGroup (depth - 1) ts
    | _ => closeGroup depth ts

/-- The tokens behind a group of parentheses, if one is next. -/
def skipGroup (ts : List Token) : List Token := if isNext .openParen ts then closeGroup 0 ts else ts

theorem length_closeGroup_le (depth : Nat) (ts : List Token) :
    (closeGroup depth ts).length ≤ ts.length := by
  induction ts generalizing depth with
  | nil => exact Nat.le_refl _
  | cons t ts ih =>
    rw [closeGroup]
    split
    · exact Nat.le_succ_of_le (ih _)
    · split
      · exact Nat.le_succ _
      · exact Nat.le_succ_of_le (ih _)
    · exact Nat.le_succ_of_le (ih _)

theorem length_skipGroup_le (ts : List Token) : (skipGroup ts).length ≤ ts.length := by
  unfold skipGroup
  split
  · exact length_closeGroup_le 0 ts
  · exact Nat.le_refl _

end Grammar

end DocDirectives
