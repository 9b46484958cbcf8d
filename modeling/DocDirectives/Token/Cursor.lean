import DocDirectives.Token.Classifier

/-! # Token cursor

    A cursor reads the tokens of one text forward. `position` counts the tokens read, so it names
    the token that `advance` reads next, the lookahead; `current` is the place of the token read
    last, if the last `advance` read one. -/

namespace DocDirectives

/-- A reading position in the tokens of one text. -/
structure Cursor where
  classifier : Classifier
  tokens : List Token := []
  position : Nat := 0
  current : Option Nat := none

namespace Cursor

/-- Forget the text. -/
def reset (c : Cursor) : Cursor := { classifier := c.classifier }

/-- Begin to read a text. -/
def load (c : Cursor) (text : String) : Cursor :=
  { c.reset with tokens := c.classifier.tokens text.toList }

/-- Go back to the first token. -/
def rewind (c : Cursor) : Cursor := { c with position := 0, current := none }

/-- Read one token. The answer says whether there was one. -/
def advance (c : Cursor) : Bool × Cursor :=
  if c.position < c.tokens.length then
    (true, { c with position := c.position + 1, current := some c.position })
  else (false, { c with current := none })

/-- The token read last. -/
def currentToken (c : Cursor) : Option Token := c.current.bind (c.tokens[·]?)

/-- The token that `advance` reads next. -/
def lookahead (c : Cursor) : Option Token := c.tokens[c.position]?

/-- The token behind the lookahead. -/
def peek (c : Cursor) : Option Token := c.tokens[c.position + 1]?

/-- Whether the lookahead is of kind `k`. -/
def isNext (c : Cursor) (k : Kind) : Bool := c.lookahead.map Token.kind == some k

/-- Kind of a given lexeme, or of the current token. -/
def kindOf (c : Cursor) : Option String → Option Kind
  | some lexeme => some (c.classifier.classify lexeme.toList)
  | none => c.currentToken.map Token.kind

end Cursor

end DocDirectives
