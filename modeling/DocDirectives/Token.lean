/-! # Tokens

    A token is a piece of comment text together with its kind. The kinds are those that the grammar
    of directives tells apart; whatever it has no use for is `other`. -/

namespace DocDirectives

/-- The kind of a token. -/
inductive Kind where
  | start
  | openParen
  | closeParen
  | singleQuote
  | doubleQuote
  | openBrace
  | closeBrace
  | assign
  | comma
  | colon
  | yes
  | no
  | integer
  | float
  | string
  | other
  deriving DecidableEq, Repr

namespace Kind

/-- Every kind, in the order of the declaration. -/
def all : List Kind :=
  [start, openParen, closeParen, singleQuote, doubleQuote, openBrace, closeBrace, assign, comma,
    colon, yes, no, integer, float, string, other]

/-- The name that a diagnostic uses; what the grammar has no use for has none. -/
def name? : Kind → Option String
  | start => some "start-annotation"
  | openParen => some "open-parenthesis"
  | closeParen => some "close-parenthesis"
  | singleQuote => some "single-quote"
  | doubleQuote => some "double-quote"
  | openBrace => some "open-curly-brace"
  | closeBrace => some "close-curly-brace"
  | assign => some "assign"
  | comma => some "comma"
  | colon => some "colon"
  | yes => some "boolean (true)"
  | no => some "boolean (false)"
  | integer => some "integer"
  | float => some "float"
  | string => some "string"
  | other => none

/-- The text shown for a kind. -/
def text (k : Kind) : String := k.name?.getD "<unknown>"

/-- The word that stands for a kind in a token list written as data. -/
def label : Kind → String
  | yes => "true"
  | no => "false"
  | other => "unknown"
  | k => k.text

end Kind

/-- A classified piece of text. -/
structure Token where
  kind : Kind
  text : String
  deriving DecidableEq, Repr

end DocDirectives
