import DocDirectives.Token
import DocDirectives.Token.Lexeme
import DocDirectives.Number.Integer

/-! # Classifiers

    A classifier says how text is cut into fragments and what each fragment is. A scan goes from
    left to right: where a lexeme begins, it is one fragment, and the text between two lexemes is a
    fragment too, so the fragments of a text put together are the text. Fragments that are noise
    are dropped, and each of the others becomes a token. -/

namespace DocDirectives

/-- How text is cut and what the pieces are. -/
structure Classifier where
  /-- Length of the lexeme at the beginning of a text, zero when none begins there. -/
  lexemeLength : List Char → Nat
  /-- What a fragment is. -/
  classify : List Char → Kind
  /-- Whether a fragment is dropped. -/
  isNoise : List Char → Bool := fun fragment => fragment.all Text.isBlank

namespace Classifier

/-- A run of characters between lexemes, as a fragment. -/
def gap (run : List Char) : List (List Char) := if run.isEmpty then [] else [run]

/-- Fragments of a text, `run` being the characters since the last lexeme. -/
def fragmentsFrom (c : Classifier) (run : List Char) (cs : List Char) : List (List Char) :=
  match cs with
  | [] => gap run
  | x :: rest =>
    match c.lexemeLength (x :: rest) with
    | 0 => fragmentsFrom c (run ++ [x]) rest
    | n + 1 => gap run ++ (x :: rest.take n) :: fragmentsFrom c [] (rest.drop n)
termination_by cs.length

/-- The fragments of a text, in order. -/
def fragments (c : Classifier) (cs : List Char) : List (List Char) := c.fragmentsFrom [] cs

/-- The token of a fragment. -/
def token (c : Classifier) (fragment : List Char) : Token :=
  ⟨c.classify fragment, String.ofList fragment⟩

/-- The tokens of a text. -/
def tokens (c : Classifier) (cs : List Char) : List Token :=
  ((c.fragments cs).filter fun f => !f.isEmpty && !c.isNoise f).map c.token

/-! ### The language of directives -/

/-- Kind of a punctuation character. -/
def punctuation? : List Char → Option Kind
  | ['@'] => some .start
  | ['('] => some .openParen
  | [')'] => some .closeParen
  | ['\''] => some .singleQuote
  | ['"'] => some .doubleQuote
  | ['{'] => some .openBrace
  | ['}'] => some .closeBrace
  | ['='] => some .assign
  | [','] => some .comma
  | [':'] => some .colon
  | _ => none

/-- Whether a fragment stands between double quotes. -/
def isQuoted (cs : List Char) : Bool :=
  2 ≤ cs.length && cs.head? == some '"' && cs.getLast? == some '"'

/-- A fragment without one leading sign. -/
def unsigned : List Char → List Char
  | '-' :: cs => cs
  | '+' :: cs => cs
  | cs => cs

/-- Kind of a number: digits, or digits on both sides of one point. -/
def numeric? (cs : List Char) : Option Kind :=
  let magnitude := unsigned cs
  let whole := magnitude.takeWhile (· != '.')
  match magnitude.dropWhile (· != '.') with
  | [] => if Number.isDigits whole then some .integer else none
  | _ :: fraction =>
    if Number.isDigits whole && Number.isDigits fraction then some .float else none

/-- Kind of a fragment in the language of directives. -/
def kindOf (cs : List Char) : Kind :=
  if isQuoted cs then .string
  else match numeric? cs with
    | some k => k
    | none =>
      if cs = ['t', 'r', 'u', 'e'] then .yes
      else if cs = ['f', 'a', 'l', 's', 'e'] then .no
      else (punctuation? cs).getD .other

/-- White space and comment stars mean nothing between tokens. -/
def isDecoration (cs : List Char) : Bool := cs.all Text.isBlank || cs.all (· == '*')

/-- The classifier of directives in documentation comments. -/
def directives : Classifier where
  lexemeLength := Lexeme.lexemeLength
  classify := kindOf
  isNoise := isDecoration

/-! ### Laws -/

theorem flatten_gap (run : List Char) : (gap run).flatten = run := by
  unfold gap
  split <;> simp_all

/-- Nothing of the text is lost, repeated or moved. -/
theorem flatten_fragmentsFrom (c : Classifier) (run cs : List Char) :
    (c.fragmentsFrom run cs).flatten = run ++ cs := by
  fun_induction fragmentsFrom c run cs with
  | case1 run => simp [flatten_gap]
  | case2 run x rest _ ih => simp [ih]
  | case3 run x rest n _ ih => simp [flatten_gap, ih]

end Classifier

end DocDirectives
