import DocDirectives.Number.Binary64
import DocDirectives.Text.Slice
import DocDirectives.Toml.Value

/-! # Lexical elements of TOML

    Blanks, comments, keys, strings and the words of numbers, moments and booleans. Every reader
    takes a text from its first character and gives the value and the text behind it. -/

namespace DocDirectives.Toml

open Text
open Number (Binary64)

/-- What a reader gives. -/
abbrev Read (α : Type) := Option (α × List Char)

/-! ### Blanks and comments -/

def isWs (c : Char) : Bool := c == ' ' || c == '\t'

def skipWs (cs : List Char) : List Char := cs.dropWhile isWs

/-- A character that may stand in a comment or a literal string. -/
def isPlain (c : Char) : Bool := c == '\t' || (0x20 ≤ c.toNat && c.toNat ≠ 0x7F)

/-- The text behind a line break. -/
def lineBreak? : List Char → Option (List Char)
  | '\n' :: cs => some cs
  | '\r' :: '\n' :: cs => some cs
  | _ => none

/-- The text behind a comment, if there is one. -/
def skipComment (cs : List Char) : List Char :=
  match cs with
  | '#' :: rest => rest.dropWhile isPlain
  | _ => cs

/-- The text behind the rest of a line that holds nothing more than blanks and a comment. -/
def endOfLine? (cs : List Char) : Option (List Char) :=
  match skipComment (skipWs cs) with
  | [] => some []
  | rest => lineBreak? rest

/-- Blanks, comments and line breaks, as they may stand between the items of an array. -/
def skipTrivia (cs : List Char) : List Char :=
  let rest := skipComment (skipWs cs)
  match lineBreak? rest with
  | some behind => if behind.length < cs.length then skipTrivia behind else rest
  | none => rest
termination_by cs.length

/-! ### Strings -/

def hexValue? (c : Char) : Option Nat :=
  if '0' ≤ c ∧ c ≤ '9' then some (c.toNat - '0'.toNat)
  else if 'a' ≤ c ∧ c ≤ 'f' then some (c.toNat - 'a'.toNat + 10)
  else if 'A' ≤ c ∧ c ≤ 'F' then some (c.toNat - 'A'.toNat + 10)
  else none

/-- The character with the number written by hexadecimal digits. -/
def scalar? (digits : List Char) : Option Char :=
  match digits.mapM hexValue? with
  | none => none
  | some ds =>
    let n := ds.foldl (fun n d => 16 * n + d) 0
    if n.isValidChar then some (Char.ofNat n) else none

/-- A character written with a backslash, of the text behind the backslash. -/
def escape? : List Char → Read Char
  | 'b' :: cs => some ('\x08', cs)
  | 't' :: cs => some ('\t', cs)
  | 'n' :: cs => some ('\n', cs)
  | 'f' :: cs => some ('\x0c', cs)
  | 'r' :: cs => some ('\r', cs)
  | '"' :: cs => some ('"', cs)
  | '\\' :: cs => some ('\\', cs)
  | 'u' :: cs => if cs.length < 4 then none else (scalar? (cs.take 4)).map fun c => (c, cs.drop 4)
  | 'U' :: cs => if cs.length < 8 then none else (scalar? (cs.take 8)).map fun c => (c, cs.drop 8)
  | _ => none

/-- A string in double quotes, of the text behind the opening one. -/
def basic (fuel : Nat) (cs : List Char) : Read (List Char) :=
  match fuel, cs with
  | 0, _ => none
  | _, [] => none
  | _, '"' :: rest => some ([], rest)
  | n + 1, '\\' :: rest =>
    match escape? rest with
    | none => none
    | some (c, behind) => (basic n behind).map fun (s, behind) => (c :: s, behind)
  | n + 1, c :: rest =>
    if isPlain c then (basic n rest).map fun (s, behind) => (c :: s, behind) else none

/-- A string in single quotes, of the text behind the opening one. -/
def literal (cs : List Char) : Read (List Char) :=
  let isInside := fun c => isPlain c && c != '\''
  match cs.dropWhile isInside with
  | '\'' :: rest => some (cs.takeWhile isInside, rest)
  | _ => none

/-- A text without the blanks and line breaks in front. -/
def skipLines : List Char → List Char
  | ' ' :: cs => skipLines cs
  | '\t' :: cs => skipLines cs
  | '\n' :: cs => skipLines cs
  | '\r' :: '\n' :: cs => skipLines cs
  | cs => cs

/-- The text behind a backslash that ends a line: all blanks and line breaks up to the next
    character are left out. -/
def continuation? (cs : List Char) : Option (List Char) := (lineBreak? (skipWs cs)).map skipLines

/-- The characters of a run of quotes that closes a string in three of them: what belongs to the
    string, and the text behind the closing three. Up to two belong to the string. -/
def closeTriple? (quote : Char) (cs : List Char) : Read (List Char) :=
  let run := (cs.takeWhile (· == quote)).length
  if run < 3 then none
  else
    let inside := min (run - 3) 2
    some (List.replicate inside quote, cs.drop (inside + 3))

/-- A string in three double quotes, of the text behind the opening ones and a line break. -/
def multiBasic (fuel : Nat) (cs : List Char) : Read (List Char) :=
  match fuel with
  | 0 => none
  | n + 1 =>
    match closeTriple? '"' cs with
    | some found => some found
    | none =>
      match lineBreak? cs with
      | some rest => (multiBasic n rest).map fun (s, behind) => ('\n' :: s, behind)
      | none =>
        match cs with
        | [] => none
        | '\\' :: rest =>
          match continuation? rest with
          | some behind => multiBasic n behind
          | none =>
            match escape? rest with
            | none => none
            | some (c, behind) => (multiBasic n behind).map fun (s, behind) => (c :: s, behind)
        | c :: rest =>
          if isPlain c then (multiBasic n rest).map fun (s, behind) => (c :: s, behind) else none

/-- A string in three single quotes, of the text behind the opening ones and a line break. -/
def multiLiteral (fuel : Nat) (cs : List Char) : Read (List Char) :=
  match fuel with
  | 0 => none
  | n + 1 =>
    match closeTriple? '\'' cs with
    | some found => some found
    | none =>
      match lineBreak? cs with
      | some rest => (multiLiteral n rest).map fun (s, behind) => ('\n' :: s, behind)
      | none =>
        match cs with
        | [] => none
        | c :: rest =>
          if isPlain c then (multiLiteral n rest).map fun (s, behind) => (c :: s, behind) else none

/-- A string of any of the four forms. -/
def string? (cs : List Char) : Read String :=
  let fuel := cs.length + 1
  let found :=
    match cs with
    | '"' :: '"' :: '"' :: rest => multiBasic fuel ((lineBreak? rest).getD rest)
    | '\'' :: '\'' :: '\'' :: rest => multiLiteral fuel ((lineBreak? rest).getD rest)
    | '"' :: rest => basic fuel rest
    | '\'' :: rest => literal rest
    | _ => none
  found.map fun (s, behind) => (String.ofList s, behind)

/-! ### Keys -/

def isBareKey (c : Char) : Bool := c.isAlphanum || c == '-' || c == '_'

/-- One part of a key: bare, or a string on one line. -/
def simpleKey? (cs : List Char) : Read String :=
  let fuel := cs.length + 1
  match cs with
  | '"' :: rest => (basic fuel rest).map fun (s, behind) => (String.ofList s, behind)
  | '\'' :: rest => (literal rest).map fun (s, behind) => (String.ofList s, behind)
  | _ =>
    let bare := cs.takeWhile isBareKey
    if bare.isEmpty then none else some (String.ofList bare, cs.dropWhile isBareKey)

/-- A key of one or more parts between points. -/
def key (fuel : Nat) (cs : List Char) : Read (List String) :=
  match fuel with
  | 0 => none
  | n + 1 =>
    match simpleKey? (skipWs cs) with
    | none => none
    | some (part, rest) =>
      match skipWs rest with
      | '.' :: more => (key n more).map fun (parts, behind) => (part :: parts, behind)
      | behind => some ([part], behind)

def key? (cs : List Char) : Read (List String) := key (cs.length + 1) cs

/-! ### Words -/

/-- Digits of a class, with single underscores between them. -/
def isDigitRun (isDigit : Char → Bool) (cs : List Char) : Bool :=
  (splitOn '_' cs).all fun part => !part.isEmpty && part.all isDigit

/-- Value of digits in a base, underscores left out, when it fits in 64 bits. -/
def basedInteger? (base : Nat) (cs : List Char) : Option Value :=
  match (cs.filter (· != '_')).mapM hexValue? with
  | none => none
  | some ds => (Number.Integer.inRange? (ds.foldl (fun n d => base * n + d) 0 : Nat)).map .integer

/-- Digits without a leading zero. -/
def isDecimal (cs : List Char) : Bool :=
  isDigitRun Char.isDigit cs && (cs.length == 1 || cs.head? != some '0')

/-- An integer in decimal, or without a sign in base 16, 8 or 2. -/
def integer? (cs : List Char) : Option Value :=
  match cs with
  | '0' :: 'x' :: ds =>
    if isDigitRun (fun c => (hexValue? c).isSome) ds then basedInteger? 16 ds else none
  | '0' :: 'o' :: ds =>
    if isDigitRun (fun c => '0' ≤ c && c ≤ '7') ds then basedInteger? 8 ds else none
  | '0' :: 'b' :: ds =>
    if isDigitRun (fun c => c == '0' || c == '1') ds then basedInteger? 2 ds else none
  | _ =>
    if isDecimal (Number.splitSign cs).2 then
      (Number.Integer.ofText? (cs.filter (· != '_'))).map .integer
    else none

/-- Whether a text is an exponent: an optional sign and digits. -/
def isExponent (cs : List Char) : Bool := isDigitRun Char.isDigit (Number.splitSign cs).2

/-- The part of a float in front of its exponent, and the exponent with its mark. -/
def splitExponent (cs : List Char) : List Char × List Char :=
  let isMark := fun c => c == 'e' || c == 'E'
  (cs.takeWhile fun c => !isMark c, cs.dropWhile fun c => !isMark c)

/-- Whether a text without a sign is written as a float: digits with a fraction, an exponent, or
    both. -/
def isFloatShaped (cs : List Char) : Bool :=
  let (number, exponent) := splitExponent cs
  let goodExponent := exponent.isEmpty || isExponent (exponent.drop 1)
  match cut? ['.'] number with
  | some (whole, fraction) =>
    isDecimal whole && isDigitRun Char.isDigit fraction && goodExponent
  | none => isDecimal number && !exponent.isEmpty && goodExponent

/-- Whether a float without a sign is above all binary64 numbers. -/
def isHuge (cs : List Char) : Bool :=
  let (number, exponent) := splitExponent (cs.filter (· != '_'))
  let (minus, power) := Number.splitSign (exponent.drop 1)
  let fraction := (number.dropWhile (· != '.')).drop 1
  let n := Number.ofDigits (number.filter (· != '.'))
  let power : Int := Number.ofDigits power
  let e : Int := (if minus then -power else power) - (fraction.length : Int)
  let size : Int := e + ((Number.digits n).length : Int)
  n ≠ 0 && (310 < size || (300 < size &&
    Binary64.nearest (n * Nat.pow 10 e.toNat) (Nat.pow 10 (-e).toNat) == Binary64.infinite))

/-- A float: a number that is not too large, or a word. Below zero none is too large. -/
def isFloat (cs : List Char) : Bool :=
  let (minus, magnitude) := Number.splitSign cs
  magnitude = "inf".toList || magnitude = "nan".toList ||
    (isFloatShaped magnitude && (minus || !isHuge magnitude))

/-! ### Moments -/

/-- A number of exactly two digits within bounds. -/
def isTwoDigits (low high : Nat) (cs : List Char) : Bool :=
  cs.length == 2 && Number.isDigits cs && low ≤ Number.ofDigits cs && Number.ofDigits cs ≤ high

def daysIn (year month : Nat) : Nat :=
  if month = 2 then
    if (year % 4 = 0 ∧ year % 100 ≠ 0) ∨ year % 400 = 0 then 29 else 28
  else if month = 4 ∨ month = 6 ∨ month = 9 ∨ month = 11 then 30
  else 31

/-- A day, as `1979-05-27`. -/
def isDate (cs : List Char) : Bool :=
  match splitOn '-' cs with
  | [year, month, day] =>
    year.length == 4 && Number.isDigits year && isTwoDigits 1 12 month &&
      isTwoDigits 1 (daysIn (Number.ofDigits year) (Number.ofDigits month)) day
  | _ => false

/-- A time of day, as `07:32:00.5`. -/
def isTime (cs : List Char) : Bool :=
  match splitOn ':' cs with
  | [hour, minute, second] =>
    isTwoDigits 0 23 hour && isTwoDigits 0 59 minute && isTwoDigits 0 60 (second.take 2) &&
      (match second.drop 2 with
        | [] => true
        | '.' :: fraction => Number.isDigits fraction
        | _ => false)
  | _ => false

/-- A distance from universal time, as `Z` or `-07:00`. -/
def isOffset (cs : List Char) : Bool :=
  match cs with
  | [] => true
  | ['Z'] => true
  | ['z'] => true
  | sign :: rest =>
    (sign == '+' || sign == '-') &&
      (match splitOn ':' rest with
        | [hour, minute] => isTwoDigits 0 23 hour && isTwoDigits 0 59 minute
        | _ => false)

/-- A time of day with a distance from universal time. -/
def isZonedTime (cs : List Char) : Bool :=
  let inTime := fun c : Char => c.isDigit || c == ':' || c == '.'
  isTime (cs.takeWhile inTime) && isOffset (cs.dropWhile inTime)

/-- A day, a time of day, or both with a letter between them. -/
def isMoment (cs : List Char) : Bool :=
  isDate cs || isTime cs ||
    (isDate (cs.take 10) &&
      (match cs.drop 10 with
        | mark :: time => (mark == 'T' || mark == 't' || mark == ' ') && isZonedTime time
        | [] => false))

/-- The value of a word. -/
def wordValue? (cs : List Char) : Option Value :=
  if cs = "true".toList then some (.boolean true)
  else if cs = "false".toList then some (.boolean false)
  else if isMoment cs then some .moment
  else if isFloat cs then some .float
  else integer? cs

def isWordChar (c : Char) : Bool :=
  c.isAlphanum || c == '+' || c == '-' || c == '_' || c == '.' || c == ':'

/-- A number, a moment or a boolean. A day and a time of day may have a space between them. -/
def word? (cs : List Char) : Read Value :=
  let word := cs.takeWhile isWordChar
  let rest := cs.dropWhile isWordChar
  let single := (wordValue? word).map fun v => (v, rest)
  match rest with
  | ' ' :: a :: b :: ':' :: more =>
    if isDate word && a.isDigit && b.isDigit then
      let time := (a :: b :: ':' :: more).takeWhile isWordChar
      (wordValue? (word ++ [' '] ++ time)).map fun v => (v, (rest.drop 1).dropWhile isWordChar)
    else single
  | _ => single

end DocDirectives.Toml
