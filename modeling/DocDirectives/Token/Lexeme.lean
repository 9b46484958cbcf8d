import DocDirectives.Text.Blank
import DocDirectives.Text.Word

/-! # Lexemes of comment text

    How long the lexeme at the beginning of a text is, for each class of lexeme: qualified names,
    signed numbers, quoted strings, runs of white space or stars, and single characters. Zero says
    that no lexeme of the class begins there. `lexemeLength` takes the first class that matches.

    A quote inside a string is written twice, so a string ends at the first quote without a
    partner. Where the text ends before such a quote, the first quote of the last pair ends it. -/

namespace DocDirectives.Lexeme

open Text

/-! ### Names -/

/-- Length of a name segment: a letter or underscore, then letters, digits and underscores. -/
def segmentLength : List Char → Nat
  | c :: cs => if isNameStart c then (c :: cs).takeWhile isNameChar |>.length else 0
  | [] => 0

/-- Length of a namespace separator. -/
def separatorLength : List Char → Nat
  | ':' :: ':' :: _ => 2
  | '\\' :: _ => 1
  | '.' :: _ => 1
  | _ => 0

/-- Length of the separators that may begin a fully qualified name. -/
def leadLength : List Char → Nat
  | ':' :: ':' :: _ => 2
  | '\\' :: _ => 1
  | _ => 0

/-- Length of a run of separators, each with a segment behind it. -/
def tailLength (cs : List Char) : Nat :=
  let k := separatorLength cs
  let n := segmentLength (cs.drop k)
  if _ : k = 0 ∨ n = 0 ∨ cs = [] then 0 else k + n + tailLength (cs.drop (k + n))
termination_by cs.length
decreasing_by
  rename_i h
  simp only [not_or] at h
  have : cs.length ≠ 0 := fun hl => h.2.2 (List.length_eq_zero_iff.1 hl)
  simp only [List.length_drop]
  omega

/-- Length of a qualified name, with or without a leading separator. -/
def nameLength (cs : List Char) : Nat :=
  let k := leadLength cs
  let n := segmentLength (cs.drop k)
  if n = 0 then 0 else k + n + tailLength (cs.drop (k + n))

/-! ### Numbers -/

/-- Length of a run of decimal digits. -/
def digitsLength (cs : List Char) : Nat := (cs.takeWhile Char.isDigit).length

/-- Length of a run of points, each with digits behind it. -/
def fractionLength (cs : List Char) : Nat :=
  match cs with
  | '.' :: rest =>
    let n := digitsLength rest
    if n = 0 then 0 else 1 + n + fractionLength (rest.drop n)
  | _ => 0
termination_by cs.length

/-- Length of an optional sign. -/
def signLength : List Char → Nat
  | '+' :: _ => 1
  | '-' :: _ => 1
  | _ => 0

/-- Length of a number: an optional sign, digits, and any further groups of digits after points. -/
def numberLength (cs : List Char) : Nat :=
  let k := signLength cs
  let n := digitsLength (cs.drop k)
  if n = 0 then 0 else k + n + fractionLength (cs.drop (k + n))

/-! ### Strings -/

/-- Characters up to and with the closing quote, of the text after the opening one. -/
def closing? : List Char → Option Nat
  | [] => none
  | '"' :: '"' :: cs =>
    match closing? cs with
    | some n => some (n + 2)
    | none => some 1
  | '"' :: _ => some 1
  | _ :: cs => (closing? cs).map (· + 1)

/-- Length of a quoted string. -/
def stringLength : List Char → Nat
  | '"' :: cs =>
    match closing? cs with
    | some n => n + 1
    | none => 0
  | _ => 0

/-! ### Runs and single characters -/

/-- Length of a run of white space, or else of stars. -/
def noiseLength (cs : List Char) : Nat :=
  let n := (cs.takeWhile isBlank).length
  if n = 0 then (cs.takeWhile (· == '*')).length else n

/-- The first length of a list that is not zero. -/
def firstPositive : List Nat → Nat
  | [] => 0
  | 0 :: ns => firstPositive ns
  | n :: _ => n

/-- Length of the lexeme at the beginning of a text. Every character begins one. -/
def lexemeLength (cs : List Char) : Nat :=
  firstPositive
    [nameLength cs, numberLength cs, stringLength cs, noiseLength cs, if cs.isEmpty then 0 else 1]

/-- Some lexeme begins at every character. -/
theorem lexemeLength_pos {cs : List Char} (h : cs ≠ []) : 0 < lexemeLength cs := by
  have key : ∀ ns : List Nat, 0 < firstPositive (ns ++ [1]) := by
    intro ns
    induction ns with
    | nil => decide
    | cons n ns ih =>
      cases n with
      | zero => exact ih
      | succ n => exact Nat.succ_pos n
  have h1 : (if cs.isEmpty then 0 else 1) = 1 := by simp [h]
  rw [lexemeLength, h1]
  exact key [nameLength cs, numberLength cs, stringLength cs, noiseLength cs]

end DocDirectives.Lexeme
