/-! # Terminal text

    Styles of text, which a terminal turns on and off by sequences of characters that it does not
    show, and columns of a fixed width. -/

namespace DocDirectives

/-- A style of terminal text. -/
inductive Style where
  | bold
  | dimmed
  | underlined
  | red
  | green
  | yellow
  | cyan
  deriving DecidableEq, Repr

namespace Style

/-- The number that a terminal knows a style by. -/
def code : Style → String
  | bold => "1"
  | dimmed => "2"
  | underlined => "4"
  | red => "31"
  | green => "32"
  | yellow => "33"
  | cyan => "36"

/-- The sequence that turns some styles on. -/
def on (styles : List Style) : String := "\x1b[" ++ ";".intercalate (styles.map code) ++ "m"

/-- The sequence that turns all styles off. -/
def reset : String := "\x1b[0m"

/-- A text in some styles, when colours are on. Where the text turns the styles off itself, they
    are turned on again. -/
def paint (color : Bool) (styles : List Style) (s : String) : String :=
  if color then on styles ++ s.replace reset (reset ++ on styles) ++ reset else s

end Style

namespace Terminal

/-- Blanks in a row. -/
def blanks (n : Nat) : String := String.ofList (List.replicate n ' ')

/-- A text filled with blanks in front up to a width. -/
def padLeft (width : Nat) (s : String) : String := blanks (width - s.length) ++ s

/-- A text filled with blanks behind up to a width. -/
def padRight (width : Nat) (s : String) : String := s ++ blanks (width - s.length)

theorem length_blanks (n : Nat) : (blanks n).length = n := by simp [blanks]

/-- A text that is not too long fills its column. -/
theorem length_padRight {width : Nat} {s : String} (h : s.length ≤ width) :
    (padRight width s).length = width := by
  rw [padRight, String.length_append, length_blanks]
  omega

end Terminal

end DocDirectives
