import DocDirectives.Language
import DocDirectives.Text.Blank

/-! # Lines

    What a line of a source file is to the scanner. Documentation is collected from blocks and from
    lines; blank lines, attributes and plain comments leave it pending; code takes it. -/

namespace DocDirectives

open Text

/-- Inside what a line begins. -/
inductive Mode where
  | code
  /-- In a documentation block, with the lines read so far. -/
  | block (lines : List (List Char))
  /-- In a plain comment. -/
  | comment
  deriving DecidableEq, Repr

/-- What a line is. -/
inductive LineKind where
  /-- A line inside a documentation block, and whether it closes it. -/
  | inBlock (text : List Char) (closes : Bool)
  /-- A line inside a plain comment, and whether it closes it. -/
  | inComment (closes : Bool)
  | blank
  /-- A line that opens a documentation block, and whether it closes it too. -/
  | opensBlock (text : List Char) (closes : Bool)
  /-- A line of documentation. -/
  | documentation (text : List Char)
  /-- An attribute or decorator. -/
  | decorator
  /-- A plain comment, and whether it goes on behind the line. -/
  | comment (goesOn : Bool)
  | code
  deriving DecidableEq, Repr

namespace LineKind

def starComment : List Char := ['/', '*']

def starClose : List Char := ['*', '/']

/-- Whether a line begins with one of some marks. -/
def startsWithAny (marks : List (List Char)) (line : List Char) : Bool :=
  marks.any fun m => startsWith m line

/-- Text of a line inside a documentation block: up to the closing mark, without its decoration. -/
def blockText (style : CommentStyle) (line : List Char) : LineKind :=
  let close := (style.docBlock.map Prod.snd).getD starClose
  let strip := fun text =>
    match style.blockLine with
    | some mark => trim ((after? mark text).getD text)
    | none => trim text
  match cut? close line with
  | some (text, _) => .inBlock (strip text) true
  | none => .inBlock (strip line) false

/-- The line as the opening of a documentation block. `/**/` is an empty plain comment. Nothing
    behind the closing mark is looked at. -/
def blockOpening? (style : CommentStyle) (line : List Char) : Option LineKind :=
  match style.docBlock with
  | none => none
  | some (opening, closing) =>
    match after? opening line with
    | none => none
    | some rest =>
      if startsWith ['/'] rest then none
      else
        match cut? closing rest with
        | some (text, _) => some (.opensBlock (trim text) true)
        | none => some (.opensBlock (trim rest) false)

/-- The text of a line of documentation, without one space in front. -/
def documentation? (style : CommentStyle) (line : List Char) : Option (List Char) :=
  if startsWithAny style.notDocLine line then none
  else
    match style.docLine.findSome? fun m => after? m line with
    | some text => some ((after? [' '] text).getD text)
    | none => none

/-- What a trimmed line is that begins inside `mode`. -/
def of (style : CommentStyle) (mode : Mode) (line : List Char) : LineKind :=
  match mode with
  | .block _ => blockText style line
  | .comment => .inComment (holds starClose line)
  | .code =>
    if line.isEmpty then .blank
    else
      match blockOpening? style line with
      | some kind => kind
      | none =>
        match documentation? style line with
        | some text => .documentation text
        | none =>
          if startsWithAny style.decorator line then .decorator
          else if startsWithAny style.plain line then
            .comment (startsWith starComment line && !holds starClose line)
          else .code

end LineKind

end DocDirectives
