import DocDirectives.Command.Options
import DocDirectives.Terminal

/-! # Help pages

    A help page says what a command is for, how it is written, and what its words mean. The words
    are explained in sections of rows; in a section the explanations stand in one column, two
    blanks behind the longest label. On a terminal with colours the headings are bold and
    underlined, and what is typed as it stands is bold. -/

namespace DocDirectives.Command

/-- A piece of a line: words that are typed as they stand, or anything else. -/
inductive Piece where
  | typed (s : String)
  | plain (s : String)
  deriving DecidableEq, Repr

namespace Piece

def text : Piece → String
  | typed s => s
  | plain s => s

def paint (color : Bool) : Piece → String
  | typed s => Style.paint color [.bold] s
  | plain s => s

end Piece

/-- How something is written. -/
abbrev Label := List Piece

namespace Label

def text (l : Label) : String := String.join (l.map Piece.text)

def paint (color : Bool) (l : Label) : String := String.join (l.map (Piece.paint color))

end Label

/-- A line of a section: how something is written, and what it means. -/
structure HelpRow where
  label : Label
  meaning : String
  deriving DecidableEq, Repr

/-- A help page. -/
structure HelpPage where
  about : String
  usage : Label
  sections : List (String × List HelpRow)
  deriving DecidableEq, Repr

/-! ### Layout -/

/-- A heading and a colon. -/
def heading (color : Bool) (title : String) : String :=
  let s := title ++ ":"
  if color then Style.on [.bold] ++ Style.on [.underlined] ++ s ++ Style.reset else s

/-- The length of the longest label. -/
def labelWidth : List HelpRow → Nat
  | [] => 0
  | row :: rows => Nat.max row.label.text.length (labelWidth rows)

/-- Every label fits, so that the explanations of a section begin in one column. -/
theorem length_le_labelWidth {row : HelpRow} {rows : List HelpRow} (h : row ∈ rows) :
    row.label.text.length ≤ labelWidth rows := by
  induction rows with
  | nil => cases h
  | cons r rows ih =>
    rcases List.mem_cons.1 h with rfl | h
    · exact Nat.le_max_left _ _
    · exact Nat.le_trans (ih h) (Nat.le_max_right _ _)

/-- A row whose label is filled up to a width. -/
def HelpRow.render (color : Bool) (width : Nat) (row : HelpRow) : String :=
  let gap := Terminal.blanks (width - row.label.text.length)
  "  " ++ row.label.paint color ++ gap ++ "  " ++ row.meaning ++ "\n"

/-- A section behind a blank line. A section without rows is left out. -/
def renderSection (color : Bool) (title : String) (rows : List HelpRow) : String :=
  if rows.isEmpty then ""
  else
    "\n" ++ heading color title ++ "\n" ++
      String.join (rows.map (HelpRow.render color (labelWidth rows)))

/-- The text of a page. -/
def HelpPage.render (color : Bool) (page : HelpPage) : String :=
  page.about ++ "\n\n" ++ heading color "Usage" ++ " " ++ page.usage.paint color ++ "\n" ++
    String.join (page.sections.map fun (title, rows) => renderSection color title rows)

/-! ### Rows -/

/-- What is said of a value besides its meaning. -/
def ValueSpec.notes (v : ValueSpec) : List String :=
  let fallback :=
    match v.fallback with
    | some value => [s!"[default: {value}]"]
    | none => []
  let names :=
    match v.values with
    | .oneOf names => ["[possible values: " ++ ", ".intercalate names ++ "]"]
    | _ => []
  fallback ++ names

/-- A meaning with notes behind it. -/
def withNotes (meaning : String) (notes : List String) : String :=
  " ".intercalate (if meaning = "" then notes else meaning :: notes)

namespace OptionSpec

/-- The letter, or blanks in its place, the long name, and the name of the value. -/
def label (o : OptionSpec) : Label :=
  let letter :=
    match o.letter with
    | some c => [Piece.typed s!"-{c}", Piece.plain ", "]
    | none => [Piece.plain "    "]
  let value :=
    match o.value with
    | some v => [Piece.plain s!" <{v.name}>"]
    | none => []
  letter ++ Piece.typed s!"--{o.long}" :: value

def row (o : OptionSpec) : HelpRow where
  label := o.label
  meaning := withNotes o.help ((o.value.map ValueSpec.notes).getD [])

end OptionSpec

namespace PositionalSpec

/-- The name of the value, in brackets that tell whether it has to be given. -/
def text (p : PositionalSpec) : String :=
  if p.required then s!"<{p.value.name}>" else s!"[{p.value.name}]"

def row (p : PositionalSpec) : HelpRow where
  label := [.plain p.text]
  meaning := withNotes p.help p.value.notes

end PositionalSpec

/-! ### Pages -/

/-- The option that asks for help. -/
def helpOption : OptionSpec := { long := "help", letter := some 'h', help := "Print help" }

/-- The option that asks for the version. -/
def versionOption : OptionSpec := { long := "version", letter := some 'V', help := "Print version" }

namespace Spec

/-- The help page of a command of a program. -/
def helpPage (program : String) (s : Spec) : HelpPage where
  about := s.help
  usage :=
    .typed s!"{program} {s.name}" :: .plain " [OPTIONS]" ::
      s.positionals.map fun p => .plain (" " ++ p.text)
  sections :=
    [("Arguments", s.positionals.map PositionalSpec.row),
      ("Options", (s.options ++ [helpOption]).map OptionSpec.row)]

/-- The row of a command in a list of commands. -/
def row (s : Spec) : HelpRow where
  label := [.typed s.name]
  meaning := s.help

end Spec

/-- What the command `help` is for. -/
def helpSpec : Spec where
  name := "help"
  help := "Print this message or the help of the given subcommand(s)"
  options := []
  positionals := []

/-- The help page of the command `help`, which takes names of commands and no options. -/
def helpPageOfHelp (program : String) : HelpPage where
  about := helpSpec.help
  usage := [.typed s!"{program} {helpSpec.name}", .plain " [COMMAND]..."]
  sections :=
    [("Arguments", [⟨[.plain "[COMMAND]..."], "Print help for the subcommand(s)"⟩])]

/-- The help page of a program with some commands. -/
def programPage (program about : String) (specs : List Spec) : HelpPage where
  about := about
  usage := [.typed program, .plain " <COMMAND>"]
  sections :=
    [("Commands", (specs ++ [helpSpec]).map Spec.row),
      ("Options", [helpOption.row, versionOption.row])]

end DocDirectives.Command
