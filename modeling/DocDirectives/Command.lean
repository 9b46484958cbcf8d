import DocDirectives.Command.Help
import DocDirectives.Config
import DocDirectives.Project
import DocDirectives.Report

/-! # Commands

    What can be asked on the command line, and the answer, as a function of the files that there
    are. A command ends with exit code 0 when it did what was asked, 1 when the linter found an
    error, and 2 when it failed or was not a command. -/

namespace DocDirectives

/-- Settings on the command line, added to those of the configuration file. -/
structure Settings where
  configFile : String
  ignore : List String
  knownTypes : List String
  trustImports : Bool
  deriving DecidableEq, Repr

/-- Where the text of the token list comes from. -/
inductive TokenSource where
  | text (s : String)
  | file (path : String)
  deriving DecidableEq, Repr

/-- A command. -/
inductive Command where
  | extract (path : String) (settings : Settings) (format : ReportFormat)
  | lint (path : String) (settings : Settings) (options : LintOptions) (format : ReportFormat)
  | tokens (source : TokenSource) (format : ReportFormat)
  | init (output : String) (force : Bool)
  deriving DecidableEq, Repr

namespace Command

/-! ### Reading the command line -/

/-- The file that settings are read from and written to when none is named. -/
def defaultConfigFile : String := "docanno.toml"

def formatOption (fallback : String) : OptionSpec where
  long := "format"
  letter := some 'f'
  value := some ⟨"FORMAT", .oneOf ["text", "json", "json-pretty"], some fallback⟩
  help := "Output format"

def configOption : OptionSpec where
  long := "config"
  value := some ⟨"CONFIG", .path, some defaultConfigFile⟩
  help := "Configuration file"

def ignoreOption : OptionSpec where
  long := "ignore"
  value := some ⟨"NAME", .any, none⟩
  repeatable := true
  help := "Additional directive names to ignore"

def knownTypeOption : OptionSpec where
  long := "known-type"
  value := some ⟨"TYPE", .any, none⟩
  repeatable := true
  help := "Fully qualified type names that exist"

def trustImportsOption : OptionSpec where
  long := "trust-imports"
  help := "Accept every imported name as an existing type"

def unresolvedAsWarningOption : OptionSpec where
  long := "unresolved-as-warning"
  help := "Report unresolved names as warnings"

def warnDuplicatesOption : OptionSpec where
  long := "warn-duplicates"
  help := "Warn when a declaration repeats an annotation"

def fileOption : OptionSpec where
  long := "file"
  value := some ⟨"FILE", .path, none⟩
  help := "Read the text from a file instead"

def outputOption : OptionSpec where
  long := "output"
  letter := some 'o'
  value := some ⟨"OUTPUT", .path, some defaultConfigFile⟩

def forceOption : OptionSpec where
  long := "force"
  help := "Overwrite an existing file"

def settingsOptions : List OptionSpec :=
  [configOption, ignoreOption, knownTypeOption, trustImportsOption]

def extractSpec : Spec where
  name := "extract"
  help := "Parse the annotations of every documented declaration"
  options := settingsOptions ++ [formatOption "json-pretty"]
  positionals := [⟨⟨"PATH", .path, none⟩, true, "Path to file or directory"⟩]

def lintSpec : Spec where
  name := "lint"
  help := "Report annotation syntax errors and unresolved names"
  options :=
    settingsOptions ++ [unresolvedAsWarningOption, warnDuplicatesOption, formatOption "text"]
  positionals := [⟨⟨"PATH", .path, some "."⟩, false, "Path to file or directory to lint"⟩]

def tokensSpec : Spec where
  name := "tokens"
  help := "Show the token stream of an annotation text"
  options := [fileOption, formatOption "text"]
  positionals :=
    [⟨⟨"TEXT", .any, none⟩, false, "Annotation text, e.g. '@Route(\"/\", name=\"home\")'"⟩]

def initSpec : Spec where
  name := "init"
  help := "Write a default configuration file"
  options := [outputOption, forceOption]
  positionals := []

/-- The settings that a command line gives. -/
def settingsOf (g : Given) : Settings where
  configFile := g.valueOf configOption
  ignore := g.values ignoreOption
  knownTypes := g.values knownTypeOption
  trustImports := g.has trustImportsOption

def formatOf (g : Given) (fallback : String) : ReportFormat :=
  .ofName (g.valueOf (formatOption fallback))

def ofExtract (g : Given) : Option Command :=
  match g.positionals with
  | [path] => some (.extract path (settingsOf g) (formatOf g "json-pretty"))
  | _ => none

def ofLint (g : Given) : Option Command :=
  let options :=
    { unresolvedAsWarning := g.has unresolvedAsWarningOption
      warnDuplicates := g.has warnDuplicatesOption }
  some (.lint (g.positionals.head?.getD ".") (settingsOf g) options (formatOf g "text"))

/-- The text of a token list comes from the command line or from a file, never both. -/
def ofTokens (g : Given) : Option Command :=
  match g.positionals.head?, g.value? fileOption with
  | some text, none => some (.tokens (.text text) (formatOf g "text"))
  | none, some path => some (.tokens (.file path) (formatOf g "text"))
  | _, _ => none

def ofInit (g : Given) : Option Command := some (.init (g.valueOf outputOption) (g.has forceOption))

/-- Every command: what it takes, and what it is when that is given. -/
def all : List (Spec × (Given → Option Command)) :=
  [(extractSpec, ofExtract), (lintSpec, ofLint), (tokensSpec, ofTokens), (initSpec, ofInit)]

/-- The command with a name. -/
def named? (name : String) : Option (Spec × (Given → Option Command)) :=
  all.find? fun (spec, _) => spec.name == name

/-! ### Help -/

/-- The name that the program is started by. -/
def program : String := "docanno"

/-- The help page of the program. -/
def mainPage : HelpPage :=
  programPage program "Parse and check annotations in documentation comments" (all.map Prod.fst)

/-- The help page that words behind `help` name: that of a command, or without a word that of the
    program. -/
def pageOf? : List String → Option HelpPage
  | [] => some mainPage
  | [name] =>
    if name = helpSpec.name then some (helpPageOfHelp program)
    else (named? name).map fun (spec, _) => spec.helpPage program
  | _ => none

/-- What a command line asks for. -/
inductive Request where
  | command (c : Command)
  | help (page : HelpPage)
  | version
  deriving DecidableEq, Repr

/-- What a command line asks for, if it is not faulty. -/
def ofArgs? (args : List String) : Option Request :=
  match args with
  | [] => none
  | name :: words =>
    match named? name with
    | some (spec, command) =>
      match read spec {} none words with
      | .error .help => some (.help (spec.helpPage program))
      | .error .faulty => none
      | .ok g => (command g).map .command
    | none =>
      if name = helpSpec.name then (pageOf? words).map .help
      else if name.startsWith "-h" || name = "--help" then some (.help mainPage)
      else if name.startsWith "-V" || name = "--version" then some .version
      else none

/-! ### Answering -/

/-- What a command leaves behind. -/
structure Outcome where
  exit : Nat
  output : String := ""
  /-- What is reported besides the output. -/
  complaint : Option String := none
  files : FileTree

/-- The outcome of a failure. -/
def failed (t : FileTree) (e : Failure) : Outcome :=
  { exit := 2, complaint := some ("Error: " ++ e.message), files := t }

/-- The configuration in force. -/
def configOf (t : FileTree) (s : Settings) : Except Failure Config :=
  (Config.loadOrDefault t s.configFile).map fun c =>
    { c with
      ignoredNames := c.ignoredNames ++ s.ignore
      knownTypes := c.knownTypes ++ s.knownTypes
      trustImports := c.trustImports || s.trustImports }

/-- Options of the configuration and of the command line together. -/
def mergeOptions (a b : LintOptions) : LintOptions where
  unresolvedAsWarning := a.unresolvedAsWarning || b.unresolvedAsWarning
  warnDuplicates := a.warnDuplicates || b.warnDuplicates

/-- The directives at a path. A single file has to parse; in a folder, files that fail are
    skipped. -/
def extractAt (t : FileTree) (c : Config) (path : String) :
    Except Failure (List Report.FileDirectives) :=
  if t.isFile path then (t.parseFile c.parser c.catalog path).map fun ds => [⟨path, ds⟩]
  else if t.isFolder path then
    .ok ((t.parseFiles c.parser c.catalog (t.sources path)).map fun (file, ds) => ⟨file, ds⟩)
  else .error (.invalidArgument s!"path '{path}' does not exist")

/-- The lint report of a path. -/
def lintAt (t : FileTree) (c : Config) (path : String) : Except Failure LintReport :=
  if t.isFile path then t.lintFile c.parser c.catalog c.lint path
  else t.lintFolder c.parser c.catalog c.lint path

/-- The tokens of a text or a file. -/
def tokensOf (t : FileTree) : TokenSource → Except Failure (List Token)
  | .text s => .ok (Classifier.directives.tokens s.toList)
  | .file path =>
    match t.readText path with
    | .ok s => .ok (Classifier.directives.tokens s.toList)
    | .error e => .error (.unreadable path e)

/-- Answer a command. -/
def run (t : FileTree) (color : Bool) : Command → Outcome
  | .extract path settings format =>
    match configOf t settings with
    | .error e => failed t e
    | .ok c =>
      match extractAt t c path with
      | .error e => failed t e
      | .ok fs => { exit := 0, output := Report.files format color fs ++ "\n", files := t }
  | .lint path settings options format =>
    match configOf t settings with
    | .error e => failed t e
    | .ok c =>
      match lintAt t { c with lint := mergeOptions c.lint options } path with
      | .error e => failed t e
      | .ok r =>
        { exit := if r.passed then 0 else 1
          output := Report.lint format color r ++ "\n"
          files := t }
  | .tokens source format =>
    match tokensOf t source with
    | .error e => failed t e
    | .ok ts => { exit := 0, output := Report.tokens format color ts, files := t }
  | .init output force =>
    if t.has output && !force then
      { exit := 2
        complaint := some s!"Error: {output} already exists (use --force to overwrite)"
        files := t }
    else
      match ({} : Config).save t output with
      | .error e => failed t e
      | .ok t => { exit := 0, output := s!"Wrote {output}\n", files := t }

/-- Answer a command line. To a faulty one the help page of the program is the complaint. -/
def answer (t : FileTree) (color : Bool) (args : List String) : Outcome :=
  match ofArgs? args with
  | some (.command c) => run t color c
  | some (.help page) => { exit := 0, output := page.render color, files := t }
  | some .version => { exit := 0, output := program ++ " 0.1.0\n", files := t }
  | none => { exit := 2, complaint := some (mainPage.render false), files := t }

end Command

end DocDirectives
