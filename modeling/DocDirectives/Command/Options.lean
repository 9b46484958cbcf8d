/-! # Command-line options

    Words of a command line are options with a long name and perhaps a letter, or positional. An
    option takes a value, in the same word behind `=` or directly behind its letter, or as the next
    word; or it is a switch. Each option is given once, unless it may be repeated. Behind `--` every
    word is positional. The words are taken one after another, and the first fault ends the
    reading. -/

namespace DocDirectives.Command

/-- Why the words of a command line are no command. -/
inductive Stop where
  /-- They ask for help. -/
  | help
  /-- They are faulty. -/
  | faulty
  deriving DecidableEq, Repr

/-! ### What a command takes -/

/-- The values that a word can give. -/
inductive Values where
  | any
  /-- A path, which is not empty. -/
  | path
  | oneOf (names : List String)
  deriving DecidableEq, Repr

/-- Whether a value is one of the values. -/
def Values.accepts : Values → String → Bool
  | any, _ => true
  | path, value => value != ""
  | oneOf names, value => names.contains value

/-- A value: its name in help pages, what it can be, and what it is when it is not given. -/
structure ValueSpec where
  name : String
  values : Values := .any
  fallback : Option String := none
  deriving DecidableEq, Repr

/-- An option. One without a value is a switch. -/
structure OptionSpec where
  long : String
  letter : Option Char := none
  value : Option ValueSpec := none
  repeatable : Bool := false
  help : String := ""
  deriving DecidableEq, Repr

namespace OptionSpec

def accepts (o : OptionSpec) (value : String) : Bool :=
  match o.value with
  | some v => v.values.accepts value
  | none => true

end OptionSpec

/-- A positional word. -/
structure PositionalSpec where
  value : ValueSpec
  required : Bool := false
  help : String := ""
  deriving DecidableEq, Repr

/-- What a command is called, what it is for, and what it takes. -/
structure Spec where
  name : String
  help : String
  options : List OptionSpec
  positionals : List PositionalSpec
  deriving DecidableEq, Repr

/-! ### What is given -/

/-- What a command line gives, in order. -/
structure Given where
  options : List (String × String) := []
  positionals : List String := []
  deriving DecidableEq, Repr

namespace Given

def value? (g : Given) (o : OptionSpec) : Option String := g.options.lookup o.long

def has (g : Given) (o : OptionSpec) : Bool := (g.value? o).isSome

/-- The value of an option, or what stands in for it. -/
def valueOf (g : Given) (o : OptionSpec) : String :=
  (g.value? o).getD ((o.value.bind ValueSpec.fallback).getD "")

/-- All values of an option that may be repeated. -/
def values (g : Given) (o : OptionSpec) : List String :=
  g.options.filterMap fun (name, value) => if name = o.long then some value else none

end Given

/-! ### Reading words -/

/-- Whether a word is an option and no value: a hyphen with something behind it. -/
def isOption (word : String) : Bool :=
  match word.toList with
  | '-' :: _ :: _ => true
  | _ => false

/-- Add an option with its value. -/
def Given.add (g : Given) (o : OptionSpec) (value : String) : Except Stop Given :=
  if (!o.repeatable && g.has o) || !o.accepts value then .error .faulty
  else .ok { g with options := g.options ++ [(o.long, value)] }

/-- Add a positional word. -/
def Given.addPositional (g : Given) (spec : Spec) (word : String) : Except Stop Given :=
  match spec.positionals[g.positionals.length]? with
  | some p =>
    if p.value.values.accepts word then .ok { g with positionals := g.positionals ++ [word] }
    else .error .faulty
  | none => .error .faulty

/-- What an option wants next: nothing, or a value in the next word. -/
inductive Step where
  | done (g : Given)
  | wants (g : Given) (o : OptionSpec)

/-- Read a word of letters behind one hyphen. The first letter whose option takes a value takes the
    rest of the word, if there is any. -/
def letters (spec : Spec) (g : Given) : List Char → Except Stop Step
  | [] => .ok (.done g)
  | c :: cs =>
    match spec.options.find? fun o => o.letter == some c with
    | none => .error (if c = 'h' then .help else .faulty)
    | some o =>
      if o.value.isSome then
        match cs with
        | [] => .ok (.wants g o)
        | '=' :: value => (g.add o (String.ofList value)).map .done
        | value => (g.add o (String.ofList value)).map .done
      else
        match g.add o "" with
        | .error e => .error e
        | .ok g => letters spec g cs

/-- Read an option by its long name, with or without a value behind `=`. -/
def longOption (spec : Spec) (g : Given) (word : List Char) : Except Stop Step :=
  let name := String.ofList (word.takeWhile (· != '='))
  match spec.options.find? fun o => o.long == name with
  | none => .error (if word = "help".toList then .help else .faulty)
  | some o =>
    match word.dropWhile (· != '=') with
    | [] => if o.value.isSome then .ok (.wants g o) else (g.add o "").map .done
    | _ :: value =>
      if o.value.isSome then (g.add o (String.ofList value)).map .done else .error .faulty

/-- Read positional words. -/
def allPositional (spec : Spec) (g : Given) : List String → Except Stop Given
  | [] => .ok g
  | word :: words =>
    match g.addPositional spec word with
    | .error e => .error e
    | .ok g => allPositional spec g words

/-- Read the words of a command line. `wanting` is the option whose value is the next word. -/
def read (spec : Spec) (g : Given) (wanting : Option OptionSpec) :
    List String → Except Stop Given
  | [] => if wanting.isSome then .error .faulty else .ok g
  | word :: words =>
    match wanting with
    | some o =>
      if isOption word then .error .faulty
      else
        match g.add o word with
        | .error e => .error e
        | .ok g => read spec g none words
    | none =>
      let step :=
        match word.toList with
        | '-' :: '-' :: [] => none
        | '-' :: '-' :: name => some (longOption spec g name)
        | '-' :: c :: cs => some (letters spec g (c :: cs))
        | _ => some ((g.addPositional spec word).map .done)
      match step with
      | none => allPositional spec g words
      | some (.error e) => .error e
      | some (.ok (.done g)) => read spec g none words
      | some (.ok (.wants g o)) => read spec g (some o) words

end DocDirectives.Command
