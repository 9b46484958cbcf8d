import DocDirectives.Token

/-! # Failures

    Everything that can go wrong, by cause, and the sentence that reports it. -/

namespace DocDirectives

/-- Why a file could not be read or written. -/
inductive FileTrouble where
  | missing
  | notFolder
  | isFolder
  | notText
  deriving DecidableEq, Repr

namespace FileTrouble

def message : FileTrouble → String
  | missing => "No such file or directory (os error 2)"
  | notFolder => "Not a directory (os error 20)"
  | isFolder => "Is a directory (os error 21)"
  | notText => "stream did not contain valid UTF-8"

end FileTrouble

/-- A failure. The first three come from the text of a directive. -/
inductive Failure where
  /-- While reading `construct`, the next token was not what had to stand there. -/
  | unexpected (context construct expected : String)
  /-- No import gives the name a type. -/
  | unresolved (name context : String)
  /-- The host refused to build an instance. -/
  | construction (name context message : String)
  | invalidArgument (message : String)
  | io (trouble : FileTrouble)
  | unreadable (path : String) (trouble : FileTrouble)
  | unsupported (path : String)
  | json
  | configuration
  deriving DecidableEq, Repr

namespace Failure

/-- The sentence that reports a failure. -/
def message : Failure → String
  | unexpected context construct expected =>
    s!"[{context}] {construct}: next token must be {expected}"
  | unresolved name context =>
    s!"Annotation @{name} did not exist in {context}. " ++
      "Did you forget to import the associated type or alias?"
  | construction name context message => s!"Failed to construct {name} for {context}: {message}"
  | invalidArgument message => s!"Invalid argument: {message}"
  | io trouble => s!"IO error: {trouble.message}"
  | unreadable path trouble => s!"Failed to read file {path}: {trouble.message}"
  | unsupported path => s!"Unsupported file type: {path}"
  | json => "JSON serialization error"
  | configuration => "Invalid configuration"

/-- Whether the text of a directive is to blame. -/
def isDirectiveFault : Failure → Bool
  | unexpected _ _ _ => true
  | unresolved _ _ => true
  | construction _ _ _ => true
  | _ => false

end Failure

end DocDirectives
