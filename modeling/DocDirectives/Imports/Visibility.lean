import DocDirectives.Text.Blank
import DocDirectives.Text.Slice

/-! # Visibility

    The qualifier `pub`, perhaps restricted in parentheses, that may stand in front of a Rust
    item. -/

namespace DocDirectives

open Text

/-- The item behind a visibility qualifier, when there is one. -/
def afterVisibility? (cs : List Char) : Option (List Char) :=
  match after? ['p', 'u', 'b'] cs with
  | none => none
  | some rest =>
    let item :=
      match rest with
      | '(' :: inner => (cut? [')'] inner).map Prod.snd
      | _ => some rest
    match item with
    | some r => if startsBlank r then some (trimStart r) else none
    | none => none

end DocDirectives
