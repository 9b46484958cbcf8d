import DocDirectives.Language
import DocDirectives.Text.Blank

/-! # Braces

    The braces and semicolons of a line that stand outside strings and comments, and the stack of
    blocks that they open and close. A block is of interest when its header announced it: the body
    of a type, whose members are methods and fields, or of a module, which is read like the
    file. -/

namespace DocDirectives

open Text

namespace Braces

/-- What stands behind a string, of the text behind its opening quote. A backslash takes the next
    character with it. -/
def afterString (quote : Char) : List Char → List Char
  | [] => []
  | ['\\'] => []
  | '\\' :: _ :: cs => afterString quote cs
  | c :: cs => if c = quote then cs else afterString quote cs

/-- What stands behind a character literal, of the text behind its opening quote; without a literal
    the quote begins a lifetime. -/
def afterCharacter? : List Char → Option (List Char)
  | '\\' :: cs => (cut? ['\''] (cs.drop 1)).map Prod.snd
  | _ :: '\'' :: cs => some cs
  | _ => none

theorem length_afterString_le (quote : Char) (cs : List Char) :
    (afterString quote cs).length ≤ cs.length := by
  fun_induction afterString quote cs <;> simp_all <;> omega

theorem length_of_cut? {mark cs front rest : List Char} (h : cut? mark cs = some (front, rest)) :
    rest.length ≤ cs.length := by
  have := congrArg List.length (append_of_cut? h)
  simp only [List.length_append] at this
  omega

theorem length_of_afterCharacter? {cs rest : List Char} (h : afterCharacter? cs = some rest) :
    rest.length ≤ cs.length := by
  unfold afterCharacter? at h
  split at h
  · rename_i ds
    obtain ⟨⟨f, r⟩, hc, rfl⟩ := Option.map_eq_some_iff.1 h
    have := length_of_cut? hc
    simp only [List.length_drop, List.length_cons] at this ⊢
    omega
  · cases h
    simp
    omega
  · cases h

/-- Braces and semicolons of a line, outside strings, character literals and comments. -/
def structural (l : Language) (cs : List Char) : List Char :=
  match cs with
  | [] => []
  | '/' :: '/' :: _ => []
  | '/' :: '*' :: rest =>
    match _ : cut? ['*', '/'] rest with
    | some (_, behind) => structural l behind
    | none => []
  | c :: rest =>
    if c = '#' ∧ l = .php ∧ rest.head? ≠ some '[' then []
    else if c = '"' ∨ (c = '\'' ∧ l ≠ .rust) then
      have := length_afterString_le c rest
      structural l (afterString c rest)
    else if c = '\'' then
      match _ : afterCharacter? rest with
      | some behind => structural l behind
      | none => structural l rest
    else if c = '{' ∨ c = '}' ∨ c = ';' then c :: structural l rest
    else structural l rest
termination_by cs.length
decreasing_by
  · rename_i h
    have := length_of_cut? h
    simp only [List.length_cons]
    omega
  · simp only [List.length_cons]
    omega
  · rename_i h
    have := length_of_afterCharacter? h
    simp only [List.length_cons]
    omega
  · simp only [List.length_cons]
    omega
  · simp only [List.length_cons]
    omega
  · simp only [List.length_cons]
    omega

end Braces

/-- What the body of a block is: read like the file, or the members of a type. -/
inductive ScopeKind where
  | file
  | owner (name : List Char) (fields : Bool)
  deriving DecidableEq, Repr

/-- An open block of interest: the depth of its body. -/
structure Scope where
  depth : Nat
  kind : ScopeKind
  deriving DecidableEq, Repr

/-- How deep the braces are nested, the open blocks of interest from the innermost outwards, and the
    block that a header has announced. -/
structure Nesting where
  depth : Nat := 0
  scopes : List Scope := []
  announced : Option ScopeKind := none
  deriving DecidableEq, Repr

namespace Nesting

/-- What the present line is a member of: the file, a block of interest, or nothing of interest. -/
def current (n : Nesting) : Option ScopeKind :=
  if n.depth = 0 then some .file
  else
    match n.scopes with
    | s :: _ => if s.depth = n.depth then some s.kind else none
    | [] => none

/-- Follow one brace or semicolon. An opening brace begins the announced block, a semicolon takes
    the announcement back, and a closing brace ends every block deeper than what remains. -/
def follow (n : Nesting) (c : Char) : Nesting :=
  if c = '{' then
    { depth := n.depth + 1
      scopes :=
        match n.announced with
        | some kind => ⟨n.depth + 1, kind⟩ :: n.scopes
        | none => n.scopes
      announced := none }
  else if c = '}' then
    { n with
      depth := n.depth - 1
      scopes := n.scopes.dropWhile fun s => n.depth - 1 < s.depth }
  else if c = ';' then { n with announced := none }
  else n

/-- Follow the braces of a line. -/
def followLine (l : Language) (n : Nesting) (line : List Char) : Nesting :=
  (Braces.structural l line).foldl follow n

end Nesting

end DocDirectives
