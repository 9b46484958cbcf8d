import DocDirectives.Arguments
import DocDirectives.Text.Quoted

/-! # Known types

    A catalog answers whether a qualified name denotes a known type. A host also builds an instance
    of a type from the arguments of a directive. A registry is both: a set of types, each with or
    without a constructor. -/

namespace DocDirectives

/-- Knowledge of which qualified names denote types. -/
structure Catalog where
  knows : String → Bool

namespace Catalog

/-- The catalog that believes every import. -/
def trusting : Catalog := ⟨fun _ => true⟩

end Catalog

/-- A catalog that can also build instances. The failure of a construction is a reason in words. -/
structure Host (α : Type) where
  catalog : Catalog
  construct : String → Arguments → Except String α

/-- A constructor takes the flattened arguments. -/
abbrev Constructor := List Literal → Except String Literal

/-- An instance of a registered type. Its state is what the constructor gave, `null` without one. -/
structure Instance where
  typeName : String
  state : Literal

/-- Known types with their constructors, each type listed once. -/
structure Registry where
  types : List (String × Option Constructor) := []

namespace Registry

def empty : Registry := {}

/-- The entry of a type. -/
def find? (r : Registry) (n : String) : Option (String × Option Constructor) :=
  r.types.find? fun t => t.1 == n

def has (r : Registry) (n : String) : Bool := (r.find? n).isSome

/-- Forget a type. -/
def unregister (r : Registry) (n : String) : Registry := ⟨r.types.filter fun t => t.1 != n⟩

/-- Add a type, or give a known one another constructor. -/
def register (r : Registry) (n : String) (make : Option Constructor) : Registry :=
  ⟨(r.unregister n).types ++ [(n, make)]⟩

/-- Types without constructors. -/
def ofNames (ns : List String) : Registry := ns.foldl (fun r n => r.register n none) empty

def size (r : Registry) : Nat := r.types.length

def isEmpty (r : Registry) : Bool := r.types.isEmpty

def catalog (r : Registry) : Catalog := ⟨r.has⟩

/-- Build an instance of a registered type. -/
def construct (r : Registry) (n : String) (a : Arguments) : Except String Instance :=
  match r.find? n with
  | none => .error s!"type {n} is not registered"
  | some (_, none) => .ok ⟨n, .null⟩
  | some (_, some make) => (make a.forConstructor).map fun state => ⟨n, state⟩

def host (r : Registry) : Host Instance := ⟨r.catalog, r.construct⟩

/-- The names of the types in the order of their characters. -/
def names (r : Registry) : List String :=
  (r.types.map Prod.fst).mergeSort fun a b => decide (a ≤ b)

/-- The registry as it is shown to a developer. -/
def inspect (r : Registry) : String :=
  "Registry \x7b types: [" ++ ", ".intercalate (r.names.map Text.quoted) ++ "] \x7d"

end Registry

end DocDirectives
