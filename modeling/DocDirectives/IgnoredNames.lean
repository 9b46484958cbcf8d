/-! # Ignored names

    Documentation tags such as `@param` look like directives and are none. A directive whose name
    is in the set, as written, is skipped together with its parentheses. -/

namespace DocDirectives

/-- A set of names, each listed once. -/
structure IgnoredNames where
  names : List String := []

namespace IgnoredNames

/-- The conventional documentation tags. -/
def conventional : List String :=
  ["abstract", "access", "api", "author", "category", "codeCoverageIgnore", "copyright", "covers",
    "dataProvider", "deprecated", "depends", "example", "exception", "expectedException",
    "extends", "filesource", "final", "FIXME", "fixme", "global", "group", "ignore", "implements",
    "inheritDoc", "inheritdoc", "internal", "license", "link", "method", "mixin", "noinspection",
    "override", "package", "param", "property", "return", "returns", "see", "since", "source",
    "static", "staticvar", "subpackage", "SuppressWarnings", "template", "throw", "throws", "TODO",
    "todo", "type", "uses", "var", "version"]

def empty : IgnoredNames := {}

def contains (s : IgnoredNames) (n : String) : Bool := s.names.contains n

def insert (s : IgnoredNames) (n : String) : IgnoredNames :=
  if s.contains n then s else ⟨s.names ++ [n]⟩

def insertAll (s : IgnoredNames) (ns : List String) : IgnoredNames := ns.foldl insert s

/-- The conventional tags together with further names. -/
def withNames (extra : List String) : IgnoredNames :=
  insertAll { names := conventional } extra

/-- The set in force when nothing else is said. -/
def standard : IgnoredNames := withNames []

def size (s : IgnoredNames) : Nat := s.names.length

def isEmpty (s : IgnoredNames) : Bool := s.names.isEmpty

/-- The names in the order of their characters. -/
def sorted (s : IgnoredNames) : List String := s.names.mergeSort fun a b => decide (a ≤ b)

/-- Whether two sets have the same names. -/
def same (s t : IgnoredNames) : Bool := s.names.all t.contains && t.names.all s.contains

theorem contains_insert (s : IgnoredNames) (n m : String) :
    (s.insert n).contains m = (m == n || s.contains m) := by
  unfold insert
  split
  · rename_i h
    by_cases hm : m = n
    · simp [hm, h]
    · simp [hm]
  · by_cases hm : m = n <;> simp [contains, hm]

end IgnoredNames

end DocDirectives
