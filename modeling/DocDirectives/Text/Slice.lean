/-! # Cutting text

    Searching, cutting and splitting of character lists. Every search is for the first (leftmost)
    occurrence, and a cut loses nothing but the separator it was asked to remove: `cut?_eq_some`
    puts the two parts and the separator together again. -/

namespace DocDirectives.Text

/-- The text after a leading `lead`, when it is there. -/
def after? : List Char → List Char → Option (List Char)
  | [], cs => some cs
  | _ :: _, [] => none
  | a :: lead, c :: cs => if a = c then after? lead cs else none

/-- Whether a text begins with `lead`. -/
def startsWith (lead cs : List Char) : Bool := lead.isPrefixOf cs

/-- Whether a text ends with `tail`. -/
def endsWith (tail cs : List Char) : Bool := tail.isSuffixOf cs

/-- The parts before and after the first occurrence of `mark`. -/
def cut? (mark : List Char) : List Char → Option (List Char × List Char)
  | [] => if mark.isEmpty then some ([], []) else none
  | c :: cs =>
    match after? mark (c :: cs) with
    | some rest => some ([], rest)
    | none => (cut? mark cs).map fun (before, rest) => (c :: before, rest)

/-- Whether `mark` occurs in a text. -/
def holds (mark cs : List Char) : Bool := (cut? mark cs).isSome

/-- The part before the first occurrence of `mark`, or the whole text. -/
def before (mark cs : List Char) : List Char :=
  match cut? mark cs with
  | some (front, _) => front
  | none => cs

/-- Remove every leading `lead`; an empty `lead` removes nothing. -/
def dropLeads (lead : List Char) (cs : List Char) : List Char :=
  if lead.isEmpty then cs else
    match after? lead cs with
    | some rest => if rest.length < cs.length then dropLeads lead rest else cs
    | none => cs
termination_by cs.length

/-- Remove every trailing `tail`; an empty `tail` removes nothing. -/
def dropTails (tail : List Char) (cs : List Char) : List Char :=
  (dropLeads tail.reverse cs.reverse).reverse

/-- Split at every `sep`: `n` separators make `n + 1` parts. -/
def splitOn (sep : Char) : List Char → List (List Char)
  | [] => [[]]
  | c :: cs =>
    match splitOn sep cs with
    | [] => [[c]]
    | part :: parts => if c = sep then [] :: part :: parts else (c :: part) :: parts

/-- Put texts behind each other with `sep` between neighbours. -/
def joinWith (sep : List Char) (parts : List (List Char)) : List Char :=
  (parts.intersperse sep).flatten

/-- A line without the carriage return that may end it. -/
def dropReturn (line : List Char) : List Char :=
  match line.getLast? with
  | some '\r' => line.dropLast
  | _ => line

/-- The lines of a text. A line feed, or a carriage return and a line feed, ends a line; an empty
    last line is not one, and a carriage return that ends the text stays. -/
def lines (cs : List Char) : List (List Char) :=
  match (splitOn '\n' cs).reverse with
  | [] => []
  | last :: ended =>
    let closed := (ended.map dropReturn).reverse
    if last.isEmpty then closed else closed ++ [last]

/-! ### Laws -/

theorem after?_eq_some {lead cs rest : List Char} :
    after? lead cs = some rest ↔ lead ++ rest = cs := by
  induction lead generalizing cs with
  | nil => simp [after?, eq_comm]
  | cons a lead ih =>
    cases cs with
    | nil => simp [after?]
    | cons c cs =>
      rw [after?]
      by_cases h : a = c
      · simp [h, ih]
      · simp [h]

/-- A cut puts the text back together around the mark. -/
theorem append_of_cut? {mark cs front rest : List Char} (h : cut? mark cs = some (front, rest)) :
    front ++ mark ++ rest = cs := by
  induction cs generalizing front with
  | nil =>
    rw [cut?] at h
    split at h
    · rename_i hm
      simp_all
    · cases h
  | cons c cs ih =>
    rw [cut?] at h
    split at h
    · rename_i r hr
      obtain ⟨rfl, rfl⟩ := by simpa using h
      simpa using after?_eq_some.1 hr
    · obtain ⟨⟨f, r⟩, hf, he⟩ := Option.map_eq_some_iff.1 h
      obtain ⟨rfl, rfl⟩ := by simpa using he
      simp [← ih hf]

/-- A split always has a first part. -/
theorem splitOn_ne_nil (sep : Char) (cs : List Char) : splitOn sep cs ≠ [] := by
  cases cs with
  | nil => simp [splitOn]
  | cons c cs =>
    rw [splitOn]
    split
    · simp
    · split <;> simp

end DocDirectives.Text
