import DocDirectives.Symbol
import DocDirectives.Text.Blank
import DocDirectives.Text.Slice

/-! # Use trees

    A use tree imports names below a common path: `a::b::{C, d::E as F, self}`. It is flattened by
    carrying the path down to the leaves. A leaf that ends in a star or is renamed to `_` imports
    no name. -/

namespace DocDirectives.UseTree

open Text

/-- Nesting depth behind a character. -/
def depthAfter (depth : Int) (c : Char) : Int :=
  if c = '{' ∨ c = '(' then depth + 1 else if c = '}' ∨ c = ')' then depth - 1 else depth

/-- Split at the commas outside all brackets, at nesting depth `depth`. -/
def splitCommas (depth : Int) : List Char → List (List Char)
  | [] => [[]]
  | c :: cs =>
    match splitCommas (depthAfter depth c) cs with
    | [] => [[c]]
    | part :: parts => if c = ',' ∧ depth = 0 then [] :: part :: parts else (c :: part) :: parts

/-- The parts of a list between the commas outside all brackets, trimmed; empty parts are left
    out. -/
def splitTopLevel (cs : List Char) : List (List Char) :=
  ((splitCommas 0 cs).map trim).filter fun p => !p.isEmpty

/-- A path below another one. -/
def joinPath (lead path sep : List Char) : List Char :=
  if lead.isEmpty then path else if path.isEmpty then lead else lead ++ sep ++ path

/-- The path and the new name of `path as name`. -/
def splitAlias (cs : List Char) : List Char × Option (List Char) :=
  match cut? [' ', 'a', 's', ' '] cs with
  | some (path, name) => (trim path, some (trim name))
  | none => (cs, none)

/-- The symbol of a leaf below `lead`. -/
def leaf? (sep lead tree : List Char) : Option Symbol :=
  let (path, newName) := splitAlias tree
  if path = ['*'] ∨ endsWith (sep ++ ['*']) path ∨ newName = some ['_'] then none
  else
    let full := if path = ['s', 'e', 'l', 'f'] then lead else joinPath lead path sep
    if full.isEmpty then none
    else some (Symbol.ofImport (String.ofList full) (newName.map String.ofList))

/-- Base path and inner text of a group in braces. A closing brace in front of the opening one makes
    a group with nothing in it; without a closing brace there is no group. -/
def group? (tree : List Char) : Option (List Char × List Char) :=
  match cut? ['{'] tree with
  | none => none
  | some (base, inside) =>
    if tree.contains '}' then some (base, (dropEndWhile (· != '}') inside).dropLast) else none

/-! ### Lengths -/

theorem length_trim_le (cs : List Char) : (trim cs).length ≤ cs.length := by
  have h : ∀ ds : List Char, (trimEnd ds).length ≤ ds.length := fun ds => by
    simpa [trimEnd, dropEndWhile] using (List.dropWhile_sublist isBlank (l := ds.reverse)).length_le
  exact Nat.le_trans (h _) (List.dropWhile_sublist isBlank).length_le

theorem length_dropLeads_le (lead cs : List Char) : (dropLeads lead cs).length ≤ cs.length := by
  fun_induction dropLeads lead cs <;> omega

theorem length_of_mem_splitCommas {depth : Int} {cs p : List Char}
    (h : p ∈ splitCommas depth cs) : p.length ≤ cs.length := by
  induction cs generalizing depth p with
  | nil => simp_all [splitCommas]
  | cons c cs ih =>
    rw [splitCommas] at h
    split at h
    · simp_all
    · rename_i part parts hs
      have hpart : part.length ≤ cs.length := ih (hs ▸ List.mem_cons_self)
      have hparts : ∀ q ∈ parts, q.length ≤ cs.length := fun q hq =>
        ih (hs ▸ List.mem_cons_of_mem _ hq)
      split at h <;> simp only [List.mem_cons] at h
      · rcases h with rfl | rfl | h
        · simp
        · exact Nat.le_succ_of_le hpart
        · exact Nat.le_succ_of_le (hparts p h)
      · rcases h with rfl | h
        · simpa using hpart
        · exact Nat.le_succ_of_le (hparts p h)

theorem length_of_mem_splitTopLevel {cs p : List Char} (h : p ∈ splitTopLevel cs) :
    p.length ≤ cs.length := by
  obtain ⟨q, hq, rfl⟩ := List.mem_map.1 (List.mem_filter.1 h).1
  exact Nat.le_trans (length_trim_le q) (length_of_mem_splitCommas hq)

theorem length_of_group? {tree base inner : List Char} (h : group? tree = some (base, inner)) :
    inner.length < tree.length := by
  unfold group? at h
  split at h
  · cases h
  · rename_i b inside hcut
    split at h
    · obtain ⟨rfl, rfl⟩ := by simpa using h
      have hlen := congrArg List.length (append_of_cut? hcut)
      have hdrop : (dropEndWhile (· != '}') inside).length ≤ inside.length := by
        simpa [dropEndWhile] using
          (List.dropWhile_sublist (· != '}') (l := inside.reverse)).length_le
      simp only [List.length_append, List.length_singleton, List.length_dropLast] at hlen ⊢
      omega
    · cases h

/-! ### Flattening -/

/-- The symbols of one use tree below `lead`. -/
def symbols (sep lead tree : List Char) : List Symbol :=
  let body := dropLeads sep (trim tree)
  if body.isEmpty then []
  else
    match _ : group? body with
    | none => (leaf? sep lead body).toList
    | some (base, inner) =>
      let below := joinPath lead (dropTails sep (trim base)) sep
      (splitTopLevel inner).attach.flatMap fun ⟨part, _⟩ => symbols sep below part
termination_by tree.length
decreasing_by
  rename_i hg hm
  have h1 := length_of_mem_splitTopLevel hm
  have h2 := length_of_group? hg
  have h3 : List.length body ≤ _ := length_dropLeads_le sep (trim tree)
  have h4 := length_trim_le tree
  omega

/-- A tree is a leaf, or a group whose parts are trees below its base. -/
theorem symbols_eq (sep lead tree : List Char) :
    symbols sep lead tree =
      if (dropLeads sep (trim tree)).isEmpty then []
      else
        match group? (dropLeads sep (trim tree)) with
        | none => (leaf? sep lead (dropLeads sep (trim tree))).toList
        | some (base, inner) =>
          (splitTopLevel inner).flatMap
            (symbols sep (joinPath lead (dropTails sep (trim base)) sep)) := by
  rw [symbols]
  split
  · rfl
  · split
    · simp_all
    · rename_i h
      simp only [h]
      simp [List.flatMap_subtype]

/-- The symbols of a list of use trees. -/
def symbolsOfList (sep list : List Char) : List Symbol :=
  (splitTopLevel list).flatMap (symbols sep [])

end DocDirectives.UseTree
