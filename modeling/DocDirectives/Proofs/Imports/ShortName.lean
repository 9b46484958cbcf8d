import DocDirectives.Imports
import Mathlib.Data.List.Infix

/-! # Short names

    The last segment of a name is the shortest text that stands directly behind a separator, and the
    whole name where there is no separator. The separators of all languages count, and they may be
    mixed, repeated and overlap: behind a run of colons the segment begins at the last of them. It
    is found by searching each separator from the end and taking the greatest end. A path below
    another one keeps its last segment, so a symbol has the short name that its import writes last.
    Where no name is written for it, it has the short name of what stands in front of the group. -/

namespace DocDirectives

/-- The separators of qualified names, of all languages. -/
def separators : List (List Char) := [[':', ':'], ['\\'], ['.']]

theorem mem_separators_iff {sep : List Char} :
    sep ∈ separators ↔ ∃ l : Language, l.separator = sep := by
  constructor
  · intro h
    simp only [separators, List.mem_cons, List.not_mem_nil, or_false] at h
    rcases h with rfl | rfl | rfl
    · exact ⟨.rust, rfl⟩
    · exact ⟨.php, rfl⟩
    · exact ⟨.java, rfl⟩
  · rintro ⟨l, rfl⟩
    cases l <;> simp [separators, Language.separator]

theorem ne_nil_of_mem_separators {sep : List Char} (hsep : sep ∈ separators) : sep ≠ [] := by
  rintro rfl
  exact absurd hsep (by decide)

/-- A text without a separator. -/
def Unseparated (cs : List Char) : Prop := ∀ sep ∈ separators, ¬sep <:+: cs

/-- A text behind which a segment begins: there is nothing in it, or it ends with a separator. -/
def EndsSegment (cs : List Char) : Prop := cs = [] ∨ ∃ sep ∈ separators, sep <:+ cs

/-- A text without a character of a separator. -/
def Solid (cs : List Char) : Prop := ∀ c ∈ cs, c ≠ ':' ∧ c ≠ '\\' ∧ c ≠ '.'

/-- `s` is the last segment of `cs`: the shortest text directly behind a separator, all of `cs`
    where there is none. -/
structure IsLastSegment (cs s : List Char) : Prop where
  whole : Unseparated cs → s = cs
  behind : ¬Unseparated cs → ∃ front, ∃ sep ∈ separators, cs = front ++ sep ++ s
  shortest : ∀ front, ∀ sep ∈ separators, ∀ rest, cs = front ++ sep ++ rest → s <:+ rest

variable {cs s front : List Char}

/-! ### Reading backwards -/

/-- A separator ends a segment that is read backwards. -/
theorem segmentBackwards_separator_append {sep : List Char} (hsep : sep ∈ separators)
    (rest : List Char) : segmentBackwards (sep.reverse ++ rest) = [] := by
  simp only [separators, List.mem_cons, List.not_mem_nil, or_false] at hsep
  rcases hsep with rfl | rfl | rfl <;> simp [segmentBackwards]

/-- A character is in the segment, unless a separator ends there. -/
theorem segmentBackwards_cons (c : Char) (cs : List Char) :
    segmentBackwards (c :: cs) = c :: segmentBackwards cs ∨
      segmentBackwards (c :: cs) = [] ∧ ∃ sep ∈ separators, sep.reverse <+: c :: cs := by
  generalize hds : c :: cs = ds
  fun_cases segmentBackwards ds with
  | case1 => cases hds
  | case2 rest => exact .inr ⟨rfl, ['\\'], by decide, rest, rfl⟩
  | case3 rest => exact .inr ⟨rfl, ['.'], by decide, rest, rfl⟩
  | case4 rest => exact .inr ⟨rfl, [':', ':'], by decide, rest, rfl⟩
  | case5 =>
    obtain ⟨rfl, rfl⟩ := List.cons.inj hds
    exact .inl rfl

/-- What is read backwards is a segment, and a separator or nothing stands in front of it. -/
theorem exists_segmentBackwards (cs : List Char) : ∃ rest, cs = segmentBackwards cs ++ rest ∧
    (rest = [] ∨ ∃ sep ∈ separators, sep.reverse <+: rest) := by
  induction cs with
  | nil => exact ⟨[], rfl, .inl rfl⟩
  | cons c cs ih =>
    rcases segmentBackwards_cons c cs with h | ⟨h, hsep⟩
    · obtain ⟨rest, hcs, hrest⟩ := ih
      refine ⟨rest, ?_, hrest⟩
      rw [h, List.cons_append, ← hcs]
    · exact ⟨c :: cs, by rw [h, List.nil_append], .inr hsep⟩

/-- A segment does not reach over a separator. -/
theorem segmentBackwards_prefix {sep : List Char} (hsep : sep ∈ separators)
    (front rest : List Char) : segmentBackwards (front ++ (sep.reverse ++ rest)) <+: front := by
  induction front with
  | nil =>
    rw [List.nil_append, segmentBackwards_separator_append hsep]
  | cons c front ih =>
    rw [List.cons_append]
    rcases segmentBackwards_cons c (front ++ (sep.reverse ++ rest)) with h | ⟨h, -⟩
    · rw [h, List.cons_prefix_cons]
      exact ⟨rfl, ih⟩
    · rw [h]
      exact List.nil_prefix

/-- Characters of no separator belong to the segment. -/
theorem segmentBackwards_solid (hcs : Solid cs) (rest : List Char) :
    segmentBackwards (cs ++ rest) = cs ++ segmentBackwards rest := by
  induction cs with
  | nil => rfl
  | cons c cs ih =>
    obtain ⟨⟨hcolon, hslash, hdot⟩, hcs⟩ := List.forall_mem_cons.1 hcs
    rw [List.cons_append, segmentBackwards, ih hcs]
    · rfl
    · exact hslash
    · exact hdot
    · exact fun _ h => absurd h hcolon

/-! ### The last segment -/

/-- In front of the last segment stands a separator or nothing. -/
theorem exists_lastSegment (cs : List Char) :
    ∃ front, cs = front ++ lastSegment cs ∧ EndsSegment front := by
  obtain ⟨rest, hcs, hrest⟩ := exists_segmentBackwards cs.reverse
  refine ⟨rest.reverse, ?_, ?_⟩
  · rw [lastSegment, ← List.reverse_append, ← hcs, List.reverse_reverse]
  · rcases hrest with rfl | ⟨sep, hsep, hprefix⟩
    · exact .inl rfl
    · refine .inr ⟨sep, hsep, ?_⟩
      rw [← List.reverse_prefix, List.reverse_reverse]
      exact hprefix

theorem lastSegment_suffix {sep : List Char} (hsep : sep ∈ separators) (front rest : List Char) :
    lastSegment (front ++ sep ++ rest) <:+ rest := by
  rw [← List.reverse_prefix, lastSegment, List.reverse_reverse, List.reverse_append,
    List.reverse_append]
  exact segmentBackwards_prefix hsep rest.reverse front.reverse

/-- A last segment is cut no further. -/
theorem unseparated_lastSegment (cs : List Char) : Unseparated (lastSegment cs) := by
  rintro sep hsep ⟨before, rest, hsegment⟩
  obtain ⟨front, hcs, -⟩ := exists_lastSegment cs
  -- the separator would leave a shorter segment of `cs`
  have hshort := lastSegment_suffix hsep (front ++ before) rest
  have hwhole : front ++ before ++ sep ++ rest = cs := by
    rw [List.append_assoc, List.append_assoc, ← List.append_assoc before, hsegment, ← hcs]
  rw [hwhole, ← hsegment] at hshort
  have hlength := hshort.length_le
  have hpos := List.length_pos_iff.2 (ne_nil_of_mem_separators hsep)
  simp only [List.length_append] at hlength
  omega

theorem lastSegment_of_unseparated (h : Unseparated cs) : lastSegment cs = cs := by
  obtain ⟨front, hcs, rfl | ⟨sep, hsep, hsuffix⟩⟩ := exists_lastSegment cs
  · exact hcs.symm
  · refine absurd (hsuffix.isInfix.trans ?_) (h sep hsep)
    exact ⟨[], lastSegment cs, hcs.symm⟩

theorem lastSegment_idem (cs : List Char) : lastSegment (lastSegment cs) = lastSegment cs :=
  lastSegment_of_unseparated (unseparated_lastSegment cs)

theorem isLastSegment_lastSegment (cs : List Char) : IsLastSegment cs (lastSegment cs) where
  whole := lastSegment_of_unseparated
  behind h := by
    obtain ⟨front, hcs, rfl | ⟨sep, hsep, before, rfl⟩⟩ := exists_lastSegment cs
    · rw [List.nil_append] at hcs
      exact absurd (hcs ▸ unseparated_lastSegment cs) h
    · exact ⟨before, sep, hsep, hcs⟩
  shortest := by
    rintro front sep hsep rest rfl
    exact lastSegment_suffix hsep front rest

/-- A name has one last segment. -/
theorem isLastSegment_iff : IsLastSegment cs s ↔ s = lastSegment cs := by
  constructor
  · intro h
    by_cases hcs : Unseparated cs
    · rw [h.whole hcs, lastSegment_of_unseparated hcs]
    · have hlast := isLastSegment_lastSegment cs
      obtain ⟨front, sep, hsep, hs⟩ := h.behind hcs
      obtain ⟨front', sep', hsep', hlast'⟩ := hlast.behind hcs
      have hle := h.shortest front' sep' hsep' _ hlast'
      exact hle.eq_of_length_le (hlast.shortest front sep hsep s hs).length_le
  · rintro rfl
    exact isLastSegment_lastSegment cs

/-- Nothing is the last segment of a text behind which a segment begins. -/
theorem lastSegment_of_endsSegment (h : EndsSegment front) : lastSegment front = [] := by
  rcases h with rfl | ⟨sep, hsep, before, rfl⟩
  · rfl
  · have hsuffix := lastSegment_suffix hsep before []
    rw [List.append_nil] at hsuffix
    exact List.suffix_nil.1 hsuffix

theorem lastSegment_append_solid (front : List Char) (hs : Solid s) :
    lastSegment (front ++ s) = lastSegment front ++ s := by
  have hreverse : Solid s.reverse := fun c hc => hs c (List.mem_reverse.1 hc)
  rw [lastSegment, List.reverse_append, segmentBackwards_solid hreverse, List.reverse_append,
    List.reverse_reverse, lastSegment]

/-- Characters of no separator behind the beginning of a segment are the last segment. -/
theorem lastSegment_written (hfront : EndsSegment front) (hs : Solid s) :
    lastSegment (front ++ s) = s := by
  rw [lastSegment_append_solid front hs, lastSegment_of_endsSegment hfront, List.nil_append]

/-! ### Searching from the end -/

/-- Where `sep` stands for the last time in a text, if it stands in it. -/
def lastPlace? (sep : List Char) : List Char → Option Nat
  | [] => none
  | c :: cs =>
    match lastPlace? sep cs with
    | some i => some (i + 1)
    | none => if sep.isPrefixOf (c :: cs) then some 0 else none

/-- Where the last segment of a name begins: each separator is searched from the end, and the
    greatest end of a place where one was found counts. -/
def segmentStart (cs : List Char) : Nat :=
  (separators.filterMap fun sep => (lastPlace? sep cs).map (· + sep.length)).max?.getD 0

theorem lastPlace?_eq_none_iff {sep : List Char} (hne : sep ≠ []) :
    lastPlace? sep cs = none ↔ ∀ i, ¬sep <+: cs.drop i := by
  induction cs with
  | nil => simpa [lastPlace?] using hne
  | cons c cs ih =>
    rw [lastPlace?]
    cases hplace : lastPlace? sep cs with
    | some i =>
      rw [hplace] at ih
      exact ⟨fun h => (nomatch h), fun h => absurd (ih.2 fun i => h (i + 1)) (by simp)⟩
    | none =>
      have hbehind := ih.1 hplace
      by_cases hfront : sep <+: c :: cs
      · rw [if_pos (List.isPrefixOf_iff_prefix.2 hfront)]
        exact ⟨fun h => (nomatch h), fun h => absurd hfront (h 0)⟩
      · rw [if_neg (mt List.isPrefixOf_iff_prefix.1 hfront)]
        refine ⟨fun _ i => ?_, fun _ => rfl⟩
        cases i with
        | zero => exact hfront
        | succ i => exact hbehind i

/-- The last place is one, and none is behind it. -/
theorem prefix_of_lastPlace? {sep : List Char} {i : Nat} (hne : sep ≠ [])
    (h : lastPlace? sep cs = some i) :
    sep <+: cs.drop i ∧ ∀ j, sep <+: cs.drop j → j ≤ i := by
  induction cs generalizing i with
  | nil => cases h
  | cons c cs ih =>
    rw [lastPlace?] at h
    cases hplace : lastPlace? sep cs with
    | some k =>
      rw [hplace] at h
      obtain rfl := Option.some.inj h
      obtain ⟨hhere, hlast⟩ := ih hplace
      refine ⟨hhere, fun j hj => ?_⟩
      cases j with
      | zero => exact Nat.zero_le _
      | succ j => exact Nat.succ_le_succ (hlast j hj)
    | none =>
      rw [hplace] at h
      simp only [Option.ite_none_right_eq_some, Option.some.injEq] at h
      obtain ⟨hfront, rfl⟩ := h
      refine ⟨List.isPrefixOf_iff_prefix.1 hfront, fun j hj => ?_⟩
      cases j with
      | zero => exact Nat.le_refl 0
      | succ j => exact absurd hj ((lastPlace?_eq_none_iff hne).1 hplace j)

theorem exists_lastPlace {sep : List Char} (hne : sep ≠ []) {i : Nat} (h : sep <+: cs.drop i) :
    ∃ k, lastPlace? sep cs = some k ∧ i ≤ k := by
  cases hplace : lastPlace? sep cs with
  | none => exact absurd h ((lastPlace?_eq_none_iff hne).1 hplace i)
  | some k => exact ⟨k, rfl, (prefix_of_lastPlace? hne hplace).2 i h⟩

theorem prefix_drop_append (front sep rest : List Char) :
    sep <+: (front ++ sep ++ rest).drop front.length := by
  rw [List.append_assoc, List.drop_left]
  exact List.prefix_append sep rest

/-- No separator ends behind the place where the last segment begins. -/
theorem le_segmentStart {sep : List Char} (hsep : sep ∈ separators) {i : Nat}
    (h : sep <+: cs.drop i) : i + sep.length ≤ segmentStart cs := by
  obtain ⟨k, hk, hle⟩ := exists_lastPlace (ne_nil_of_mem_separators hsep) h
  have hmem : k + sep.length ∈
      separators.filterMap fun sep => (lastPlace? sep cs).map (· + sep.length) :=
    List.mem_filterMap.2 ⟨sep, hsep, by rw [hk, Option.map_some]⟩
  unfold segmentStart
  generalize (separators.filterMap fun sep => (lastPlace? sep cs).map (· + sep.length)) = ends
    at hmem ⊢
  cases hmax : ends.max? with
  | none =>
    rw [List.max?_eq_none_iff.1 hmax] at hmem
    cases hmem
  | some e =>
    have hgreatest := (List.max?_eq_some_iff.1 hmax).2 _ hmem
    rw [Option.getD_some]
    omega

/-- The last segment begins behind a separator, or at the beginning of the name. -/
theorem segmentStart_cases (cs : List Char) : segmentStart cs = 0 ∧ Unseparated cs ∨
    ∃ sep ∈ separators, ∃ i, sep <+: cs.drop i ∧ segmentStart cs = i + sep.length := by
  cases hmax : (separators.filterMap fun sep => (lastPlace? sep cs).map (· + sep.length)).max? with
  | none =>
    refine .inl ⟨by rw [segmentStart, hmax, Option.getD_none], ?_⟩
    rintro sep hsep ⟨front, rest, rfl⟩
    obtain ⟨k, hk, -⟩ := exists_lastPlace (ne_nil_of_mem_separators hsep)
      (prefix_drop_append front sep rest)
    have hnone := List.filterMap_eq_nil_iff.1 (List.max?_eq_none_iff.1 hmax) sep hsep
    rw [hk] at hnone
    cases hnone
  | some e =>
    obtain ⟨sep, hsep, he⟩ := List.mem_filterMap.1 (List.max?_eq_some_iff.1 hmax).1
    obtain ⟨i, hi, rfl⟩ := Option.map_eq_some_iff.1 he
    have hplace := (prefix_of_lastPlace? (ne_nil_of_mem_separators hsep) hi).1
    exact .inr ⟨sep, hsep, i, hplace, by rw [segmentStart, hmax, Option.getD_some]⟩

/-- Searching all separators from the end finds the last segment. -/
theorem drop_segmentStart (cs : List Char) : cs.drop (segmentStart cs) = lastSegment cs := by
  refine isLastSegment_iff.1 ⟨fun h => ?_, fun h => ?_, ?_⟩
  · rcases segmentStart_cases cs with ⟨hzero, -⟩ | ⟨sep, hsep, i, hplace, -⟩
    · rw [hzero, List.drop_zero]
    · exact absurd (hplace.isInfix.trans (List.drop_suffix i cs).isInfix) (h sep hsep)
  · rcases segmentStart_cases cs with ⟨-, hnone⟩ | ⟨sep, hsep, i, ⟨rest, hrest⟩, hstart⟩
    · exact absurd hnone h
    · refine ⟨cs.take i, sep, hsep, ?_⟩
      rw [hstart, ← List.drop_drop, ← hrest, List.drop_left, List.append_assoc, hrest,
        List.take_append_drop]
  · rintro front sep hsep rest rfl
    have hle := le_segmentStart hsep (prefix_drop_append front sep rest)
    have hrest : (front ++ sep ++ rest).drop (front.length + sep.length) = rest := by
      rw [← List.length_append, List.drop_left]
    have hsuffix := List.drop_suffix_drop_left (front ++ sep ++ rest) hle
    rwa [hrest] at hsuffix

/-! ### Paths -/

theorem EndsSegment.append {cs ds : List Char} (hcs : EndsSegment cs) (hds : EndsSegment ds) :
    EndsSegment (cs ++ ds) := by
  rcases hds with rfl | ⟨sep, hsep, hsuffix⟩
  · rw [List.append_nil]
    exact hcs
  · exact .inr ⟨sep, hsep, hsuffix.trans (List.suffix_append cs ds)⟩

theorem endsSegment_separator {sep : List Char} (hsep : sep ∈ separators) (cs : List Char) :
    EndsSegment (cs ++ sep) := .inr ⟨sep, hsep, List.suffix_append cs sep⟩

theorem joinPath_nil (lead sep : List Char) : UseTree.joinPath lead [] sep = lead := by
  unfold UseTree.joinPath
  cases lead <;> rfl

/-- A path that is written below another one keeps its last segment. -/
theorem lastSegment_joinPath {sep : List Char} (hsep : sep ∈ separators) (lead : List Char)
    (hfront : EndsSegment front) (hs : Solid s) (hne : front ++ s ≠ []) :
    lastSegment (UseTree.joinPath lead (front ++ s) sep) = s := by
  unfold UseTree.joinPath
  by_cases hlead : lead = []
  · rw [hlead, List.isEmpty_nil, if_pos rfl]
    exact lastSegment_written hfront hs
  · rw [if_neg (by simpa using hlead), if_neg (by simpa using hne), ← List.append_assoc]
    exact lastSegment_written ((endsSegment_separator hsep lead).append hfront) hs

/-- A segment below a path is the last one; where none is written, it is that of the path. -/
theorem lastSegment_joinPath_solid {sep : List Char} (hsep : sep ∈ separators) (lead : List Char)
    (hs : Solid s) :
    lastSegment (UseTree.joinPath lead s sep) = if s = [] then lastSegment lead else s := by
  by_cases hne : s = []
  · rw [if_pos hne, hne, joinPath_nil]
  · rw [if_neg hne]
    exact lastSegment_joinPath hsep lead (.inl rfl) hs (by simpa using hne)

/-! ### Imports -/

/-- The symbols of imports. `path` is what the import writes for a symbol, and `lead` what stands in
    front of it. -/
inductive Imported : Language → List Char → List Char → Symbol → Prop
  | leaf {l : Language} {lead tree : List Char} {sym : Symbol} : l = .rust ∨ l = .php →
      UseTree.leaf? l.separator lead tree = some sym →
      Imported l lead (UseTree.splitAlias tree).1 sym
  | qualified (path : List Char) : Imported .java [] path (.plain (String.ofList path))
  | module (part : List Char) :
      Imported .python [] (UseTree.splitAlias part).1 (ImportStatement.moduleSymbol part)
  | member {source part : List Char} {sym : Symbol} :
      ImportStatement.memberSymbol? source part = some sym →
      Imported .python source (UseTree.splitAlias part).1 sym

/-- Whether an import writes a name for a symbol: a leaf of a use tree may stand for the path in
    front of its group. -/
def WritesName (l : Language) (path : List Char) : Prop :=
  l = .rust ∨ l = .php → path ≠ [] ∧ path ≠ ['s', 'e', 'l', 'f']

theorem Symbol.ofImport_eq (fullName : String) (otherName : Option String) :
    Symbol.ofImport fullName otherName = ⟨fullName, shortName fullName, otherName⟩ := by
  cases otherName <;> rfl

theorem short_of_leaf? {sep lead tree : List Char} {sym : Symbol}
    (h : UseTree.leaf? sep lead tree = some sym) :
    sym.short = shortName (String.ofList
      (if (UseTree.splitAlias tree).1 = ['s', 'e', 'l', 'f'] then lead
        else UseTree.joinPath lead (UseTree.splitAlias tree).1 sep)) := by
  unfold UseTree.leaf? at h
  dsimp only at h
  split at h
  · cases h
  · generalize (if (UseTree.splitAlias tree).1 = ['s', 'e', 'l', 'f'] then lead
      else UseTree.joinPath lead (UseTree.splitAlias tree).1 sep) = full at h ⊢
    split at h
    · cases h
    · rw [← Option.some.inj h, Symbol.ofImport_eq]

theorem short_of_memberSymbol? {source part : List Char} {sym : Symbol}
    (h : ImportStatement.memberSymbol? source part = some sym) :
    sym.short = shortName (String.ofList
      ((if source.getLast? = some '.' then source else source ++ ['.']) ++
        (UseTree.splitAlias part).1)) := by
  unfold ImportStatement.memberSymbol? at h
  dsimp only at h
  split at h
  · cases h
  · rw [← Option.some.inj h, Symbol.ofImport_eq]
    split <;> rfl

/-- Every symbol of a use tree is that of a leaf. -/
theorem exists_leaf {sep lead tree : List Char} {sym : Symbol}
    (h : sym ∈ UseTree.symbols sep lead tree) :
    ∃ lead' tree', UseTree.leaf? sep lead' tree' = some sym := by
  fun_induction UseTree.symbols sep lead tree with
  | case1 => cases h
  | case2 lead tree body hbody hgroup => exact ⟨lead, body, Option.mem_toList.1 h⟩
  | case3 lead tree body hbody base inner hgroup below ih =>
    obtain ⟨⟨part, hpart⟩, -, h⟩ := List.mem_flatMap.1 h
    exact ih part hpart h

theorem imported_of_mem_symbolsOfList {l : Language} {list : List Char} {sym : Symbol}
    (hl : l = .rust ∨ l = .php) (h : sym ∈ UseTree.symbolsOfList l.separator list) :
    ∃ lead path, Imported l lead path sym := by
  obtain ⟨tree, -, h⟩ := List.mem_flatMap.1 h
  obtain ⟨lead, body, hleaf⟩ := exists_leaf h
  exact ⟨lead, _, .leaf hl hleaf⟩

/-- Every symbol of a file is that of an import. -/
theorem exists_imported {l : Language} {content : String} {sym : Symbol}
    (h : sym ∈ importsOf l content) : ∃ lead path, Imported l lead path sym := by
  obtain ⟨statement, -, h⟩ := List.mem_flatMap.1 h
  cases l with
  | rust =>
    simp only [ImportStatement.symbols, ImportStatement.rustSymbols] at h
    split at h
    · exact imported_of_mem_symbolsOfList (.inl rfl) h
    · cases h
  | php =>
    simp only [ImportStatement.symbols, ImportStatement.phpSymbols] at h
    split at h
    · split at h
      · cases h
      · exact imported_of_mem_symbolsOfList (.inr rfl) h
    · cases h
  | java =>
    simp only [ImportStatement.symbols, ImportStatement.javaSymbols] at h
    split at h
    · split at h
      · cases h
      · obtain rfl := List.mem_singleton.1 h
        exact ⟨[], _, .qualified _⟩
    · cases h
  | python =>
    simp only [ImportStatement.symbols, ImportStatement.pythonSymbols] at h
    split at h
    · obtain ⟨part, -, rfl⟩ := List.mem_map.1 h
      exact ⟨[], _, .module part⟩
    · split at h
      · cases h
      · split at h
        · cases h
        · obtain ⟨part, -, hpart⟩ := List.mem_filterMap.1 h
          exact ⟨_, _, .member hpart⟩

/-! ### Short names of imports -/

theorem shortName_ofList (cs : List Char) :
    shortName (String.ofList cs) = String.ofList (lastSegment cs) := by
  rw [shortName, String.toList_ofList]

variable {l : Language} {lead path : List Char} {sym : Symbol}

/-- A symbol has the short name that its import writes last. -/
theorem short_of_imported (h : Imported l lead (front ++ s) sym) (hfront : EndsSegment front)
    (hs : Solid s) (hname : WritesName l (front ++ s)) : sym.short = String.ofList s := by
  generalize hpath : front ++ s = path at h hname
  cases h with
  | leaf hl hleaf =>
    obtain ⟨hne, hself⟩ := hname hl
    rw [short_of_leaf? hleaf, if_neg hself, shortName_ofList, ← hpath,
      lastSegment_joinPath (mem_separators_iff.2 ⟨l, rfl⟩) lead hfront hs (hpath ▸ hne)]
  | qualified =>
    rw [← hpath]
    exact (shortName_ofList _).trans (congrArg _ (lastSegment_written hfront hs))
  | module =>
    simp only [ImportStatement.moduleSymbol, Symbol.ofImport_eq]
    rw [← hpath, shortName_ofList, lastSegment_written hfront hs]
  | member hmember =>
    have hlead : EndsSegment (if lead.getLast? = some '.' then lead else lead ++ ['.']) := by
      split
      · next hdot =>
        obtain ⟨before, hbefore⟩ := List.getLast?_eq_some_iff.1 hdot
        exact .inr ⟨['.'], by decide, before, hbefore.symm⟩
      · exact endsSegment_separator (by decide) lead
    rw [short_of_memberSymbol? hmember, ← hpath, ← List.append_assoc, shortName_ofList,
      lastSegment_written (hlead.append hfront) hs]

/-- A leaf without a name of its own has the short name of what stands in front of its group. -/
theorem short_of_unnamed (h : Imported l lead path sym) (hname : ¬WritesName l path) :
    sym.short = shortName (String.ofList lead) := by
  cases h with
  | @leaf l lead tree sym hl hleaf =>
    rw [short_of_leaf? hleaf]
    by_cases hself : (UseTree.splitAlias tree).1 = ['s', 'e', 'l', 'f']
    · rw [if_pos hself]
    · have hnil : (UseTree.splitAlias tree).1 = [] := by
        by_contra hne
        exact hname fun _ => ⟨hne, hself⟩
      rw [if_neg hself, hnil, joinPath_nil]
  | qualified => exact absurd (fun hl => by simp at hl) hname
  | module => exact absurd (fun hl => by simp at hl) hname
  | member => exact absurd (fun hl => by simp at hl) hname

/-- The last segment of a name is the shortest text directly behind a separator, and the whole
    name where there is none, and that says which text it is: it begins at the greatest end of the
    places where the separators are found, each searched from the end. It has no separator,
    nothing or a separator stands in front of it, and it is its own last segment. Written below a
    path it is the last segment of the whole, unless it is empty: nothing is put below a path
    then, whose last segment stays. So every imported symbol has the short name that its import
    writes last; a leaf that writes no name of its own has the short name of what stands in front
    of its group. -/
theorem shortName_last_written :
    (∀ name : String,
      (∀ s, IsLastSegment name.toList s ↔ s = (shortName name).toList) ∧
      shortName name = String.ofList (name.toList.drop (segmentStart name.toList)) ∧
      Unseparated (shortName name).toList ∧
      (∃ front, name.toList = front ++ (shortName name).toList ∧ EndsSegment front) ∧
      shortName (shortName name) = shortName name) ∧
    (∀ (l : Language) (lead s : List Char), Solid s →
      shortName (String.ofList (UseTree.joinPath lead s l.separator)) =
        if s = [] then shortName (String.ofList lead) else String.ofList s) ∧
    (∀ (l : Language) (content : String), ∀ sym ∈ importsOf l content,
      ∃ lead path, Imported l lead path sym) ∧
    ∀ (l : Language) (lead path : List Char) (sym : Symbol), Imported l lead path sym →
      (WritesName l path → ∀ front s, path = front ++ s → EndsSegment front → Solid s →
        sym.short = String.ofList s) ∧
      (¬WritesName l path → sym.short = shortName (String.ofList lead)) := by
  refine ⟨fun name => ?_, fun l lead s hs => ?_, fun l content sym => exists_imported, ?_⟩
  · have htoList : (shortName name).toList = lastSegment name.toList := String.toList_ofList
    rw [htoList]
    refine ⟨fun s => isLastSegment_iff, ?_, unseparated_lastSegment _, exists_lastSegment _, ?_⟩
    · rw [drop_segmentStart, shortName]
    · rw [shortName, htoList, lastSegment_idem, shortName]
  · rw [shortName_ofList, lastSegment_joinPath_solid (mem_separators_iff.2 ⟨l, rfl⟩) lead hs,
      shortName_ofList]
    split <;> rfl
  · intro l lead path sym h
    refine ⟨?_, short_of_unnamed h⟩
    rintro hname front s rfl hfront hs
    exact short_of_imported h hfront hs hname

/-- In `use a::b::{c::D as E, self};` a name is written for the first leaf and none for the
    second. -/
theorem shortName_last_written_group :
    Solid ['D'] ∧ WritesName .rust ['c', ':', ':', 'D'] ∧ ¬WritesName .rust ['s', 'e', 'l', 'f'] ∧
    (Symbol.ofImport "a::b::c::D" (some "E")).short = "D" ∧
    (Symbol.ofImport "a::b" none).short = shortName "a::b" := by
  obtain ⟨-, -, -, h⟩ := shortName_last_written
  have hsolid : Solid ['D'] := by simp [Solid]
  have hname : WritesName .rust ['c', ':', ':', 'D'] := by simp [WritesName]
  have hself : ¬WritesName .rust ['s', 'e', 'l', 'f'] := by simp [WritesName]
  have hleaf : Imported .rust "a::b".toList ['c', ':', ':', 'D']
      (Symbol.ofImport "a::b::c::D" (some "E")) :=
    @Imported.leaf .rust _ "c::D as E".toList _ (.inl rfl) (by decide +kernel)
  have hpath : Imported .rust "a::b".toList ['s', 'e', 'l', 'f'] (Symbol.ofImport "a::b" none) :=
    @Imported.leaf .rust _ "self".toList _ (.inl rfl) (by decide +kernel)
  refine ⟨hsolid, hname, hself, ?_, ?_⟩
  · exact (h _ _ _ _ hleaf).1 hname ['c', ':', ':'] ['D'] rfl
      (endsSegment_separator (by decide) ['c']) hsolid
  · exact (h _ _ _ _ hpath).2 hself

example : shortName "a:::b.c::" = "" ∧ shortName "a.b:::c:d" = "c:d" := by decide +kernel

/-- Below a path an empty segment is not the last one, so a leaf that is only renamed has the short
    name of the path, and so has one that stands for it. -/
theorem shortName_not_always_last_written :
    (¬∀ (l : Language) (lead s : List Char), Solid s →
      shortName (String.ofList (UseTree.joinPath lead s l.separator)) = String.ofList s) ∧
    importsOf .rust "use a::b::{:: as X};\n" = [⟨"a::b", "b", some "X"⟩] ∧
    importsOf .rust "use a::b::{self};\n" = [⟨"a::b", "b", none⟩] := by
  refine ⟨fun h => ?_, by decide +kernel, by decide +kernel⟩
  have hempty := h .rust ['a'] [] (by simp [Solid])
  exact absurd hempty (by decide +kernel)

end DocDirectives
