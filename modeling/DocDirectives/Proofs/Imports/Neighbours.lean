import DocDirectives.Proofs.Imports.Comments

/-! # Statements on one line

    A statement takes its last line to the end, and nothing behind its semicolon is read. So of two
    statements on lines of their own each gives its symbols, and of two on one line only the first:
    of the second the lines below are left, which are read like any others.

        statement ──▶ keyword gap body ';'
        two lines ──▶ statement '\n' statement
        one line  ──▶ statement gap statement -/

namespace DocDirectives.ImportStatement

open Text UseTree

/-- What begins a statement that ends with a semicolon. -/
inductive Opening : Language → List Char → Prop
  | useTrees {l : Language} {keyword : List Char} : Keyword l keyword → Opening l keyword
  | java : Opening .java "import ".toList

/-- A statement from its first column up to its semicolon, on any number of lines. -/
inductive Complete (l : Language) : List Char → Prop
  | mk {keyword gap body : List Char} : Opening l keyword → Gap gap → startsBlank body = false →
      ';' ∉ body → Complete l (keyword ++ gap ++ (body ++ [';']))

/-- Statements that begin on lines of their own. -/
def onLines (statements : List (List Char)) : List Char := statements.flatMap (· ++ ['\n'])

/-- Statements of which two neighbours share a line. -/
def sharingLine (front : List (List Char)) (statement between next : List Char)
    (back : List (List Char)) : List Char :=
  onLines front ++ (statement ++ (between ++ next) ++ '\n' :: onLines back)

variable {l : Language} {keyword gap body statement next between line tail rest : List Char}
  {front back : List (List Char)}

/-! ### One statement -/

theorem Opening.ne_python (h : Opening l keyword) : l ≠ .python := by
  cases h with
  | useTrees h => exact h.ne_python
  | java => decide

theorem Opening.newline_notMem (h : Opening l keyword) : '\n' ∉ keyword := by
  cases h with
  | useTrees h => exact h.newline_notMem
  | java => decide

theorem Opening.semicolon_notMem (h : Opening l keyword) : ';' ∉ keyword := by
  cases h with
  | useTrees h => exact h.semicolon_notMem
  | java => decide

theorem Opening.startsBlank (h : Opening l keyword) (rest : List Char) :
    Text.startsBlank (keyword ++ rest) = false := by
  cases h with
  | useTrees h => exact h.startsBlank rest
  | java => rfl

theorem Opening.item? (h : Opening l keyword) (rest : List Char) :
    ImportStatement.item? l (keyword ++ rest) = some rest := by
  cases h with
  | java => exact after?_append _ _
  | useTrees h =>
    cases l with
    | rust => rw [ImportStatement.item?, h.afterVisibility?, after?_append]
    | php =>
      cases h
      exact after?_append _ _
    | java => cases h
    | python => cases h

theorem Opening.beginsAt (h : Opening l keyword) (rest : List Char) :
    ImportStatement.beginsAt l (keyword ++ rest) = true := by
  rw [beginsAt_eq_isSome h.ne_python, h.item?]
  rfl

/-- A statement is collected with all that stands behind it on its last line. -/
theorem Complete.collect (h : Complete l statement) (htail : '\n' ∉ tail)
    (lines : List (List Char)) :
    ImportStatement.collect l none (splitOn '\n' (statement ++ tail) ++ lines) =
      unbroken (statement ++ tail) :: ImportStatement.collect l none lines := by
  obtain ⟨hk, hg, hstart, hsemi⟩ := h
  rw [List.append_assoc _ _ tail, List.append_assoc _ _ tail, List.singleton_append]
  refine collect_semicolon hk.ne_python (List.not_mem_append hk.newline_notMem hg.newline_notMem)
    (List.not_mem_append hk.semicolon_notMem hg.semicolon_notMem) (fun rest => ?_)
    (fun rest => ?_) hsemi hstart htail lines
  · rw [List.append_assoc]
    exact hk.startsBlank _
  · rw [List.append_assoc]
    exact hk.beginsAt _

/-- What stands behind a statement on its last line has no part in its symbols. -/
theorem Complete.symbols (h : Complete l statement) (htail : '\n' ∉ tail) :
    ImportStatement.symbols l (unbroken (statement ++ tail)) =
      ImportStatement.symbols l (unbroken statement) := by
  obtain @⟨keyword, gap, body, hk, hg, hstart, hsemi⟩ := h
  obtain ⟨body', hbody⟩ := exists_unbroken (c := ';') (by decide) body
  have hfront : '\n' ∉ keyword ++ gap :=
    List.not_mem_append hk.newline_notMem hg.newline_notMem
  have hline : ∀ tail, '\n' ∉ tail → unbroken (keyword ++ gap ++ (body ++ ';' :: tail)) =
      keyword ++ (gap ++ (body' ++ [';'])) ++ trimEnd tail := by
    intro tail htail
    obtain ⟨c, more, hc, hblank⟩ := exists_cons_of_startsBlank hstart tail
    rw [hc, unbroken_append_of_newline_notMem hfront hblank, ← hc, hbody tail htail]
    simp
  have hone := hline [] (by simp)
  have hall := hline tail htail
  rw [show trimEnd [] = [] from rfl, List.append_nil] at hone
  rw [List.append_assoc _ _ tail, List.append_assoc _ _ tail, List.singleton_append, hall, hone]
  exact symbols_append (hk.item? _) (by simp) _

/-! ### Sources -/

/-- The lines of a text that a language other than Python reads are those between line feeds. -/
theorem importsOf_eq (hl : l ≠ .python) (cs : List Char) : importsOf l (String.ofList cs) =
    (collect l none (splitOn '\n' cs)).flatMap (symbols l) := by
  rw [importsOf, String.toList_ofList, collect_lines hl]

theorem Complete.ne_python (h : Complete l statement) : l ≠ .python := by
  obtain ⟨hk, -⟩ := h
  exact hk.ne_python

theorem Complete.importsOf (h : Complete l statement) :
    DocDirectives.importsOf l (String.ofList statement) =
      ImportStatement.symbols l (unbroken statement) := by
  have hnil : '\n' ∉ ([] : List Char) := List.not_mem_nil
  have hcollect := h.collect hnil []
  rw [List.append_nil, List.append_nil] at hcollect
  rw [importsOf_eq h.ne_python, hcollect, List.flatMap_cons, ImportStatement.collect,
    List.flatMap_nil, List.append_nil]

/-- A statement gives its symbols whatever stands behind it on its last line, and the lines below
    give theirs. -/
theorem Complete.importsOf_line (h : Complete l statement) (htail : '\n' ∉ tail)
    (rest : List Char) :
    DocDirectives.importsOf l (String.ofList (statement ++ tail ++ '\n' :: rest)) =
      DocDirectives.importsOf l (String.ofList statement) ++
        DocDirectives.importsOf l (String.ofList rest) := by
  rw [importsOf_eq h.ne_python, importsOf_eq h.ne_python rest, splitOn_newline_append,
    h.collect htail, List.flatMap_cons, h.symbols htail, h.importsOf]

theorem importsOf_nil (l : Language) : importsOf l (String.ofList []) = [] := by
  cases l <;> rfl

theorem importsOf_onLines_append (h : ∀ statement ∈ front, Complete l statement)
    (rest : List Char) :
    importsOf l (String.ofList (onLines front ++ rest)) =
      front.flatMap (fun statement => importsOf l (String.ofList statement)) ++
        importsOf l (String.ofList rest) := by
  induction front with
  | nil => rfl
  | cons statement front ih =>
    have hnil : '\n' ∉ ([] : List Char) := List.not_mem_nil
    have hline := (h statement List.mem_cons_self).importsOf_line hnil (onLines front ++ rest)
    have hfront := ih fun s hs => h s (List.mem_cons_of_mem _ hs)
    rw [List.append_nil] at hline
    rw [List.flatMap_cons, List.append_assoc, ← hfront, ← hline]
    simp [onLines]

/-- Statements on lines of their own give their symbols in order. -/
theorem importsOf_onLines (h : ∀ statement ∈ front, Complete l statement) :
    importsOf l (String.ofList (onLines front)) =
      front.flatMap fun statement => importsOf l (String.ofList statement) := by
  have hall := importsOf_onLines_append h []
  rwa [List.append_nil, importsOf_nil, List.append_nil] at hall

/-- Lines that begin no statement import nothing. -/
theorem importsOf_idle (hl : l ≠ .python) (h : ∀ line ∈ splitOn '\n' tail, opens l line = false)
    (rest : List Char) :
    importsOf l (String.ofList (tail ++ '\n' :: rest)) = importsOf l (String.ofList rest) := by
  rw [importsOf_eq hl, importsOf_eq hl, splitOn_newline_append, collect_append_of_opens h]

/-- On a shared line the first statement gives its symbols, and the second one is not read before
    its first line feed. -/
theorem importsOf_sharingLine (h : ∀ s ∈ front ++ statement :: back, Complete l s)
    (hbetween : Gap between) (hline : '\n' ∉ line)
    (hrest : tail ++ '\n' :: onLines back = '\n' :: rest) :
    importsOf l (String.ofList (sharingLine front statement between (line ++ tail) back)) =
      front.flatMap (fun s => importsOf l (String.ofList s)) ++
        (importsOf l (String.ofList statement) ++ importsOf l (String.ofList rest)) := by
  have hstatement := h statement (by simp)
  have hfront : ∀ s ∈ front, Complete l s := fun s hs => h s (List.mem_append_left _ hs)
  have hfirst : '\n' ∉ between ++ line := List.not_mem_append hbetween.newline_notMem hline
  have htext : sharingLine front statement between (line ++ tail) back =
      onLines front ++ (statement ++ (between ++ line) ++ '\n' :: rest) := by
    rw [← hrest]
    simp [sharingLine]
  rw [htext, importsOf_onLines_append hfront, hstatement.importsOf_line hfirst]

/-- Nothing else is read of the second one where its further lines begin no statement. -/
theorem importsOf_sharingLine_of_idle (h : ∀ s ∈ front ++ statement :: back, Complete l s)
    (hbetween : Gap between) (hidle : ∀ line ∈ (splitOn '\n' next).tail, opens l line = false) :
    importsOf l (String.ofList (sharingLine front statement between next back)) =
      (front ++ statement :: back).flatMap fun s => importsOf l (String.ofList s) := by
  have hl := (h statement (by simp)).ne_python
  have hback := importsOf_onLines fun s hs =>
    h s (List.mem_append_right _ (List.mem_cons_of_mem _ hs))
  rw [List.flatMap_append, List.flatMap_cons, ← hback]
  by_cases hbreak : '\n' ∈ next
  · obtain ⟨line, more, rfl, hline⟩ := List.eq_append_cons_of_mem hbreak
    rw [splitOn_line hline, List.tail_cons] at hidle
    have hrest : '\n' :: more ++ '\n' :: onLines back =
        '\n' :: (more ++ '\n' :: onLines back) := rfl
    rw [importsOf_sharingLine h hbetween hline hrest, importsOf_idle hl hidle]
  · rw [← List.append_nil next, importsOf_sharingLine h hbetween hbreak rfl]

/-- Each of two statements on lines of their own gives its symbols. On one line the second gives
    none: the source is read as if it went on behind the line that they share. Unless a line below
    that begins a statement, the imports stay as they are exactly when the second statement imports
    nothing. -/
theorem importsOf_neighbours (h : ∀ s ∈ front ++ statement :: next :: back, Complete l s)
    (hbetween : Gap between) :
    importsOf l (String.ofList (onLines (front ++ statement :: next :: back))) =
      (front ++ statement :: next :: back).flatMap (fun s => importsOf l (String.ofList s)) ∧
    (∀ line below, next = line ++ below → '\n' ∉ line → below = [] ∨ below.head? = some '\n' →
      importsOf l (String.ofList (sharingLine front statement between next back)) =
        importsOf l
          (String.ofList (onLines front ++ (statement ++ below ++ '\n' :: onLines back)))) ∧
    ((∀ line ∈ (splitOn '\n' next).tail, opens l line = false) →
      importsOf l (String.ofList (sharingLine front statement between next back)) =
        (front ++ statement :: back).flatMap (fun s => importsOf l (String.ofList s)) ∧
      (importsOf l (String.ofList (sharingLine front statement between next back)) =
          importsOf l (String.ofList (onLines (front ++ statement :: next :: back))) ↔
        importsOf l (String.ofList next) = [])) := by
  have hsublist : (front ++ statement :: back).Sublist (front ++ statement :: next :: back) :=
    (List.Sublist.refl front).append ((List.sublist_cons_self next back).cons_cons statement)
  have hothers : ∀ s ∈ front ++ statement :: back, Complete l s := fun s hs =>
    h s (hsublist.subset hs)
  refine ⟨importsOf_onLines h, fun line below hnext hline hbelow => ?_, fun hidle => ?_⟩
  · obtain ⟨rest, hrest⟩ : ∃ rest, below ++ '\n' :: onLines back = '\n' :: rest := by
      rcases hbelow with rfl | hhead
      · exact ⟨onLines back, rfl⟩
      · obtain ⟨more, rfl⟩ := List.head?_eq_some_iff.1 hhead
        exact ⟨more ++ '\n' :: onLines back, rfl⟩
    have hbelow := importsOf_sharingLine hothers (by decide : Gap []) List.not_mem_nil hrest
    rw [hnext, importsOf_sharingLine hothers hbetween hline hrest, ← hbelow]
    rfl
  · have hone := importsOf_sharingLine_of_idle hothers hbetween hidle
    refine ⟨hone, ?_⟩
    rw [hone, importsOf_onLines h]
    simp only [List.flatMap_append, List.flatMap_cons, List.append_cancel_left_eq]
    exact List.self_eq_append_left

/-- Of a group on several lines nothing is left behind another statement. -/
theorem importsOf_neighbours_group :
    (∀ s ∈ [] ++ "use a::B;".toList :: "use c::\x7b\n    D,\n\x7d;".toList :: ["use e::F;".toList],
      Complete .rust s) ∧ Gap [' '] ∧
    importsOf .rust "use a::B; use c::\x7b\n    D,\n\x7d;\nuse e::F;\n" =
      [.plain "a::B", .plain "e::F"] ∧
    importsOf .rust "use a::B;\nuse c::\x7b\n    D,\n\x7d;\nuse e::F;\n" =
      [.plain "a::B", .plain "c::D", .plain "e::F"] := by
  have hnil : Gap [] := by decide
  have hspace : Gap [' '] := by decide
  have hstatement : ∀ body : List Char, startsBlank body = false → ';' ∉ body →
      Complete .rust ("use ".toList ++ [] ++ (body ++ [';'])) := fun _ => .mk (.useTrees .rust) hnil
  have hcomplete : ∀ s ∈ [] ++ "use a::B;".toList :: "use c::\x7b\n    D,\n\x7d;".toList ::
      ["use e::F;".toList], Complete .rust s := by
    simp only [List.nil_append, List.forall_mem_cons, List.not_mem_nil, false_imp_iff, implies_true,
      and_true]
    exact ⟨hstatement "a::B".toList rfl (by decide),
      hstatement "c::\x7b\n    D,\n\x7d".toList rfl (by decide),
      hstatement "e::F".toList rfl (by decide)⟩
  obtain ⟨htwo, -, hone⟩ := importsOf_neighbours hcomplete hspace
  have hshared := (hone (by decide +kernel)).1
  refine ⟨hcomplete, hspace, hshared.trans ?_, htwo.trans ?_⟩ <;> decide +kernel

/-- A second statement on a line is not always read. -/
theorem importsOf_neighbours_not_always_same :
    importsOf .rust "use a::B; use c::D;\n" ≠ importsOf .rust "use a::B;\nuse c::D;\n" := by
  decide +kernel

end DocDirectives.ImportStatement
