import DocDirectives.Proofs.Imports.Statements

/-! # Comments among imports

    A comment changes no imports where no statement is held open behind it: on lines of its own
    between statements, behind a line that begins no statement, and behind the end of a statement.
    A line is read in one step, which may emit a statement and may hold one; a comment in such a
    place changes neither. Inside a statement that goes on it becomes a part of it. -/

namespace DocDirectives.ImportStatement

open Text UseTree

variable {l : Language} {held : Option (List Char)} {line statement item g comment : List Char}

/-! ### One line -/

/-- Whether a line begins a statement. -/
def opens (l : Language) (line : List Char) : Bool :=
  !startsBlank line && beginsAt l (trimEnd line)

/-- Whether a line belongs to a statement. -/
def belongs (l : Language) (held : Option (List Char)) (line : List Char) : Bool :=
  held.isSome || opens l line

/-- The statement so far, of a line that belongs to one. -/
def extended (held : Option (List Char)) (line : List Char) : List Char :=
  match held with
  | some front => front ++ ' ' :: trim line
  | none => trimEnd line

/-- The statement that a line completes. -/
def emitted (l : Language) (held : Option (List Char)) (line : List Char) : Option (List Char) :=
  if belongs l held line && isComplete l (extended held line) then some (extended held line)
  else none

/-- The statement that a line leaves open. -/
def next (l : Language) (held : Option (List Char)) (line : List Char) : Option (List Char) :=
  if belongs l held line && !isComplete l (extended held line) then some (extended held line)
  else none

theorem collect_cons (lines : List (List Char)) :
    collect l held (line :: lines) =
      (emitted l held line).toList ++ collect l (next l held line) lines := by
  cases held with
  | some front =>
    simp only [collect, emitted, next, belongs, extended, Option.isSome_some, Bool.true_or,
      Bool.true_and]
    cases isComplete l (front ++ ' ' :: trim line) <;> rfl
  | none =>
    simp only [collect, emitted, next, belongs, extended, Option.isSome_none, Bool.false_or, opens]
    cases startsBlank line <;> cases beginsAt l (trimEnd line) <;>
      cases isComplete l (trimEnd line) <;> rfl

/-! ### What a statement says -/

/-- What stands behind the keyword of a statement that ends with a semicolon. -/
def item? (l : Language) (statement : List Char) : Option (List Char) :=
  match l with
  | .rust => after? "use ".toList ((afterVisibility? statement).getD statement)
  | .php => after? "use ".toList statement
  | .java => after? "import ".toList statement
  | .python => none

/-- The symbols of what stands behind the keyword. -/
def itemSymbols (l : Language) (item : List Char) : List Symbol :=
  match l with
  | .rust => symbolsOfList [':', ':'] (body item)
  | .php =>
    let rest := trimStart item
    if startsWith "function ".toList rest || startsWith "const ".toList rest then []
    else symbolsOfList ['\\'] (body rest)
  | .java =>
    let rest := trimStart item
    let path := body ((after? "static ".toList rest).getD rest)
    if path.isEmpty || endsWith ['.', '*'] path then [] else [.plain (String.ofList path)]
  | .python => []

theorem symbols_of_item? (h : item? l statement = some item) :
    symbols l statement = itemSymbols l item := by
  cases l with
  | rust =>
    simp only [item?] at h
    simp only [symbols, rustSymbols, h, itemSymbols]
  | php =>
    simp only [item?] at h
    simp only [symbols, phpSymbols, h, itemSymbols]
  | java =>
    simp only [item?] at h
    simp only [symbols, javaSymbols, h, itemSymbols]
  | python => cases h

theorem body_append_cons {front : List Char} (h : ';' ∉ front) (behind : List Char) :
    body (front ++ ';' :: behind) = trim front := by
  rw [body, before_char h]

/-- Nothing behind the first semicolon is looked at. -/
theorem itemSymbols_append_cons {front : List Char} (h : ';' ∉ front) (behind : List Char) :
    itemSymbols l (front ++ ';' :: behind) = itemSymbols l (front ++ [';']) := by
  have hstart : ∀ behind, trimStart (front ++ ';' :: behind) = trimStart front ++ ';' :: behind :=
    trimStart_append_cons (by decide) front
  have hfront : ';' ∉ trimStart front := fun hmem => h (trimStart_subset front hmem)
  cases l with
  | rust => simp only [itemSymbols, body_append_cons h]
  | php =>
    have hfunction : ';' ∉ "function ".toList := by decide
    have hconst : ';' ∉ "const ".toList := by decide
    simp only [itemSymbols, hstart, startsWith_append_cons hfunction, startsWith_append_cons hconst,
      body_append_cons hfront]
  | java =>
    have hstatic : ';' ∉ "static ".toList := by decide
    have hbody : ∀ behind, body ((after? "static ".toList (trimStart front ++ ';' :: behind)).getD
        (trimStart front ++ ';' :: behind)) =
          trim ((after? "static ".toList (trimStart front)).getD (trimStart front)) := by
      intro behind
      rw [after?_append_cons hstatic]
      cases hafter : after? "static ".toList (trimStart front) with
      | none => exact body_append_cons hfront behind
      | some rest =>
        have hrest : ';' ∉ rest := fun hmem =>
          hfront (after?_eq_some.1 hafter ▸ List.mem_append_right _ hmem)
        exact body_append_cons hrest behind
    simp only [itemSymbols, hstart, hbody]
  | python => rfl

theorem itemSymbols_append (h : ';' ∈ item) (rest : List Char) :
    itemSymbols l (item ++ rest) = itemSymbols l item := by
  obtain ⟨front, behind, rfl, hfront⟩ := List.eq_append_cons_of_mem h
  rw [List.append_assoc, List.cons_append, itemSymbols_append_cons hfront,
    itemSymbols_append_cons hfront behind]

theorem itemBehind?_eq_some {cs rest : List Char} (h : itemBehind? cs = some rest) (hne : rest ≠ [])
    (ds : List Char) : itemBehind? (cs ++ ds) = some (rest ++ ds) := by
  unfold itemBehind? at h ⊢
  obtain ⟨hblank, htrim⟩ : startsBlank cs = true ∧ trimStart cs = rest := by simpa using h
  have hcs : cs ≠ [] := by
    rintro rfl
    cases hblank
  rw [startsBlank_append hcs, hblank, trimStart_append_of_ne_nil (htrim ▸ hne), htrim]
  rfl

/-- A visibility in front of a statement is found whatever is put behind the statement. -/
theorem afterVisibility?_append {rest : List Char} (h : afterVisibility? statement = some rest)
    (hne : rest ≠ []) (ds : List Char) :
    afterVisibility? (statement ++ ds) = some (rest ++ ds) := by
  cases hpub : after? ['p', 'u', 'b'] statement with
  | none => simp [afterVisibility?, hpub] at h
  | some tail =>
    obtain rfl : ['p', 'u', 'b'] ++ tail = statement := after?_eq_some.1 hpub
    cases tail with
    | nil => cases h
    | cons c tail =>
      by_cases hc : c = '('
      · subst hc
        have h' := (afterVisibility?_paren tail).symm.trans h
        cases hcut : cut? [')'] tail with
        | none => simp [hcut] at h'
        | some p =>
          obtain ⟨scope, item⟩ := p
          obtain ⟨hscope, rfl⟩ := cut?_char_iff.1 hcut
          rw [hcut] at h'
          refine (afterVisibility?_paren (scope ++ ')' :: item ++ ds)).trans ?_
          rw [List.append_assoc, List.cons_append, cut?_char hscope]
          exact itemBehind?_eq_some h' hne ds
      · have h' := (afterVisibility?_of_ne hc tail).symm.trans h
        exact (afterVisibility?_of_ne hc (tail ++ ds)).trans (itemBehind?_eq_some h' hne ds)

/-- What stands behind the keyword grows with the statement. -/
theorem item?_append (h : item? l statement = some item) (rest : List Char) :
    item? l (statement ++ rest) = some (item ++ rest) := by
  have hafter : ∀ {keyword cs : List Char}, after? keyword cs = some item →
      after? keyword (cs ++ rest) = some (item ++ rest) := by
    intro keyword cs hcs
    rw [← after?_eq_some.1 hcs, List.append_assoc, after?_append]
  cases l with
  | python => cases h
  | php => exact hafter h
  | java => exact hafter h
  | rust =>
    simp only [item?] at h ⊢
    cases hvisible : afterVisibility? statement with
    | some tail =>
      rw [hvisible, Option.getD_some] at h
      have hne : tail ≠ [] := by
        rintro rfl
        cases h
      rw [afterVisibility?_append hvisible hne, Option.getD_some]
      exact hafter h
    | none =>
      rw [hvisible, Option.getD_none] at h
      have hnone : afterVisibility? (statement ++ rest) = none := by
        rw [← after?_eq_some.1 h]
        rfl
      rw [hnone, Option.getD_none]
      exact hafter h

/-- What stands behind the end of a statement changes nothing. -/
theorem symbols_append (h : item? l statement = some item) (hend : ';' ∈ item) (rest : List Char) :
    symbols l (statement ++ rest) = symbols l statement := by
  rw [symbols_of_item? (item?_append h rest), symbols_of_item? h, itemSymbols_append hend]

/-- A hash sign and what stands behind it change nothing. -/
theorem pythonSymbols_append (hg : Blank g) (text : List Char) :
    pythonSymbols (statement ++ (g ++ '#' :: text)) = pythonSymbols statement := by
  have hclean : trim (before ['#'] ((statement ++ (g ++ '#' :: text)).filter
        fun c => c ≠ '(' ∧ c ≠ ')' ∧ c ≠ '\\')) =
      trim (before ['#'] (statement.filter fun c => c ≠ '(' ∧ c ≠ ')' ∧ c ≠ '\\')) := by
    rw [List.filter_append, List.filter_append, List.filter_cons_of_pos (by decide)]
    generalize statement.filter _ = front
    generalize text.filter _ = behind
    have hgap : Blank (g.filter fun c => c ≠ '(' ∧ c ≠ ')' ∧ c ≠ '\\') := fun c hc =>
      hg c (List.mem_filter.1 hc).1
    by_cases hhash : '#' ∈ front
    · obtain ⟨text, more, rfl, htext⟩ := List.eq_append_cons_of_mem hhash
      rw [List.append_assoc, List.cons_append, before_char htext, before_char htext]
    · rw [← List.append_assoc, before_char (List.not_mem_append hhash (hgap.notMem (by decide))),
        before_eq_self hhash, trim_append _ hgap]
  simp only [pythonSymbols, hclean]

theorem beginsAt_eq_isSome (hl : l ≠ .python) :
    beginsAt l statement = (item? l statement).isSome := by
  cases l with
  | python => exact absurd rfl hl
  | rust | php | java => exact startsWith_eq_isSome _ _

/-- A statement that has begun has begun whatever is put behind it. -/
theorem beginsAt_append (h : beginsAt l statement = true) (rest : List Char) :
    beginsAt l (statement ++ rest) = true := by
  have hstart : ∀ {mark : List Char}, startsWith mark statement = true →
      startsWith mark (statement ++ rest) = true := by
    intro mark hmark
    obtain ⟨more, rfl⟩ := startsWith_eq_true_iff.1 hmark
    exact startsWith_eq_true_iff.2 ⟨more ++ rest, List.append_assoc _ _ _⟩
  by_cases hl : l = .python
  · subst hl
    simp only [beginsAt, Bool.or_eq_true] at h ⊢
    exact h.imp hstart hstart
  · rw [beginsAt_eq_isSome hl, Option.isSome_iff_exists] at h ⊢
    obtain ⟨item, hitem⟩ := h
    exact ⟨item ++ rest, item?_append hitem rest⟩

/-! ### Comments -/

/-- A comment on one line. In PHP a hash sign in front of a bracket begins an attribute. -/
inductive Comment (l : Language) : List Char → Prop
  | slashes {text : List Char} : l ≠ .python → Comment l ('/' :: '/' :: text)
  | stars {text : List Char} : l ≠ .python → ¬['*', '/'] <:+: text →
      Comment l ('/' :: '*' :: (text ++ ['*', '/']))
  | hash {text : List Char} : l = .python → Comment l ('#' :: text)
  | phpHash {text : List Char} : l = .php → text.head? ≠ some '[' → Comment l ('#' :: text)

theorem Comment.exists_cons (h : Comment l comment) : ∃ c text, comment = c :: text := by
  cases h <;> exact ⟨_, _, rfl⟩

theorem Comment.head {c : Char} {text : List Char} (h : Comment l (c :: text)) :
    c = '#' ∨ c = '/' ∧ l ≠ .python := by
  cases h with
  | slashes hl => exact .inr ⟨rfl, hl⟩
  | stars hl => exact .inr ⟨rfl, hl⟩
  | hash => exact .inl rfl
  | phpHash => exact .inl rfl

theorem Comment.head_not_blank {c : Char} {text : List Char} (h : Comment l (c :: text)) :
    isBlank c = false := by
  rcases h.head with rfl | ⟨rfl, -⟩ <;> decide

theorem Comment.trimEnd {c : Char} {text : List Char} (h : Comment l (c :: text)) :
    Text.trimEnd (c :: text) = c :: Text.trimEnd text :=
  trimEnd_cons_of_not_blank h.head_not_blank text

/-- A comment on a line of its own begins no statement. -/
theorem Comment.opens (h : Comment l comment) (hg : Blank g) :
    ImportStatement.opens l (g ++ comment) = false := by
  obtain ⟨c, text, rfl⟩ := h.exists_cons
  cases g with
  | cons b g =>
    have hb : startsBlank (b :: g ++ c :: text) = true := hg b List.mem_cons_self
    rw [ImportStatement.opens, hb]
    rfl
  | nil =>
    have hbegins : beginsAt l (c :: Text.trimEnd text) = false := by
      rcases h.head with rfl | ⟨rfl, -⟩ <;> cases l <;> rfl
    rw [ImportStatement.opens, List.nil_append, h.trimEnd, hbegins, Bool.and_false]

/-- A comment behind a line is put behind the statement, and white space with it. -/
theorem Comment.extended (h : Comment l comment) (hg : Blank g) (held : Option (List Char))
    (line : List Char) : ∃ gap, Blank gap ∧
      ImportStatement.extended held (line ++ (g ++ comment)) =
        ImportStatement.extended held line ++ (gap ++ Text.trimEnd comment) := by
  have hend : ∀ front : List Char, ∃ gap, Blank gap ∧
      Text.trimEnd (front ++ (g ++ comment)) =
        Text.trimEnd front ++ (gap ++ Text.trimEnd comment) := by
    intro front
    obtain ⟨gap, hgap, hfront⟩ := exists_trimEnd front
    obtain ⟨c, text, rfl⟩ := h.exists_cons
    refine ⟨gap ++ g, blank_append.2 ⟨hgap, hg⟩, ?_⟩
    have hne : Text.trimEnd (c :: text) ≠ [] := h.trimEnd ▸ List.cons_ne_nil _ _
    calc Text.trimEnd (front ++ (g ++ c :: text)) = front ++ g ++ Text.trimEnd (c :: text) := by
          rw [← List.append_assoc, trimEnd_append_of_ne_nil _ hne]
      _ = Text.trimEnd front ++ gap ++ g ++ Text.trimEnd (c :: text) := by rw [← hfront]
      _ = _ := by simp
  cases held with
  | none => exact hend line
  | some front =>
    -- Behind a line of white space the comment is trimmed at both ends.
    by_cases hblank : trimStart line = []
    · have hline : Blank line := List.dropWhile_eq_nil_iff.1 hblank
      have htrim : trim comment = Text.trimEnd comment := by
        obtain ⟨c, text, rfl⟩ := h.exists_cons
        have hstart : startsBlank (c :: text) = false := h.head_not_blank
        rw [trim, trimStart_eq_self hstart]
      refine ⟨[], blank_nil, ?_⟩
      simp only [ImportStatement.extended, trim_append_left hline, trim_append_left hg, htrim,
        trim_eq_nil hline]
      simp
    · obtain ⟨gap, hgap, htrim⟩ := hend (trimStart line)
      refine ⟨gap, hgap, ?_⟩
      simp only [ImportStatement.extended, trim, trimStart_append_of_ne_nil hblank, htrim]
      simp

/-- The line leaves no statement open, and neither does the longer one: it belongs to no statement
    with or without what is behind it, or it completes one. In Python what is behind it must not
    open the statement again. -/
inductive Settled (l : Language) (held : Option (List Char)) (line longer : List Char) : Prop
  | idle : belongs l held line = false → belongs l held longer = false → Settled l held line longer
  | semicolon {statement item : List Char} : emitted l held line = some statement →
      item? l statement = some item → ';' ∈ item → Settled l held line longer
  | closed {statement : List Char} : l = .python → emitted l held line = some statement →
      isComplete l (extended held longer) = true → Settled l held line longer

/-- Lines of a source, `held` being an open statement, and the lines with comments added. -/
inductive Commented (l : Language) :
    Option (List Char) → List (List Char) → List (List Char) → Prop
  | nil {held : Option (List Char)} : Commented l held [] []
  | same {held : Option (List Char)} {line : List Char} {lines longer : List (List Char)} :
      Commented l (next l held line) lines longer →
      Commented l held (line :: lines) (line :: longer)
  | own {g comment : List Char} {lines longer : List (List Char)} : Blank g → Comment l comment →
      Commented l none lines longer → Commented l none lines ((g ++ comment) :: longer)
  | block {comment lines longer : List (List Char)} : (∀ line ∈ comment, opens l line = false) →
      Commented l none lines longer → Commented l none lines (comment ++ longer)
  | behind {held : Option (List Char)} {line g comment : List Char}
      {lines longer : List (List Char)} : Blank g → Comment l comment →
      Settled l held line (line ++ (g ++ comment)) → Commented l none lines longer →
      Commented l held (line :: lines) ((line ++ (g ++ comment)) :: longer)

/-! ### One line with a comment -/

theorem emitted_eq_some_iff : emitted l held line = some statement ↔
    belongs l held line = true ∧ extended held line = statement ∧
      isComplete l statement = true := by
  unfold emitted
  constructor
  · intro h
    obtain ⟨hboth, rfl⟩ := by simpa using h
    exact ⟨hboth.1, rfl, hboth.2⟩
  · rintro ⟨hbelongs, rfl, hcomplete⟩
    rw [hbelongs, hcomplete]
    rfl

/-- A line that completes a statement leaves none open. -/
theorem next_of_emitted (h : emitted l held line = some statement) : next l held line = none := by
  obtain ⟨hbelongs, rfl, hcomplete⟩ := emitted_eq_some_iff.1 h
  rw [next, hcomplete, Bool.not_true, Bool.and_false]
  rfl

/-- A line that belongs to a statement does so whatever is put behind it. -/
theorem Comment.belongs (h : Comment l comment) (hg : Blank g)
    (hbelongs : ImportStatement.belongs l held line = true) :
    ImportStatement.belongs l held (line ++ (g ++ comment)) = true := by
  cases held with
  | some front => rfl
  | none =>
    simp only [ImportStatement.belongs, Option.isSome_none, Bool.false_or,
      ImportStatement.opens, Bool.and_eq_true, Bool.not_eq_true'] at hbelongs ⊢
    have hne : line ≠ [] := by
      rintro rfl
      have hempty : beginsAt l [] = false := by cases l <;> rfl
      exact absurd (hbelongs.2.symm.trans hempty) (by decide)
    obtain ⟨gap, -, hextended⟩ := h.extended hg none line
    simp only [ImportStatement.extended] at hextended
    rw [startsBlank_append hne, hextended]
    exact ⟨hbelongs.1, beginsAt_append hbelongs.2 _⟩

/-- A comment behind a settled line changes no symbols and leaves nothing open. -/
theorem Settled.symbols (h : Settled l held line (line ++ (g ++ comment))) (hg : Blank g)
    (hc : Comment l comment) :
    (emitted l held (line ++ (g ++ comment))).toList.flatMap (ImportStatement.symbols l) =
        (emitted l held line).toList.flatMap (ImportStatement.symbols l) ∧
      next l held line = none ∧ next l held (line ++ (g ++ comment)) = none := by
  obtain ⟨gap, hgap, hextended⟩ := hc.extended hg held line
  -- Both lines complete a statement, the second one with the comment in it.
  have hboth : ∀ {statement : List Char}, emitted l held line = some statement →
      isComplete l (extended held (line ++ (g ++ comment))) = true →
      ImportStatement.symbols l (statement ++ (gap ++ Text.trimEnd comment)) =
        ImportStatement.symbols l statement →
      (emitted l held (line ++ (g ++ comment))).toList.flatMap (ImportStatement.symbols l) =
          (emitted l held line).toList.flatMap (ImportStatement.symbols l) ∧
        next l held line = none ∧ next l held (line ++ (g ++ comment)) = none := by
    intro statement hemitted hcomplete hsymbols
    obtain ⟨hbelongs, rfl, -⟩ := emitted_eq_some_iff.1 hemitted
    have hlonger := emitted_eq_some_iff.2 ⟨hc.belongs hg hbelongs, rfl, hcomplete⟩
    refine ⟨?_, next_of_emitted hemitted, next_of_emitted hlonger⟩
    rw [hlonger, hemitted, hextended]
    simpa using hsymbols
  cases h with
  | idle hline hlonger => simp [emitted, next, hline, hlonger]
  | semicolon hemitted hitem hend =>
    have hl : l ≠ .python := by
      rintro rfl
      cases hitem
    obtain ⟨-, hstatement, hcomplete⟩ := emitted_eq_some_iff.1 hemitted
    rw [isComplete_iff hl] at hcomplete
    refine hboth hemitted ?_ (symbols_append hitem hend _)
    rw [isComplete_iff hl, hextended, hstatement]
    exact List.mem_append_left _ hcomplete
  | closed hl hemitted hcomplete =>
    subst hl
    refine hboth hemitted hcomplete ?_
    obtain ⟨text, htext⟩ : ∃ text, Text.trimEnd comment = '#' :: text := by
      obtain ⟨c, text, rfl⟩ := hc.exists_cons
      obtain rfl : c = '#' := hc.head.resolve_right fun h => h.2 rfl
      exact ⟨_, hc.trimEnd⟩
    rw [htext]
    exact pythonSymbols_append hgap text

/-! ### Sources -/

theorem flatMap_collect_cons (lines : List (List Char)) :
    (collect l held (line :: lines)).flatMap (symbols l) =
      (emitted l held line).toList.flatMap (symbols l) ++
        (collect l (next l held line) lines).flatMap (symbols l) := by
  rw [collect_cons, List.flatMap_append]

/-- A line that begins no statement is passed over where none is open. -/
theorem collect_of_opens (h : opens l line = false) (lines : List (List Char)) :
    collect l none (line :: lines) = collect l none lines := by
  have hbelongs : belongs l none line = false := h
  rw [collect_cons, emitted, next, hbelongs]
  rfl

theorem collect_append_of_opens {idle : List (List Char)} (h : ∀ line ∈ idle, opens l line = false)
    (lines : List (List Char)) : collect l none (idle ++ lines) = collect l none lines := by
  induction idle with
  | nil => rfl
  | cons line idle ih =>
    rw [List.cons_append, collect_of_opens (h line List.mem_cons_self)]
    exact ih fun line hline => h line (List.mem_cons_of_mem _ hline)

theorem Commented.symbols {lines longer : List (List Char)} (h : Commented l held lines longer) :
    (collect l held longer).flatMap (ImportStatement.symbols l) =
      (collect l held lines).flatMap (ImportStatement.symbols l) := by
  induction h with
  | nil => rfl
  | same _ ih => rw [flatMap_collect_cons, flatMap_collect_cons, ih]
  | own hg hc _ ih => rw [collect_of_opens (hc.opens hg), ih]
  | block hcomment _ ih => rw [collect_append_of_opens hcomment, ih]
  | behind hg hc hsettled _ ih =>
    obtain ⟨hsymbols, hnext, hnext'⟩ := hsettled.symbols hg hc
    rw [flatMap_collect_cons, flatMap_collect_cons, hsymbols, hnext, hnext', ih]

/-- Comments between statements, behind lines outside statements and behind the ends of statements
    change no imports. -/
theorem importsOf_commented {content longer : String}
    (h : Commented l none (lines content.toList) (lines longer.toList)) :
    importsOf l longer = importsOf l content := h.symbols

/-- A comment on a line of its own and one behind the end of a statement on several lines. -/
theorem importsOf_commented_group :
    Commented .rust none (lines "use a::\x7b\n    B,\n\x7d;\n".toList)
      (lines "// use c;\nuse a::\x7b\n    B,\n\x7d; // d::\x7bE\x7d\n".toList) ∧
    importsOf .rust "// use c;\nuse a::\x7b\n    B,\n\x7d; // d::\x7bE\x7d\n" =
      [.plain "a::B"] := by
  have hlines : lines "use a::\x7b\n    B,\n\x7d;\n".toList =
      ["use a::\x7b".toList, "    B,".toList, "\x7d;".toList] := by
    decide +kernel
  have hlonger : lines "// use c;\nuse a::\x7b\n    B,\n\x7d; // d::\x7bE\x7d\n".toList =
      [[] ++ "// use c;".toList, "use a::\x7b".toList, "    B,".toList,
        "\x7d;".toList ++ ([' '] ++ "// d::\x7bE\x7d".toList)] := by
    decide +kernel
  have hslashes : ∀ text, Comment .rust ('/' :: '/' :: text) := fun text => .slashes (by decide)
  have hspace : Blank [' '] := by decide
  have hsettled : Settled .rust (next .rust (next .rust none "use a::\x7b".toList) "    B,".toList)
      "\x7d;".toList ("\x7d;".toList ++ ([' '] ++ "// d::\x7bE\x7d".toList)) :=
    .semicolon (show _ = some "use a::\x7b B, \x7d;".toList by decide +kernel)
      (show _ = some "a::\x7b B, \x7d;".toList by decide +kernel) (by decide)
  have hcommented : Commented .rust none (lines "use a::\x7b\n    B,\n\x7d;\n".toList)
      (lines "// use c;\nuse a::\x7b\n    B,\n\x7d; // d::\x7bE\x7d\n".toList) := by
    rw [hlines, hlonger]
    exact .own blank_nil (hslashes _) (.same (.same (.behind hspace (hslashes _) hsettled .nil)))
  refine ⟨hcommented, (importsOf_commented hcommented).trans ?_⟩
  decide +kernel

/-- A comment inside a statement that goes on takes the names behind it away. -/
theorem importsOf_not_always_commented :
    importsOf .python "from a import (\n    B,  # first\n    C,\n)\n" ≠
      importsOf .python "from a import (\n    B,\n    C,\n)\n" := by
  decide +kernel

end DocDirectives.ImportStatement
