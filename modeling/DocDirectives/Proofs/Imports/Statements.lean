import DocDirectives.Imports
import DocDirectives.Proofs.Imports.Flattening

/-! # Written statements

    A statement is a keyword in the first column, a list of use trees on any number of lines, and a
    semicolon. Its lines are collected until the semicolon and put on one line. There its trees are
    still written, so it gives their symbols. By induction on the statements, a source of written
    statements gives the symbols of all its trees in order.

        statement ──▶ keyword gap Parts ';' -/

namespace DocDirectives.ImportStatement

open Text UseTree

/-- White space on one line. -/
structure Gap (g : List Char) : Prop where
  blank : Blank g
  newline_notMem : '\n' ∉ g

instance (g : List Char) : Decidable (Gap g) :=
  decidable_of_iff (Blank g ∧ '\n' ∉ g) ⟨fun h => ⟨h.1, h.2⟩, fun h => ⟨h.1, h.2⟩⟩

/-- What begins a statement of use trees: `use`, in Rust perhaps behind a visibility. -/
inductive Keyword : Language → List Char → Prop
  | rust : Keyword .rust "use ".toList
  | visible {g : List Char} : g ≠ [] → Gap g → Keyword .rust ("pub".toList ++ (g ++ "use ".toList))
  | restricted {scope g : List Char} : '\n' ∉ scope → ')' ∉ scope → ';' ∉ scope → g ≠ [] → Gap g →
      Keyword .rust ("pub(".toList ++ (scope ++ ')' :: (g ++ "use ".toList)))
  | php : Keyword .php "use ".toList

/-- No type has a name that the language reserves for what else can be imported. -/
def Unreserved : Language → Tree → Prop
  | .php, .leaf path _ => path ≠ ["function".toList] ∧ path ≠ ["const".toList]
  | _, _ => True

/-- A statement that imports a list of use trees, and one of its texts. -/
structure Statement (l : Language) (ts : List Tree) (keyword gap body tail : List Char) : Prop where
  keyword : Keyword l keyword
  gap : Gap gap
  parts : WrittenParts l.separator [] ts body
  sameLine : startsBlank body = false
  tail : Gap tail
  unreserved : ∀ t ∈ ts, Unreserved l t

/-- A source text made of statements, each on lines of its own, and of empty lines. The last line
    may lack its line end, and a line end may have a carriage return. -/
inductive Source (l : Language) : List Tree → List Char → Prop
  | nil : Source l [] []
  | last {ts : List Tree} {keyword gap body tail : List Char} :
      Statement l ts keyword gap body tail →
      Source l ts (keyword ++ gap ++ (body ++ ';' :: tail))
  | statement {ts ts' : List Tree} {keyword gap body tail rest : List Char} :
      Statement l ts keyword gap body tail → Source l ts' rest →
      Source l (ts ++ ts') (keyword ++ gap ++ (body ++ ';' :: tail) ++ '\n' :: rest)
  | empty {ts : List Tree} {g rest : List Char} : Gap g → Source l ts rest →
      Source l ts (g ++ '\n' :: rest)

variable {l : Language} {ts : List Tree} {keyword gap body tail : List Char}

/-! ### Semicolons -/

theorem semicolon_notMem_of_isPathChar {cs : List Char} (h : ∀ c ∈ cs, isPathChar c = true) :
    ';' ∉ cs := fun hmem => absurd (h ';' hmem) (by decide)

mutual

theorem semicolon_notMem_written {sep : List Char} (hsep : IsSeparator sep)
    {lead : List (List Char)} {t : Tree} {text : List Char} : Written sep lead t text → ';' ∉ text
  | .leaf hpath _ => semicolon_notMem_of_isPathChar (isPathChar_leafText hsep hpath)
  | .renamed hpath _ hg hg' hn => by
    simp only [List.mem_append, List.mem_cons, not_or]
    exact ⟨semicolon_notMem_of_isPathChar (isPathChar_leafText hsep hpath),
      hg.blank.notMem (by decide), by decide, by decide, hg'.blank.notMem (by decide),
      semicolon_notMem_of_isPathChar fun c hc => isPathChar_of_isSegmentChar (hn.chars c hc)⟩
  | .star hpath => by
    simpa using semicolon_notMem_of_isPathChar (isPathChar_leadText hsep hpath)
  | .group hpath hparts => by
    simp only [List.mem_append, List.mem_cons, not_or]
    exact ⟨semicolon_notMem_of_isPathChar (isPathChar_leadText hsep hpath), by decide,
      semicolon_notMem_parts hsep hparts, by decide⟩

theorem semicolon_notMem_parts {sep : List Char} (hsep : IsSeparator sep)
    {lead : List (List Char)} {ts : List Tree} {body : List Char} :
    WrittenParts sep lead ts body → ';' ∉ body
  | .none hg => hg.notMem (by decide)
  | .last hg ht hg' => by
    simp only [List.mem_append, not_or]
    exact ⟨hg.notMem (by decide), semicolon_notMem_written hsep ht, hg'.notMem (by decide)⟩
  | .more hg ht hg' hts => by
    simp only [List.mem_append, List.mem_cons, not_or]
    exact ⟨hg.notMem (by decide), semicolon_notMem_written hsep ht, hg'.notMem (by decide),
      by decide, semicolon_notMem_parts hsep hts⟩

end

/-! ### Keywords -/

theorem Gap.semicolon_notMem {g : List Char} (h : Gap g) : ';' ∉ g := h.blank.notMem (by decide)

theorem Keyword.ne_python (h : Keyword l keyword) : l ≠ .python := by
  cases h <;> decide

theorem Keyword.isSeparator (h : Keyword l keyword) : IsSeparator l.separator := by
  cases h
  case php => exact .backslash
  all_goals exact .colons

theorem Keyword.newline_notMem (h : Keyword l keyword) : '\n' ∉ keyword := by
  cases h with
  | rust => decide
  | visible _ hg => simpa using hg.newline_notMem
  | restricted hscope _ _ _ hg => simpa using ⟨hscope, hg.newline_notMem⟩
  | php => decide

theorem Keyword.semicolon_notMem (h : Keyword l keyword) : ';' ∉ keyword := by
  cases h with
  | rust => decide
  | visible _ hg => simpa using hg.semicolon_notMem
  | restricted _ _ hscope _ hg => simpa using ⟨hscope, hg.semicolon_notMem⟩
  | php => decide

theorem Keyword.startsBlank (h : Keyword l keyword) (rest : List Char) :
    Text.startsBlank (keyword ++ rest) = false := by
  cases h <;> rfl

/-- The item behind a qualifier, which white space has to separate from it. -/
def itemBehind? (cs : List Char) : Option (List Char) :=
  if Text.startsBlank cs then some (trimStart cs) else none

theorem afterVisibility?_of_ne {c : Char} (hc : c ≠ '(') (rest : List Char) :
    afterVisibility? ('p' :: 'u' :: 'b' :: c :: rest) = itemBehind? (c :: rest) := by
  simp [afterVisibility?, after?, hc, itemBehind?]

theorem afterVisibility?_paren (rest : List Char) :
    afterVisibility? ('p' :: 'u' :: 'b' :: '(' :: rest) =
      ((cut? [')'] rest).map Prod.snd).bind itemBehind? := by
  simp only [afterVisibility?, after?, if_true]
  cases cut? [')'] rest <;> rfl

theorem itemBehind?_append {g item : List Char} (hne : g ≠ []) (hg : Blank g)
    (hitem : Text.startsBlank item = false) : itemBehind? (g ++ item) = some item := by
  obtain ⟨b, g, rfl⟩ := List.exists_cons_of_ne_nil hne
  have hb : isBlank b = true := hg b List.mem_cons_self
  rw [itemBehind?, trimStart_append hg, trimStart_eq_self hitem, List.cons_append]
  exact if_pos hb

/-- Behind a visibility stands the item. -/
theorem afterVisibility?_visible {g item : List Char} (hne : g ≠ []) (hg : Blank g)
    (hitem : Text.startsBlank item = false) :
    afterVisibility? ("pub".toList ++ (g ++ item)) = some item := by
  rw [← itemBehind?_append hne hg hitem]
  obtain ⟨b, g, rfl⟩ := List.exists_cons_of_ne_nil hne
  refine afterVisibility?_of_ne ?_ _
  rintro rfl
  exact absurd (hg '(' List.mem_cons_self) (by decide)

theorem afterVisibility?_restricted {scope g item : List Char} (hscope : ')' ∉ scope) (hne : g ≠ [])
    (hg : Blank g) (hitem : Text.startsBlank item = false) :
    afterVisibility? ("pub(".toList ++ (scope ++ ')' :: (g ++ item))) = some item := by
  rw [← itemBehind?_append hne hg hitem]
  refine (afterVisibility?_paren (scope ++ ')' :: (g ++ item))).trans ?_
  rw [cut?_char hscope]
  rfl

/-- Behind the visibility, if there is one, stands the `use`. -/
theorem Keyword.afterVisibility? (h : Keyword .rust keyword) (rest : List Char) :
    (DocDirectives.afterVisibility? (keyword ++ rest)).getD (keyword ++ rest) =
      "use ".toList ++ rest := by
  have huse : Text.startsBlank ("use ".toList ++ rest) = false := rfl
  cases h with
  | rust => rfl
  | visible hne hg =>
    have hvisible := afterVisibility?_visible hne hg.blank huse
    simp only [List.append_assoc] at hvisible ⊢
    rw [hvisible, Option.getD_some]
  | restricted _ hclose _ hne hg =>
    have hrestricted := afterVisibility?_restricted hclose hne hg.blank huse
    simp only [List.append_assoc, List.cons_append] at hrestricted ⊢
    rw [hrestricted, Option.getD_some]

/-- A keyword begins a statement. -/
theorem Keyword.beginsAt (h : Keyword l keyword) (rest : List Char) :
    ImportStatement.beginsAt l (keyword ++ rest) = true := by
  have huse : startsWith "use ".toList ("use ".toList ++ rest) = true :=
    List.isPrefixOf_iff_prefix.2 (List.prefix_append _ _)
  cases l with
  | rust =>
    rw [ImportStatement.beginsAt, h.afterVisibility?]
    exact huse
  | php =>
    cases h
    exact huse
  | java => cases h
  | python => cases h

/-! ### Collecting -/

/-- Carriage returns at line ends make no difference. -/
theorem collect_dropReturn (held : Option (List Char)) (ls rest : List (List Char)) :
    collect l held (ls.map dropReturn ++ rest) = collect l held (ls ++ rest) := by
  induction ls generalizing held with
  | nil => rfl
  | cons line ls ih =>
    rw [List.map_cons, List.cons_append, List.cons_append]
    cases held with
    | some front => simp only [collect, trim_dropReturn, ih]
    | none =>
      have hstart : startsBlank (dropReturn line) = startsBlank line ∨ trimEnd line = [] := by
        obtain ⟨g, hg, hline⟩ := exists_dropReturn line
        by_cases hnil : dropReturn line = []
        · rw [hnil, List.nil_append] at hline
          exact .inr (hline ▸ trimEnd_eq_nil hg)
        · have hstart : startsBlank (dropReturn line ++ g) = startsBlank (dropReturn line) :=
            startsBlank_append hnil
          rw [← hline] at hstart
          exact .inl hstart.symm
      have hempty : ImportStatement.beginsAt l [] = false := by cases l <;> rfl
      rcases hstart with hstart | hnil
      · simp only [collect, trimEnd_dropReturn, hstart, ih]
      · simp [collect, trimEnd_dropReturn, hnil, hempty, ih]

/-- A statement is complete with its semicolon. -/
theorem isComplete_iff (hl : l ≠ .python) {statement : List Char} :
    isComplete l statement = true ↔ ';' ∈ statement := by
  cases l <;> simp_all [isComplete]

theorem isComplete_eq_false (hl : l ≠ .python) {statement : List Char} (h : ';' ∉ statement) :
    isComplete l statement = false := by
  rwa [← Bool.not_eq_true, isComplete_iff hl]

/-- A line that is empty at the end of a source makes no difference, unless it were to complete a
    statement. -/
theorem collect_concat_nil (hl : l ≠ .python) {held : Option (List Char)}
    (hheld : ∀ front, held = some front → ';' ∉ front) (ls : List (List Char)) :
    collect l held (ls ++ [[]]) = collect l held ls := by
  induction ls generalizing held with
  | nil =>
    cases held with
    | none =>
      have hempty : beginsAt l [] = false := by cases l <;> rfl
      simp [collect, show trimEnd [] = [] from rfl, hempty]
    | some front =>
      have hcomplete : isComplete l (front ++ [' ']) = false :=
        isComplete_eq_false hl (by simpa using hheld front rfl)
      simp [collect, hcomplete]
  | cons line ls ih =>
    have hnone : ∀ front : List Char, none = some front → ';' ∉ front := fun _ h => by cases h
    have hsome : ∀ {statement : List Char}, isComplete l statement = false →
        ∀ front, some statement = some front → ';' ∉ front := by
      intro statement h front hfront
      cases hfront
      rwa [← Bool.not_eq_true, isComplete_iff hl] at h
    cases held with
    | none =>
      simp only [List.cons_append, collect, ih hnone]
      split
      · rfl
      · split
        · rfl
        · next h => exact ih (hsome (by simpa using h))
    | some front =>
      simp only [List.cons_append, collect, ih hnone]
      split
      · rfl
      · next h => exact ih (hsome (by simpa using h))

/-- The statements of a text are those between its line feeds. -/
theorem collect_lines (hl : l ≠ .python) (cs : List Char) :
    collect l none (lines cs) = collect l none (splitOn '\n' cs) := by
  obtain ⟨ended, last, hsplit, hlines⟩ := exists_lines cs
  rw [hlines, hsplit, collect_dropReturn]
  by_cases hlast : last = []
  · rw [if_pos hlast, hlast, List.append_nil, collect_concat_nil hl fun _ h => by cases h]
  · rw [if_neg hlast]

/-- Lines are held until the last one completes the statement. -/
theorem collect_held {front line : List Char} {ls : List (List Char)}
    (hopen : ∀ ls₁ line' ls₂, ls = ls₁ ++ line' :: ls₂ →
      isComplete l (front ++ joined (line :: ls₁)) = false)
    (hdone : isComplete l (front ++ joined (line :: ls)) = true) (rest : List (List Char)) :
    collect l (some front) (line :: ls ++ rest) =
      (front ++ joined (line :: ls)) :: collect l none rest := by
  induction ls generalizing front line with
  | nil =>
    have hjoined : front ++ joined [line] = front ++ ' ' :: trim line := by simp [joined]
    rw [hjoined] at hdone ⊢
    rw [List.singleton_append, collect, if_pos hdone]
  | cons line' ls ih =>
    have hjoined : ∀ ls, front ++ joined (line :: ls) = front ++ ' ' :: trim line ++ joined ls := by
      simp [joined_cons]
    have hfront : isComplete l (front ++ ' ' :: trim line) = false := by
      simpa [joined] using hopen [] line' ls rfl
    rw [hjoined] at hdone ⊢
    rw [List.cons_append, collect, if_neg (by simp [hfront])]
    refine ih (fun ls₁ line'' ls₂ hls => ?_) hdone
    rw [← hjoined]
    exact hopen (line' :: ls₁) line'' ls₂ (by rw [hls, List.cons_append])

theorem collect_begin {line : List Char} (hstart : startsBlank line = false)
    (hbegins : beginsAt l (trimEnd line) = true) (ls : List (List Char)) :
    collect l none (line :: ls) =
      if isComplete l (trimEnd line) then trimEnd line :: collect l none ls
      else collect l (some (trimEnd line)) ls := by
  rw [collect, if_neg (by simp [hstart, hbegins])]

/-- A text that begins a statement and is complete at its end, but at no line feed in it, is
    collected as a whole, on one line. -/
theorem collect_text {lead : List Char} {c : Char} (hlead : '\n' ∉ lead) (hc : isBlank c = false)
    (hstart : ∀ rest, startsBlank (lead ++ rest) = false)
    (hbegins : ∀ rest, beginsAt l (lead ++ rest) = true)
    (hopen : ∀ front behind, lead ++ c :: tail = front ++ '\n' :: behind →
      isComplete l (unbroken front) = false)
    (hdone : isComplete l (unbroken (lead ++ c :: tail)) = true) (rest : List (List Char)) :
    collect l none (splitOn '\n' (lead ++ c :: tail) ++ rest) =
      unbroken (lead ++ c :: tail) :: collect l none rest := by
  have hcbreak : '\n' ∉ [c] := newline_notMem (by simpa using hc)
  obtain ⟨first, more, hs⟩ := exists_splitOn tail
  have hsplit : splitOn '\n' (lead ++ c :: tail) = (lead ++ c :: first) :: more :=
    splitOn_append hlead (splitOn_append hcbreak hs)
  have hfirst : beginsAt l (trimEnd (lead ++ c :: first)) = true := by
    rw [trimEnd_append_cons hc]
    exact hbegins _
  -- What is held at the end of a line is what stands in front of its line feed.
  have hheld : ∀ ls line ls', more = ls ++ line :: ls' →
      isComplete l (trimEnd (lead ++ c :: first) ++ joined ls) = false := by
    intro ls line ls' hmore
    obtain ⟨front, behind, hcs, hfront⟩ := exists_front (List.cons_ne_nil (lead ++ c :: first) ls)
      (hsplit.trans (by rw [hmore, List.cons_append]))
    rw [← unbroken_of_splitOn hfront]
    exact hopen front behind hcs
  rw [unbroken_of_splitOn hsplit] at hdone ⊢
  rw [hsplit, List.cons_append, collect_begin (hstart _) hfirst]
  cases more with
  | nil =>
    have hone : joined [] = [] := rfl
    rw [hone, List.append_nil] at hdone ⊢
    rw [if_pos hdone, List.nil_append]
  | cons line ls =>
    have hnone := hheld [] line ls rfl
    rw [show joined [] = [] from rfl, List.append_nil] at hnone
    rw [if_neg (by simp [hnone])]
    exact collect_held (fun ls₁ line' ls₂ hls => hheld (line :: ls₁) line' ls₂ (by rw [hls]; rfl))
      hdone rest

/-- A text in front of a semicolon that does not begin with white space has a first character. -/
theorem exists_cons_of_startsBlank (h : startsBlank body = false) (tail : List Char) :
    ∃ c more, body ++ ';' :: tail = c :: more ∧ isBlank c = false := by
  cases body with
  | nil => exact ⟨';', tail, rfl, by decide⟩
  | cons c body => exact ⟨c, body ++ ';' :: tail, rfl, h⟩

/-- A statement ends on the line of its first semicolon. -/
theorem collect_semicolon (hl : l ≠ .python) {front : List Char} (hbreak : '\n' ∉ front)
    (hfront : ';' ∉ front) (hstart : ∀ rest, startsBlank (front ++ rest) = false)
    (hbegins : ∀ rest, beginsAt l (front ++ rest) = true) (hbody : ';' ∉ body)
    (hline : startsBlank body = false) (htail : '\n' ∉ tail) (rest : List (List Char)) :
    collect l none (splitOn '\n' (front ++ (body ++ ';' :: tail)) ++ rest) =
      unbroken (front ++ (body ++ ';' :: tail)) :: collect l none rest := by
  have hopen : ∀ first behind, front ++ (body ++ ';' :: tail) = first ++ '\n' :: behind →
      isComplete l (unbroken first) = false := by
    intro first behind h
    refine isComplete_eq_false hl ?_
    rw [mem_unbroken_iff (by decide)]
    rw [← List.append_assoc] at h
    rcases List.append_eq_append_iff.1 h with ⟨more, -, hmore⟩ | ⟨more, hmore, -⟩
    · cases more with
      | nil => exact absurd (List.cons.inj hmore).1 (by decide)
      | cons c more =>
        rw [(List.cons.inj hmore).2] at htail
        simp at htail
    · exact fun hmem => List.not_mem_append hfront hbody (hmore ▸ List.mem_append_left _ hmem)
  have hdone : isComplete l (unbroken (front ++ (body ++ ';' :: tail))) = true := by
    rw [isComplete_iff hl, mem_unbroken_iff (by decide)]
    simp
  obtain ⟨c, more, hc, hblank⟩ := exists_cons_of_startsBlank hline tail
  rw [hc] at hopen hdone ⊢
  exact collect_text hbreak hblank hstart hbegins hopen hdone rest

/-- A written statement is collected as a whole, on one line. -/
theorem Statement.collect (h : Statement l ts keyword gap body tail) (rest : List (List Char)) :
    ImportStatement.collect l none
        (splitOn '\n' (keyword ++ gap ++ (body ++ ';' :: tail)) ++ rest) =
      unbroken (keyword ++ gap ++ (body ++ ';' :: tail)) ::
        ImportStatement.collect l none rest := by
  have hbody := semicolon_notMem_parts h.keyword.isSeparator h.parts
  refine collect_semicolon h.keyword.ne_python
    (List.not_mem_append h.keyword.newline_notMem h.gap.newline_notMem)
    (List.not_mem_append h.keyword.semicolon_notMem h.gap.semicolon_notMem) (fun rest => ?_)
    (fun rest => ?_) hbody h.sameLine h.tail.newline_notMem rest
  · rw [List.append_assoc]
    exact h.keyword.startsBlank _
  · rw [List.append_assoc]
    exact h.keyword.beginsAt _

/-! ### Symbols of a statement -/

/-- White space around a list of trees makes no difference. -/
theorem trimStart_parts {sep : List Char} {lead : List (List Char)}
    (h : WrittenParts sep lead ts body) : WrittenParts sep lead ts (trimStart body) := by
  have hopens : ∀ {t : Tree} {text : List Char} (rest : List Char), Written sep lead t text →
      trimStart (text ++ rest) = text ++ rest := by
    intro t text rest ht
    obtain ⟨c, more, hc, hblank, -⟩ := ht.opens rest
    rw [hc]
    exact trimStart_eq_self hblank
  cases h with
  | none hg =>
    have hnil : trimStart body = [] := by simpa using trimStart_append hg []
    exact hnil ▸ .none blank_nil
  | last hg ht hg' =>
    rw [trimStart_append hg, hopens _ ht]
    exact .last blank_nil ht hg'
  | more hg ht hg' hts =>
    rw [trimStart_append hg, hopens _ ht]
    exact .more blank_nil ht hg' hts

theorem trimEnd_parts {sep : List Char} (hsep : IsSeparator sep) {lead : List (List Char)}
    {ts : List Tree} {body : List Char} (h : WrittenParts sep lead ts body) :
    WrittenParts sep lead ts (trimEnd body) := by
  match h with
  | .none hg => exact trimEnd_eq_nil hg ▸ .none blank_nil
  | @WrittenParts.last _ _ _ g g' text hg ht hg' =>
    have hne : trimEnd text ≠ [] := by
      rw [trimEnd_eq_self (ht.tight hsep).back]
      exact ht.ne_nil
    rw [← List.append_assoc, trimEnd_append _ hg', trimEnd_append_of_ne_nil _ hne,
      trimEnd_eq_self (ht.tight hsep).back, ← List.append_nil text]
    exact .last hg ht blank_nil
  | @WrittenParts.more _ _ _ _ g g' text rest hg ht hg' hts =>
    have hcomma : trimEnd (',' :: rest) = ',' :: trimEnd rest :=
      trimEnd_cons_of_not_blank (by decide) rest
    have hne : trimEnd (',' :: rest) ≠ [] := hcomma ▸ List.cons_ne_nil _ _
    rw [← List.append_assoc g, ← List.append_assoc, trimEnd_append_of_ne_nil _ hne, hcomma,
      List.append_assoc, List.append_assoc]
    exact .more hg ht hg' (trimEnd_parts hsep hts)

/-- The symbols of a list of trees on one line. -/
theorem symbolsOfList_trim {sep : List Char} (hsep : IsSeparator sep)
    (h : WrittenParts sep [] ts body) (hbreak : '\n' ∉ body) :
    symbolsOfList sep (trim body) = Tree.partSymbols sep [] ts := by
  have htrim := trimEnd_parts hsep (trimStart_parts h)
  exact htrim.symbols hsep (fun hmem => hbreak (trim_subset body hmem)) fun n hn =>
    absurd hn List.not_mem_nil

/-- The character class of a path stops at the first other character. -/
theorem takeWhile_isPathChar {cs : List Char} (h : ∀ c ∈ cs, isPathChar c = true) {c : Char}
    (hc : isPathChar c = false) (rest : List Char) :
    (cs ++ c :: rest).takeWhile isPathChar = cs := by
  rw [List.takeWhile_append_of_pos h, List.takeWhile_cons_of_neg (by simp [hc]), List.append_nil]

/-- What a list of trees begins with, up to white space or a bracket. -/
def firstWord (sep : List Char) : List Tree → List Char
  | [] => []
  | .leaf path _ :: _ => leafText sep path
  | .star path :: _ => leadText sep path
  | .group path _ :: _ => leadText sep path

theorem takeWhile_written {sep : List Char} (hsep : IsSeparator sep) {lead : List (List Char)}
    {t : Tree} {text : List Char} (h : Written sep lead t text) {c : Char}
    (hc : isPathChar c = false) (ts : List Tree) (rest : List Char) :
    (text ++ c :: rest).takeWhile isPathChar = firstWord sep (t :: ts) := by
  cases h with
  | leaf hpath => exact takeWhile_isPathChar (isPathChar_leafText hsep hpath) hc rest
  | renamed hpath _ hg =>
    obtain ⟨b, g, rfl⟩ := List.exists_cons_of_ne_nil hg.ne_nil
    have hb : isPathChar b = false := by
      rw [← Bool.not_eq_true]
      intro hpath
      simpa [isBlank_of_isPathChar hpath] using hg.blank b List.mem_cons_self
    rw [List.append_assoc, List.cons_append, List.cons_append]
    exact takeWhile_isPathChar (isPathChar_leafText hsep hpath) hb _
  | star hpath =>
    rw [List.append_assoc]
    exact takeWhile_isPathChar (isPathChar_leadText hsep hpath) (by decide) _
  | group hpath =>
    rw [List.append_assoc]
    exact takeWhile_isPathChar (isPathChar_leadText hsep hpath) (by decide) _

theorem exists_not_isPathChar {g : List Char} (hg : Blank g) {c : Char} (hc : isPathChar c = false)
    (rest : List Char) : ∃ d behind, g ++ c :: rest = d :: behind ∧ isPathChar d = false := by
  cases g with
  | nil => exact ⟨c, rest, rfl, hc⟩
  | cons b g => exact ⟨b, g ++ c :: rest, rfl, by simp [isPathChar, hg b List.mem_cons_self]⟩

theorem takeWhile_parts {sep : List Char} (hsep : IsSeparator sep) {lead : List (List Char)}
    (h : WrittenParts sep lead ts body) (hstart : startsBlank body = false) (rest : List Char) :
    (body ++ ';' :: rest).takeWhile isPathChar = firstWord sep ts := by
  cases h with
  | none hg =>
    have hstart' : startsBlank (body ++ []) = false := by rwa [List.append_nil]
    obtain rfl := hg.eq_nil hstart'
    exact List.takeWhile_cons_of_neg (by decide)
  | last hg ht hg' =>
    obtain rfl := hg.eq_nil hstart
    obtain ⟨d, behind, hd, hdpath⟩ := exists_not_isPathChar hg' (c := ';') (by decide) rest
    rw [List.nil_append, List.append_assoc, hd]
    exact takeWhile_written hsep ht hdpath _ _
  | @more _ t ts g g' text more hg ht hg' hts =>
    obtain rfl := hg.eq_nil hstart
    obtain ⟨d, behind, hd, hdpath⟩ :=
      exists_not_isPathChar hg' (c := ',') (by decide) (more ++ ';' :: rest)
    rw [List.nil_append, List.append_assoc, List.append_assoc, List.cons_append, hd]
    exact takeWhile_written hsep ht hdpath _ _

/-- A list of trees that begins with a bare word begins with a leaf of that name. -/
theorem eq_leaf_of_firstWord {w : List Char} (hne : w ≠ []) (hself : w ≠ this) (hsep : '\\' ∉ w)
    (h : firstWord ['\\'] ts = w) : ∃ newName ts', ts = .leaf [w] newName :: ts' := by
  have hlead : ∀ path, leadText ['\\'] path ≠ w := by
    rintro path rfl
    cases path with
    | nil => exact hne rfl
    | cons n path => exact hsep (by simp [leadText])
  cases ts with
  | nil => exact absurd h.symm hne
  | cons t ts =>
    cases t with
    | star path => exact absurd h (hlead path)
    | group path parts => exact absurd h (hlead path)
    | leaf path newName =>
      have hpath : path ≠ [] := by
        rintro rfl
        exact hself h.symm
      rw [firstWord, leafText, if_neg hpath] at h
      rcases List.eq_nil_or_concat path with rfl | ⟨front, n, rfl⟩
      · exact absurd rfl hpath
      · rw [List.concat_eq_append, joinWith_concat] at h
        cases front with
        | nil => exact ⟨newName, ts, by rw [← h]; rfl⟩
        | cons m front =>
          refine absurd ?_ hsep
          rw [← h]
          simp [leadText]

/-- No list of unreserved trees reads as an import of functions or constants. -/
theorem startsWith_reserved (h : WrittenParts ['\\'] [] ts body) (hstart : startsBlank body = false)
    {w : List Char} (hw : Identifier w) (hself : w ≠ this) (hts : ∀ newName, .leaf [w] newName ∉ ts)
    (rest : List Char) : startsWith (w ++ [' ']) (body ++ ';' :: rest) = false := by
  rw [← Bool.not_eq_true, startsWith, List.isPrefixOf_iff_prefix]
  rintro ⟨more, hmore⟩
  have hpath : ∀ c ∈ w, isPathChar c = true := fun c hc =>
    isPathChar_of_isSegmentChar (hw.chars c hc)
  have hword := takeWhile_parts .backslash h hstart rest
  rw [← hmore, List.append_assoc, List.singleton_append,
    takeWhile_isPathChar hpath (by decide)] at hword
  have hsep : '\\' ∉ w := fun hmem => absurd (hw.chars _ hmem) (by decide)
  obtain ⟨newName, ts', rfl⟩ := eq_leaf_of_firstWord hw.ne_nil hself hsep hword.symm
  exact hts newName List.mem_cons_self

/-- A statement on one line gives the symbols of its trees. -/
theorem symbols_of_parts (hk : Keyword l keyword) (hg : Gap gap)
    (hparts : WrittenParts l.separator [] ts body) (hbreak : '\n' ∉ body)
    (hts : ∀ t ∈ ts, Unreserved l t) (rest : List Char) :
    symbols l (keyword ++ gap ++ (body ++ ';' :: rest)) = Tree.partSymbols l.separator [] ts := by
  have hsemi := semicolon_notMem_parts hk.isSeparator hparts
  rw [List.append_assoc keyword]
  cases l with
  | rust =>
    have hbefore : ImportStatement.body (gap ++ (body ++ ';' :: rest)) = trim body := by
      rw [← List.append_assoc, ImportStatement.body,
        before_char (List.not_mem_append hg.semicolon_notMem hsemi), trim_append_left hg.blank]
    simp only [symbols, rustSymbols]
    rw [hk.afterVisibility?, after?_append]
    simp only [hbefore]
    exact symbolsOfList_trim .colons hparts hbreak
  | php =>
    have hstart : trimStart (gap ++ (body ++ ';' :: rest)) = trimStart body ++ ';' :: rest := by
      rw [trimStart_append hg.blank, trimStart_append_cons (by decide)]
    have hparts' := trimStart_parts hparts
    have hsemi' : ';' ∉ trimStart body := fun hmem => hsemi (trimStart_subset body hmem)
    have hfunction : startsWith "function ".toList (trimStart body ++ ';' :: rest) = false :=
      startsWith_reserved hparts' (startsBlank_trimStart body)
        (by decide) (by decide) (fun newName hmem => (hts _ hmem).1 rfl) rest
    have hconst : startsWith "const ".toList (trimStart body ++ ';' :: rest) = false :=
      startsWith_reserved hparts' (startsBlank_trimStart body)
        (by decide) (by decide) (fun newName hmem => (hts _ hmem).2 rfl) rest
    cases hk
    simp only [symbols, phpSymbols]
    rw [after?_append]
    simp only [hstart, hfunction, hconst, Bool.or_self, Bool.false_eq_true, if_false,
      ImportStatement.body, before_char hsemi']
    exact symbolsOfList_trim .backslash hparts' fun hmem => hbreak (trimStart_subset body hmem)
  | java => cases hk
  | python => cases hk

theorem Statement.symbols (h : Statement l ts keyword gap body tail) :
    ImportStatement.symbols l (unbroken (keyword ++ gap ++ (body ++ ';' :: tail))) =
      Tree.partSymbols l.separator [] ts := by
  obtain ⟨body', hparts, hbreak, hbody⟩ := h.parts.relay h.keyword.isSeparator
  have hfront : '\n' ∉ keyword ++ gap :=
    List.not_mem_append h.keyword.newline_notMem h.gap.newline_notMem
  have hline : unbroken (keyword ++ gap ++ (body ++ ';' :: tail)) =
      keyword ++ gap ++ (body' ++ ';' :: unbroken tail) := by
    have hsemicolon : ∀ c ∈ [';'], isBlank c = false := List.forall_mem_singleton.2 rfl
    obtain ⟨c, more, hc, hblank⟩ := exists_cons_of_startsBlank h.sameLine tail
    rw [hc, unbroken_append_of_newline_notMem hfront hblank, ← hc, hbody ';' tail (by decide),
      ← List.singleton_append, unbroken_append hsemicolon, List.singleton_append]
  rw [hline]
  exact symbols_of_parts h.keyword h.gap hparts hbreak h.unreserved _

/-! ### Sources -/

theorem partSymbols_append (sep : List Char) (lead : List (List Char)) (ts ts' : List Tree) :
    Tree.partSymbols sep lead (ts ++ ts') =
      Tree.partSymbols sep lead ts ++ Tree.partSymbols sep lead ts' := by
  induction ts with
  | nil => simp [Tree.partSymbols]
  | cons t ts ih => simp [Tree.partSymbols, ih]

/-- The statements of a source are collected in order, and each gives the symbols of its trees. -/
theorem Source.collect {content : List Char} (h : Source l ts content) :
    (ImportStatement.collect l none (splitOn '\n' content)).flatMap (ImportStatement.symbols l) =
      Tree.partSymbols l.separator [] ts := by
  have hempty : beginsAt l [] = false := by cases l <;> rfl
  induction h with
  | nil =>
    simp [splitOn, ImportStatement.collect, show trimEnd [] = [] from rfl, hempty,
      Tree.partSymbols]
  | last hs =>
    have hcollect := hs.collect []
    rw [List.append_nil] at hcollect
    rw [hcollect, List.flatMap_cons, hs.symbols]
    simp [ImportStatement.collect]
  | statement hs _ ih =>
    rw [splitOn_newline_append, hs.collect, List.flatMap_cons, hs.symbols, ih, partSymbols_append]
  | empty hg _ ih =>
    rw [splitOn_line hg.newline_notMem, ImportStatement.collect, trimEnd_eq_nil hg.blank, hempty]
    simpa using ih

/-- The imports of a source are the symbols of its use trees, in order. -/
theorem importsOf_source (hl : l ≠ .python) {content : List Char} (h : Source l ts content) :
    importsOf l (String.ofList content) = Tree.partSymbols l.separator [] ts := by
  rw [importsOf, String.toList_ofList, collect_lines hl, h.collect]

/-- A group on several lines with a new name, `self` and a comma at its end, and a star below. -/
theorem importsOf_source_group :
    Language.rust ≠ .python ∧
    (∃ content : List Char, String.ofList content =
      "pub(crate) use app::\x7b\n    Route\n        as Path, self,\n\x7d;\r\nuse prelude::*;" ∧
      Source .rust
        [.group [['a', 'p', 'p']] [.leaf [['R', 'o', 'u', 't', 'e']] (some ['P', 'a', 't', 'h']),
          .leaf [] none], .star [['p', 'r', 'e', 'l', 'u', 'd', 'e']]] content ∧
      importsOf .rust (String.ofList content) =
        [.renamed "app::Route" "Path", .plain "app"]) := by
  have hgroup : WrittenParts [':', ':'] [] [.group [['a', 'p', 'p']]
      [.leaf [['R', 'o', 'u', 't', 'e']] (some ['P', 'a', 't', 'h']), .leaf [] none]] _ :=
    .last blank_nil (.group (by decide) <|
      .more (show Blank "\n    ".toList by decide) (.renamed (by decide) (by decide)
        (show Apart "\n        ".toList by decide) (show Apart [' '] by decide)
        (by decide)) blank_nil <|
      .more (show Blank [' '] by decide) (.leaf (by decide) (by decide)) blank_nil <|
      .none (show Blank ['\n'] by decide)) blank_nil
  have hstar : WrittenParts [':', ':'] [] [.star [['p', 'r', 'e', 'l', 'u', 'd', 'e']]] _ :=
    .last blank_nil (.star (by decide)) blank_nil
  have hsource := Source.statement
    ⟨.restricted (show '\n' ∉ "crate".toList by decide) (by decide) (by decide)
      (List.cons_ne_nil _ _) (show Gap [' '] by decide), (show Gap [] by decide), hgroup, rfl,
      (show Gap ['\r'] by decide), by simp [Unreserved]⟩ <|
    Source.last ⟨.rust, (show Gap [] by decide), hstar, rfl, (show Gap [] by decide),
      by simp [Unreserved]⟩
  exact ⟨by decide, _, by decide +kernel, hsource, importsOf_source (by decide) hsource⟩

end DocDirectives.ImportStatement
