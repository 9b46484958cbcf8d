import DocDirectives.Proofs.Imports.Layouts

/-! # Imports of Python sources

    A statement is held open at a line end behind a backslash and while its parenthesis is open, so
    it is collected as a whole in any layout. Behind `import` stand modules; behind `from` the words
    are divided at the first ` import `, which is the keyword because no module has its name. So
    the layout makes no difference: a source gives the symbols of its imports, in order. -/

namespace DocDirectives.ImportStatement

open Text UseTree

variable {inside : Bool} {G : List Char → Prop} {item : List Char × Option (List Char)}
  {items : List (List Char × Option (List Char))}
  {g g' w v n cs text body closing names tail : List Char} {dots : Nat}
  {path : List (List Char)}

/-! ### The word `import` -/

/-- A word between spaces is not part of a text with one other word. -/
theorem not_infix_word (hw : ' ' ∉ w) (hne : w ≠ []) (hv : ' ' ∉ v) (hwv : w ≠ v) (hg : Spaces g)
    (hg' : Spaces g') : ¬(' ' :: (w ++ [' '])) <:+: g ++ (v ++ g') := by
  rintro ⟨p, q, h⟩
  have htext : p ++ ' ' :: (w ++ ' ' :: q) = g ++ (v ++ g') := by simpa using h
  obtain ⟨c, w, rfl⟩ := List.exists_cons_of_ne_nil hne
  have hc : c ≠ ' ' := fun h => hw (h ▸ List.mem_cons_self)
  clear h
  induction g generalizing p with
  | nil =>
    -- The space in front of the word stands behind the other one, where there are spaces only.
    obtain ⟨b, hb⟩ : ∃ b, g' = b ++ ' ' :: (c :: w ++ ' ' :: q) := by
      rw [List.nil_append] at htext
      rcases List.append_eq_append_iff.1 htext with ⟨a, rfl, ha⟩ | ⟨b, -, hb⟩
      · cases a with
        | nil => exact ⟨[], ha.symm⟩
        | cons d a =>
          obtain ⟨rfl, -⟩ := List.cons.inj ha
          simp at hv
      · exact ⟨b, hb⟩
    exact hc (hg' c (hb ▸ by simp))
  | cons d g ih =>
    obtain rfl : d = ' ' := hg d List.mem_cons_self
    have hspaces : Spaces g := fun e he => hg e (List.mem_cons_of_mem _ he)
    cases p with
    | cons e p => exact ih hspaces p (List.cons.inj htext).2
    | nil =>
      have hword : c :: w ++ ' ' :: q = g ++ (v ++ g') := (List.cons.inj htext).2
      cases g with
      | cons d g => exact hc ((List.cons.inj hword).1.trans (hspaces d List.mem_cons_self))
      | nil =>
        have hbefore := congrArg (before [' ']) hword
        rw [before_char hw, List.nil_append, before_append hv] at hbefore
        cases g' with
        | nil => exact hwv (hbefore.trans (List.append_nil v))
        | cons d g' =>
          obtain rfl : d = ' ' := hg' d List.mem_cons_self
          exact hwv (hbefore.trans (List.append_nil v))

/-! ### Symbols -/

theorem Room.space (h : Room inside g) : Room inside (' ' :: g) := by
  induction h with
  | spaces hg => exact .spaces (List.forall_mem_cons.2 ⟨rfl, hg⟩)
  | lines hinside hg hbreak =>
    exact .lines hinside (blank_cons.2 ⟨by decide, hg⟩) (List.mem_cons_of_mem _ hbreak)
  | continued _ hb hb' ih => exact .continued ih hb hb'

/-- A keyword keeps the space behind it. -/
theorem flattened_keyword (hw : Plain w) (hg : Room false g) : ∃ g', Spaces g' ∧
    ∀ rest, rest ≠ [] → startsBlank rest = false →
      flattened (w ++ ' ' :: (g ++ rest)) = w ++ ' ' :: (g' ++ flattened rest) := by
  obtain ⟨s, hs, hne, hflat⟩ := hg.space.flattened
  obtain ⟨d, g', rfl⟩ := List.exists_cons_of_ne_nil (hne (List.cons_ne_nil _ _))
  obtain ⟨rfl, hg'⟩ := List.forall_mem_cons.1 hs
  refine ⟨g', hg', fun rest hrest hstart => ?_⟩
  rw [flattened_append hw, ← List.cons_append, hflat rest hrest hstart, List.cons_append]

theorem Names.starts (h : Names items names) (rest : List Char) :
    names ++ rest ≠ [] ∧ startsBlank (names ++ rest) = false := by
  cases h with
  | bare hitems => exact hitems.starts rest
  | parentheses => exact ⟨List.cons_ne_nil _ _, rfl⟩

/-- A dot ends a path, and the name behind it is its last segment. -/
theorem shortName_dot (hn : PyName n) (cs : List Char) :
    shortName (String.ofList (cs ++ '.' :: n)) = String.ofList n := by
  have hlast := lastSegment_written (endsSegment_separator (by decide : ['.'] ∈ separators) cs)
    (solid_of_isSegmentChar hn.chars)
  rw [List.append_assoc, List.singleton_append] at hlast
  rw [shortName_ofList, hlast]

theorem shortName_joinWith (hpath : path ≠ []) (hnames : ∀ n ∈ path, PyName n) :
    shortName (String.ofList (joinWith ['.'] path)) = String.ofList (path.getLastD []) := by
  rcases List.eq_nil_or_concat path with rfl | ⟨front, n, rfl⟩
  · exact absurd rfl hpath
  · rw [List.concat_eq_append] at hnames ⊢
    have hn : PyName n := hnames n (by simp)
    have hlast : (front ++ [n]).getLastD [] = n := by simp
    rw [joinWith_concat, hlast]
    rcases List.eq_nil_or_concat front with rfl | ⟨ahead, m, rfl⟩
    · have hself : lastSegment ([] ++ n) = n :=
        lastSegment_written (.inl rfl) (solid_of_isSegmentChar hn.chars)
      rw [shortName_ofList]
      exact congrArg String.ofList hself
    · have hlead : leadText ['.'] (ahead.concat m) ++ n =
          leadText ['.'] ahead ++ m ++ '.' :: n := by
        simp [leadText, List.concat_eq_append]
      rw [hlead, shortName_dot hn]

/-- A module ends in a dot when it has no names. -/
theorem getLast?_moduleText (hnames : ∀ n ∈ path, PyName n) (hdots : path = [] → dots ≠ 0) :
    (moduleText dots path).getLast? = some '.' ↔ path = [] := by
  rcases List.eq_nil_or_concat path with rfl | ⟨front, n, rfl⟩
  · obtain ⟨d, rfl⟩ := Nat.exists_eq_succ_of_ne_zero (hdots rfl)
    simp [moduleText, joinWith, List.replicate_succ']
  · rw [List.concat_eq_append] at hnames ⊢
    have hn : PyName n := hnames n (by simp)
    obtain ⟨ahead, c, rfl, -⟩ := hn.word.exists_concat
    have hc : c ≠ '.' := by
      rintro rfl
      exact absurd (hn.chars '.' (by simp)) (by decide)
    have htext : moduleText dots (front ++ [ahead ++ [c]]) =
        List.replicate dots '.' ++ leadText ['.'] front ++ ahead ++ [c] := by
      rw [moduleText, joinWith_concat]
      simp
    rw [htext, List.getLast?_concat]
    simp [hc]

/-- A member has its own name below the module. -/
theorem memberSymbol?_of_splitAlias {m : Member} (hnames : ∀ n ∈ path, PyName n)
    (hdots : path = [] → dots ≠ 0) (hm : m.Named) (h : splitAlias text = m.item) :
    (memberSymbol? (moduleText dots path) text).toList = m.symbols dots path := by
  unfold memberSymbol?
  rw [h]
  cases m with
  | star => rfl
  | name n newName =>
    have hn : PyName n := hm
    have hstar : n ≠ ['*'] := by
      rintro rfl
      exact absurd hn.toIdentifier (by decide)
    have hlast := getLast?_moduleText hnames hdots
    simp only [Member.item, if_neg hstar, Member.symbols, Option.toList_some, Symbol.ofImport_eq]
    by_cases hpath : path = []
    · obtain ⟨d, rfl⟩ := Nat.exists_eq_succ_of_ne_zero (hdots hpath)
      have hmodule : moduleText (d + 1) path = List.replicate d '.' ++ ['.'] := by
        rw [hpath, moduleText, List.replicate_succ']
        exact List.append_nil _
      have hshort := shortName_dot hn (List.replicate d '.')
      rw [if_pos (hlast.2 hpath), if_pos hpath, hmodule, List.append_assoc, List.singleton_append,
        hshort]
    · rw [if_neg (hlast.not.2 hpath), if_neg hpath, List.append_assoc, List.singleton_append,
        shortName_dot hn]

theorem filterMap_members {members : List Member} (hnames : ∀ n ∈ path, PyName n)
    (hdots : path = [] → dots ≠ 0) (hmembers : ∀ m ∈ members, m.Named) {texts : List (List Char)}
    (h : texts.map splitAlias = members.map Member.item) :
    texts.filterMap (memberSymbol? (moduleText dots path)) =
      members.flatMap (Member.symbols dots path) := by
  induction members generalizing texts with
  | nil =>
    obtain rfl : texts = [] := by simpa using h
    rfl
  | cons m members ih =>
    obtain ⟨text, texts, rfl, htext, htexts⟩ := List.map_eq_cons_iff.1 h
    obtain ⟨hm, hrest⟩ := List.forall_mem_cons.1 hmembers
    rw [List.filterMap_cons, List.flatMap_cons, ih hrest htexts,
      ← memberSymbol?_of_splitAlias hnames hdots hm htext]
    cases memberSymbol? (moduleText dots path) text <;> rfl

theorem map_moduleSymbol {modules : List (List (List Char) × Option (List Char))}
    (hmodules : ∀ m ∈ modules, m.1 ≠ [] ∧ ∀ n ∈ m.1, PyName n) {texts : List (List Char)}
    (h : texts.map splitAlias = modules.map fun m => (joinWith ['.'] m.1, m.2)) :
    texts.map moduleSymbol = (Import.modules modules).symbols := by
  have htexts : texts.map moduleSymbol = (texts.map splitAlias).map fun m =>
      Symbol.ofImport (String.ofList m.1) (m.2.map String.ofList) := by
    rw [List.map_map]
    rfl
  rw [htexts, h, List.map_map, Import.symbols]
  refine List.map_congr_left fun m hm => ?_
  obtain ⟨hpath, hnames⟩ := hmodules m hm
  simp only [Function.comp_apply, Symbol.ofImport_eq, shortName_joinWith hpath hnames]

theorem pythonSymbols_of_import
    (h : trim (before ['#'] (flattened text)) = "import ".toList ++ names) :
    pythonSymbols (unbroken text) = (splitTopLevel names).map moduleSymbol := by
  have hafter : after? "import ".toList (trim (before ['#'] (flattened text))) = some names :=
    h ▸ after?_append _ _
  simp only [flattened] at hafter
  simp only [pythonSymbols, hafter]

theorem pythonSymbols_of_from {rest source : List Char}
    (h : trim (before ['#'] (flattened text)) = "from ".toList ++ rest)
    (hcut : cut? " import ".toList rest = some (source, names)) :
    pythonSymbols (unbroken text) =
      (splitTopLevel names).filterMap (memberSymbol? (trim source)) := by
  have hnone : after? "import ".toList (trim (before ['#'] (flattened text))) = none := h ▸ rfl
  have hafter : after? "from ".toList (trim (before ['#'] (flattened text))) = some rest :=
    h ▸ after?_append _ _
  simp only [flattened] at hnone hafter
  simp only [pythonSymbols, hnone, hafter, hcut]

/-- No module is spelt like the keyword. -/
theorem moduleText_ne_import (hnames : ∀ n ∈ path, PyName n) (hdots : path = [] → dots ≠ 0) :
    "import".toList ≠ moduleText dots path := by
  intro h
  have hdot : '.' ∉ moduleText dots path := h ▸ by decide
  rcases List.eq_nil_or_concat path with rfl | ⟨front, n, rfl⟩
  · simp [moduleText, joinWith, hdots rfl] at hdot
  · rw [List.concat_eq_append] at h hdot hnames
    rw [moduleText, joinWith_concat] at h hdot
    simp only [List.mem_append, not_or, List.mem_replicate, and_true, not_not] at hdot
    obtain ⟨rfl, hlead, -⟩ := hdot
    cases front with
    | nil => exact (hnames n (by simp)).ne_import h.symm
    | cons m front => simp [leadText] at hlead

/-- What an import of members comes down to. -/
theorem flattened_members (hmodule : Word cs) (hg : Room false g) (hne' : g' ≠ [])
    (hg' : Room false g') {g'' : List Char} (hne'' : g'' ≠ []) (hg'' : Room false g'')
    (hitems : Names items names) (htail : Gap tail) :
    ∃ s s' s'' body closing, Spaces s ∧ s' ≠ [] ∧ Spaces s' ∧ Spaces s'' ∧ Items Spaces items body ∧
      Closing Spaces closing ∧
      flattened ("from".toList ++ ' ' :: (g ++ (cs ++
          (g' ++ ("import".toList ++ (g'' ++ (names ++ tail))))))) =
        "from".toList ++ (' ' :: (s ++ (cs ++ (s' ++ ("import".toList ++ ' ' :: s'')))) ++
          (body ++ closing)) := by
  obtain ⟨s, hs, hkeyword⟩ := flattened_keyword (by decide : Plain "from".toList) hg
  obtain ⟨s', hs', hsne', hroom'⟩ := hg'.flattened
  obtain ⟨s'', hs'', hsne'', hroom''⟩ := hg''.flattened
  obtain ⟨b, body, closing, hb, hbody, hclosing, hlist⟩ := hitems.flattened htail
  obtain ⟨c, s'', rfl⟩ := List.exists_cons_of_ne_nil (hsne'' hne'')
  obtain ⟨rfl, hrest⟩ := List.forall_mem_cons.1 hs''
  have hspaces : Spaces s'' := hrest
  obtain ⟨hne, hstart⟩ := hitems.starts tail
  refine ⟨s, s', s'' ++ b, body, closing, hs, hsne' hne', hs', hspaces.append hb, hbody, hclosing,
    ?_⟩
  rw [hkeyword _ (by simp [hmodule.ne_nil]) (hmodule.startsBlank _), flattened_append hmodule.plain,
    hroom' _ (by simp) (by rfl), flattened_append (by decide), hroom'' _ hne hstart, hlist]
  simp

/-- The module and the names stand on both sides of `import`. -/
theorem cut?_import (hmodule : Plain cs) (himport : "import".toList ≠ cs) (hg : Spaces g)
    (hne' : g' ≠ []) (hg' : Spaces g') (rest : List Char) : ∃ source, trim source = cs ∧
      cut? " import ".toList (g ++ (cs ++ (g' ++ ("import".toList ++ ' ' :: rest)))) =
        some (source, rest) := by
  have hspace : ' ' ∉ cs := fun hmem => absurd (hmodule.not_blank ' ' hmem) (by decide)
  have hword := not_infix_word (by decide : ' ' ∉ "import".toList) (by decide) hspace himport hg hg'
  rw [← List.append_assoc] at hword
  obtain ⟨behind, hbehind, hcut⟩ := cut?_spaced (by decide) hne' hg' hword rest
  rw [List.append_assoc] at hcut
  have htight : Tight cs := tight_of_not_blank hmodule.not_blank
  exact ⟨g ++ cs ++ behind, htight.trim_between hg.blank hbehind, hcut⟩

/-- An import in any layout gives its symbols. -/
theorem Layout.symbols {i : Import} (h : Layout i text) :
    pythonSymbols (unbroken text) = i.symbols := by
  have hspace : '#' ≠ ' ' := by decide
  cases h with
  | @modules modules g body tail hmodules hg hitems htail =>
    have hnil : Closing Spaces [] := .room (by decide)
    obtain ⟨s, hs, hkeyword⟩ := flattened_keyword (by decide : Plain "import".toList) hg
    obtain ⟨body', hbody, hflat⟩ := hitems.flattened
    obtain ⟨hne, hstart⟩ := hitems.starts tail
    have htext : flattened ("import".toList ++ ' ' :: (g ++ (body ++ tail))) =
        "import".toList ++ (' ' :: s ++ (body' ++ [])) := by
      rw [hkeyword _ hne hstart, hflat, flattened_gap htail]
      rfl
    have hclean := trim_flattened (by decide : Plain "import".toList) (by decide)
      (List.not_mem_cons_of_ne_of_not_mem hspace hs.hash_notMem) hbody hnil
    rw [← htext] at hclean
    exact (pythonSymbols_of_import hclean).trans
      (map_moduleSymbol hmodules (hbody.splitTopLevel hnil hs))
  | @members dots path members g g' g'' names tail hnames hdots hmembers hg hne' hg' hne'' hg''
      hitems htail =>
    have hmodule : Word (moduleText dots path) := word_moduleText hnames hdots
    obtain ⟨s, s', s'', body, closing, hs, hsne', hs', hs'', hbody, hclosing, htext⟩ :=
      flattened_members hmodule hg hne' hg' hne'' hg'' hitems htail
    have hhash : '#' ∉ ' ' ::
        (s ++ (moduleText dots path ++ (s' ++ ("import".toList ++ ' ' :: s'')))) := by
      simp only [List.mem_cons, List.mem_append, not_or]
      exact ⟨hspace, hs.hash_notMem, hmodule.plain.hash_notMem, hs'.hash_notMem, by decide, hspace,
        hs''.hash_notMem⟩
    have hclean := trim_flattened (by decide : Plain "from".toList) (by decide) hhash hbody hclosing
    rw [← htext] at hclean
    obtain ⟨source, hsource, hcut⟩ := cut?_import hmodule.plain (moduleText_ne_import hnames hdots)
      hs hsne' hs' (s'' ++ (body ++ Text.trimEnd closing))
    have hsymbols := pythonSymbols_of_from (hclean.trans (by simp)) hcut
    rw [hsource,
      filterMap_members hnames hdots hmembers (hbody.splitTopLevel hclosing.trimEnd hs'')]
      at hsymbols
    exact hsymbols

/-! ### Collecting -/

/-- In front of every line feed stands a backslash. -/
def Backed (cs : List Char) : Prop :=
  ∀ front behind, cs = front ++ '\n' :: behind → ∃ ahead b, front = ahead ++ '\\' :: b ∧ Gap b

/-- In front of every line feed stands a backslash, or a parenthesis is open. -/
def Held (cs : List Char) : Prop :=
  ∀ front behind, cs = front ++ '\n' :: behind →
    (∃ ahead b, front = ahead ++ '\\' :: b ∧ Gap b) ∨ front.count ')' < front.count '('

def Unparenthesised (cs : List Char) : Prop := '(' ∉ cs ∧ ')' ∉ cs

theorem Backed.append {ds : List Char} (hcs : Backed cs) (hds : Backed ds) : Backed (cs ++ ds) := by
  intro front behind h
  rcases List.append_eq_append_iff.1 h with ⟨a, rfl, ha⟩ | ⟨a, rfl, ha⟩
  · obtain ⟨ahead, b, rfl, hb⟩ := hds a behind ha
    exact ⟨cs ++ ahead, b, by simp, hb⟩
  · cases a with
    | nil =>
      obtain ⟨ahead, b, hnil, -⟩ := hds [] behind ha.symm
      simp at hnil
    | cons c a =>
      obtain ⟨rfl, -⟩ := List.cons.inj ha
      exact hcs front a rfl

theorem backed_of_newline_notMem (h : '\n' ∉ cs) : Backed cs := by
  rintro front behind rfl
  simp at h

theorem Plain.backed (h : Plain w) : Backed w :=
  backed_of_newline_notMem (newline_notMem h.not_blank)

theorem Room.backed (h : Room false g) : Backed g := by
  induction h with
  | spaces hg => exact backed_of_newline_notMem hg.newline_notMem
  | lines hinside => cases hinside
  | @continued g b b' _ hb hb' ih =>
    refine ih.append fun front behind h => ?_
    -- The one line feed stands behind the backslash.
    have hline : '\n' ∉ '\\' :: b := by simpa using hb.newline_notMem
    have hends : cut? ['\n'] (front ++ '\n' :: behind) = some ('\\' :: b, b') := by
      rw [← h]
      exact cut?_char hline b'
    by_cases hfront : '\n' ∈ front
    · obtain ⟨first, more, rfl, hfirst⟩ := List.eq_append_cons_of_mem hfront
      rw [List.append_assoc, List.cons_append, cut?_char hfirst] at hends
      obtain ⟨-, hmore⟩ := Prod.mk.inj (Option.some.inj hends)
      have hbreak := hb'.newline_notMem
      rw [← hmore] at hbreak
      simp at hbreak
    · rw [cut?_char hfront] at hends
      obtain ⟨rfl, -⟩ := Prod.mk.inj (Option.some.inj hends)
      exact ⟨[], b, rfl, hb⟩

theorem Unparenthesised.append {ds : List Char} (hcs : Unparenthesised cs)
    (hds : Unparenthesised ds) : Unparenthesised (cs ++ ds) :=
  ⟨List.not_mem_append hcs.1 hds.1, List.not_mem_append hcs.2 hds.2⟩

theorem Plain.unparenthesised (h : Plain w) : Unparenthesised w :=
  ⟨fun hmem => absurd (h _ hmem).2 (by decide), fun hmem => absurd (h _ hmem).2 (by decide)⟩

theorem unparenthesised_blank (h : Blank g) : Unparenthesised g :=
  ⟨h.notMem (by decide), h.notMem (by decide)⟩

theorem Room.unparenthesised (h : Room inside g) : Unparenthesised g := by
  induction h with
  | spaces hg => exact unparenthesised_blank hg.blank
  | lines _ hg => exact unparenthesised_blank hg
  | @continued g b b' _ hb hb' ih =>
    have hmark : Unparenthesised ['\\'] := ⟨by decide, by decide⟩
    have hbreak : Blank (b ++ '\n' :: b') :=
      blank_append.2 ⟨hb.blank, blank_cons.2 ⟨by decide, hb'.blank⟩⟩
    exact ih.append (hmark.append (unparenthesised_blank hbreak))

theorem Items.backed (h : Items (Room false) items body) : Backed body :=
  h.closed (fun _ _ => Backed.append) (fun _ => Plain.backed) (fun _ => Room.backed)

theorem Items.unparenthesised (h : Items (Room inside) items body) : Unparenthesised body :=
  h.closed (fun _ _ => Unparenthesised.append) (fun _ => Plain.unparenthesised)
    (fun _ => Room.unparenthesised)

theorem Closing.unparenthesised (h : Closing (Room inside) closing) : Unparenthesised closing := by
  cases h with
  | room hg => exact hg.unparenthesised
  | comma hg hg' =>
    exact hg.unparenthesised.append (plain_comma.unparenthesised.append hg'.unparenthesised)

theorem Backed.held (h : Backed cs) : Held cs := fun front behind hcs => .inl (h front behind hcs)

/-- Between its parentheses a statement is held open. -/
theorem held_parentheses {inner : List Char} (hcs : Backed cs) (hfree : Unparenthesised cs)
    (hinner : Unparenthesised inner) (htail : '\n' ∉ tail) :
    Held (cs ++ '(' :: (inner ++ ')' :: tail)) := by
  intro front behind h
  rcases List.append_eq_append_iff.1 h with ⟨a, rfl, ha⟩ | ⟨a, rfl, ha⟩
  · cases a with
    | nil => exact absurd (List.cons.inj ha).1 (by decide)
    | cons c a =>
      obtain ⟨rfl, hrest⟩ := List.cons.inj ha
      rcases List.append_eq_append_iff.1 hrest with ⟨d, rfl, hd⟩ | ⟨d, rfl, -⟩
      · cases d with
        | nil => exact absurd (List.cons.inj hd).1 (by decide)
        | cons c d =>
          rw [(List.cons.inj hd).2] at htail
          simp at htail
      · right
        have hopen : '(' ∉ a := fun hmem => hinner.1 (List.mem_append_left _ hmem)
        have hclose : ')' ∉ a := fun hmem => hinner.2 (List.mem_append_left _ hmem)
        simp [List.count_eq_zero.2 hfree.1, List.count_eq_zero.2 hfree.2,
          List.count_eq_zero.2 hopen, List.count_eq_zero.2 hclose]
  · cases a with
    | nil => exact absurd (List.cons.inj ha).1 (by decide)
    | cons c a =>
      obtain ⟨rfl, -⟩ := List.cons.inj ha
      exact .inl (hcs front a rfl)

/-- The parentheses of a text are balanced, and it does not end in a backslash. -/
structure Ended (cs : List Char) : Prop where
  count : cs.count '(' = cs.count ')'
  last : ∃ front c tail, cs = front ++ c :: tail ∧ isBlank c = false ∧ c ≠ '\\' ∧ Gap tail

theorem isComplete_of_ended (h : Ended cs) : isComplete .python (unbroken cs) = true := by
  obtain ⟨front, c, tail, rfl, hblank, hc, htail⟩ := h.last
  obtain ⟨front', hfront⟩ := exists_unbroken hblank front
  have hopen := count_unbroken (c := '(') (by decide) (front ++ c :: tail)
  have hclose := count_unbroken (c := ')') (by decide) (front ++ c :: tail)
  have hline := hfront tail htail.newline_notMem
  rw [trimEnd_eq_nil htail.blank] at hline
  have hlast : (unbroken (front ++ c :: tail)).getLast? ≠ some '\\' := by
    rw [hline, List.getLast?_concat]
    simpa using hc
  simp [isComplete, hopen, hclose, h.count, hlast]

theorem isComplete_of_held (h : Held cs) {front behind : List Char}
    (hcs : cs = front ++ '\n' :: behind) : isComplete .python (unbroken front) = false := by
  rcases h front behind hcs with ⟨ahead, b, rfl, hb⟩ | hcount
  · obtain ⟨front', hfront⟩ := exists_unbroken (c := '\\') (by decide) ahead
    rw [hfront b hb.newline_notMem, trimEnd_eq_nil hb.blank]
    simp [isComplete]
  · have hopen := count_unbroken (c := '(') (by decide) front
    have hclose := count_unbroken (c := ')') (by decide) front
    simp only [isComplete, hopen, hclose, Bool.and_eq_false_iff, decide_eq_false_iff_not]
    exact .inl (by omega)

/-- Behind its keyword a statement goes on with spaces and then with something else. -/
theorem Room.exists_cons (h : Room false g) (hne : cs ≠ []) (hstart : startsBlank cs = false) :
    ∃ s c rest, Spaces s ∧ isBlank c = false ∧ g ++ cs = s ++ c :: rest := by
  induction h generalizing cs with
  | @spaces g hg =>
    obtain ⟨c, rest, rfl⟩ := List.exists_cons_of_ne_nil hne
    exact ⟨g, c, rest, hg, hstart, rfl⟩
  | lines hinside => cases hinside
  | continued _ _ _ ih =>
    rw [List.append_assoc]
    exact ih (List.cons_ne_nil _ _) rfl

/-- A statement is collected when it is held at every line feed and ended behind them. -/
theorem collect_held_ended {keyword : List Char}
    (hkeyword : keyword = "import ".toList ∨ keyword = "from ".toList) (hg : Room false g)
    (hne : cs ≠ []) (hstart : startsBlank cs = false) (hheld : Held (keyword ++ (g ++ cs)))
    (hended : Ended (keyword ++ (g ++ cs))) (rest : List (List Char)) :
    collect .python none (splitOn '\n' (keyword ++ (g ++ cs)) ++ rest) =
      unbroken (keyword ++ (g ++ cs)) :: collect .python none rest := by
  obtain ⟨s, c, behind, hs, hc, htext⟩ := hg.exists_cons hne hstart
  rw [htext, ← List.append_assoc] at hheld hended ⊢
  have hbegin : ∀ rest, startsBlank (keyword ++ s ++ rest) = false ∧
      beginsAt .python (keyword ++ s ++ rest) = true ∧ '\n' ∉ keyword := by
    intro rest
    rcases hkeyword with rfl | rfl <;> exact ⟨rfl, rfl, by decide⟩
  exact collect_text (List.not_mem_append (hbegin []).2.2 hs.newline_notMem) hc
    (fun rest => (hbegin rest).1) (fun rest => (hbegin rest).2.1)
    (fun _ _ => isComplete_of_held hheld) (isComplete_of_ended hended) rest

/-! ### Sources -/

theorem Items.exists_last (h : Items G items body) (htail : Gap tail) (cs : List Char) :
    ∃ front c tail', cs ++ (body ++ tail) = front ++ c :: tail' ∧ isBlank c = false ∧ c ≠ '\\' ∧
      Gap tail' := by
  obtain ⟨front, c, rfl, hc⟩ := h.exists_concat
  obtain ⟨hblank, hmark⟩ := hc c List.mem_cons_self
  refine ⟨cs ++ front, c, tail, by simp, hblank, ?_, htail⟩
  rintro rfl
  simp at hmark

theorem count_eq_of_unparenthesised (h : Unparenthesised cs) : cs.count '(' = cs.count ')' := by
  rw [List.count_eq_zero.2 h.1, List.count_eq_zero.2 h.2]

/-- A list without parentheses is held by its backslashes. -/
theorem Items.held (h : Items (Room false) items body) (hcs : Backed cs)
    (hfree : Unparenthesised cs) (htail : Gap tail) :
    Held (cs ++ (body ++ tail)) ∧ Ended (cs ++ (body ++ tail)) := by
  have hend : Backed tail := backed_of_newline_notMem htail.newline_notMem
  have hall := hfree.append (h.unparenthesised.append (unparenthesised_blank htail.blank))
  exact ⟨(hcs.append (h.backed.append hend)).held,
    count_eq_of_unparenthesised hall, h.exists_last htail cs⟩

theorem Names.held (h : Names items names) (hcs : Backed cs) (hfree : Unparenthesised cs)
    (htail : Gap tail) : Held (cs ++ (names ++ tail)) ∧ Ended (cs ++ (names ++ tail)) := by
  cases h with
  | bare hitems => exact hitems.held hcs hfree htail
  | @parentheses g body closing hg hitems hclosing =>
    have hinner : Unparenthesised (g ++ (body ++ closing)) :=
      hg.unparenthesised.append (hitems.unparenthesised.append hclosing.unparenthesised)
    have htext : cs ++ ('(' :: (g ++ (body ++ (closing ++ [')']))) ++ tail) =
        cs ++ '(' :: (g ++ (body ++ closing) ++ ')' :: tail) := by simp
    have hend := unparenthesised_blank htail.blank
    rw [htext]
    refine ⟨held_parentheses hcs hfree hinner htail.newline_notMem, ?_,
      cs ++ '(' :: (g ++ (body ++ closing)), ')', tail, by simp, by decide, by decide, htail⟩
    simp only [List.count_append, List.count_cons, count_eq_of_unparenthesised hfree,
      count_eq_of_unparenthesised hinner, count_eq_of_unparenthesised hend]
    simp
    omega

/-- An import is held open in any layout until it ends. -/
theorem Layout.held {i : Import} (h : Layout i text) : Held text ∧ Ended text := by
  cases h with
  | modules _ hg hitems htail =>
    have hkeyword : Plain "import".toList := by decide
    have hspace := hg.space
    obtain ⟨hheld, hended⟩ := hitems.held (hkeyword.backed.append hspace.backed)
      (hkeyword.unparenthesised.append hspace.unparenthesised) htail
    rw [List.append_assoc] at hheld hended
    exact ⟨hheld, hended⟩
  | members hnames hdots _ hg _ hg' _ hg'' hitems htail =>
    have hfrom : Plain "from".toList := by decide
    have himport : Plain "import".toList := by decide
    have hmodule := (word_moduleText hnames hdots).plain
    have hspace := hg.space
    have hbacked := hfrom.backed.append (hspace.backed.append (hmodule.backed.append
      (hg'.backed.append (himport.backed.append hg''.backed))))
    have hfree := hfrom.unparenthesised.append (hspace.unparenthesised.append
      (hmodule.unparenthesised.append (hg'.unparenthesised.append
        (himport.unparenthesised.append hg''.unparenthesised))))
    obtain ⟨hheld, hended⟩ := hitems.held hbacked hfree htail
    simp only [List.append_assoc] at hheld hended
    exact ⟨hheld, hended⟩

/-- It is collected as a whole. -/
theorem Layout.collect {i : Import} (h : Layout i text) (rest : List (List Char)) :
    ImportStatement.collect .python none (splitOn '\n' text ++ rest) =
      unbroken text :: ImportStatement.collect .python none rest := by
  obtain ⟨hheld, hended⟩ := h.held
  cases h with
  | @modules _ _ _ tail _ hg hitems =>
    obtain ⟨hne, hstart⟩ := hitems.starts tail
    exact collect_held_ended (.inl rfl) hg hne hstart hheld hended rest
  | members hnames hdots _ hg =>
    have hmodule := word_moduleText hnames hdots
    exact collect_held_ended (.inr rfl) hg (by simp [hmodule.ne_nil]) (hmodule.startsBlank _) hheld
      hended rest

/-- The imports of a source are collected in order, and each gives its symbols. -/
theorem Imports.collect {is : List Import} {content : List Char} (h : Imports is content) :
    (ImportStatement.collect .python none (lines content)).flatMap
        (ImportStatement.symbols .python) =
      is.flatMap Import.symbols := by
  induction h with
  | nil => rfl
  | @last i text hi =>
    obtain ⟨front, c, tail, rfl, hblank, -, htail⟩ := hi.held.2.last
    obtain ⟨ended, last, hfront, -⟩ := exists_lines front
    have hc : '\n' ∉ [c] := newline_notMem (by simpa using hblank)
    have hsplit : splitOn '\n' (front ++ c :: tail) = ended ++ [last ++ c :: tail] :=
      splitOn_append_right (by simpa [htail.newline_notMem] using hc) hfront
    have hcollect := hi.collect []
    rw [List.append_nil, hsplit] at hcollect
    rw [lines_of_splitOn hsplit (by simp), collect_dropReturn, hcollect, List.flatMap_cons,
      List.flatMap_singleton]
    exact (congrArg (· ++ _) hi.symbols).trans (by simp [ImportStatement.collect])
  | @layout i is text rest hi _ ih =>
    rw [lines_newline_append, collect_dropReturn, hi.collect, List.flatMap_cons, List.flatMap_cons,
      ih]
    exact congrArg (· ++ _) hi.symbols
  | @empty is g rest hg _ ih =>
    have hline := collect_dropReturn (l := .python) none [g] (lines rest)
    rw [lines_newline_append, splitOn_eq_singleton hg.newline_notMem, hline, List.singleton_append,
      ImportStatement.collect, trimEnd_eq_nil hg.blank]
    simpa [beginsAt, startsWith] using ih

/-- Python imports do not depend on their layout: on one line, in parentheses on any number of
    lines, and continued behind backslashes they give the same symbols, in order. -/
theorem importsOf_layouts {is : List Import} {content : List Char} (h : Imports is content) :
    importsOf .python (String.ofList content) = is.flatMap Import.symbols := by
  rw [importsOf, String.toList_ofList, h.collect]

/-- A list in parentheses with a comma at its end, one behind a backslash, and modules. -/
theorem importsOf_layouts_mixed : ∃ content : List Char,
    String.ofList content =
      "from ..p import (\n    A as B,\n    C,\n)\nfrom . import D, \\\n    E\nimport a.b as c, d" ∧
    Imports [.members 2 [['p']] [.name ['A'] (some ['B']), .name ['C'] none],
      .members 1 [] [.name ['D'] none, .name ['E'] none],
      .modules [([['a'], ['b']], some ['c']), ([['d']], none)]] content ∧
    importsOf .python (String.ofList content) =
      [.renamed "..p.A" "B", .plain "..p.C", .plain ".D", .plain ".E", .renamed "a.b" "c",
        .plain "d"] := by
  have hnil : ∀ {inside}, Room inside [] := .spaces (by decide)
  have hspace : ∀ {inside}, Room inside [' '] := .spaces (show Spaces [' '] by decide)
  have hbreak : Room true "\n    ".toList := .lines rfl (by decide) (by decide)
  have hend : Room true ['\n'] := .lines rfl (by decide) (by decide)
  have hback : Room false _ :=
    .continued hspace (by decide : Gap []) (show Gap "    ".toList by decide)
  have hword : ∀ n, PyName n → Word n := fun _ => PyName.word
  have hlist : Names [(['A'], some ['B']), (['C'], none)] _ :=
    .parentheses hbreak
      (.more (.renamed (hword ['A'] (by decide)) (by simp) hspace (by simp) hspace
        (show PyName ['B'] by decide)) hnil hbreak (.last (.plain (hword ['C'] (by decide)))))
      (.comma hnil hend)
  have hbacked : Names [(['D'], none), (['E'], none)] _ :=
    .bare (.more (.plain (hword ['D'] (by decide))) hnil hback
      (.last (.plain (hword ['E'] (by decide)))))
  have hmodules : Items (Room false) [("a.b".toList, some ['c']), (['d'], none)] _ :=
    .more (.renamed (show Word "a.b".toList by decide) (by simp) hspace
      (by simp) hspace (show PyName ['c'] by decide)) hnil hspace
      (.last (.plain (hword ['d'] (by decide))))
  have hgap : Gap [] := by decide
  have himports : Imports [.members 2 [['p']] [.name ['A'] (some ['B']), .name ['C'] none],
      .members 1 [] [.name ['D'] none, .name ['E'] none],
      .modules [([['a'], ['b']], some ['c']), ([['d']], none)]] _ :=
    .layout (.members (by decide) (by decide) (by decide) hnil (by simp) hspace (by simp) hspace
      hlist hgap) <|
    .layout (.members (by decide) (by decide) (by decide) hnil (by simp) hspace (by simp) hspace
      hbacked hgap) <|
    .last (.modules (by decide) hnil hmodules hgap)
  exact ⟨_, by decide +kernel, himports, (importsOf_layouts himports).trans (by decide +kernel)⟩

end DocDirectives.ImportStatement
