import DocDirectives.Proofs.Imports.Statements

/-! # Layouts of Python imports

    The words of an import are separated by spaces, by line ends behind backslashes, and inside
    parentheses by line ends alone. On one line, without parentheses and backslashes, every layout
    comes down to the same words with spaces between them. A list of them is divided into its items
    at the commas, and each item at its `as`.

        Layout ──▶ 'import ' Room Items
               ──▶ 'from ' Room module Room 'import' Room Names
        Names  ──▶ Items, or '(' Room Items Closing ')'
        Items  ──▶ Item, or Item Room ',' Room Items
        Item   ──▶ word, or word Room 'as' Room name -/

namespace DocDirectives.ImportStatement

open Text UseTree

/-! ### Imports -/

/-- A name that is imported from a module, perhaps under another one, or all of them. -/
inductive Member
  | star
  | name (name : List Char) (newName : Option (List Char))

/-- An import of modules by their paths, or of members of a module. A module with dots in front is
    relative. -/
inductive Import
  | modules (modules : List (List (List Char) × Option (List Char)))
  | members (dots : Nat) (path : List (List Char)) (members : List Member)

def moduleText (dots : Nat) (path : List (List Char)) : List Char :=
  List.replicate dots '.' ++ joinWith ['.'] path

/-- A member below its module; a module that is dots only has one in front of the name already. -/
def Member.symbols (dots : Nat) (path : List (List Char)) : Member → List Symbol
  | .star => []
  | .name n newName =>
    [{ fullName := String.ofList (moduleText dots path ++ if path = [] then n else '.' :: n)
       short := String.ofList n
       otherName := newName.map String.ofList }]

def Import.symbols : Import → List Symbol
  | .modules ms => ms.map fun (path, newName) =>
      { fullName := String.ofList (joinWith ['.'] path)
        short := String.ofList (path.getLastD [])
        otherName := newName.map String.ofList }
  | .members dots path ms => ms.flatMap (Member.symbols dots path)

/-! ### Layouts -/

/-- Text in which a statement has no layout. -/
def Plain (w : List Char) : Prop := ∀ c ∈ w, isBlank c = false ∧ c ∉ ['(', ')', '\\', '#']

instance (w : List Char) : Decidable (Plain w) :=
  decidable_of_iff (w.all fun c => !isBlank c && !(['(', ')', '\\', '#'].contains c))
    (by simp [Plain])

/-- A name of Python, as far as imports can tell. -/
structure PyName (n : List Char) : Prop extends Identifier n where
  hash_notMem : '#' ∉ n
  ne_import : n ≠ "import".toList

instance (n : List Char) : Decidable (PyName n) :=
  decidable_of_iff (Identifier n ∧ '#' ∉ n ∧ n ≠ "import".toList)
    ⟨fun ⟨h1, h2, h3⟩ => ⟨h1, h2, h3⟩, fun h => ⟨h.toIdentifier, h.hash_notMem, h.ne_import⟩⟩

/-- A name, a path of names or a star. -/
structure Word (w : List Char) : Prop where
  ne_nil : w ≠ []
  plain : Plain w
  flat : ∀ c ∈ w, c ∉ ['{', '}', '(', ')', ',']

instance (w : List Char) : Decidable (Word w) :=
  decidable_of_iff (w ≠ [] ∧ Plain w ∧ w.all fun c => !(['{', '}', '(', ')', ','].contains c))
    ⟨fun ⟨h1, h2, h3⟩ => ⟨h1, h2, by simpa using h3⟩,
      fun h => ⟨h.ne_nil, h.plain, by simpa using h.flat⟩⟩

def Spaces (g : List Char) : Prop := ∀ c ∈ g, c = ' '

instance (g : List Char) : Decidable (Spaces g) :=
  decidable_of_iff (g.all (· == ' ')) (by simp [Spaces])

/-- White space between words. A line ends in it behind a backslash, and inside parentheses
    anywhere. -/
inductive Room (inside : Bool) : List Char → Prop
  | spaces {g : List Char} : Spaces g → Room inside g
  | lines {g : List Char} : inside = true → Blank g → '\n' ∈ g → Room inside g
  | continued {g b b' : List Char} : Room inside g → Gap b → Gap b' →
      Room inside (g ++ '\\' :: (b ++ '\n' :: b'))

/-- A word with the new name behind it, if there is one, and its texts with white space `G`. -/
inductive Item (G : List Char → Prop) : List Char × Option (List Char) → List Char → Prop
  | plain {w : List Char} : Word w → Item G (w, none) w
  | renamed {w g g' n : List Char} : Word w → g ≠ [] → G g → g' ≠ [] → G g' → PyName n →
      Item G (w, some n) (w ++ (g ++ 'a' :: 's' :: (g' ++ n)))

/-- A list of them, and its texts. -/
inductive Items (G : List Char → Prop) : List (List Char × Option (List Char)) → List Char → Prop
  | last {item : List Char × Option (List Char)} {text : List Char} : Item G item text →
      Items G [item] text
  | more {item : List Char × Option (List Char)} {items : List (List Char × Option (List Char))}
      {text g g' rest : List Char} : Item G item text → G g → G g' → Items G items rest →
      Items G (item :: items) (text ++ (g ++ ',' :: (g' ++ rest)))

/-- What may stand behind the last item inside parentheses. -/
inductive Closing (G : List Char → Prop) : List Char → Prop
  | room {g : List Char} : G g → Closing G g
  | comma {g g' : List Char} : G g → G g' → Closing G (g ++ ',' :: g')

/-- The names behind `import`, perhaps in parentheses. -/
inductive Names : List (List Char × Option (List Char)) → List Char → Prop
  | bare {items : List (List Char × Option (List Char))} {body : List Char} :
      Items (Room false) items body → Names items body
  | parentheses {items : List (List Char × Option (List Char))} {g body closing : List Char} :
      Room true g → Items (Room true) items body → Closing (Room true) closing →
      Names items ('(' :: (g ++ (body ++ (closing ++ [')']))))

def Member.item : Member → List Char × Option (List Char)
  | .star => (['*'], none)
  | .name n newName => (n, newName)

def Member.Named : Member → Prop
  | .star => True
  | .name n _ => PyName n

instance (m : Member) : Decidable m.Named :=
  match m with
  | .star => isTrue trivial
  | .name n _ => inferInstanceAs (Decidable (PyName n))

/-- An import and its texts. -/
inductive Layout : Import → List Char → Prop
  | modules {modules : List (List (List Char) × Option (List Char))} {g body tail : List Char} :
      (∀ m ∈ modules, m.1 ≠ [] ∧ ∀ n ∈ m.1, PyName n) → Room false g →
      Items (Room false) (modules.map fun m => (joinWith ['.'] m.1, m.2)) body → Gap tail →
      Layout (.modules modules) ("import ".toList ++ (g ++ (body ++ tail)))
  | members {dots : Nat} {path : List (List Char)} {members : List Member}
      {g g' g'' names tail : List Char} :
      (∀ n ∈ path, PyName n) → (path = [] → dots ≠ 0) → (∀ m ∈ members, m.Named) →
      Room false g → g' ≠ [] → Room false g' → g'' ≠ [] → Room false g'' →
      Names (members.map Member.item) names → Gap tail →
      Layout (.members dots path members)
        ("from ".toList ++ (g ++ (moduleText dots path ++
          (g' ++ ("import".toList ++ (g'' ++ (names ++ tail)))))))

/-- A source of imports, each on lines of its own, and of empty lines. -/
inductive Imports : List Import → List Char → Prop
  | nil : Imports [] []
  | last {i : Import} {text : List Char} : Layout i text → Imports [i] text
  | layout {i : Import} {is : List Import} {text rest : List Char} : Layout i text →
      Imports is rest → Imports (i :: is) (text ++ '\n' :: rest)
  | empty {is : List Import} {g rest : List Char} : Gap g → Imports is rest →
      Imports is (g ++ '\n' :: rest)

variable {inside : Bool} {G : List Char → Prop} {item : List Char × Option (List Char)}
  {items : List (List Char × Option (List Char))}
  {g g' w v n cs text body closing names tail : List Char} {dots : Nat}
  {path : List (List Char)}

/-! ### Words -/

theorem PyName.word (h : PyName n) : Word n where
  ne_nil := h.ne_nil
  plain := by
    intro c hc
    have hchar := h.chars c hc
    refine ⟨h.toIdentifier.isBlank c hc, fun hmem => ?_⟩
    simp only [List.mem_cons, List.not_mem_nil, or_false] at hmem
    rcases hmem with rfl | rfl | rfl | rfl
    · exact absurd hchar (by decide)
    · exact absurd hchar (by decide)
    · exact absurd hchar (by decide)
    · exact h.hash_notMem hc
  flat := flat_of_isPathChar fun c hc => isPathChar_of_isSegmentChar (h.chars c hc)

theorem Plain.append (hw : Plain w) (hv : Plain v) : Plain (w ++ v) :=
  List.forall_mem_append.2 ⟨hw, hv⟩

/-- A path of names is a word. -/
theorem word_joinWith (hpath : path ≠ []) (hnames : ∀ n ∈ path, PyName n) :
    Word (joinWith ['.'] path) := by
  rcases List.eq_nil_or_concat path with rfl | ⟨front, n, rfl⟩
  · exact absurd rfl hpath
  · rw [List.concat_eq_append] at hnames ⊢
    have hn : Word n := (hnames n (by simp)).word
    have hdot : Plain ['.'] ∧ ∀ c ∈ ['.'], c ∉ ['{', '}', '(', ')', ','] :=
      ⟨by decide, List.forall_mem_singleton.2 (by decide)⟩
    have hlead : Plain (leadText ['.'] front) ∧
        ∀ c ∈ leadText ['.'] front, c ∉ ['{', '}', '(', ')', ','] := by
      have hname : ∀ m ∈ front, Word m := fun m hm => (hnames m (by simp [hm])).word
      refine ⟨fun c hc => ?_, fun c hc => ?_⟩
      all_goals
        obtain ⟨m, hm, hc⟩ := List.mem_flatMap.1 hc
        rcases List.mem_append.1 hc with hc | hc
      · exact (hname m hm).plain c hc
      · exact hdot.1 c hc
      · exact (hname m hm).flat c hc
      · exact hdot.2 c hc
    rw [joinWith_concat]
    exact ⟨by simp [hn.ne_nil], hlead.1.append hn.plain, flat_append hlead.2 hn.flat⟩

/-- So is a module, with its dots. -/
theorem word_moduleText (hnames : ∀ n ∈ path, PyName n) (hdots : path = [] → dots ≠ 0) :
    Word (moduleText dots path) := by
  have hlead : Plain (List.replicate dots '.') ∧
      ∀ c ∈ List.replicate dots '.', c ∉ ['{', '}', '(', ')', ','] := by
    refine ⟨fun c hc => ?_, fun c hc => ?_⟩ <;>
      · rw [List.eq_of_mem_replicate hc]
        decide
  by_cases hpath : path = []
  · have htext : moduleText dots path = List.replicate dots '.' := by
      rw [moduleText, hpath]
      exact List.append_nil _
    rw [htext]
    exact ⟨by simpa using hdots hpath, hlead.1, hlead.2⟩
  · have hjoin := word_joinWith hpath hnames
    exact ⟨by simp [moduleText, hjoin.ne_nil], hlead.1.append hjoin.plain,
      flat_append hlead.2 hjoin.flat⟩

/-! ### One line -/

/-- A text as its words are read: on one line, without the marks of its layout. -/
def flattened (cs : List Char) : List Char :=
  (unbroken cs).filter fun c => c ≠ '(' ∧ c ≠ ')' ∧ c ≠ '\\'

theorem Plain.not_blank (h : Plain w) : ∀ c ∈ w, isBlank c = false := fun c hc => (h c hc).1

theorem flattened_append (h : Plain w) (rest : List Char) :
    flattened (w ++ rest) = w ++ flattened rest := by
  have hfilter : (w.filter fun c => c ≠ '(' ∧ c ≠ ')' ∧ c ≠ '\\') = w := by
    refine List.filter_eq_self.2 fun c hc => ?_
    have hmark := (h c hc).2
    simp only [List.mem_cons, List.not_mem_nil, or_false, not_or] at hmark
    simp [hmark]
  rw [flattened, unbroken_append h.not_blank, List.filter_append, hfilter, flattened]

theorem flattened_mark {c : Char} (hc : c ∈ ['(', ')', '\\']) (rest : List Char) :
    flattened (c :: rest) = flattened rest := by
  have hblank : ∀ d ∈ [c], isBlank d = false := by
    simp only [List.mem_cons, List.not_mem_nil, or_false] at hc
    refine List.forall_mem_singleton.2 ?_
    rcases hc with rfl | rfl | rfl <;> rfl
  have hdrop : ([c].filter fun c => c ≠ '(' ∧ c ≠ ')' ∧ c ≠ '\\') = [] := by
    simp only [List.mem_cons, List.not_mem_nil, or_false] at hc
    rcases hc with rfl | rfl | rfl <;> rfl
  rw [flattened, ← List.singleton_append, unbroken_append hblank, List.filter_append, hdrop,
    List.nil_append, flattened]

theorem flattened_blank (hg : Blank g) {rest : List Char} (hne : rest ≠ [])
    (hrest : startsBlank rest = false) : flattened (g ++ rest) = relaid g ++ flattened rest := by
  obtain ⟨c, rest, rfl⟩ := List.exists_cons_of_ne_nil hne
  have hfilter : ((relaid g).filter fun c => c ≠ '(' ∧ c ≠ ')' ∧ c ≠ '\\') = relaid g := by
    refine List.filter_eq_self.2 fun c hc => ?_
    have hblank := blank_relaid hg
    have h1 := hblank.notMem (c := '(') (by decide)
    have h2 := hblank.notMem (c := ')') (by decide)
    have h3 := hblank.notMem (c := '\\') (by decide)
    have hne : c ≠ '(' ∧ c ≠ ')' ∧ c ≠ '\\' := by
      refine ⟨?_, ?_, ?_⟩ <;> (rintro rfl; contradiction)
    simp [hne]
  rw [flattened, unbroken_blank hg hrest, List.filter_append, hfilter, flattened]

theorem Spaces.blank (h : Spaces g) : Blank g := fun c hc => by
  rw [h c hc]
  decide

theorem Spaces.append (h : Spaces g) (h' : Spaces g') : Spaces (g ++ g') :=
  List.forall_mem_append.2 ⟨h, h'⟩

theorem Spaces.newline_notMem (h : Spaces g) : '\n' ∉ g := fun hmem =>
  absurd (h _ hmem) (by decide)

/-- White space of any layout comes down to spaces. -/
theorem Room.flattened (h : Room inside g) : ∃ g', Spaces g' ∧ (g ≠ [] → g' ≠ []) ∧
    ∀ rest, rest ≠ [] → startsBlank rest = false →
      ImportStatement.flattened (g ++ rest) = g' ++ ImportStatement.flattened rest := by
  induction h with
  | @spaces g hg =>
    refine ⟨g, hg, id, fun rest hne hrest => ?_⟩
    rw [flattened_blank hg.blank hne hrest, relaid_eq_self hg.newline_notMem]
  | @lines g _ hg hbreak =>
    exact ⟨relaid g, eq_space_of_mem_relaid hbreak, relaid_ne_nil, fun rest hne hrest =>
      flattened_blank hg hne hrest⟩
  | @continued g b b' _ hb hb' ih =>
    obtain ⟨g', hg', -, hrest⟩ := ih
    have hbreak : '\n' ∈ b ++ '\n' :: b' := by simp
    have hblank : Blank (b ++ '\n' :: b') :=
      blank_append.2 ⟨hb.blank, blank_cons.2 ⟨by decide, hb'.blank⟩⟩
    refine ⟨g' ++ relaid (b ++ '\n' :: b'), hg'.append (eq_space_of_mem_relaid hbreak),
      fun _ => ?_, fun rest hne hstart => ?_⟩
    · simp [relaid_ne_nil (List.ne_nil_of_mem hbreak)]
    · rw [List.append_assoc, List.cons_append, hrest _ (List.cons_ne_nil _ _) (by rfl),
        flattened_mark (by simp), flattened_blank hblank hne hstart, List.append_assoc]

theorem Word.startsBlank (h : Word w) (rest : List Char) :
    Text.startsBlank (w ++ rest) = false := by
  rw [startsBlank_append h.ne_nil]
  exact (tight_of_not_blank h.plain.not_blank).front

theorem Item.starts (h : Item G item text) (rest : List Char) :
    text ++ rest ≠ [] ∧ startsBlank (text ++ rest) = false := by
  cases h with
  | plain hw => exact ⟨by simp [hw.ne_nil], hw.startsBlank rest⟩
  | renamed hw =>
    rw [List.append_assoc]
    exact ⟨by simp [hw.ne_nil], hw.startsBlank _⟩

theorem Item.ne_nil (h : Item G item text) : text ≠ [] := by
  simpa using (h.starts []).1

theorem Items.starts (h : Items G items body) (rest : List Char) :
    body ++ rest ≠ [] ∧ startsBlank (body ++ rest) = false := by
  cases h with
  | last hitem => exact hitem.starts rest
  | more hitem =>
    rw [List.append_assoc]
    exact hitem.starts _

theorem plain_as : Plain ['a', 's'] := by decide

theorem plain_comma : Plain [','] := by decide

theorem Item.flattened (h : Item (Room inside) item text) : ∃ text', Item Spaces item text' ∧
    ∀ rest, ImportStatement.flattened (text ++ rest) =
      text' ++ ImportStatement.flattened rest := by
  cases h with
  | plain hw => exact ⟨text, .plain hw, flattened_append hw.plain⟩
  | @renamed w g g' n hw hne hg hne' hg' hn =>
    obtain ⟨s, hs, hsne, hflat⟩ := hg.flattened
    obtain ⟨s', hs', hsne', hflat'⟩ := hg'.flattened
    refine ⟨_, .renamed hw (hsne hne) hs (hsne' hne') hs' hn, fun rest => ?_⟩
    have hname := hn.word.startsBlank rest
    calc ImportStatement.flattened (w ++ (g ++ 'a' :: 's' :: (g' ++ n)) ++ rest)
        = ImportStatement.flattened (w ++ (g ++ (['a', 's'] ++ (g' ++ (n ++ rest))))) := by simp
      _ = w ++ (s ++ (['a', 's'] ++ (s' ++ (n ++ ImportStatement.flattened rest)))) := by
        rw [flattened_append hw.plain, hflat _ (by simp) (by rfl), flattened_append plain_as,
          hflat' _ (by simp [hn.ne_nil]) hname, flattened_append hn.word.plain]
      _ = _ := by simp

/-- A list of items comes down to one with spaces. -/
theorem Items.flattened (h : Items (Room inside) items body) : ∃ body', Items Spaces items body' ∧
    ∀ rest, ImportStatement.flattened (body ++ rest) =
      body' ++ ImportStatement.flattened rest := by
  induction h with
  | last hitem =>
    obtain ⟨text', htext, hflat⟩ := hitem.flattened
    exact ⟨text', .last htext, hflat⟩
  | @more item items text g g' rest hitem hg hg' hitems ih =>
    obtain ⟨text', htext, hflat⟩ := hitem.flattened
    obtain ⟨s, hs, -, hroom⟩ := hg.flattened
    obtain ⟨s', hs', -, hroom'⟩ := hg'.flattened
    obtain ⟨rest', hrest, hflatrest⟩ := ih
    refine ⟨_, .more htext hs hs' hrest, fun behind => ?_⟩
    obtain ⟨hne, hstart⟩ := hitems.starts behind
    calc ImportStatement.flattened (text ++ (g ++ ',' :: (g' ++ rest)) ++ behind)
        = ImportStatement.flattened (text ++ (g ++ ([','] ++ (g' ++ (rest ++ behind))))) := by simp
      _ = text' ++ (s ++ ([','] ++ (s' ++ (rest' ++ ImportStatement.flattened behind)))) := by
        rw [hflat, hroom _ (by simp) (by rfl), flattened_append plain_comma,
          hroom' _ hne hstart, hflatrest]
      _ = _ := by simp

theorem Closing.flattened (h : Closing (Room true) closing) : ∃ closing', Closing Spaces closing' ∧
    ∀ rest, ImportStatement.flattened (closing ++ ')' :: rest) =
      closing' ++ ImportStatement.flattened rest := by
  have hclose : ∀ rest, ImportStatement.flattened (')' :: rest) = ImportStatement.flattened rest :=
    flattened_mark (by simp)
  cases h with
  | room hg =>
    obtain ⟨s, hs, -, hflat⟩ := hg.flattened
    refine ⟨s, .room hs, fun rest => ?_⟩
    rw [hflat _ (List.cons_ne_nil _ _) (by rfl), hclose]
  | @comma g g' hg hg' =>
    obtain ⟨s, hs, -, hflat⟩ := hg.flattened
    obtain ⟨s', hs', -, hflat'⟩ := hg'.flattened
    refine ⟨_, .comma hs hs', fun rest => ?_⟩
    calc ImportStatement.flattened (g ++ ',' :: g' ++ ')' :: rest)
        = ImportStatement.flattened (g ++ ([','] ++ (g' ++ ')' :: rest))) := by simp
      _ = s ++ ([','] ++ (s' ++ ImportStatement.flattened rest)) := by
        rw [hflat _ (by simp) (by rfl), flattened_append plain_comma,
          hflat' _ (List.cons_ne_nil _ _) (by rfl), hclose]
      _ = _ := by simp

theorem flattened_gap (h : Gap tail) : flattened tail = [] := by
  rw [flattened, unbroken_of_splitOn (splitOn_eq_singleton h.newline_notMem),
    trimEnd_eq_nil h.blank]
  rfl

/-- In parentheses or not, the names come down to a list with spaces around it, and perhaps a comma
    behind it. -/
theorem Names.flattened (h : Names items names) (htail : Gap tail) :
    ∃ g body closing, Spaces g ∧ Items Spaces items body ∧ Closing Spaces closing ∧
      ImportStatement.flattened (names ++ tail) = g ++ (body ++ closing) := by
  cases h with
  | bare hitems =>
    obtain ⟨body', hbody, hflat⟩ := hitems.flattened
    have hnil : Spaces [] := by decide
    exact ⟨[], body', [], hnil, hbody, .room hnil, by rw [hflat, flattened_gap htail]; rfl⟩
  | @parentheses g body closing hg hitems hclosing =>
    obtain ⟨s, hs, -, hroom⟩ := hg.flattened
    obtain ⟨body', hbody, hflat⟩ := hitems.flattened
    obtain ⟨closing', hclosing', hend⟩ := hclosing.flattened
    refine ⟨s, body', closing', hs, hbody, hclosing', ?_⟩
    obtain ⟨hne, hstart⟩ := hitems.starts (closing ++ ')' :: tail)
    calc ImportStatement.flattened ('(' :: (g ++ (body ++ (closing ++ [')']))) ++ tail)
        = ImportStatement.flattened ('(' :: (g ++ (body ++ (closing ++ ')' :: tail)))) := by simp
      _ = s ++ (body' ++ (closing' ++ ImportStatement.flattened tail)) := by
        rw [flattened_mark (by simp), hroom _ hne hstart, hflat, hend]
      _ = _ := by rw [flattened_gap htail, List.append_nil]

/-! ### The parts of a list -/

theorem Item.splitCommas (h : Item Spaces item text) (rest : List Char) :
    UseTree.splitCommas 0 (text ++ rest) = glue text (UseTree.splitCommas 0 rest) := by
  cases h with
  | plain hw => exact splitCommas_flat hw.flat 0 rest
  | renamed hw _ hg _ hg' hn =>
    have has : ∀ c ∈ ['a', 's'], c ∉ ['{', '}', '(', ')', ','] := by simp
    have hname := flat_append (flat_of_blank hg'.blank) hn.word.flat
    exact splitCommas_flat (flat_append hw.flat (flat_append (flat_of_blank hg.blank)
      (flat_append has hname))) 0 rest

theorem Item.tight (h : Item G item text) : Tight text := by
  cases h with
  | plain hw => exact tight_of_not_blank hw.plain.not_blank
  | @renamed w g g' n hw _ _ _ _ hn =>
    have hword : Tight w := tight_of_not_blank hw.plain.not_blank
    have hname : Tight n := tight_of_not_blank hn.word.plain.not_blank
    simpa using hword.append hname hw.ne_nil hn.ne_nil (g ++ 'a' :: 's' :: g')

/-- An item divides at its `as`. -/
theorem Item.splitAlias (h : Item Spaces item text) : UseTree.splitAlias text = item := by
  cases h with
  | plain hw => exact splitAlias_of_not_blank hw.plain.not_blank
  | @renamed w g g' n hw hne hg hne' hg' hn =>
    have hapart : ∀ {s : List Char}, s ≠ [] → Spaces s → Apart s := fun hne hs =>
      ⟨hne, hs.blank, fun _ => hs⟩
    refine splitAlias_as hw.plain.not_blank (hapart hne hg) (hapart hne' hg') hn.toIdentifier ?_
    simp only [List.mem_append, List.mem_cons, not_or]
    exact ⟨Text.newline_notMem hw.plain.not_blank, hg.newline_notMem, by decide, by decide,
      hg'.newline_notMem, Text.newline_notMem hn.word.plain.not_blank⟩

/-- A list is divided into its items, whatever spaces stand around them. -/
theorem Items.splitTopLevel (h : Items Spaces items body) (hclosing : Closing Spaces closing) :
    ∀ {g}, Spaces g →
      (UseTree.splitTopLevel (g ++ (body ++ closing))).map UseTree.splitAlias = items := by
  induction h with
  | last hitem =>
    intro g hg
    cases hclosing with
    | room hg' =>
      rw [splitTopLevel_last hitem.splitCommas hitem.tight hitem.ne_nil hg.blank hg'.blank,
        List.map_singleton, hitem.splitAlias]
    | comma hg' hg'' =>
      rw [splitTopLevel_more hitem.splitCommas hitem.tight hitem.ne_nil hg.blank hg'.blank,
        splitTopLevel_blank hg''.blank, List.map_singleton, hitem.splitAlias]
  | @more item items text g₁ g₂ rest hitem hg₁ hg₂ _ ih =>
    intro g hg
    have htext : g ++ (text ++ (g₁ ++ ',' :: (g₂ ++ rest)) ++ closing) =
        g ++ (text ++ (g₁ ++ ',' :: (g₂ ++ (rest ++ closing)))) := by simp
    rw [htext, splitTopLevel_more hitem.splitCommas hitem.tight hitem.ne_nil hg.blank hg₁.blank,
      List.map_cons, hitem.splitAlias, ih hg₂]

/-! ### Everywhere in a list -/

/-- What holds of plain text and of white space, and of texts behind each other, holds of a list. -/
theorem Item.closed {P : List Char → Prop} (happend : ∀ cs ds, P cs → P ds → P (cs ++ ds))
    (hplain : ∀ w, Plain w → P w) (hgap : ∀ g, G g → P g) (h : Item G item text) : P text := by
  cases h with
  | plain hw => exact hplain _ hw.plain
  | renamed hw _ hg _ hg' hn =>
    have hname := happend _ _ (hgap _ hg') (hplain _ hn.word.plain)
    exact happend _ _ (hplain _ hw.plain)
      (happend _ _ (hgap _ hg) (happend _ _ (hplain _ plain_as) hname))

theorem Items.closed {P : List Char → Prop} (happend : ∀ cs ds, P cs → P ds → P (cs ++ ds))
    (hplain : ∀ w, Plain w → P w) (hgap : ∀ g, G g → P g) (h : Items G items body) : P body := by
  induction h with
  | last hitem => exact hitem.closed happend hplain hgap
  | more hitem hg hg' _ ih =>
    have hrest := happend _ _ (hplain _ plain_comma) (happend _ _ (hgap _ hg') ih)
    exact happend _ _ (hitem.closed happend hplain hgap) (happend _ _ (hgap _ hg) hrest)

theorem Word.exists_concat (h : Word w) : ∃ front c, w = front ++ [c] ∧ Plain [c] := by
  rcases List.eq_nil_or_concat w with rfl | ⟨front, c, rfl⟩
  · exact absurd rfl h.ne_nil
  · rw [List.concat_eq_append] at h ⊢
    exact ⟨front, c, rfl, fun d hd => h.plain d (List.mem_append_right _ hd)⟩

/-- A list ends with a character of a word. -/
theorem Items.exists_concat (h : Items G items body) :
    ∃ front c, body = front ++ [c] ∧ Plain [c] := by
  induction h with
  | last hitem =>
    cases hitem with
    | plain hw => exact hw.exists_concat
    | @renamed w g g' n _ _ _ _ _ hn =>
      obtain ⟨front, c, rfl, hc⟩ := hn.word.exists_concat
      exact ⟨w ++ (g ++ 'a' :: 's' :: (g' ++ front)), c, by simp, hc⟩
  | @more item items text g g' rest _ _ _ _ ih =>
    obtain ⟨front, c, rfl, hc⟩ := ih
    exact ⟨text ++ (g ++ ',' :: (g' ++ front)), c, by simp, hc⟩

theorem Plain.hash_notMem (h : Plain w) : '#' ∉ w := fun hmem =>
  absurd (h _ hmem).2 (by decide)

theorem Spaces.hash_notMem (h : Spaces g) : '#' ∉ g := h.blank.notMem (by decide)

theorem Closing.trimEnd (h : Closing Spaces closing) : Closing Spaces (Text.trimEnd closing) := by
  have hnil : Spaces [] := by decide
  cases h with
  | room hg =>
    rw [trimEnd_eq_nil hg.blank]
    exact .room hnil
  | comma hg hg' =>
    rw [trimEnd_append_cons (by decide), trimEnd_eq_nil hg'.blank]
    exact .comma hg hnil

/-- Nothing but the end of a flattened statement is trimmed. -/
theorem trim_flattened {front : List Char} (hfront : Plain front) (hne : front ≠ []) (hg : '#' ∉ g)
    (hbody : Items Spaces items body) (hclosing : Closing Spaces closing) :
    trim (before ['#'] (front ++ (g ++ (body ++ closing)))) =
      front ++ (g ++ (body ++ Text.trimEnd closing)) := by
  have hhash : '#' ∉ front ++ (g ++ (body ++ closing)) := by
    have hlist : '#' ∉ body := hbody.closed (P := fun cs => '#' ∉ cs)
      (fun _ _ => List.not_mem_append) (fun _ => Plain.hash_notMem) (fun _ => Spaces.hash_notMem)
    have hend : '#' ∉ closing := by
      cases hclosing with
      | room hg => exact hg.hash_notMem
      | comma hg hg' => simp [hg.hash_notMem, hg'.hash_notMem]
    simp only [List.mem_append, not_or]
    exact ⟨hfront.hash_notMem, hg, hlist, hend⟩
  have hstart : startsBlank (front ++ (g ++ (body ++ closing))) = false := by
    rw [startsBlank_append hne]
    exact (tight_of_not_blank hfront.not_blank).front
  obtain ⟨ahead, c, rfl, hc⟩ := hbody.exists_concat
  have htext : front ++ (g ++ (ahead ++ [c] ++ closing)) = front ++ g ++ ahead ++ c :: closing := by
    simp
  rw [before_eq_self hhash, trim, trimStart_eq_self hstart, htext,
    trimEnd_append_cons (hc c List.mem_cons_self).1]
  simp

end DocDirectives.ImportStatement
