import DocDirectives.Imports.UseTree
import DocDirectives.Proofs.Text.Lines

/-! # Use trees and their texts

    A use tree is a leaf with its path, perhaps under a new name, or a star, or a group of trees
    below a path. It imports one name for each leaf that is not renamed to `_`. `Written` relates
    a tree to its texts: white space may stand inside braces and around commas, and has to stand
    around `as`.

        Tree  ──▶ path, or path 'as' name
              ──▶ lead '*'
              ──▶ lead '{' Parts '}'
        Parts ──▶ nothing, or Tree, or Tree ',' Parts -/

namespace DocDirectives.UseTree

open Text

/-- A use tree. A leaf with an empty path is `self`: it names what stands in front of its group. -/
inductive Tree where
  | leaf (path : List (List Char)) (newName : Option (List Char))
  | star (path : List (List Char))
  | group (path : List (List Char)) (parts : List Tree)

mutual

/-- The symbols that a tree imports below `lead`. -/
def Tree.symbols (sep : List Char) (lead : List (List Char)) : Tree → List Symbol
  | .leaf path newName =>
    if newName = some ['_'] then []
    else
      [{ fullName := String.ofList (joinWith sep (lead ++ path))
         short := String.ofList ((lead ++ path).getLastD [])
         otherName := newName.map String.ofList }]
  | .star _ => []
  | .group path parts => partSymbols sep (lead ++ path) parts

/-- The symbols that a list of trees imports below `lead`, in order. -/
def Tree.partSymbols (sep : List Char) (lead : List (List Char)) : List Tree → List Symbol
  | [] => []
  | t :: ts => t.symbols sep lead ++ partSymbols sep lead ts

end

/-! ### Names and paths -/

/-- A character that is no white space and means nothing to a list of trees. -/
def isPathChar (c : Char) : Bool := !isBlank c && !(['{', '}', '(', ')', ',', ';', '*'].contains c)

/-- A character of a name: one of a path that is in no separator. -/
def isSegmentChar (c : Char) : Bool := isPathChar c && !([':', '\\', '.'].contains c)

/-- An identifier, as far as imports can tell. -/
structure Identifier (n : List Char) : Prop where
  ne_nil : n ≠ []
  chars : ∀ c ∈ n, isSegmentChar c = true

def this : List Char := ['s', 'e', 'l', 'f']

/-- A segment of a path: an identifier other than `self`. -/
structure Segment (n : List Char) : Prop extends Identifier n where
  ne_this : n ≠ this

instance (n : List Char) : Decidable (Identifier n) :=
  decidable_of_iff (n ≠ [] ∧ n.all isSegmentChar = true)
    ⟨fun h => ⟨h.1, List.all_eq_true.1 h.2⟩, fun h => ⟨h.ne_nil, List.all_eq_true.2 h.chars⟩⟩

instance (n : List Char) : Decidable (Segment n) :=
  decidable_of_iff (Identifier n ∧ n ≠ this) ⟨fun h => ⟨h.1, h.2⟩, fun h => ⟨h.1, h.ne_this⟩⟩

/-- The separators of use trees. -/
inductive IsSeparator : List Char → Prop
  | colons : IsSeparator [':', ':']
  | backslash : IsSeparator ['\\']

/-- A path in front of something: each segment with a separator behind it. -/
def leadText (sep : List Char) (path : List (List Char)) : List Char := path.flatMap (· ++ sep)

/-- The path of a leaf. -/
def leafText (sep : List Char) (path : List (List Char)) : List Char :=
  if path = [] then this else joinWith sep path

/-! ### Texts -/

/-- What separates `as` from the words around it: spaces, or white space with a line end. -/
structure Apart (g : List Char) : Prop where
  ne_nil : g ≠ []
  blank : Blank g
  spaces : '\n' ∉ g → ∀ c ∈ g, c = ' '

instance (g : List Char) : Decidable (Apart g) :=
  decidable_of_iff (g ≠ [] ∧ Blank g ∧ ('\n' ∉ g → g.all (· == ' ') = true))
    ⟨fun h => ⟨h.1, h.2.1, by simpa using h.2.2⟩,
      fun h => ⟨h.ne_nil, h.blank, by simpa using h.spaces⟩⟩

mutual

/-- A tree below `lead` and one of its texts. -/
inductive Written (sep : List Char) : List (List Char) → Tree → List Char → Prop
  | leaf {lead path : List (List Char)} : (∀ n ∈ path, Segment n) → (path = [] → lead ≠ []) →
      Written sep lead (.leaf path none) (leafText sep path)
  | renamed {lead path : List (List Char)} {g g' n : List Char} : (∀ n ∈ path, Segment n) →
      (path = [] → lead ≠ []) → Apart g → Apart g' → Identifier n →
      Written sep lead (.leaf path (some n)) (leafText sep path ++ (g ++ ('a' :: 's' :: (g' ++ n))))
  | star {lead path : List (List Char)} : (∀ n ∈ path, Segment n) →
      Written sep lead (.star path) (leadText sep path ++ ['*'])
  | group {lead path : List (List Char)} {parts : List Tree} {body : List Char} :
      (∀ n ∈ path, Segment n) → WrittenParts sep (lead ++ path) parts body →
      Written sep lead (.group path parts) (leadText sep path ++ '{' :: (body ++ ['}']))

/-- The trees of a group below `lead` and one of their texts. -/
inductive WrittenParts (sep : List Char) : List (List Char) → List Tree → List Char → Prop
  | none {lead : List (List Char)} {g : List Char} : Blank g → WrittenParts sep lead [] g
  | last {lead : List (List Char)} {t : Tree} {g g' text : List Char} : Blank g →
      Written sep lead t text → Blank g' → WrittenParts sep lead [t] (g ++ (text ++ g'))
  | more {lead : List (List Char)} {t : Tree} {ts : List Tree} {g g' text rest : List Char} :
      Blank g → Written sep lead t text → Blank g' → WrittenParts sep lead ts rest →
      WrittenParts sep lead (t :: ts) (g ++ (text ++ (g' ++ ',' :: rest)))

end

variable {sep : List Char} {lead path : List (List Char)} {c : Char}

/-! ### Characters of paths -/

theorem isPathChar_of_isSegmentChar (h : isSegmentChar c = true) : isPathChar c = true := by
  simp only [isSegmentChar, Bool.and_eq_true] at h
  exact h.1

theorem isBlank_of_isPathChar (h : isPathChar c = true) : isBlank c = false := by
  simp only [isPathChar, Bool.and_eq_true, Bool.not_eq_true'] at h
  exact h.1

theorem IsSeparator.isPathChar (hsep : IsSeparator sep) : ∀ c ∈ sep, isPathChar c = true := by
  refine List.all_eq_true.1 ?_
  cases hsep <;> rfl

theorem IsSeparator.ne_nil (hsep : IsSeparator sep) : sep ≠ [] := by
  cases hsep <;> exact List.cons_ne_nil _ _

/-- A path is a lead and its last segment. -/
theorem joinWith_concat (sep : List Char) (path : List (List Char)) (n : List Char) :
    joinWith sep (path ++ [n]) = leadText sep path ++ n := by
  induction path with
  | nil => simp [joinWith, leadText]
  | cons m path ih =>
    obtain ⟨k, ks, hk⟩ : ∃ k ks, path ++ [n] = k :: ks := List.exists_cons_of_ne_nil (by simp)
    rw [hk, joinWith] at ih
    rw [List.cons_append, hk, joinWith, List.intersperse_cons_cons, List.flatten_cons,
      List.flatten_cons, ih]
    simp [leadText]

theorem isPathChar_leadText (hsep : IsSeparator sep) (hpath : ∀ n ∈ path, Segment n) :
    ∀ c ∈ leadText sep path, isPathChar c = true := by
  intro c hc
  obtain ⟨n, hn, hc⟩ := List.mem_flatMap.1 hc
  rcases List.mem_append.1 hc with hc | hc
  · exact isPathChar_of_isSegmentChar ((hpath n hn).chars c hc)
  · exact hsep.isPathChar c hc

/-- A path that is not empty is a lead and a last segment. -/
theorem exists_concat (h : path ≠ []) (hpath : ∀ n ∈ path, Segment n) :
    ∃ front n, path = front ++ [n] ∧ (∀ m ∈ front, Segment m) ∧ Segment n := by
  rcases List.eq_nil_or_concat path with rfl | ⟨front, n, rfl⟩
  · exact absurd rfl h
  · rw [List.concat_eq_append] at hpath ⊢
    exact ⟨front, n, rfl, fun m hm => hpath m (List.mem_append_left _ hm), hpath n (by simp)⟩

theorem isPathChar_joinWith (hsep : IsSeparator sep) (hpath : ∀ n ∈ path, Segment n) :
    ∀ c ∈ joinWith sep path, isPathChar c = true := by
  by_cases h : path = []
  · rw [h]
    exact fun c hc => absurd hc List.not_mem_nil
  · obtain ⟨front, n, rfl, hfront, hn⟩ := exists_concat h hpath
    rw [joinWith_concat]
    intro c hc
    rcases List.mem_append.1 hc with hc | hc
    · exact isPathChar_leadText hsep hfront c hc
    · exact isPathChar_of_isSegmentChar (hn.chars c hc)

theorem isPathChar_leafText (hsep : IsSeparator sep) (hpath : ∀ n ∈ path, Segment n) :
    ∀ c ∈ leafText sep path, isPathChar c = true := by
  unfold leafText
  split
  · exact List.all_eq_true.1 rfl
  · exact isPathChar_joinWith hsep hpath

/-! ### Ends of texts -/

/-- A text begins with a character that is no white space and in no separator. -/
def Opens (cs : List Char) : Prop :=
  ∃ c rest, cs = c :: rest ∧ isBlank c = false ∧ c ≠ ':' ∧ c ≠ '\\'

theorem Identifier.opens {n : List Char} (h : Identifier n) (rest : List Char) :
    Opens (n ++ rest) := by
  obtain ⟨c, n, rfl⟩ := List.exists_cons_of_ne_nil h.ne_nil
  have hc := h.chars c List.mem_cons_self
  refine ⟨c, n ++ rest, rfl, isBlank_of_isPathChar (isPathChar_of_isSegmentChar hc), ?_, ?_⟩
  all_goals
    rintro rfl
    exact absurd hc (by decide)

theorem opens_leadText {rest : List Char} (hpath : ∀ n ∈ path, Segment n) (h : Opens rest) :
    Opens (leadText sep path ++ rest) := by
  cases path with
  | nil => exact h
  | cons n path =>
    rw [leadText, List.flatMap_cons, List.append_assoc, List.append_assoc]
    exact (hpath n List.mem_cons_self).opens _

theorem opens_leafText (hpath : ∀ n ∈ path, Segment n) (rest : List Char) :
    Opens (leafText sep path ++ rest) := by
  unfold leafText
  split
  · exact ⟨'s', _, rfl, by decide, by decide, by decide⟩
  · next h =>
    obtain ⟨front, n, rfl, hfront, hn⟩ := exists_concat h hpath
    rw [joinWith_concat, List.append_assoc]
    exact opens_leadText hfront (hn.opens rest)

variable {t : Tree} {text : List Char}

theorem Written.opens (h : Written sep lead t text) (rest : List Char) : Opens (text ++ rest) := by
  cases h with
  | leaf hpath => exact opens_leafText hpath rest
  | renamed hpath =>
    rw [List.append_assoc]
    exact opens_leafText hpath _
  | star hpath =>
    rw [List.append_assoc]
    exact opens_leadText hpath ⟨'*', _, rfl, by decide, by decide, by decide⟩
  | group hpath =>
    rw [List.append_assoc]
    exact opens_leadText hpath ⟨'{', _, rfl, by decide, by decide, by decide⟩

theorem Written.ne_nil (h : Written sep lead t text) : text ≠ [] := by
  obtain ⟨c, rest, hc, -⟩ := h.opens []
  rw [List.append_nil] at hc
  exact hc ▸ List.cons_ne_nil c rest

theorem isBlank_leafText (hsep : IsSeparator sep) (hpath : ∀ n ∈ path, Segment n) :
    ∀ c ∈ leafText sep path, isBlank c = false :=
  fun c hc => isBlank_of_isPathChar (isPathChar_leafText hsep hpath c hc)

theorem isBlank_leadText (hsep : IsSeparator sep) (hpath : ∀ n ∈ path, Segment n) :
    ∀ c ∈ leadText sep path, isBlank c = false :=
  fun c hc => isBlank_of_isPathChar (isPathChar_leadText hsep hpath c hc)

theorem isBlank_leadText_concat (hsep : IsSeparator sep) (hpath : ∀ n ∈ path, Segment n)
    (hc : isBlank c = false) : ∀ d ∈ leadText sep path ++ [c], isBlank d = false := by
  intro d hd
  rcases List.mem_append.1 hd with hd | hd
  · exact isBlank_leadText hsep hpath d hd
  · exact List.mem_singleton.1 hd ▸ hc

theorem Identifier.isBlank {n : List Char} (h : Identifier n) : ∀ c ∈ n, isBlank c = false :=
  fun c hc => isBlank_of_isPathChar (isPathChar_of_isSegmentChar (h.chars c hc))

theorem leafText_ne_nil (hpath : ∀ n ∈ path, Segment n) : leafText sep path ≠ [] := by
  obtain ⟨c, rest, hc, -⟩ : Opens (leafText sep path ++ []) := opens_leafText hpath []
  rw [List.append_nil] at hc
  exact hc ▸ List.cons_ne_nil c rest

/-- A tree has no white space around its text. -/
theorem Written.tight (hsep : IsSeparator sep) (h : Written sep lead t text) : Tight text := by
  cases h with
  | leaf hpath => exact tight_of_not_blank (isBlank_leafText hsep hpath)
  | @renamed lead path g g' n hpath _ _ _ hn =>
    have hleaf : Tight (leafText sep path) := tight_of_not_blank (isBlank_leafText hsep hpath)
    have hname : Tight n := tight_of_not_blank hn.isBlank
    have happend := hleaf.append hname (leafText_ne_nil hpath) hn.ne_nil (g ++ 'a' :: 's' :: g')
    simpa using happend
  | star hpath => exact tight_of_not_blank (isBlank_leadText_concat hsep hpath (by decide))
  | @group lead path parts body hpath _ =>
    have hfront : Tight (leadText sep path ++ ['{']) :=
      tight_of_not_blank (isBlank_leadText_concat hsep hpath (by decide))
    have hback : Tight ['}'] := ⟨by decide, by decide⟩
    have happend := hfront.append hback (by simp) (by simp) body
    simpa using happend

/-! ### Texts on one line -/

theorem Apart.relaid {g : List Char} (h : Apart g) : Apart (relaid g) := by
  refine ⟨relaid_ne_nil h.ne_nil, blank_relaid h.blank, fun _ => ?_⟩
  by_cases hbreak : '\n' ∈ g
  · exact eq_space_of_mem_relaid hbreak
  · rw [relaid_eq_self hbreak]
    exact h.spaces hbreak

theorem unbroken_blank_opens {g rest : List Char} (hg : Blank g) (h : Opens rest) :
    unbroken (g ++ rest) = Text.relaid g ++ unbroken rest := by
  obtain ⟨c, rest, rfl, hc, -⟩ := h
  exact unbroken_blank hg hc rest

mutual

/-- On one line a tree is still written. -/
theorem Written.relay (hsep : IsSeparator sep) {lead : List (List Char)} {t : Tree}
    {text : List Char} : Written sep lead t text → ∃ text', Written sep lead t text' ∧
      '\n' ∉ text' ∧ ∀ rest, unbroken (text ++ rest) = text' ++ unbroken rest
  | .leaf hpath hself => by
    have hblank := isBlank_leafText hsep hpath
    exact ⟨_, .leaf hpath hself, newline_notMem hblank, unbroken_append hblank⟩
  | @Written.renamed _ _ path g g' n hpath hself hg hg' hn => by
    have hblank := isBlank_leafText hsep hpath
    refine ⟨_, .renamed hpath hself hg.relaid hg'.relaid hn, ?_, fun rest => ?_⟩
    · simp only [List.mem_append, List.mem_cons, not_or]
      exact ⟨newline_notMem hblank, newline_notMem_relaid g, by decide, by decide,
        newline_notMem_relaid g', newline_notMem hn.isBlank⟩
    · have has : ∀ c ∈ ['a', 's'], isBlank c = false := by simp [isBlank]
      calc unbroken (leafText sep path ++ (g ++ 'a' :: 's' :: (g' ++ n)) ++ rest)
          = leafText sep path ++ unbroken (g ++ 'a' :: (['s'] ++ (g' ++ (n ++ rest)))) := by
            rw [← unbroken_append hblank]
            simp
        _ = leafText sep path ++ (relaid g ++ unbroken (['a', 's'] ++ (g' ++ (n ++ rest)))) := by
            rw [unbroken_blank hg.blank (by decide)]
            rfl
        _ = leafText sep path ++
            (relaid g ++ (['a', 's'] ++ (relaid g' ++ (n ++ unbroken rest)))) := by
            rw [unbroken_append has, unbroken_blank_opens hg'.blank (hn.opens rest),
              unbroken_append hn.isBlank]
        _ = _ := by simp
  | .star hpath => by
    have hblank := isBlank_leadText_concat (c := '*') hsep hpath (by decide)
    exact ⟨_, .star hpath, newline_notMem hblank, unbroken_append hblank⟩
  | @Written.group _ _ path parts body hpath hparts => by
    -- The closing brace keeps the white space in front of it on the line.
    obtain ⟨body', hparts', hbreak, hbody⟩ := hparts.relay hsep
    have hblank := isBlank_leadText hsep hpath
    have hopen : ∀ c ∈ ['{'], isBlank c = false := List.forall_mem_singleton.2 rfl
    have hclose : ∀ c ∈ ['}'], isBlank c = false := List.forall_mem_singleton.2 rfl
    refine ⟨_, .group hpath hparts', ?_, fun rest => ?_⟩
    · simp only [List.mem_append, List.mem_cons, not_or]
      exact ⟨newline_notMem hblank, by decide, hbreak, by decide⟩
    · calc unbroken (leadText sep path ++ '{' :: (body ++ ['}']) ++ rest)
          = leadText sep path ++ (['{'] ++ unbroken (body ++ '}' :: rest)) := by
            rw [← unbroken_append hopen, ← unbroken_append hblank]
            simp
        _ = leadText sep path ++ (['{'] ++ (body' ++ (['}'] ++ unbroken rest))) := by
            rw [hbody '}' rest (by decide), ← unbroken_append hclose]
            rfl
        _ = _ := by simp

theorem WrittenParts.relay (hsep : IsSeparator sep) {lead : List (List Char)} {ts : List Tree}
    {body : List Char} : WrittenParts sep lead ts body → ∃ body', WrittenParts sep lead ts body' ∧
      '\n' ∉ body' ∧ ∀ c rest, isBlank c = false →
        unbroken (body ++ c :: rest) = body' ++ unbroken (c :: rest)
  | .none hg => ⟨_, .none (blank_relaid hg), newline_notMem_relaid _, fun _ rest hc =>
      unbroken_blank hg hc rest⟩
  | @WrittenParts.last _ _ _ g g' text hg ht hg' => by
    obtain ⟨text', ht', hbreak, htext⟩ := ht.relay hsep
    refine ⟨_, .last (blank_relaid hg) ht' (blank_relaid hg'), ?_, fun c rest hc => ?_⟩
    · simp only [List.mem_append, not_or]
      exact ⟨newline_notMem_relaid g, hbreak, newline_notMem_relaid g'⟩
    · calc unbroken (g ++ (text ++ g') ++ c :: rest)
          = relaid g ++ unbroken (text ++ (g' ++ c :: rest)) := by
            rw [← unbroken_blank_opens hg (ht.opens _)]
            simp
        _ = relaid g ++ (text' ++ (relaid g' ++ unbroken (c :: rest))) := by
            rw [htext, unbroken_blank hg' hc]
        _ = _ := by simp
  | @WrittenParts.more _ _ _ ts g g' text rest hg ht hg' hts => by
    obtain ⟨text', ht', hbreak, htext⟩ := ht.relay hsep
    obtain ⟨rest', hts', hbreaks, hrest⟩ := hts.relay hsep
    have hcomma : ∀ c ∈ [','], isBlank c = false := List.forall_mem_singleton.2 rfl
    refine ⟨_, .more (blank_relaid hg) ht' (blank_relaid hg') hts', ?_, fun c behind hc => ?_⟩
    · simp only [List.mem_append, List.mem_cons, not_or]
      exact ⟨newline_notMem_relaid g, hbreak, newline_notMem_relaid g', by decide, hbreaks⟩
    · calc unbroken (g ++ (text ++ (g' ++ ',' :: rest)) ++ c :: behind)
          = relaid g ++ unbroken (text ++ (g' ++ ',' :: (rest ++ c :: behind))) := by
            rw [← unbroken_blank_opens hg (ht.opens _)]
            simp
        _ = relaid g ++ (text' ++ (relaid g' ++ unbroken ([','] ++ (rest ++ c :: behind)))) := by
            rw [htext, unbroken_blank hg' (by decide)]
            rfl
        _ = relaid g ++ (text' ++ (relaid g' ++ ([','] ++ (rest' ++ unbroken (c :: behind))))) := by
            rw [unbroken_append hcomma, hrest c behind hc]
        _ = _ := by simp

end

end DocDirectives.UseTree
