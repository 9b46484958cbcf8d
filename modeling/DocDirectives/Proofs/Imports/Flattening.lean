import DocDirectives.Proofs.Imports.ShortName
import DocDirectives.Proofs.Imports.Tree

/-! # Flattening a written tree

    A list is split at the commas outside all brackets. The text of a tree closes every bracket that
    it opens and has no comma outside them, so a split takes it whole; inside a group the commas
    are those between its trees. From this the flattening of a text follows its tree. -/

namespace DocDirectives.UseTree

open Text

variable {sep : List Char} {lead path : List (List Char)}

/-! ### Splitting at commas -/

/-- A text put in front of the first part. -/
def glue (cs : List Char) : List (List Char) → List (List Char)
  | [] => [cs]
  | part :: parts => (cs ++ part) :: parts

theorem glue_glue (cs ds : List Char) (parts : List (List Char)) :
    glue cs (glue ds parts) = glue (cs ++ ds) parts := by
  cases parts <;> simp [glue]

theorem exists_splitCommas (depth : Int) (cs : List Char) :
    ∃ part parts, splitCommas depth cs = part :: parts := by
  cases cs with
  | nil => exact ⟨[], [], rfl⟩
  | cons c cs =>
    rw [splitCommas]
    split
    · exact ⟨_, _, rfl⟩
    · split <;> exact ⟨_, _, rfl⟩

theorem splitCommas_cons {depth : Int} {c : Char} (h : c ≠ ',' ∨ depth ≠ 0) (cs : List Char) :
    splitCommas depth (c :: cs) = glue [c] (splitCommas (depthAfter depth c) cs) := by
  obtain ⟨part, parts, hs⟩ := exists_splitCommas (depthAfter depth c) cs
  have hc : ¬(c = ',' ∧ depth = 0) := not_and_or.2 h
  rw [splitCommas, hs]
  simp only [if_neg hc, glue, List.singleton_append]

theorem splitCommas_comma (cs : List Char) :
    splitCommas 0 (',' :: cs) = [] :: splitCommas 0 cs := by
  obtain ⟨part, parts, hs⟩ := exists_splitCommas 0 cs
  have hdepth : depthAfter 0 ',' = 0 := by decide
  rw [splitCommas, hdepth, hs]
  simp

/-- Text without brackets and commas stays whole. -/
theorem splitCommas_flat {cs : List Char} (h : ∀ c ∈ cs, c ∉ ['{', '}', '(', ')', ','])
    (depth : Int) (rest : List Char) :
    splitCommas depth (cs ++ rest) = glue cs (splitCommas depth rest) := by
  induction cs with
  | nil =>
    obtain ⟨part, parts, hs⟩ := exists_splitCommas depth rest
    rw [List.nil_append, hs]
    rfl
  | cons c cs ih =>
    have hc := h c List.mem_cons_self
    have hcs := ih fun d hd => h d (List.mem_cons_of_mem c hd)
    simp only [List.mem_cons, List.not_mem_nil, or_false, not_or] at hc
    have hdepth : depthAfter depth c = depth := by simp [depthAfter, hc]
    rw [List.cons_append, splitCommas_cons (.inl hc.2.2.2.2), hdepth, hcs, glue_glue]
    rfl

theorem flat_of_isPathChar {cs : List Char} (h : ∀ c ∈ cs, isPathChar c = true) :
    ∀ c ∈ cs, c ∉ ['{', '}', '(', ')', ','] := by
  intro c hc hmem
  have hpath := h c hc
  simp only [List.mem_cons, List.not_mem_nil, or_false] at hmem
  rcases hmem with rfl | rfl | rfl | rfl | rfl <;> exact absurd hpath (by decide)

theorem flat_of_blank {g : List Char} (h : Blank g) : ∀ c ∈ g, c ∉ ['{', '}', '(', ')', ','] := by
  intro c hc hmem
  have hblank := h c hc
  simp only [List.mem_cons, List.not_mem_nil, or_false] at hmem
  rcases hmem with rfl | rfl | rfl | rfl | rfl <;> exact absurd hblank (by decide)

theorem flat_append {cs ds : List Char} (hcs : ∀ c ∈ cs, c ∉ ['{', '}', '(', ')', ','])
    (hds : ∀ c ∈ ds, c ∉ ['{', '}', '(', ')', ',']) :
    ∀ c ∈ cs ++ ds, c ∉ ['{', '}', '(', ')', ','] := List.forall_mem_append.2 ⟨hcs, hds⟩

mutual

/-- A tree stays whole where a list of trees is split. -/
theorem Written.splitCommas (hsep : IsSeparator sep) {lead : List (List Char)} {t : Tree}
    {text : List Char} : Written sep lead t text → ∀ {depth : Int}, 0 ≤ depth → ∀ rest,
      UseTree.splitCommas depth (text ++ rest) = glue text (UseTree.splitCommas depth rest)
  | .leaf hpath _, _, _, rest =>
    splitCommas_flat (flat_of_isPathChar (isPathChar_leafText hsep hpath)) _ rest
  | .renamed hpath _ hg hg' hn, _, _, rest => by
    have hleaf := flat_of_isPathChar (isPathChar_leafText hsep hpath)
    have hname := flat_of_isPathChar fun c hc => isPathChar_of_isSegmentChar (hn.chars c hc)
    have has : ∀ c ∈ ['a', 's'], c ∉ ['{', '}', '(', ')', ','] := by simp
    have htail := flat_append has (flat_append (flat_of_blank hg'.blank) hname)
    exact splitCommas_flat (flat_append hleaf (flat_append (flat_of_blank hg.blank) htail)) _ rest
  | .star hpath, _, _, rest => by
    have hlead := flat_of_isPathChar (isPathChar_leadText hsep hpath)
    have hstar : ∀ c ∈ ['*'], c ∉ ['{', '}', '(', ')', ','] := by simp
    exact splitCommas_flat (flat_append hlead hstar) _ rest
  | @Written.group _ _ path _ body hpath hparts, depth, hdepth, rest => by
    -- Between its braces the depth is positive, so no comma there divides the list.
    have hlead := flat_of_isPathChar (isPathChar_leadText hsep hpath)
    have hopen : depthAfter depth '{' = depth + 1 := by simp [depthAfter]
    have hclose : depthAfter (depth + 1) '}' = depth := by simp [depthAfter]
    calc UseTree.splitCommas depth (leadText sep path ++ '{' :: (body ++ ['}']) ++ rest)
        = UseTree.splitCommas depth (leadText sep path ++ '{' :: (body ++ '}' :: rest)) := by simp
      _ = glue (leadText sep path) (glue ['{'] (glue body (glue ['}']
            (UseTree.splitCommas depth rest)))) := by
          rw [splitCommas_flat hlead, splitCommas_cons (.inl (by decide)), hopen,
            hparts.splitCommas hsep (by omega), splitCommas_cons (.inl (by decide)), hclose]
      _ = _ := by simp [glue_glue]

/-- Below a bracket a list of trees stays whole too. -/
theorem WrittenParts.splitCommas (hsep : IsSeparator sep) {lead : List (List Char)}
    {ts : List Tree} {body : List Char} : WrittenParts sep lead ts body →
      ∀ {depth : Int}, 0 < depth → ∀ rest,
      UseTree.splitCommas depth (body ++ rest) = glue body (UseTree.splitCommas depth rest)
  | .none hg, _, _, rest => splitCommas_flat (flat_of_blank hg) _ rest
  | @WrittenParts.last _ _ _ g g' text hg ht hg', depth, hdepth, rest => by
    calc UseTree.splitCommas depth (g ++ (text ++ g') ++ rest)
        = UseTree.splitCommas depth (g ++ (text ++ (g' ++ rest))) := by simp
      _ = glue g (glue text (glue g' (UseTree.splitCommas depth rest))) := by
          rw [splitCommas_flat (flat_of_blank hg), ht.splitCommas hsep (by omega),
            splitCommas_flat (flat_of_blank hg')]
      _ = _ := by simp [glue_glue]
  | @WrittenParts.more _ _ _ _ g g' text more hg ht hg' hts, depth, hdepth, rest => by
    have hcomma : depthAfter depth ',' = depth := by simp [depthAfter]
    calc UseTree.splitCommas depth (g ++ (text ++ (g' ++ ',' :: more)) ++ rest)
        = UseTree.splitCommas depth (g ++ (text ++ (g' ++ ',' :: (more ++ rest)))) := by simp
      _ = glue g (glue text (glue g' (glue [','] (glue more
            (UseTree.splitCommas depth rest))))) := by
          rw [splitCommas_flat (flat_of_blank hg), ht.splitCommas hsep (by omega),
            splitCommas_flat (flat_of_blank hg'), splitCommas_cons (.inr (by omega)), hcomma,
            hts.splitCommas hsep hdepth]
      _ = _ := by simp [glue_glue]

end

/-! ### Parts of a list -/

theorem splitTopLevel_of_splitCommas {cs part : List Char} {parts : List (List Char)}
    (h : splitCommas 0 cs = part :: parts) :
    splitTopLevel cs = (if (trim part).isEmpty then [] else [trim part]) ++
      (parts.map trim).filter fun p => !p.isEmpty := by
  rw [splitTopLevel, h, List.map_cons, List.filter_cons]
  cases (trim part).isEmpty <;> rfl

theorem splitTopLevel_blank {g : List Char} (hg : Blank g) : splitTopLevel g = [] := by
  have hs : splitCommas 0 g = [g] := by
    simpa [splitCommas, glue] using splitCommas_flat (flat_of_blank hg) 0 []
  rw [splitTopLevel_of_splitCommas hs, trim_eq_nil hg]
  rfl

/-- A text that stays whole, and white space around it, is the last part. -/
theorem splitTopLevel_last {g g' text : List Char}
    (hwhole : ∀ rest, splitCommas 0 (text ++ rest) = glue text (splitCommas 0 rest))
    (ht : Tight text) (hne : text ≠ []) (hg : Blank g) (hg' : Blank g') :
    splitTopLevel (g ++ (text ++ g')) = [text] := by
  have hs : splitCommas 0 (g ++ (text ++ g')) = [g ++ text ++ g'] := by
    have hend : splitCommas 0 g' = [g'] := by
      simpa [splitCommas, glue] using splitCommas_flat (flat_of_blank hg') 0 []
    rw [splitCommas_flat (flat_of_blank hg), hwhole, hend]
    simp [glue]
  rw [splitTopLevel_of_splitCommas hs, ht.trim_between hg hg']
  simp [hne]

/-- In front of a comma it is the first one. -/
theorem splitTopLevel_more {g g' text : List Char}
    (hwhole : ∀ rest, splitCommas 0 (text ++ rest) = glue text (splitCommas 0 rest))
    (ht : Tight text) (hne : text ≠ []) (hg : Blank g) (hg' : Blank g') (rest : List Char) :
    splitTopLevel (g ++ (text ++ (g' ++ ',' :: rest))) = text :: splitTopLevel rest := by
  have hs : splitCommas 0 (g ++ (text ++ (g' ++ ',' :: rest))) =
      (g ++ text ++ g') :: splitCommas 0 rest := by
    rw [splitCommas_flat (flat_of_blank hg), hwhole, splitCommas_flat (flat_of_blank hg'),
      splitCommas_comma]
    simp [glue]
  rw [splitTopLevel_of_splitCommas hs, ht.trim_between hg hg']
  simp [hne, splitTopLevel]

theorem Written.splitTopLevel_last (hsep : IsSeparator sep) {t : Tree} {g g' text : List Char}
    (hg : Blank g) (ht : Written sep lead t text) (hg' : Blank g') :
    splitTopLevel (g ++ (text ++ g')) = [text] :=
  UseTree.splitTopLevel_last (ht.splitCommas hsep (Int.le_refl 0)) (ht.tight hsep) ht.ne_nil hg hg'

theorem Written.splitTopLevel_more (hsep : IsSeparator sep) {t : Tree} {g g' text : List Char}
    (hg : Blank g) (ht : Written sep lead t text) (hg' : Blank g') (rest : List Char) :
    splitTopLevel (g ++ (text ++ (g' ++ ',' :: rest))) = text :: splitTopLevel rest :=
  UseTree.splitTopLevel_more (ht.splitCommas hsep (Int.le_refl 0)) (ht.tight hsep) ht.ne_nil hg hg'
    rest

/-! ### Paths -/

theorem joinWith_eq_nil_iff (hpath : ∀ n ∈ path, Segment n) :
    joinWith sep path = [] ↔ path = [] := by
  constructor
  · intro h
    by_contra hne
    obtain ⟨front, n, rfl, -, hn⟩ := exists_concat hne hpath
    rw [joinWith_concat] at h
    exact hn.ne_nil (List.append_eq_nil_iff.1 h).2
  · rintro rfl
    rfl

theorem leadText_append (sep : List Char) (lead path : List (List Char)) :
    leadText sep (lead ++ path) = leadText sep lead ++ leadText sep path := List.flatMap_append

/-- A lead is its path with a separator behind it. -/
theorem leadText_eq (hne : path ≠ []) : leadText sep path = joinWith sep path ++ sep := by
  rcases List.eq_nil_or_concat path with rfl | ⟨front, n, rfl⟩
  · exact absurd rfl hne
  · rw [List.concat_eq_append, joinWith_concat, leadText_append]
    simp [leadText]

theorem joinPath_joinWith (hlead : ∀ n ∈ lead, Segment n) (hpath : ∀ n ∈ path, Segment n) :
    joinPath (joinWith sep lead) (joinWith sep path) sep = joinWith sep (lead ++ path) := by
  unfold joinPath
  by_cases hl : lead = []
  · rw [hl]
    rfl
  · by_cases hp : path = []
    · rw [hp, List.append_nil, if_neg (by simpa [joinWith_eq_nil_iff hlead] using hl)]
      rfl
    · rw [if_neg (by simpa [joinWith_eq_nil_iff hlead] using hl),
        if_neg (by simpa [joinWith_eq_nil_iff hpath] using hp), ← leadText_eq hl]
      obtain ⟨front, n, rfl, -, -⟩ := exists_concat hp hpath
      rw [← List.append_assoc lead, joinWith_concat, joinWith_concat, leadText_append,
        List.append_assoc]

/-! ### Last segments -/

theorem solid_of_isSegmentChar {cs : List Char} (h : ∀ c ∈ cs, isSegmentChar c = true) :
    Solid cs := by
  intro c hc
  have hchar := h c hc
  refine ⟨?_, ?_, ?_⟩ <;>
    · rintro rfl
      exact absurd hchar (by decide)

theorem IsSeparator.mem_separators (hsep : IsSeparator sep) : sep ∈ separators := by
  cases hsep <;> decide

/-- A segment begins behind what stands in front of the last name of a path. -/
theorem endsSegment_leadText (hsep : IsSeparator sep) (path : List (List Char)) :
    EndsSegment (leadText sep path) := by
  by_cases hpath : path = []
  · rw [hpath]
    exact .inl rfl
  · rw [leadText_eq hpath]
    exact endsSegment_separator hsep.mem_separators _

/-- The last segment of a path is its last name. -/
theorem lastSegment_joinWith (hsep : IsSeparator sep) (hpath : ∀ n ∈ path, Segment n) :
    lastSegment (joinWith sep path) = path.getLastD [] := by
  by_cases h : path = []
  · rw [h]
    rfl
  · obtain ⟨front, n, rfl, hfront, hn⟩ := exists_concat h hpath
    rw [joinWith_concat, lastSegment_written (endsSegment_leadText hsep front)
      (solid_of_isSegmentChar hn.chars)]
    simp

/-! ### Leaves -/

theorem splitAlias_of_not_blank {cs : List Char} (h : ∀ c ∈ cs, isBlank c = false) :
    splitAlias cs = (cs, none) := by
  have hspace : ' ' ∉ cs := fun hmem => absurd (h ' ' hmem) (by decide)
  rw [splitAlias, cut?_eq_none hspace]

theorem cut?_as {g : List Char} (hne : g ≠ []) (hg : ∀ c ∈ g, c = ' ') (rest : List Char) :
    ∃ g', Blank g' ∧
      cut? [' ', 'a', 's', ' '] (g ++ 'a' :: 's' :: ' ' :: rest) = some (g', rest) := by
  have hmark : ¬[' ', 'a', 's', ' '] <:+: [] ++ g := fun h =>
    absurd (hg 'a' (h.subset (by simp))) (by decide)
  exact cut?_spaced (by decide : ' ' ∉ ['a', 's']) hne hg hmark rest

/-- On one line a renamed leaf divides at its `as`. -/
theorem splitAlias_as {cs g g' n : List Char} (hcs : ∀ c ∈ cs, isBlank c = false) (hg : Apart g)
    (hg' : Apart g') (hn : Identifier n) (hbreak : '\n' ∉ cs ++ (g ++ 'a' :: 's' :: (g' ++ n))) :
    splitAlias (cs ++ (g ++ 'a' :: 's' :: (g' ++ n))) = (cs, some n) := by
  have hspace : ' ' ∉ cs := fun hmem => absurd (hcs ' ' hmem) (by decide)
  simp only [List.mem_append, List.mem_cons, not_or] at hbreak
  obtain ⟨d, g', rfl⟩ := List.exists_cons_of_ne_nil hg'.ne_nil
  obtain rfl : d = ' ' := hg'.spaces hbreak.2.2.2.2.1 d List.mem_cons_self
  obtain ⟨h, hblank, hcut⟩ := cut?_as hg.ne_nil (hg.spaces hbreak.2.1) (g' ++ n)
  rw [splitAlias, cut?_append hspace]
  simp only [List.cons_append] at hcut ⊢
  rw [hcut]
  have hpath : trim (cs ++ h) = cs := by
    rw [trim_append _ hblank, (tight_of_not_blank hcs).trim]
  have hname : trim (g' ++ n) = n := by
    rw [trim_append_left hg'.blank.tail, (tight_of_not_blank hn.isBlank).trim]
  simp [hpath, hname]

theorem star_notMem_leafText (hsep : IsSeparator sep) (hpath : ∀ n ∈ path, Segment n) :
    '*' ∉ leafText sep path :=
  fun hmem => absurd (isPathChar_leafText hsep hpath '*' hmem) (by decide)

/-- No path is spelt like `self`. -/
theorem joinWith_ne_this (hsep : IsSeparator sep) (hpath : ∀ n ∈ path, Segment n) :
    joinWith sep path ≠ this := by
  by_cases h : path = []
  · rw [h]
    exact (List.cons_ne_nil _ _).symm
  · obtain ⟨front, n, rfl, hfront, hn⟩ := exists_concat h hpath
    rw [joinWith_concat]
    by_cases hf : front = []
    · rw [hf]
      exact hn.ne_this
    · intro hthis
      obtain ⟨c, hc⟩ := List.exists_mem_of_ne_nil sep hsep.ne_nil
      have hmem : c ∈ this := by
        rw [← hthis, leadText_eq hf]
        simp [hc]
      cases hsep <;> simp_all [this]

/-- A leaf gives the symbol of its whole path. -/
theorem leaf?_of_splitAlias (hsep : IsSeparator sep) {text : List Char}
    {newName : Option (List Char)}
    (hlead : ∀ n ∈ lead, Segment n) (hpath : ∀ n ∈ path, Segment n) (hself : path = [] → lead ≠ [])
    (h : splitAlias text = (leafText sep path, newName)) :
    (leaf? sep (joinWith sep lead) text).toList = (Tree.leaf path newName).symbols sep lead := by
  have hstar : '*' ∉ leafText sep path := star_notMem_leafText hsep hpath
  have hne : leafText sep path ≠ ['*'] := fun he => hstar (he ▸ List.mem_singleton_self _)
  have hends : ¬endsWith (sep ++ ['*']) (leafText sep path) = true := by
    rw [endsWith, List.isSuffixOf_iff_suffix]
    exact fun hsuffix => hstar (hsuffix.subset (by simp))
  have hfull : (if leafText sep path = this then joinWith sep lead
      else joinPath (joinWith sep lead) (leafText sep path) sep) = joinWith sep (lead ++ path) := by
    by_cases hp : path = []
    · rw [hp, leafText, if_pos rfl, if_pos rfl, List.append_nil]
    · rw [leafText, if_neg hp, if_neg (joinWith_ne_this hsep hpath), joinPath_joinWith hlead hpath]
  have hall : ∀ n ∈ lead ++ path, Segment n := List.forall_mem_append.2 ⟨hlead, hpath⟩
  have hempty : joinWith sep (lead ++ path) ≠ [] := by
    rw [ne_eq, joinWith_eq_nil_iff hall, List.append_eq_nil_iff]
    exact fun hnil => hself hnil.2 hnil.1
  have hshort : shortName (String.ofList (joinWith sep (lead ++ path))) =
      String.ofList ((lead ++ path).getLastD []) := by
    rw [shortName_ofList, lastSegment_joinWith hsep hall]
  unfold leaf?
  rw [h]
  dsimp only
  rw [show (['s', 'e', 'l', 'f'] : List Char) = this from rfl, hfull]
  by_cases hhidden : newName = some ['_']
  · simp [hhidden, Tree.symbols]
  · rw [if_neg (by simp [hne, hends, hhidden]), if_neg (by simpa using hempty), Tree.symbols,
      if_neg hhidden]
    cases newName <;> simp [Symbol.ofImport, Symbol.plain, Symbol.renamed, hshort]

theorem leaf?_star (hsep : IsSeparator sep) (hpath : ∀ n ∈ path, Segment n) (lead : List Char) :
    leaf? sep lead (leadText sep path ++ ['*']) = none := by
  have hblank := isBlank_leadText_concat (c := '*') hsep hpath (by decide)
  unfold leaf?
  rw [splitAlias_of_not_blank hblank]
  by_cases hp : path = []
  · simp [hp, leadText]
  · have hends : endsWith (sep ++ ['*']) (leadText sep path ++ ['*']) = true := by
      rw [endsWith, List.isSuffixOf_iff_suffix, leadText_eq hp, List.append_assoc]
      exact List.suffix_append _ _
    simp [hends]

/-! ### Groups -/

theorem group?_eq_none {text : List Char} (h : '{' ∉ text) : group? text = none := by
  rw [group?, cut?_eq_none h]

theorem group?_braces {base : List Char} (h : '{' ∉ base) (body : List Char) :
    group? (base ++ '{' :: (body ++ ['}'])) = some (base, body) := by
  rw [group?, cut?_char h]
  simp [dropEndWhile]

theorem dropLeads_eq_self {cs ds : List Char} (h : after? cs ds = none) : dropLeads cs ds = ds := by
  rw [dropLeads, h]
  simp

theorem dropLeads_append {cs : List Char} (hcs : cs ≠ []) (ds : List Char) :
    dropLeads cs (cs ++ ds) = dropLeads cs ds := by
  have hlength : ds.length < (cs ++ ds).length := by
    have := List.length_pos_iff.2 hcs
    simp only [List.length_append]
    omega
  rw [dropLeads, if_neg (by simpa using hcs), after?_append]
  simp only [if_pos hlength]

/-- One character is dropped like any run of it. -/
theorem dropLeads_char (c : Char) (cs : List Char) : dropLeads [c] cs = cs.dropWhile (· == c) := by
  induction cs with
  | nil => exact dropLeads_eq_self rfl
  | cons d cs ih =>
    by_cases hd : d = c
    · subst hd
      rw [List.dropWhile_cons_of_pos (by simp), ← ih]
      exact dropLeads_append (List.cons_ne_nil d []) cs
    · rw [List.dropWhile_cons_of_neg (by simpa using hd)]
      exact dropLeads_eq_self (by simp [after?, Ne.symm hd])

/-- A text that opens in another way has no separator in front. -/
theorem Opens.dropLeads (hsep : IsSeparator sep) {text : List Char} (h : Opens text) :
    Text.dropLeads sep text = text := by
  obtain ⟨c, rest, rfl, -, hcolon, hback⟩ := h
  cases hsep with
  | colons => exact dropLeads_eq_self (by simp [after?, hcolon.symm])
  | backslash => exact dropLeads_eq_self (by simp [after?, hback.symm])

theorem opens_reverse_joinWith (hne : path ≠ []) (hpath : ∀ n ∈ path, Segment n) :
    Opens (joinWith sep path).reverse := by
  obtain ⟨front, n, rfl, -, hn⟩ := exists_concat hne hpath
  have hrev : Identifier n.reverse :=
    ⟨by simpa using hn.ne_nil, fun c hc => hn.chars c (List.mem_reverse.1 hc)⟩
  rw [joinWith_concat, List.reverse_append]
  exact hrev.opens _

theorem IsSeparator.reverse (hsep : IsSeparator sep) : IsSeparator sep.reverse := by
  cases hsep
  · exact .colons
  · exact .backslash

/-- The base of a group is its lead without the separator. -/
theorem dropTails_leadText (hsep : IsSeparator sep) (hpath : ∀ n ∈ path, Segment n) :
    dropTails sep (trim (leadText sep path)) = joinWith sep path := by
  rw [(tight_of_not_blank (isBlank_leadText hsep hpath)).trim, dropTails]
  by_cases hp : path = []
  · rw [hp]
    have hnil : Text.dropLeads sep.reverse [] = [] := dropLeads_eq_self (by cases hsep <;> rfl)
    exact congrArg List.reverse hnil
  · rw [leadText_eq hp, List.reverse_append, dropLeads_append (by simpa using hsep.ne_nil),
      (opens_reverse_joinWith hp hpath).dropLeads hsep.reverse, List.reverse_reverse]

/-! ### Trees -/

theorem brace_notMem_of_isPathChar {cs : List Char} (h : ∀ c ∈ cs, isPathChar c = true) :
    '{' ∉ cs := fun hmem => absurd (h '{' hmem) (by decide)

theorem Written.symbols_eq (hsep : IsSeparator sep) {t : Tree} {text : List Char}
    (h : Written sep lead t text) (above : List Char) :
    symbols sep above text =
      match group? text with
      | none => (leaf? sep above text).toList
      | some (base, inner) =>
        (splitTopLevel inner).flatMap
          (symbols sep (joinPath above (dropTails sep (trim base)) sep)) := by
  have hbody : Text.dropLeads sep (trim text) = text := by
    have hopens := h.opens []
    rw [List.append_nil] at hopens
    rw [(h.tight hsep).trim, hopens.dropLeads hsep]
  have hsymbols := UseTree.symbols_eq sep above text
  rw [hbody, if_neg (by simpa using h.ne_nil)] at hsymbols
  exact hsymbols

mutual

/-- A tree on one line is flattened to its symbols. -/
theorem Written.symbols (hsep : IsSeparator sep) {lead : List (List Char)} {t : Tree}
    {text : List Char} : Written sep lead t text → '\n' ∉ text → (∀ n ∈ lead, Segment n) →
      UseTree.symbols sep (joinWith sep lead) text = t.symbols sep lead
  | .leaf hpath hself, _, hlead => by
    have hplain := splitAlias_of_not_blank (isBlank_leafText hsep hpath)
    have hgroup := group?_eq_none (brace_notMem_of_isPathChar (isPathChar_leafText hsep hpath))
    rw [(Written.leaf hpath hself).symbols_eq hsep, hgroup]
    exact leaf?_of_splitAlias hsep hlead hpath hself hplain
  | @Written.renamed _ _ path g g' n hpath hself hg hg' hn, hbreak, hlead => by
    have halias := splitAlias_as (isBlank_leafText hsep hpath) hg hg' hn hbreak
    have hgroup : group? (leafText sep path ++ (g ++ 'a' :: 's' :: (g' ++ n))) = none := by
      refine group?_eq_none ?_
      simp only [List.mem_append, List.mem_cons, not_or]
      exact ⟨brace_notMem_of_isPathChar (isPathChar_leafText hsep hpath),
        hg.blank.notMem (by decide), by decide, by decide, hg'.blank.notMem (by decide),
        brace_notMem_of_isPathChar fun c hc => isPathChar_of_isSegmentChar (hn.chars c hc)⟩
    rw [(Written.renamed hpath hself hg hg' hn).symbols_eq hsep, hgroup]
    exact leaf?_of_splitAlias hsep hlead hpath hself halias
  | @Written.star _ _ path hpath, _, _ => by
    have hbrace := brace_notMem_of_isPathChar (isPathChar_leadText hsep hpath)
    have hgroup : group? (leadText sep path ++ ['*']) = none :=
      group?_eq_none (by simpa using hbrace)
    rw [(@Written.star sep lead path hpath).symbols_eq hsep, hgroup, leaf?_star hsep hpath]
    rfl
  | .group hpath hparts, hbreak, hlead => by
    have hbrace := brace_notMem_of_isPathChar (isPathChar_leadText hsep hpath)
    have hall := List.forall_mem_append.2 ⟨hlead, hpath⟩
    simp only [List.mem_append, List.mem_cons, not_or] at hbreak
    rw [(Written.group hpath hparts).symbols_eq hsep, group?_braces hbrace]
    simp only [dropTails_leadText hsep hpath, joinPath_joinWith hlead hpath]
    exact hparts.symbols hsep hbreak.2.2.1 hall

/-- The trees of a group on one line are flattened to their symbols, in order. -/
theorem WrittenParts.symbols (hsep : IsSeparator sep) {lead : List (List Char)} {ts : List Tree}
    {body : List Char} : WrittenParts sep lead ts body → '\n' ∉ body → (∀ n ∈ lead, Segment n) →
      (splitTopLevel body).flatMap (UseTree.symbols sep (joinWith sep lead)) =
        Tree.partSymbols sep lead ts
  | .none hg, _, _ => by
    rw [splitTopLevel_blank hg]
    rfl
  | .last hg ht hg', hbreak, hlead => by
    simp only [List.mem_append, not_or] at hbreak
    rw [Written.splitTopLevel_last hsep hg ht hg', List.flatMap_singleton,
      ht.symbols hsep hbreak.2.1 hlead, Tree.partSymbols, Tree.partSymbols, List.append_nil]
  | .more hg ht hg' hts, hbreak, hlead => by
    simp only [List.mem_append, List.mem_cons, not_or] at hbreak
    rw [Written.splitTopLevel_more hsep hg ht hg', List.flatMap_cons,
      ht.symbols hsep hbreak.2.1 hlead, hts.symbols hsep hbreak.2.2.2.2 hlead, Tree.partSymbols]

end

/-- A list that is one tree. -/
theorem Written.symbolsOfList (hsep : IsSeparator sep) {t : Tree} {text : List Char}
    (h : Written sep [] t text) (hbreak : '\n' ∉ text) :
    UseTree.symbolsOfList sep text = t.symbols sep [] := by
  have hone := Written.splitTopLevel_last hsep blank_nil h blank_nil
  rw [List.nil_append, List.append_nil] at hone
  have hsymbols := h.symbols hsep hbreak fun n hn => absurd hn List.not_mem_nil
  rw [UseTree.symbolsOfList, hone, List.flatMap_singleton]
  exact hsymbols

end DocDirectives.UseTree
