import DocDirectives.Proofs.Text.Trimming

/-! # Lines

    A line feed ends a line, and a carriage return in front of it belongs to the line end. A text
    is put on one line by trimming its lines, the first only at its end, and joining them by a
    space. So every run of white space with a line feed in it becomes spaces, and all else stays. -/

namespace DocDirectives.Text

variable {c : Char} {cs ds g first last : List Char} {more ended : List (List Char)}

/-! ### Splitting -/

theorem newline_notMem (h : ∀ c ∈ cs, isBlank c = false) : '\n' ∉ cs :=
  fun hmem => absurd (h _ hmem) (by decide)

theorem exists_splitOn (cs : List Char) : ∃ first more, splitOn '\n' cs = first :: more :=
  List.exists_cons_of_ne_nil (splitOn_ne_nil _ _)

theorem splitOn_newline (rest : List Char) :
    splitOn '\n' ('\n' :: rest) = [] :: splitOn '\n' rest := by
  obtain ⟨first, more, h⟩ := exists_splitOn rest
  rw [splitOn, h]
  simp

/-- Characters that end no line belong to the first line. -/
theorem splitOn_append (h : '\n' ∉ cs) (hds : splitOn '\n' ds = first :: more) :
    splitOn '\n' (cs ++ ds) = (cs ++ first) :: more := by
  induction cs with
  | nil => exact hds
  | cons c cs ih =>
    obtain ⟨hc, hcs⟩ : '\n' ≠ c ∧ '\n' ∉ cs := by simpa using h
    rw [List.cons_append, splitOn, ih hcs]
    simp [Ne.symm hc]

theorem splitOn_line (h : '\n' ∉ cs) (rest : List Char) :
    splitOn '\n' (cs ++ '\n' :: rest) = cs :: splitOn '\n' rest := by
  rw [splitOn_append h (splitOn_newline rest), List.append_nil]

/-- A line end divides the lines of a text. -/
theorem splitOn_newline_append (cs rest : List Char) :
    splitOn '\n' (cs ++ '\n' :: rest) = splitOn '\n' cs ++ splitOn '\n' rest := by
  induction cs with
  | nil => exact splitOn_newline rest
  | cons c cs ih =>
    obtain ⟨first, more, h⟩ := exists_splitOn cs
    rw [List.cons_append, splitOn, ih, splitOn, h]
    by_cases hc : c = '\n' <;> simp [hc]

theorem splitOn_eq_singleton (h : '\n' ∉ cs) : splitOn '\n' cs = [cs] := by
  have happend : splitOn '\n' (cs ++ []) = (cs ++ []) :: [] := splitOn_append h rfl
  rwa [List.append_nil] at happend

/-- The first lines of a text are the lines of what stands in front of a line feed. -/
theorem exists_front {ls : List (List Char)} (hne : ls ≠ [])
    (h : splitOn '\n' cs = ls ++ first :: more) :
    ∃ front behind, cs = front ++ '\n' :: behind ∧ splitOn '\n' front = ls := by
  induction ls generalizing cs with
  | nil => exact absurd rfl hne
  | cons line ls ih =>
    have hbreak : '\n' ∈ cs := by
      by_contra hcs
      rw [splitOn_eq_singleton hcs] at h
      simp at h
    obtain ⟨line', behind, rfl, hline⟩ := List.eq_append_cons_of_mem hbreak
    rw [splitOn_line hline, List.cons_append] at h
    obtain ⟨rfl, hrest⟩ := List.cons.inj h
    by_cases hls : ls = []
    · exact ⟨line', behind, rfl, by rw [hls, splitOn_eq_singleton hline]⟩
    · obtain ⟨front, behind, rfl, hfront⟩ := ih hls hrest
      exact ⟨line' ++ '\n' :: front, behind, by simp, by rw [splitOn_line hline, hfront]⟩

/-! ### Line ends -/

/-- The lines of a text, up to their carriage returns, are its parts between line feeds. -/
theorem exists_lines (cs : List Char) : ∃ ended last, splitOn '\n' cs = ended ++ [last] ∧
    lines cs = ended.map dropReturn ++ if last = [] then [] else [last] := by
  obtain ⟨ended, last, h⟩ : ∃ ended last, splitOn '\n' cs = ended ++ [last] := by
    rcases List.eq_nil_or_concat (splitOn '\n' cs) with h | ⟨ended, last, h⟩
    · exact absurd h (splitOn_ne_nil _ _)
    · exact ⟨ended, last, by rw [h, List.concat_eq_append]⟩
  refine ⟨ended, last, h, ?_⟩
  rw [lines, h, List.reverse_append]
  by_cases hlast : last = [] <;> simp [hlast]

/-- The carriage return of a line end is white space at the end of the line. -/
theorem exists_dropReturn (cs : List Char) : ∃ g, Blank g ∧ cs = dropReturn cs ++ g := by
  unfold dropReturn
  split
  · next h =>
    obtain ⟨front, rfl⟩ := List.getLast?_eq_some_iff.1 h
    refine ⟨['\r'], ?_, by rw [List.dropLast_concat]⟩
    intro c hc
    obtain rfl := List.mem_singleton.1 hc
    decide
  · exact ⟨[], blank_nil, (List.append_nil cs).symm⟩

theorem trimEnd_dropReturn (cs : List Char) : trimEnd (dropReturn cs) = trimEnd cs := by
  obtain ⟨g, hg, h⟩ := exists_dropReturn cs
  have hcs := trimEnd_append (dropReturn cs) hg
  rw [← h] at hcs
  exact hcs.symm

theorem trim_dropReturn (cs : List Char) : trim (dropReturn cs) = trim cs := by
  obtain ⟨g, hg, h⟩ := exists_dropReturn cs
  have hcs := trim_append (dropReturn cs) hg
  rw [← h] at hcs
  exact hcs.symm

/-! ### Two texts -/

/-- Characters that end no line belong to the last line. -/
theorem splitOn_append_right (hds : '\n' ∉ ds) (hcs : splitOn '\n' cs = ended ++ [last]) :
    splitOn '\n' (cs ++ ds) = ended ++ [last ++ ds] := by
  by_cases h : '\n' ∈ cs
  · obtain ⟨behind, front, hrev, hbehind⟩ := List.eq_append_cons_of_mem (List.mem_reverse.2 h)
    obtain rfl : cs = front.reverse ++ '\n' :: behind.reverse := by
      simpa using congrArg List.reverse hrev
    have hlast : '\n' ∉ behind.reverse := by simpa using hbehind
    have hboth : '\n' ∉ behind.reverse ++ ds := by simpa [hds] using hbehind
    rw [splitOn_newline_append, splitOn_eq_singleton hlast] at hcs
    obtain ⟨rfl, rfl⟩ := List.append_inj' hcs rfl |>.imp_right List.singleton_inj.1
    rw [List.append_assoc, List.cons_append, splitOn_newline_append, splitOn_eq_singleton hboth]
  · have hboth : '\n' ∉ cs ++ ds := by simp [h, hds]
    rw [splitOn_eq_singleton h] at hcs
    have hnil : [] ++ [cs] = ended ++ [last] := hcs
    obtain ⟨rfl, rfl⟩ := List.append_inj' hnil rfl |>.imp_right List.singleton_inj.1
    exact splitOn_eq_singleton hboth

/-- The lines in front of a line feed end, and those behind it are as they are alone. -/
theorem lines_newline_append (cs ds : List Char) :
    lines (cs ++ '\n' :: ds) = (splitOn '\n' cs).map dropReturn ++ lines ds := by
  obtain ⟨ended, last, hds, hlines⟩ := exists_lines ds
  rw [hlines, lines, splitOn_newline_append, hds, ← List.append_assoc, List.reverse_append]
  by_cases hlast : last = [] <;> simp [hlast]

/-- The lines of a text without a line feed. -/
theorem lines_of_splitOn (hcs : splitOn '\n' cs = ended ++ [last]) (hlast : last ≠ []) :
    lines cs = ended.map dropReturn ++ [last] := by
  rw [lines, hcs, List.reverse_append]
  simp [hlast]

/-- A carriage return that a line ends with is behind every other character of it. -/
theorem dropReturn_append (hc : c ≠ '\r') (cs ds : List Char) :
    dropReturn (cs ++ c :: ds) = cs ++ c :: dropReturn ds := by
  unfold dropReturn
  cases ds with
  | nil => simp [hc]
  | cons d ds =>
    have hlast : (cs ++ c :: d :: ds).getLast? = (d :: ds).getLast? := by
      rw [List.getLast?_append, List.getLast?_cons_cons, List.getLast?_cons, Option.some_or]
    rw [hlast]
    split
    · rw [List.dropLast_append_of_ne_nil (List.cons_ne_nil _ _)]
      rfl
    · rfl

/-- A text that ends within a line, and one behind it: without a line feed in between the last line
    of the one and the first of the other are one line. -/
theorem lines_append {before behind code head : List Char} {front rest : List (List Char)}
    (hc : isBlank c = false) (hbefore : lines (before ++ [c]) = front ++ [head])
    (hbehind : lines behind = code :: rest) :
    lines (before ++ c :: behind) = front ++ (head ++ code) :: rest ∧
      lines (before ++ c :: '\n' :: behind) = front ++ head :: code :: rest := by
  have hfeed : '\n' ∉ [c] := newline_notMem (by simpa using hc)
  have hreturn : c ≠ '\r' := by
    rintro rfl
    exact absurd hc (by decide)
  obtain ⟨ended, last, hsplit, -⟩ := exists_lines before
  have hend : splitOn '\n' (before ++ [c]) = ended ++ [last ++ [c]] :=
    splitOn_append_right hfeed hsplit
  obtain ⟨rfl, hhead⟩ : ended.map dropReturn = front ∧ [last ++ [c]] = [head] := by
    refine List.append_inj' ?_ rfl
    rw [← hbefore, lines_of_splitOn hend (by simp)]
  obtain rfl := List.singleton_inj.1 hhead
  constructor
  · by_cases h : '\n' ∈ behind
    · obtain ⟨first, more, rfl, hfirst⟩ := List.eq_append_cons_of_mem h
      have hline : '\n' ∉ c :: first := by simpa [hfirst] using hfeed
      rw [lines_newline_append, splitOn_eq_singleton hfirst] at hbehind
      obtain ⟨rfl, rfl⟩ := List.cons.inj hbehind
      rw [← List.cons_append, ← List.append_assoc, lines_newline_append,
        splitOn_append_right hline hsplit, List.map_append, List.map_singleton,
        dropReturn_append hreturn]
      simp
    · have hline : '\n' ∉ c :: behind := by simpa [h] using hfeed
      have hne : behind ≠ [] := by
        rintro rfl
        cases hbehind
      have hsingle : splitOn '\n' behind = [] ++ [behind] := splitOn_eq_singleton h
      rw [lines_of_splitOn hsingle hne] at hbehind
      obtain ⟨rfl, rfl⟩ := List.cons.inj hbehind
      rw [lines_of_splitOn (splitOn_append_right hline hsplit) (by simp)]
      simp
  · have hbreak := lines_newline_append (before ++ [c]) behind
    rw [hend, hbehind, List.map_append, List.map_singleton, dropReturn_append hreturn] at hbreak
    simpa [dropReturn] using hbreak

/-! ### Texts on one line -/

/-- Lines behind a first one, each trimmed and with a space in front. -/
def joined (lines : List (List Char)) : List Char := lines.flatMap fun line => ' ' :: trim line

/-- A text on one line. -/
def unbroken (cs : List Char) : List Char :=
  match splitOn '\n' cs with
  | [] => []
  | first :: more => trimEnd first ++ joined more

/-- White space on one line: as it is, or a space for every line feed. -/
def relaid (g : List Char) : List Char :=
  if '\n' ∈ g then List.replicate (g.count '\n') ' ' else g

theorem joined_cons (line : List Char) (more : List (List Char)) :
    joined (line :: more) = ' ' :: (trim line ++ joined more) := by
  rw [joined, List.flatMap_cons, ← joined, List.cons_append]

theorem joined_append (ls ls' : List (List Char)) : joined (ls ++ ls') = joined ls ++ joined ls' :=
  List.flatMap_append

theorem unbroken_of_splitOn (h : splitOn '\n' cs = first :: more) :
    unbroken cs = trimEnd first ++ joined more := by
  simp only [unbroken, h]

/-- Characters that are not white space stay as they are. -/
theorem unbroken_append (h : ∀ c ∈ cs, isBlank c = false) (rest : List Char) :
    unbroken (cs ++ rest) = cs ++ unbroken rest := by
  obtain ⟨first, more, hrest⟩ := exists_splitOn rest
  rw [unbroken_of_splitOn (splitOn_append (newline_notMem h) hrest), unbroken_of_splitOn hrest,
    trimEnd_append_of_not_blank h, List.append_assoc]

/-- A text without line feeds stays as it is in front of one that begins without white space. -/
theorem unbroken_append_of_newline_notMem (h : '\n' ∉ cs) (hc : isBlank c = false)
    (rest : List Char) : unbroken (cs ++ c :: rest) = cs ++ unbroken (c :: rest) := by
  obtain ⟨first, more, hs⟩ := exists_splitOn rest
  have hcbreak : '\n' ∉ [c] := newline_notMem fun d hd => List.mem_singleton.1 hd ▸ hc
  have hcs : splitOn '\n' (c :: rest) = (c :: first) :: more := splitOn_append hcbreak hs
  rw [unbroken_of_splitOn (splitOn_append h hcs), unbroken_of_splitOn hcs, trimEnd_append_cons hc,
    trimEnd_cons_of_not_blank hc, List.append_assoc]

/-- White space behind the end of a line, and what follows it. -/
theorem joined_splitOn {rest : List Char} (hg : Blank g) (hrest : startsBlank rest = false) :
    joined (splitOn '\n' (g ++ rest)) =
      List.replicate (g.count '\n' + 1) ' ' ++ unbroken rest := by
  induction g with
  | nil =>
    obtain ⟨first, more, hs⟩ := exists_splitOn rest
    have hfirst : startsBlank first = false := by
      cases rest with
      | nil =>
        cases hs
        rfl
      | cons c rest =>
        obtain ⟨first', more', hs'⟩ := exists_splitOn rest
        have hc : '\n' ∉ [c] := newline_notMem fun d hd => List.mem_singleton.1 hd ▸ hrest
        rw [← List.singleton_append, splitOn_append hc hs'] at hs
        cases hs
        exact hrest
    rw [List.nil_append, unbroken_of_splitOn hs, hs, joined_cons, trim, trimStart_eq_self hfirst]
    rfl
  | cons b g ih =>
    obtain ⟨first, more, hs⟩ := exists_splitOn (g ++ rest)
    have hih := ih hg.tail
    by_cases hb : b = '\n'
    · rw [hb, List.cons_append, splitOn_newline, joined_cons, hih, List.count_cons_self]
      rfl
    · have hbreak : '\n' ∉ [b] := fun hmem => hb (List.mem_singleton.1 hmem).symm
      have hblank : Blank [b] := blank_cons.2 ⟨hg b List.mem_cons_self, blank_nil⟩
      rw [List.count_cons_of_ne hb, ← hih, List.cons_append, ← List.singleton_append,
        splitOn_append hbreak hs, hs, joined_cons, joined_cons, trim_append_left hblank]

/-- White space between words stays in its place. -/
theorem unbroken_blank (hg : Blank g) (hc : isBlank c = false) (rest : List Char) :
    unbroken (g ++ c :: rest) = relaid g ++ unbroken (c :: rest) := by
  unfold relaid
  split
  · next hbreak =>
    obtain ⟨line, g', rfl, hline⟩ := List.eq_append_cons_of_mem hbreak
    obtain ⟨hblank, hg'⟩ := blank_append.1 hg
    have hrest : startsBlank (c :: rest) = false := hc
    rw [List.append_assoc, List.cons_append, unbroken_of_splitOn (splitOn_line hline _),
      trimEnd_eq_nil hblank, joined_splitOn hg'.tail hrest, List.nil_append, List.count_append,
      List.count_eq_zero.2 hline, List.count_cons_self, Nat.zero_add]
  · next hbreak => exact unbroken_append_of_newline_notMem hbreak hc rest

/-! ### Characters of a text on one line -/

theorem count_joined (hc : isBlank c = false) (cs : List Char) :
    (joined (splitOn '\n' cs)).count c = cs.count c := by
  have hspace : ' ' ≠ c := by
    rintro rfl
    exact absurd hc (by decide)
  induction cs with
  | nil => simp [splitOn, joined, hspace]
  | cons d cs ih =>
    obtain ⟨first, more, hs⟩ := exists_splitOn cs
    rw [hs, joined_cons, List.count_cons_of_ne hspace, List.count_append, count_trim hc] at ih
    by_cases hd : d = '\n'
    · subst hd
      have hfeed : '\n' ≠ c := by
        rintro rfl
        exact absurd hc (by decide)
      rw [splitOn_newline, hs, joined_cons, joined_cons, List.count_cons_of_ne hfeed, ← ih]
      simp [hspace, count_trim hc]
    · have hbreak : '\n' ∉ [d] := by simpa using Ne.symm hd
      rw [← List.singleton_append, splitOn_append hbreak hs, joined_cons,
        List.count_cons_of_ne hspace, List.count_append, count_trim hc, List.count_append,
        List.count_append, Nat.add_assoc, ih]

/-- Only white space is lost where a text is put on one line. -/
theorem count_unbroken (hc : isBlank c = false) (cs : List Char) :
    (unbroken cs).count c = cs.count c := by
  obtain ⟨first, more, hs⟩ := exists_splitOn cs
  have hspace : ' ' ≠ c := by
    rintro rfl
    exact absurd hc (by decide)
  have hjoined := count_joined hc cs
  obtain ⟨g, hg, hfirst⟩ := exists_trimEnd first
  have hend := congrArg (List.count c) hfirst
  rw [List.count_append, List.count_eq_zero.2 (hg.notMem hc), Nat.add_zero] at hend
  rw [hs, joined_cons, List.count_cons_of_ne hspace, List.count_append, count_trim hc, hend]
    at hjoined
  rw [unbroken_of_splitOn hs, List.count_append, hjoined]

theorem mem_unbroken_iff (hc : isBlank c = false) : c ∈ unbroken cs ↔ c ∈ cs := by
  rw [← List.count_pos_iff, count_unbroken hc, List.count_pos_iff]

/-- On the last line a text ends as it does there. -/
theorem exists_unbroken (hc : isBlank c = false) (front : List Char) :
    ∃ front', ∀ tail, '\n' ∉ tail →
      unbroken (front ++ c :: tail) = front' ++ c :: trimEnd tail := by
  obtain ⟨ended, last, hfront, -⟩ := exists_lines front
  have hsplit : ∀ tail, '\n' ∉ tail →
      splitOn '\n' (front ++ c :: tail) = ended ++ [last ++ c :: tail] := by
    intro tail htail
    have hc' : '\n' ∉ [c] := newline_notMem (by simpa using hc)
    exact splitOn_append_right (by simpa [htail] using hc') hfront
  cases ended with
  | nil =>
    refine ⟨last, fun tail htail => ?_⟩
    rw [unbroken_of_splitOn (hsplit tail htail), trimEnd_append_cons hc]
    exact List.append_nil _
  | cons first more =>
    refine ⟨trimEnd first ++ (joined more ++ ' ' :: trimStart last), fun tail htail => ?_⟩
    have hlast : joined [last ++ c :: tail] = ' ' :: (trimStart last ++ c :: trimEnd tail) := by
      rw [joined_cons, trim, trimStart_append_cons hc, trimEnd_append_cons hc]
      exact congrArg _ (List.append_nil _)
    have hall : joined (more ++ [last ++ c :: tail]) = _ := joined_append more _
    rw [unbroken_of_splitOn (hsplit tail htail)]
    exact (congrArg _ (hall.trans (congrArg _ hlast))).trans (by simp)

/-! ### White space on one line -/

theorem blank_relaid (hg : Blank g) : Blank (relaid g) := by
  unfold relaid
  split
  · intro c hc
    rw [List.eq_of_mem_replicate hc]
    decide
  · exact hg

theorem newline_notMem_relaid (g : List Char) : '\n' ∉ relaid g := by
  unfold relaid
  split
  · intro hmem
    exact absurd (List.eq_of_mem_replicate hmem) (by decide)
  · next h => exact h

theorem relaid_ne_nil (h : g ≠ []) : relaid g ≠ [] := by
  unfold relaid
  split
  · next hbreak =>
    obtain ⟨n, hn⟩ := Nat.exists_eq_succ_of_ne_zero (List.count_pos_iff.2 hbreak).ne'
    rw [hn]
    exact List.cons_ne_nil _ _
  · exact h

theorem eq_space_of_mem_relaid (hbreak : '\n' ∈ g) : ∀ c ∈ relaid g, c = ' ' := by
  rw [relaid, if_pos hbreak]
  exact fun c hc => List.eq_of_mem_replicate hc

theorem relaid_eq_self (hbreak : '\n' ∉ g) : relaid g = g := if_neg hbreak

end DocDirectives.Text
