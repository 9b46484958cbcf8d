import DocDirectives.Proofs.Declaration.Outside

/-! # Segments of a line

    A line of code is a row of segments: plain characters, closed literals and closed comments. A
    comment up to the end of the line may follow, or a comment or a string that the line leaves
    open. No segment reaches into the next one, so the structural characters of the line are those
    of its plain characters. The scan goes from left to right in moves; a move takes a segment, or
    ends the scan, so every scan ends after at most one move for each character.

        Segments ──▶ nothing
                 ──▶ segment Segments
        Line     ──▶ Segments Ending -/

namespace DocDirectives.Braces

open Text

variable {l : Language} {c quote : Char} {cs body rest out text plain ending : List Char}

/-! ### Segments -/

/-- Whether a character counts where no literal and no comment takes it. -/
def isStructural (c : Char) : Bool := c == '{' || c == '}' || c == ';'

/-- A character that begins no literal and no comment, whatever stands behind it. -/
structure Bare (l : Language) (c : Char) : Prop where
  quote : c ≠ '"' ∧ c ≠ '\''
  slash : c ≠ '/'
  hash : l = .php → c ≠ '#'

instance (l : Language) (c : Char) : Decidable (Bare l c) :=
  decidable_of_iff ((c ≠ '"' ∧ c ≠ '\'') ∧ c ≠ '/' ∧ (l = .php → c ≠ '#'))
    ⟨fun ⟨h1, h2, h3⟩ => ⟨h1, h2, h3⟩, fun h => ⟨h.quote, h.slash, h.hash⟩⟩

/-- A row of segments, and its plain characters. -/
inductive Segments (l : Language) : List Char → List Char → Prop
  | nil : Segments l [] []
  | plain {c : Char} {text plain : List Char} : Bare l c → Segments l text plain →
      Segments l (c :: text) (c :: plain)
  | literal {quote : Char} {body text plain : List Char} : IsQuote l quote → Quoted quote body →
      Segments l text plain → Segments l (quote :: (body ++ quote :: text)) plain
  | character {c : Char} {text plain : List Char} : l = .rust → c ≠ '\\' →
      Segments l text plain → Segments l ('\'' :: c :: '\'' :: text) plain
  | escape {c : Char} {body text plain : List Char} : l = .rust → '\'' ∉ body →
      Segments l text plain → Segments l ('\'' :: '\\' :: c :: (body ++ '\'' :: text)) plain
  | comment {body text plain : List Char} : ¬['*', '/'] <:+: body → Segments l text plain →
      Segments l ('/' :: '*' :: (body ++ '*' :: '/' :: text)) plain

/-- No quote in the text closes the literal that it begins in. -/
def Unclosed (quote : Char) (cs : List Char) : Prop :=
  ∀ body behind, cs = body ++ quote :: behind → ¬Quoted quote body

/-- What may end a line behind its segments. -/
inductive Ending (l : Language) : List Char → Prop
  | none : Ending l []
  | lineComment {cs : List Char} : Ending l ('/' :: '/' :: cs)
  | hashComment {cs : List Char} : l = .php → cs.head? ≠ some '[' → Ending l ('#' :: cs)
  | comment {cs : List Char} : ¬['*', '/'] <:+: cs → Ending l ('/' :: '*' :: cs)
  | literal {quote : Char} {cs : List Char} : IsQuote l quote → Unclosed quote cs →
      Ending l (quote :: cs)

theorem structural_bare (h : Bare l c) :
    structural l (c :: cs) = if isStructural c then c :: structural l cs else structural l cs := by
  have hhash : ¬(c = '#' ∧ l = .php ∧ cs.head? ≠ some '[') := fun ⟨hc, hl, _⟩ => h.hash hl hc
  have hquote : ¬IsQuote l c := fun hc => hc.cases.elim h.quote.1 h.quote.2
  rw [structural_cons (fun hc => absurd hc h.slash), if_neg hhash, if_neg hquote, if_neg h.quote.2]
  simp [isStructural, or_assoc]

theorem structural_closed (h : ¬['*', '/'] <:+: body) :
    structural l ('/' :: '*' :: (body ++ '*' :: '/' :: cs)) = structural l cs := by
  have hcut : cut? ['*', '/'] (body ++ '*' :: '/' :: cs) = some (body, cs) :=
    cut?_mark (by decide : '*' ∉ ['/']) h cs
  rw [structural_comment, hcut]
  rfl

/-- A literal that is not closed takes the rest of the line. -/
theorem afterString_unclosed (h : Unclosed quote cs) : afterString quote cs = [] := by
  fun_induction afterString quote cs with
  | case1 => rfl
  | case2 => rfl
  | case3 c cs ih =>
    exact ih fun body behind hcs hbody =>
      h ('\\' :: c :: body) behind (by rw [hcs]; rfl) (.escaped hbody)
  | case4 cs => exact absurd .nil (h [] cs rfl)
  | case5 c cs hback hback' hc ih =>
    have hslash : c ≠ '\\' := by
      rintro rfl
      cases cs with
      | nil => exact hback rfl rfl
      | cons d cs => exact hback' d cs rfl rfl
    exact ih fun body behind hcs hbody =>
      h (c :: body) behind (by rw [hcs]; rfl) (.plain hc hslash hbody)

/-- Nothing in the ending of a line counts. -/
theorem Ending.structural (h : Ending l ending) : Braces.structural l ending = [] := by
  cases h with
  | none => exact structural_nil
  | lineComment => exact structural_lineComment
  | hashComment hl hcs =>
    subst hl
    exact structural_hashComment hcs
  | comment hcs =>
    rw [structural_comment, cut?_eq_none_iff.2 hcs]
    rfl
  | literal hquote hcs =>
    rw [structural_quoted hquote, afterString_unclosed hcs, structural_nil]

/-- The structural characters of a row of segments are those of its plain characters, in front of
    those of what follows. -/
theorem Segments.structural (h : Segments l text plain) (rest : List Char) :
    Braces.structural l (text ++ rest) = plain.filter isStructural ++ Braces.structural l rest := by
  induction h with
  | nil => rfl
  | @plain c text plain hc _ ih =>
    rw [List.cons_append, structural_bare hc, ih, List.filter_cons]
    split <;> rfl
  | literal hquote hbody _ ih =>
    rw [List.cons_append, List.append_assoc, List.cons_append, structural_literal hquote hbody, ih]
  | character hl hc _ ih =>
    rw [List.cons_append, List.cons_append, List.cons_append, structural_quote hl,
      afterCharacter?_character hc, Option.getD_some, ih]
  | @escape c body text plain hl hbody _ ih =>
    have hcs : '\'' :: '\\' :: c :: (body ++ '\'' :: text) ++ rest =
        '\'' :: '\\' :: c :: (body ++ '\'' :: (text ++ rest)) := by simp
    rw [hcs, structural_quote hl, afterCharacter?_escape hbody, Option.getD_some, ih]
  | @comment body text plain hbody _ ih =>
    have hcs : '/' :: '*' :: (body ++ '*' :: '/' :: text) ++ rest =
        '/' :: '*' :: (body ++ '*' :: '/' :: (text ++ rest)) := by simp
    rw [hcs, structural_closed hbody, ih]

/-! ### Moves -/

/-- One move of the scan: the structural characters that it finds and what is left to read, or
    nothing where the scan ends. -/
def move (l : Language) : List Char → Option (List Char × List Char)
  | [] => none
  | '/' :: '/' :: _ => none
  | '/' :: '*' :: cs => (cut? ['*', '/'] cs).map fun p => ([], p.2)
  | c :: cs =>
    if c = '#' ∧ l = .php ∧ cs.head? ≠ some '[' then none
    else if IsQuote l c then some ([], afterString c cs)
    else if c = '\'' then some ([], (afterCharacter? cs).getD cs)
    else some (if isStructural c then [c] else [], cs)

/-- A scan of a text: the number of its moves, and what they find. -/
inductive Scan (l : Language) : Nat → List Char → List Char → Prop
  | done {cs : List Char} : move l cs = none → Scan l 0 cs []
  | step {n : Nat} {cs out rest found : List Char} : move l cs = some (out, rest) →
      Scan l n rest found → Scan l (n + 1) cs (out ++ found)

theorem move_cons (h : c = '/' → cs.head? ≠ some '/' ∧ cs.head? ≠ some '*') :
    move l (c :: cs) =
      if c = '#' ∧ l = .php ∧ cs.head? ≠ some '[' then none
      else if IsQuote l c then some ([], afterString c cs)
      else if c = '\'' then some ([], (afterCharacter? cs).getD cs)
      else some (if isStructural c then [c] else [], cs) := by
  unfold move
  split <;> simp_all

/-- A text begins with a comment mark, or its first character is read by itself. -/
theorem comment_or_single (cs : List Char) :
    cs = [] ∨ (∃ tail, cs = '/' :: '/' :: tail) ∨ (∃ tail, cs = '/' :: '*' :: tail) ∨
      ∃ c tail, cs = c :: tail ∧ (c = '/' → tail.head? ≠ some '/' ∧ tail.head? ≠ some '*') := by
  cases cs with
  | nil => exact .inl rfl
  | cons c tail =>
    by_cases hline : c = '/' ∧ tail.head? = some '/'
    · obtain ⟨rfl, hhead⟩ := hline
      obtain ⟨tail, rfl⟩ := List.head?_eq_some_iff.1 hhead
      exact .inr (.inl ⟨tail, rfl⟩)
    · by_cases hstar : c = '/' ∧ tail.head? = some '*'
      · obtain ⟨rfl, hhead⟩ := hstar
        obtain ⟨tail, rfl⟩ := List.head?_eq_some_iff.1 hhead
        exact .inr (.inr (.inl ⟨tail, rfl⟩))
      · exact .inr (.inr (.inr ⟨c, tail, rfl, fun hc => ⟨fun h => hline ⟨hc, h⟩,
          fun h => hstar ⟨hc, h⟩⟩⟩))

/-- The structural characters of a text are what a move finds and those of what it leaves. -/
theorem structural_of_move (cs : List Char) :
    structural l cs = ((move l cs).map fun p => p.1 ++ structural l p.2).getD [] := by
  rcases comment_or_single cs with rfl | ⟨tail, rfl⟩ | ⟨tail, rfl⟩ | ⟨c, tail, rfl, hc⟩
  · exact structural_nil
  · exact structural_lineComment
  · rw [structural_comment, move]
    cases cut? ['*', '/'] tail <;> rfl
  · rw [structural_cons hc, move_cons hc]
    have hcount : (if isStructural c then [c] else []) ++ structural l tail =
        if c = '{' ∨ c = '}' ∨ c = ';' then c :: structural l tail else structural l tail := by
      simp only [isStructural, Bool.or_eq_true, beq_iff_eq, or_assoc]
      split <;> rfl
    split
    · rfl
    · split
      · rfl
      · split
        · rfl
        · exact hcount.symm

/-- A move goes on. -/
theorem length_of_move (h : move l cs = some (out, rest)) : rest.length < cs.length := by
  rcases comment_or_single cs with rfl | ⟨tail, rfl⟩ | ⟨tail, rfl⟩ | ⟨c, tail, rfl, hc⟩
  · cases h
  · cases h
  · obtain ⟨p, hp, hrest⟩ := Option.map_eq_some_iff.1 h
    have hlength := length_of_cut? hp
    cases hrest
    simp only [List.length_cons]
    omega
  · rw [move_cons hc] at h
    have hliteral := length_afterString_le c tail
    have hcharacter : ((afterCharacter? tail).getD tail).length ≤ tail.length := by
      cases hafter : afterCharacter? tail with
      | none => exact Nat.le_refl _
      | some behind => exact length_of_afterCharacter? hafter
    simp only [List.length_cons]
    split at h
    · cases h
    · split at h
      · cases h
        omega
      · split at h
        · cases h
          omega
        · cases h
          omega

/-- Every text has a scan, of at most one move for each character. -/
theorem exists_scan (l : Language) (cs : List Char) :
    ∃ n ≤ cs.length, Scan l n cs (structural l cs) := by
  cases hmove : move l cs with
  | none =>
    refine ⟨0, Nat.zero_le _, ?_⟩
    rw [structural_of_move, hmove]
    exact .done hmove
  | some p =>
    obtain ⟨out, rest⟩ := p
    have hlength := length_of_move hmove
    obtain ⟨n, hn, hscan⟩ := exists_scan l rest
    refine ⟨n + 1, by omega, ?_⟩
    rw [structural_of_move, hmove]
    exact .step hmove hscan
termination_by cs.length

/-! ### Lines -/

/-- The structural characters of a line are those of its plain segments, in order, and the scan of
    every line ends. -/
theorem structural_segments (h : Segments l text plain) (hend : Ending l ending) :
    structural l (text ++ ending) = plain.filter isStructural ∧
      ∀ line, ∃ n ≤ line.length, Scan l n line (structural l line) := by
  refine ⟨?_, exists_scan l⟩
  rw [h.structural, hend.structural, List.append_nil]

/-- Braces and quotes in an escape, in a string, in a comment and behind a line comment. -/
theorem structural_segments_mixed :
    ∃ text plain ending : List Char,
      text ++ ending = "\x7b '\\'' \"\\\"\x7d\" /* ' \x7d */ ; // \x7d".toList ∧
      Segments .rust text plain ∧ Ending .rust ending ∧
      structural .rust (text ++ ending) = ['{', ';'] ∧
      ∃ n ≤ (text ++ ending).length, Scan .rust n (text ++ ending) ['{', ';'] := by
  have hspace : Bare .rust ' ' := by decide
  have hescape : '\'' ∉ ([] : List Char) := by decide
  have hquoted : Quoted '"' ['\\', '"', '}'] := .escaped (.plain (by decide) (by decide) .nil)
  have hcomment : ¬['*', '/'] <:+: " ' \x7d ".toList := by decide
  have hrow : Segments .rust ('{' :: ' ' :: '\'' :: '\\' :: '\'' :: ([] ++ '\'' :: ' ' ::
      '"' :: (['\\', '"', '}'] ++ '"' :: ' ' :: '/' :: '*' :: (" ' \x7d ".toList ++
        '*' :: '/' :: [' ', ';', ' '])))) ['{', ' ', ' ', ' ', ' ', ';', ' '] :=
    .plain (by decide) <| .plain hspace <| .escape rfl hescape <| .plain hspace <|
      .literal (.inl rfl) hquoted <| .plain hspace <| .comment hcomment <| .plain hspace <|
      .plain (by decide) <| .plain hspace .nil
  have hend : Ending .rust ('/' :: '/' :: " \x7d".toList) := .lineComment
  obtain ⟨hfound, hscan⟩ := structural_segments hrow hend
  have hplain : ['{', ' ', ' ', ' ', ' ', ';', ' '].filter isStructural = ['{', ';'] := by decide
  rw [hplain] at hfound
  exact ⟨_, _, _, by decide +kernel, hrow, hend, hfound, hfound ▸ hscan _⟩

end DocDirectives.Braces
