import DocDirectives.Declaration.Braces
import DocDirectives.Proofs.Text.Trimming

/-! # Braces outside comments and literals

    A line is read from the left, beginning inside a comment or not. `Outside` relates it to its
    braces outside comments, strings and character literals, and says whether it ends inside a
    comment. Literals end on their line. Left out are the texts that need more to be read: nested
    comments, raw strings with a quote or a backslash in them, and here documents. The structural
    characters of a line are its braces outside, and semicolons. -/

namespace DocDirectives.Braces

open Text

variable {l : Language} {inside ends : Bool} {c : Char} {cs ds g braces : List Char}

/-- The text between the quotes of a literal. A backslash takes the next character with it. -/
inductive Quoted (quote : Char) : List Char → Prop
  | nil : Quoted quote []
  | escaped {c : Char} {cs : List Char} : Quoted quote cs → Quoted quote ('\\' :: c :: cs)
  | plain {c : Char} {cs : List Char} : c ≠ quote → c ≠ '\\' → Quoted quote cs →
      Quoted quote (c :: cs)

/-- Whether a quote stands around literals of any length. -/
def IsQuote (l : Language) (c : Char) : Prop := c = '"' ∨ (c = '\'' ∧ l ≠ .rust)

instance (l : Language) (c : Char) : Decidable (IsQuote l c) :=
  inferInstanceAs (Decidable (c = '"' ∨ (c = '\'' ∧ l ≠ .rust)))

/-- Hash signs and a double quote: what follows the `r` of a raw string. -/
def OpensRaw (cs : List Char) : Prop := (cs.dropWhile (· == '#')).head? = some '"'

instance (cs : List Char) : Decidable (OpensRaw cs) :=
  inferInstanceAs (Decidable (_ = some '"'))

/-- A character in front of `cs` that means nothing to comments, literals and braces. -/
structure Plain (l : Language) (c : Char) (cs : List Char) : Prop where
  brace : c ≠ '{' ∧ c ≠ '}'
  quote : c ≠ '"' ∧ c ≠ '\''
  comment : c = '/' → cs.head? ≠ some '/' ∧ cs.head? ≠ some '*'
  hash : l = .php → c = '#' → cs.head? = some '['
  raw : l = .rust → c = 'r' → ¬OpensRaw cs
  here : l = .php → ¬['<', '<', '<'] <+: c :: cs

instance (l : Language) (c : Char) (cs : List Char) : Decidable (Plain l c cs) :=
  decidable_of_iff ((c ≠ '{' ∧ c ≠ '}') ∧ (c ≠ '"' ∧ c ≠ '\'') ∧
      (c = '/' → cs.head? ≠ some '/' ∧ cs.head? ≠ some '*') ∧
      (l = .php → c = '#' → cs.head? = some '[') ∧ (l = .rust → c = 'r' → ¬OpensRaw cs) ∧
      (l = .php → ¬['<', '<', '<'] <+: c :: cs))
    ⟨fun ⟨h1, h2, h3, h4, h5, h6⟩ => ⟨h1, h2, h3, h4, h5, h6⟩,
      fun h => ⟨h.brace, h.quote, h.comment, h.hash, h.raw, h.here⟩⟩

/-- A single quote in front of `cs` that begins a lifetime. -/
structure Lifetime (cs : List Char) : Prop where
  escape : cs.head? ≠ some '\\'
  close : cs.tail.head? ≠ some '\''

/-- Whether a text begins inside a comment, the text, its braces outside, and whether it ends inside
    a comment. -/
inductive Outside (l : Language) : Bool → List Char → List Char → Bool → Prop
  | done {inside : Bool} : Outside l inside [] [] inside
  | comment {c : Char} {cs braces : List Char} {ends : Bool} : ¬['*', '/'] <+: c :: cs →
      (l = .rust → ¬['/', '*'] <+: c :: cs) → Outside l true cs braces ends →
      Outside l true (c :: cs) braces ends
  | closes {cs braces : List Char} {ends : Bool} : Outside l false cs braces ends →
      Outside l true ('*' :: '/' :: cs) braces ends
  | opens {cs braces : List Char} {ends : Bool} : Outside l true cs braces ends →
      Outside l false ('/' :: '*' :: cs) braces ends
  | lineComment {cs : List Char} : Outside l false ('/' :: '/' :: cs) [] false
  | hashComment {cs : List Char} : l = .php → cs.head? ≠ some '[' →
      Outside l false ('#' :: cs) [] false
  | literal {quote : Char} {body cs braces : List Char} {ends : Bool} : IsQuote l quote →
      Quoted quote body → Outside l false cs braces ends →
      Outside l false (quote :: (body ++ quote :: cs)) braces ends
  | raw {n : Nat} {body cs braces : List Char} {ends : Bool} : l = .rust → '"' ∉ body →
      '\\' ∉ body → Outside l false cs braces ends →
      Outside l false ('r' :: (List.replicate n '#' ++ '"' ::
        (body ++ '"' :: (List.replicate n '#' ++ cs)))) braces ends
  | character {c : Char} {cs braces : List Char} {ends : Bool} : l = .rust → c ≠ '\\' →
      Outside l false cs braces ends → Outside l false ('\'' :: c :: '\'' :: cs) braces ends
  | escape {c : Char} {body cs braces : List Char} {ends : Bool} : l = .rust → '\'' ∉ body →
      Outside l false cs braces ends →
      Outside l false ('\'' :: '\\' :: c :: (body ++ '\'' :: cs)) braces ends
  | lifetime {cs braces : List Char} {ends : Bool} : l = .rust → Lifetime cs →
      Outside l false cs braces ends → Outside l false ('\'' :: cs) braces ends
  | brace {c : Char} {cs braces : List Char} {ends : Bool} : c = '{' ∨ c = '}' →
      Outside l false cs braces ends → Outside l false (c :: cs) (c :: braces) ends
  | plain {c : Char} {cs braces : List Char} {ends : Bool} : Plain l c cs →
      Outside l false cs braces ends → Outside l false (c :: cs) braces ends

/-! ### Runs of characters -/

/-- Whether a character is plain whatever stands behind it, in every language. -/
def isInert (c : Char) : Bool := !(['{', '}', '"', '\'', '/', '#', 'r', '<'].contains c)

theorem plain_of_isInert (h : isInert c = true) (cs : List Char) : Plain l c cs := by
  simp only [isInert, List.contains_cons, List.contains_nil, Bool.or_false, Bool.not_eq_true',
    Bool.or_eq_false_iff, beq_eq_false_iff_ne] at h
  obtain ⟨hopen, hclose, hdouble, hsingle, hslash, hhash, hr, hless⟩ := h
  refine ⟨⟨hopen, hclose⟩, ⟨hdouble, hsingle⟩, fun h => absurd h hslash, fun _ h => absurd h hhash,
    fun _ h => absurd h hr, fun _ h => ?_⟩
  obtain ⟨rest, hrest⟩ := h
  exact hless (List.cons.inj hrest).1.symm

theorem Outside.inert (hcs : cs.all isInert = true) (h : Outside l false ds braces ends) :
    Outside l false (cs ++ ds) braces ends := by
  induction cs with
  | nil => exact h
  | cons c cs ih =>
    rw [List.all_cons, Bool.and_eq_true] at hcs
    exact .plain (plain_of_isInert hcs.1 _) (ih hcs.2)

/-- A comment goes on over everything but stars and slashes. -/
theorem Outside.commented (hstar : '*' ∉ cs) (hslash : '/' ∉ cs)
    (h : Outside l true ds braces ends) :
    Outside l true (cs ++ ds) braces ends := by
  induction cs with
  | nil => exact h
  | cons c cs ih =>
    simp only [List.mem_cons, not_or] at hstar hslash
    refine .comment ?_ (fun _ => ?_) (ih hstar.2 hslash.2)
    · exact fun ⟨rest, hrest⟩ => hstar.1 (List.cons.inj hrest).1
    · exact fun ⟨rest, hrest⟩ => hslash.1 (List.cons.inj hrest).1

/-! ### Structural characters -/

/-- Whether a character is a brace. -/
def isBrace (c : Char) : Bool := c == '{' || c == '}'

/-- Braces among the structural characters of a line. -/
def bracesOf (l : Language) (cs : List Char) : List Char := (structural l cs).filter isBrace

/-- Braces of a text read from inside a comment: those behind the closing mark. -/
def bracesBehind (l : Language) (cs : List Char) : List Char :=
  match cut? ['*', '/'] cs with
  | some (_, behind) => bracesOf l behind
  | none => []

theorem afterString_quoted {quote : Char} (hquote : quote ≠ '\\') {body : List Char}
    (h : Quoted quote body) (rest : List Char) :
    afterString quote (body ++ quote :: rest) = rest := by
  induction h with
  | nil =>
    rw [List.nil_append, afterString.eq_4 _ _ _ (by simp [hquote]) (by simp [hquote])]
    simp
  | escaped _ ih => exact ih
  | plain hq hb _ ih =>
    rw [List.cons_append, afterString.eq_4 _ _ _ (by simp [hb]) (by simp [hb]), if_neg hq]
    exact ih

/-- A character that begins no comment is read by itself, or as the quote of a literal. -/
theorem structural_cons (h : c = '/' → cs.head? ≠ some '/' ∧ cs.head? ≠ some '*') :
    structural l (c :: cs) =
      if c = '#' ∧ l = .php ∧ cs.head? ≠ some '[' then []
      else if IsQuote l c then structural l (afterString c cs)
      else if c = '\'' then structural l ((afterCharacter? cs).getD cs)
      else if c = '{' ∨ c = '}' ∨ c = ';' then c :: structural l cs
      else structural l cs := by
  have hline : ∀ tail, c = '/' → cs = '/' :: tail → False := fun tail hc hcs =>
    (h hc).1 (by rw [hcs, List.head?_cons])
  have hstar : ∀ tail, c = '/' → cs = '*' :: tail → False := fun tail hc hcs =>
    (h hc).2 (by rw [hcs, List.head?_cons])
  rw [structural.eq_4 _ _ _ hline hstar]
  unfold IsQuote
  cases afterCharacter? cs <;> rfl

theorem structural_nil : structural l [] = [] := by rw [structural]

/-- A comment is passed over up to its closing mark; without one it goes on to the end. -/
theorem structural_comment : structural l ('/' :: '*' :: cs) =
    ((cut? ['*', '/'] cs).map fun p => structural l p.2).getD [] := by
  rw [structural]
  split <;> next h => rw [h]; rfl

theorem structural_lineComment : structural l ('/' :: '/' :: cs) = [] := by rw [structural]

theorem structural_hashComment (hcs : cs.head? ≠ some '[') : structural .php ('#' :: cs) = [] := by
  rw [structural_cons (by simp), if_pos ⟨rfl, rfl, hcs⟩]

/-- A literal is passed over up to its closing quote. -/
theorem structural_quoted (hc : IsQuote l c) : structural l (c :: cs) =
    structural l (afterString c cs) := by
  have hslash : c ≠ '/' := by rcases hc with rfl | ⟨rfl, -⟩ <;> decide
  have hhash : c ≠ '#' := by rcases hc with rfl | ⟨rfl, -⟩ <;> decide
  rw [structural_cons (fun h => absurd h hslash), if_neg (by simp [hhash]), if_pos hc]

theorem IsQuote.cases (h : IsQuote l c) : c = '"' ∨ c = '\'' := h.imp_right And.left

theorem IsQuote.ne_backslash (h : IsQuote l c) : c ≠ '\\' := by
  rcases h.cases with rfl | rfl <;> decide

theorem structural_literal (hc : IsQuote l c) {body : List Char} (hbody : Quoted c body) :
    structural l (c :: (body ++ c :: cs)) = structural l cs := by
  rw [structural_quoted hc, afterString_quoted hc.ne_backslash hbody]

theorem structural_quote (hl : l = .rust) :
    structural l ('\'' :: cs) = structural l ((afterCharacter? cs).getD cs) := by
  subst hl
  rw [structural_cons (by simp)]
  simp [IsQuote]

theorem afterCharacter?_character (hc : c ≠ '\\') :
    afterCharacter? (c :: '\'' :: cs) = some cs := by
  simp [afterCharacter?]

theorem afterCharacter?_escape {body : List Char} (hbody : '\'' ∉ body) :
    afterCharacter? ('\\' :: c :: (body ++ '\'' :: cs)) = some cs := by
  simp [afterCharacter?, cut?_char hbody]

/-! ### Braces -/

theorem bracesOf_nil : bracesOf l [] = [] := by rw [bracesOf, structural_nil, List.filter_nil]

theorem bracesOf_comment : bracesOf l ('/' :: '*' :: cs) = bracesBehind l cs := by
  rw [bracesOf, structural_comment, bracesBehind]
  cases cut? ['*', '/'] cs <;> rfl

theorem bracesBehind_closed : bracesBehind l ('*' :: '/' :: cs) = bracesOf l cs := rfl

/-- Inside a comment everything but the closing mark is passed over. -/
theorem bracesBehind_cons (hc : ¬['*', '/'] <+: c :: cs) :
    bracesBehind l (c :: cs) = bracesBehind l cs := by
  have hafter : after? ['*', '/'] (c :: cs) = none := by
    rw [Option.eq_none_iff_forall_ne_some]
    exact fun rest hrest => hc ⟨rest, after?_eq_some.1 hrest⟩
  rw [bracesBehind, bracesBehind, cut?, hafter]
  cases cut? ['*', '/'] cs <;> rfl

theorem bracesOf_lineComment : bracesOf l ('/' :: '/' :: cs) = [] := by
  rw [bracesOf, structural_lineComment, List.filter_nil]

theorem bracesOf_hashComment (hcs : cs.head? ≠ some '[') : bracesOf .php ('#' :: cs) = [] := by
  rw [bracesOf, structural_hashComment hcs, List.filter_nil]

theorem bracesOf_brace (h : c = '{' ∨ c = '}') : bracesOf l (c :: cs) = c :: bracesOf l cs := by
  rcases h with rfl | rfl <;>
    · rw [bracesOf, structural_cons (by simp)]
      simp [IsQuote, bracesOf, isBrace]

/-- What is no brace, no quote and no comment is passed over. -/
theorem bracesOf_plain (hbrace : c ≠ '{' ∧ c ≠ '}') (hquote : c ≠ '"' ∧ c ≠ '\'')
    (hcomment : c = '/' → cs.head? ≠ some '/' ∧ cs.head? ≠ some '*')
    (hhash : l = .php → c = '#' → cs.head? = some '[') :
    bracesOf l (c :: cs) = bracesOf l cs := by
  have hhash' : ¬(c = '#' ∧ l = .php ∧ cs.head? ≠ some '[') := fun h => h.2.2 (hhash h.2.1 h.1)
  have hquote' : ¬IsQuote l c := fun h => h.elim hquote.1 fun h => hquote.2 h.1
  rw [bracesOf, structural_cons hcomment, if_neg hhash', if_neg hquote', if_neg hquote.2]
  by_cases hc : c = ';'
  · simp [hc, bracesOf, isBrace]
  · rw [if_neg (by simp [hbrace, hc]), bracesOf]

theorem Plain.bracesOf (h : Plain l c cs) : Braces.bracesOf l (c :: cs) = Braces.bracesOf l cs :=
  bracesOf_plain h.brace h.quote h.comment h.hash

theorem bracesOf_literal (hc : IsQuote l c) {body : List Char} (hbody : Quoted c body) :
    bracesOf l (c :: (body ++ c :: cs)) = bracesOf l cs := by
  rw [bracesOf, structural_literal hc hbody, bracesOf]

theorem bracesOf_hashes (hl : l ≠ .php) (n : Nat) :
    bracesOf l (List.replicate n '#' ++ cs) = bracesOf l cs := by
  induction n with
  | zero => rfl
  | succ n ih =>
    rw [List.replicate_succ, List.cons_append,
      bracesOf_plain (by decide) (by decide) (by simp) fun h => absurd h hl, ih]

/-- A text without quotes and backslashes may stand in a literal. -/
theorem quoted_of_notMem {quote : Char} {body : List Char} (hquote : quote ∉ body)
    (hback : '\\' ∉ body) : Quoted quote body := by
  induction body with
  | nil => exact .nil
  | cons c body ih =>
    simp only [List.mem_cons, not_or] at hquote hback
    exact .plain (Ne.symm hquote.1) (Ne.symm hback.1) (ih hquote.2 hback.2)

theorem bracesOf_raw (hl : l = .rust) {n : Nat} {body : List Char} (hquote : '"' ∉ body)
    (hback : '\\' ∉ body) :
    bracesOf l ('r' :: (List.replicate n '#' ++ '"' ::
      (body ++ '"' :: (List.replicate n '#' ++ cs)))) = bracesOf l cs := by
  have hphp : l ≠ .php := by
    rintro rfl
    cases hl
  rw [bracesOf_plain (by decide) (by decide) (by simp) fun h => absurd h hphp,
    bracesOf_hashes hphp, bracesOf_literal (.inl rfl) (quoted_of_notMem hquote hback),
    bracesOf_hashes hphp]

theorem bracesOf_quote (hl : l = .rust) :
    bracesOf l ('\'' :: cs) = bracesOf l ((afterCharacter? cs).getD cs) := by
  rw [bracesOf, structural_quote hl, bracesOf]

theorem afterCharacter?_lifetime (h : Lifetime cs) : afterCharacter? cs = none := by
  have hescape := h.escape
  have hclose := h.close
  unfold afterCharacter?
  split
  · simp at hescape
  · simp at hclose
  · rfl

/-! ### Lines -/

/-- The braces outside are the structural ones: of the whole text, or of what stands behind the mark
    that closes the comment in which the text begins. -/
theorem Outside.braces_eq (h : Outside l inside cs braces ends) :
    (if inside then bracesBehind l cs else bracesOf l cs) = braces := by
  induction h with
  | @done inside =>
    cases inside
    · exact bracesOf_nil
    · rfl
  | comment hc _ _ ih => exact (bracesBehind_cons hc).trans ih
  | closes _ ih => exact bracesBehind_closed.trans ih
  | opens _ ih => exact bracesOf_comment.trans ih
  | lineComment => exact bracesOf_lineComment
  | hashComment hl hcs =>
    subst hl
    exact bracesOf_hashComment hcs
  | literal hquote hbody _ ih => exact (bracesOf_literal hquote hbody).trans ih
  | raw hl hquote hback _ ih => exact (bracesOf_raw hl hquote hback).trans ih
  | character hl hc _ ih =>
    refine (bracesOf_quote hl).trans ?_
    rw [afterCharacter?_character hc]
    exact ih
  | escape hl hbody _ ih =>
    refine (bracesOf_quote hl).trans ?_
    rw [afterCharacter?_escape hbody]
    exact ih
  | lifetime hl hcs _ ih =>
    refine (bracesOf_quote hl).trans ?_
    rw [afterCharacter?_lifetime hcs]
    exact ih
  | brace hc _ ih => exact (bracesOf_brace hc).trans (congrArg _ ih)
  | plain hc _ ih => exact hc.bracesOf.trans ih

/-! ### White space around a line -/

theorem hashes_append_cases {t cs g : List Char} (hg : Blank g) {n : Nat}
    (h : List.replicate n '#' ++ t = cs ++ g) :
    ∃ cs', cs = List.replicate n '#' ++ cs' ∧ t = cs' ++ g := by
  induction n generalizing cs with
  | zero => exact ⟨cs, rfl, h⟩
  | succ n ih =>
    obtain ⟨cs', rfl, hrest⟩ := hg.append_cases (p := []) (by decide) h
    obtain ⟨cs', rfl, rfl⟩ := ih hrest
    exact ⟨cs', rfl, rfl⟩

/-- White space in front of a line has no braces. -/
theorem Outside.trimStart (h : Outside l inside cs braces ends) :
    Outside l inside (Text.trimStart cs) braces ends := by
  induction cs with
  | nil => exact h
  | cons c cs ih =>
    by_cases hc : isBlank c = true
    · rw [Text.trimStart, List.dropWhile_cons_of_pos hc]
      refine ih ?_
      cases h with
      | comment _ _ h => exact h
      | plain _ h => exact h
      | literal hquote =>
        rcases hquote.cases with rfl | rfl <;> exact absurd hc (by decide)
      | brace hbrace => rcases hbrace with rfl | rfl <;> exact absurd hc (by decide)
      | closes | opens | lineComment | hashComment | raw | character | escape | lifetime =>
        exact absurd hc (by decide)
    · rw [Text.trimStart, List.dropWhile_cons_of_neg hc]
      exact h

theorem head?_of_append {d : Char} (hg : Blank g) (hd : isBlank d = false)
    (h : (cs ++ g).head? = some d) : cs.head? = some d := by
  cases cs with
  | nil =>
    cases g with
    | nil => exact h
    | cons b g =>
      obtain rfl : b = d := by simpa using h
      exact absurd (hg b List.mem_cons_self) (by simp [hd])
  | cons c cs => exact h

theorem head?_append {d : Char} (h : cs.head? = some d) (ds : List Char) :
    (cs ++ ds).head? = some d := by
  cases cs with
  | nil => cases h
  | cons c cs => exact h

theorem OpensRaw.append (h : OpensRaw cs) (ds : List Char) : OpensRaw (cs ++ ds) := by
  have hne : (cs.dropWhile (· == '#')).isEmpty = false := by
    cases hcs : cs.dropWhile (· == '#') with
    | nil => rw [OpensRaw, hcs] at h; cases h
    | cons c cs => rfl
  rw [OpensRaw, List.dropWhile_append, hne]
  exact head?_append h ds

theorem Plain.of_append (hg : Blank g) (h : Plain l c (cs ++ g)) : Plain l c cs where
  brace := h.brace
  quote := h.quote
  comment hc := ⟨fun hcs => (h.comment hc).1 (head?_append hcs g),
    fun hcs => (h.comment hc).2 (head?_append hcs g)⟩
  hash hl hc := head?_of_append hg (by decide) (h.hash hl hc)
  raw hl hc := fun hcs => h.raw hl hc (hcs.append g)
  here hl := fun hcs => h.here hl (hcs.trans (List.prefix_append (c :: cs) g))

theorem Lifetime.of_append (h : Lifetime (cs ++ g)) : Lifetime cs where
  escape hcs := h.escape (head?_append hcs g)
  close hcs := h.close <| by
    cases cs with
    | nil => cases hcs
    | cons c cs => exact head?_append hcs g

/-- White space behind a line has no braces. -/
theorem Outside.of_append (h : Outside l inside (cs ++ g) braces ends) (hg : Blank g) :
    Outside l inside cs braces ends := by
  generalize htext : cs ++ g = text at h
  -- What ends a literal or a mark is no white space, so it stands in `cs`.
  induction h generalizing cs g with
  | done =>
    obtain ⟨rfl, rfl⟩ := List.append_eq_nil_iff.1 htext
    exact .done
  | comment hclose hopen _ ih =>
    cases cs with
    | nil =>
      obtain rfl : g = _ := htext
      exact ih hg.tail rfl
    | cons c cs =>
      obtain ⟨rfl, rfl⟩ := List.cons.inj htext
      exact .comment (fun h => hclose (h.trans (List.prefix_append (c :: cs) g)))
        (fun hl h => hopen hl (h.trans (List.prefix_append (c :: cs) g))) (ih hg rfl)
  | closes _ ih =>
    obtain ⟨cs, rfl, rfl⟩ := hg.append_cases (p := ['*']) (by decide) htext.symm
    exact .closes (ih hg rfl)
  | opens _ ih =>
    obtain ⟨cs, rfl, rfl⟩ := hg.append_cases (p := ['/']) (by decide) htext.symm
    exact .opens (ih hg rfl)
  | lineComment =>
    obtain ⟨cs, rfl, rfl⟩ := hg.append_cases (p := ['/']) (by decide) htext.symm
    exact .lineComment
  | hashComment hl hcs =>
    obtain ⟨cs, rfl, rfl⟩ := hg.append_cases (p := []) (by decide) htext.symm
    exact .hashComment hl fun h => hcs (head?_append h g)
  | @literal quote body _ _ _ hquote hbody _ ih =>
    have hblank : isBlank quote = false := by rcases hquote.cases with rfl | rfl <;> decide
    obtain ⟨cs, rfl, rfl⟩ := hg.append_cases (p := quote :: body) hblank htext.symm
    exact .literal hquote hbody (ih hg rfl)
  | @raw n body t _ _ hl hquote hback _ ih =>
    have hbody : ('r' :: (List.replicate n '#' ++ '"' :: body)) ++
        '"' :: (List.replicate n '#' ++ t) = cs ++ g := by
      rw [htext]
      simp
    obtain ⟨cs, rfl, hhashes⟩ := hg.append_cases (by decide) hbody
    obtain ⟨cs, rfl, rfl⟩ := hashes_append_cases hg hhashes
    simpa using Outside.raw hl hquote hback (ih hg rfl)
  | @character c _ _ _ hl hc _ ih =>
    obtain ⟨cs, rfl, rfl⟩ := hg.append_cases (p := ['\'', c]) (by decide) htext.symm
    exact .character hl hc (ih hg rfl)
  | @escape c body _ _ _ hl hbody _ ih =>
    obtain ⟨cs, rfl, rfl⟩ :=
      hg.append_cases (p := '\'' :: '\\' :: c :: body) (by decide) htext.symm
    exact .escape hl hbody (ih hg rfl)
  | lifetime hl hcs _ ih =>
    obtain ⟨cs, rfl, rfl⟩ := hg.append_cases (p := []) (by decide) htext.symm
    exact .lifetime hl hcs.of_append (ih hg rfl)
  | @brace c _ _ _ hc _ ih =>
    have hblank : isBlank c = false := by rcases hc with rfl | rfl <;> decide
    obtain ⟨cs, rfl, rfl⟩ := hg.append_cases (p := []) hblank htext.symm
    exact .brace hc (ih hg rfl)
  | plain hc _ ih =>
    cases cs with
    | nil =>
      obtain rfl : g = _ := htext
      exact ih hg.tail rfl
    | cons c cs =>
      obtain ⟨rfl, rfl⟩ := List.cons.inj htext
      exact .plain (hc.of_append hg) (ih hg rfl)

/-- White space around a line has no braces. -/
theorem Outside.trim (h : Outside l inside cs braces ends) :
    Outside l inside (Text.trim cs) braces ends := by
  obtain ⟨g, hg, hcs⟩ := exists_trimEnd (Text.trimStart cs)
  have hstart := h.trimStart
  rw [hcs] at hstart
  exact hstart.of_append hg

end DocDirectives.Braces
