import DocDirectives.Token.Classifier
import DocDirectives.Proofs.Token.Extent
import DocDirectives.Proofs.Token.Quotes

/-! # One lexeme after the other

    The tokens of a text are the token of its first lexeme and the tokens of the rest. A separator
    in front adds nothing. Any other lexeme is a name, a number, a string or a single character, and
    it is the same lexeme in front of every separator, but for a quote alone: that is a lexeme only
    where no other quote follows it. -/

namespace DocDirectives

namespace Lexeme

open Text

/-! ### Strings -/

theorem stringLength_of_ne {c : Char} (h : c ≠ '"') (cs : List Char) :
    stringLength (c :: cs) = 0 := by
  unfold stringLength
  split
  · next he => exact absurd (List.cons.inj he).1 h
  · rfl

theorem stringLength_eq_zero_iff {cs : List Char} : stringLength ('"' :: cs) = 0 ↔ '"' ∉ cs := by
  rw [← closing?_eq_none_iff]
  simp only [stringLength]
  cases closing? cs <;> simp

theorem stringLength_of_doubled {inner rest : List Char} (h : Doubled inner) (hf : Final rest) :
    stringLength ('"' :: (inner ++ '"' :: rest)) = inner.length + 2 := by
  simp only [stringLength, closing?_of_doubled hf h]

/-- The text of a string, and where it closes. -/
theorem doubled_of_stringLength {cs : List Char} (h : stringLength cs ≠ 0) :
    ∃ inner rest, cs = '"' :: (inner ++ '"' :: rest) ∧ stringLength cs = inner.length + 2 ∧
      Doubled inner ∧ Final rest := by
  unfold stringLength at h ⊢
  split at h
  · next ds =>
    split at h
    · next n hn =>
      obtain ⟨inner, rest, rfl, rfl, hd, hf⟩ := doubled_of_closing? hn
      exact ⟨inner, rest, rfl, rfl, hd, hf⟩
    · exact absurd rfl h
  · exact absurd rfl h

/-- A lexeme that is a string stands between its quotes. -/
theorem doubled_of_lexeme {v rest : List Char} (hv : v ≠ [])
    (h : stringLength (v ++ rest) = v.length) :
    ∃ inner, v = '"' :: (inner ++ ['"']) ∧ Doubled inner ∧ Final rest := by
  have hpos : stringLength (v ++ rest) ≠ 0 := by
    rw [h]
    exact fun hl => hv (List.length_eq_zero_iff.1 hl)
  obtain ⟨inner, rest', he, hl, hd, hf⟩ := doubled_of_stringLength hpos
  have he' : v ++ rest = ('"' :: (inner ++ ['"'])) ++ rest' := by
    rw [he, List.cons_append, List.append_assoc, List.singleton_append]
  obtain ⟨rfl, rfl⟩ := List.append_inj he' (by rw [← h, hl]; simp)
  exact ⟨inner, rfl, hd, hf⟩

/-! ### Classes of lexemes -/

/-- The first class of which `v`, in front of `rest`, is a lexeme. -/
inductive Lexed (v rest : List Char) : Prop
  | name : nameLength (v ++ rest) = v.length → Lexed v rest
  | number : nameLength (v ++ rest) = 0 → numberLength (v ++ rest) = v.length → Lexed v rest
  | string : nameLength (v ++ rest) = 0 → numberLength (v ++ rest) = 0 →
      stringLength (v ++ rest) = v.length → Lexed v rest
  | single : nameLength (v ++ rest) = 0 → numberLength (v ++ rest) = 0 →
      stringLength (v ++ rest) = 0 → v.length = 1 → Lexed v rest

theorem firstPositive_cons (n : Nat) (ns : List Nat) :
    firstPositive (n :: ns) = if n = 0 then firstPositive ns else n := by
  cases n <;> rfl

theorem noiseLength_eq_zero {c : Char} (hc : isSeparator c = false) (cs : List Char) :
    noiseLength (c :: cs) = 0 := by
  obtain ⟨hb, hs⟩ := Bool.or_eq_false_iff.1 hc
  simp only [noiseLength, List.takeWhile_cons, hb, hs, Bool.false_eq_true, if_false,
    List.length_nil, if_true]

theorem lexemeLength_cons {c : Char} (hc : isSeparator c = false) (cs : List Char) :
    lexemeLength (c :: cs) =
      if nameLength (c :: cs) = 0 then
        if numberLength (c :: cs) = 0 then
          if stringLength (c :: cs) = 0 then 1 else stringLength (c :: cs)
        else numberLength (c :: cs)
      else nameLength (c :: cs) := by
  simp only [lexemeLength, firstPositive_cons, noiseLength_eq_zero hc, firstPositive, if_true,
    List.isEmpty_cons, Bool.false_eq_true, if_false, Nat.one_ne_zero]

/-- A lexeme that is no separator is of one of four classes. -/
theorem lexemeLength_eq_iff {c : Char} (hc : isSeparator c = false) {u rest : List Char} :
    lexemeLength (c :: u ++ rest) = (c :: u).length ↔ Lexed (c :: u) rest := by
  rw [List.cons_append, lexemeLength_cons hc, ← List.cons_append]
  have hpos : (c :: u).length ≠ 0 := Nat.succ_ne_zero _
  constructor
  · intro h
    split at h
    · next hname =>
      split at h
      · next hnumber =>
        split at h
        · next hstring => exact .single hname hnumber hstring h.symm
        · exact .string hname hnumber h
      · exact .number hname h
    · exact .name h
  · rintro (hname | ⟨hname, hnumber⟩ | ⟨hname, hnumber, hstring⟩ | ⟨hname, hnumber, hstring, hone⟩)
    · rw [if_neg (hname ▸ hpos), hname]
    · rw [if_pos hname, if_neg (hnumber ▸ hpos), hnumber]
    · rw [if_pos hname, if_pos hnumber, if_neg (hstring ▸ hpos), hstring]
    · rw [if_pos hname, if_pos hnumber, if_pos hstring, hone]

theorem ne_quote_of_isSeparator {c : Char} (h : isSeparator c = true) : c ≠ '"' := by
  rintro rfl
  exact absurd h (by decide)

theorem Final.of_breaks : ∀ {rest : List Char}, Breaks isSeparator rest → Final rest
  | [], _ => fun _ he => nomatch he
  | _ :: _, hb => Final.of_head (ne_quote_of_isSeparator hb)

/-- A lexeme stays what it is in front of a stop that it could not take for its partner. -/
theorem Lexed.before_stop {v rest rest' : List Char} (hv : v ≠ []) (h : Lexed v rest)
    (hstop : Breaks isStop rest') (hfinal : Final rest')
    (hquote : v = ['"'] → '"' ∉ rest → '"' ∉ rest') : Lexed v rest' := by
  have hname := bounded_nameLength.settles v rest rest' hstop
  have hnumber := bounded_numberLength.settles v rest rest' hstop
  have hname0 : nameLength (v ++ rest) = 0 → nameLength (v ++ rest') = 0 := fun h0 => by
    rw [hname (h0 ▸ Nat.zero_le _), h0]
  have hnumber0 : numberLength (v ++ rest) = 0 → numberLength (v ++ rest') = 0 := fun h0 => by
    rw [hnumber (h0 ▸ Nat.zero_le _), h0]
  rcases h with h1 | ⟨h1, h2⟩ | ⟨h1, h2, h3⟩ | ⟨h1, h2, h3, h4⟩
  · exact .name (by rw [hname (Nat.le_of_eq h1), h1])
  · exact .number (hname0 h1) (by rw [hnumber (Nat.le_of_eq h2), h2])
  · refine .string (hname0 h1) (hnumber0 h2) ?_
    obtain ⟨inner, rfl, hd, -⟩ := doubled_of_lexeme hv h3
    rw [List.cons_append, List.append_assoc, List.singleton_append,
      stringLength_of_doubled hd hfinal]
    simp
  · refine .single (hname0 h1) (hnumber0 h2) ?_ h4
    obtain ⟨c, rfl⟩ := List.length_eq_one_iff.1 h4
    -- of single characters only the quote could open a longer lexeme
    by_cases hc : c = '"'
    · subst hc
      exact stringLength_eq_zero_iff.2 (hquote rfl (stringLength_eq_zero_iff.1 h3))
    · exact stringLength_of_ne hc rest'

/-- A lexeme stays what it is in front of a separator. -/
theorem Lexed.before_separator {v rest rest' : List Char} (hv : v ≠ []) (h : Lexed v rest)
    (hb : Breaks isSeparator rest') (hquote : v = ['"'] → '"' ∉ rest → '"' ∉ rest') :
    Lexed v rest' :=
  h.before_stop hv (hb.imp fun _ => isStop_of_isSeparator) (.of_breaks hb) hquote

theorem stringLength_le (cs : List Char) : stringLength cs ≤ cs.length := by
  rcases Nat.eq_zero_or_pos (stringLength cs) with h | h
  · rw [h]
    exact Nat.zero_le _
  · obtain ⟨inner, rest, rfl, hl, -, -⟩ := doubled_of_stringLength (Nat.pos_iff_ne_zero.1 h)
    rw [hl]
    simp

/-- The run of separators of one class that begins with `c`. -/
def runClass (c : Char) : Char → Bool := if isBlank c then isBlank else (· == '*')

theorem runClass_self {c : Char} (hc : isSeparator c = true) : runClass c c = true := by
  unfold runClass
  split
  · assumption
  · next hb => exact (Bool.or_eq_true_iff.1 hc).resolve_left hb

theorem runClass_eq {c d : Char} (h : runClass c d = true) :
    isSeparator d = true ∧ runClass d = runClass c := by
  unfold runClass at *
  split at h
  · next hc => exact ⟨Bool.or_eq_true_iff.2 (.inl h), by rw [if_pos h, if_pos hc]⟩
  · next hc =>
    obtain rfl := eq_of_beq h
    exact ⟨by decide, by rw [if_neg (by decide), if_neg hc]⟩

/-- What begins with a separator is a run of its class. -/
theorem lexemeLength_separator {c : Char} (hc : isSeparator c = true) (cs : List Char) :
    lexemeLength (c :: cs) = ((c :: cs).takeWhile (runClass c)).length := by
  have hstop : Breaks isStop (c :: cs) := isStop_of_isSeparator hc
  have hname : nameLength (c :: cs) = 0 := Nat.le_zero.1 (bounded_nameLength.append_le [] hstop)
  have hnumber : numberLength (c :: cs) = 0 :=
    Nat.le_zero.1 (bounded_numberLength.append_le [] hstop)
  have hstring := stringLength_of_ne (ne_quote_of_isSeparator hc) cs
  have hself := runClass_self hc
  have hnoise : noiseLength (c :: cs) = ((c :: cs).takeWhile (runClass c)).length := by
    simp only [noiseLength, runClass] at hself ⊢
    by_cases hb : isBlank c = true
    · simp only [hb, if_true, List.takeWhile_cons_of_pos, List.length_cons, Nat.succ_ne_zero,
        if_false]
    · simp only [hb, Bool.false_eq_true, if_false, List.takeWhile_cons_of_neg,
        not_false_eq_true, List.length_nil, if_true]
  rw [List.takeWhile_cons_of_pos hself] at hnoise ⊢
  simp only [lexemeLength, firstPositive_cons, hname, hnumber, hstring, hnoise, if_true,
    List.length_cons, Nat.succ_ne_zero, if_false]

theorem lexemeLength_le (cs : List Char) : lexemeLength cs ≤ cs.length := by
  cases cs with
  | nil => decide
  | cons c cs =>
    cases hc : isSeparator c with
    | true =>
      rw [lexemeLength_separator hc]
      exact (List.takeWhile_prefix _).length_le
    | false =>
      rw [lexemeLength_cons hc]
      split
      · split
        · split
          · exact Nat.succ_le_succ (Nat.zero_le _)
          · exact stringLength_le _
        · exact bounded_numberLength.le _
      · exact bounded_nameLength.le _

end Lexeme

namespace Classifier

open Lexeme

/-! ### Tokens -/

@[simp] theorem tokens_nil : directives.tokens [] = [] := by
  simp [tokens, fragments, fragmentsFrom, gap]

/-- The first lexeme is a fragment, and the rest gives the others. -/
theorem fragments_append {v rest : List Char} (hv : v ≠ [])
    (h : Lexeme.lexemeLength (v ++ rest) = v.length) :
    directives.fragments (v ++ rest) = v :: directives.fragments rest := by
  obtain ⟨c, u, rfl⟩ := List.exists_cons_of_ne_nil hv
  have hl : directives.lexemeLength (c :: (u ++ rest)) = u.length + 1 := h
  simp only [fragments, List.cons_append]
  rw [fragmentsFrom, hl]
  simp [gap]

/-- The first lexeme gives a token, unless it is decoration, and the rest gives the others. -/
theorem tokens_append {v rest : List Char} (hv : v ≠ [])
    (h : Lexeme.lexemeLength (v ++ rest) = v.length) :
    directives.tokens (v ++ rest) =
      (if isDecoration v then [] else [directives.token v]) ++ directives.tokens rest := by
  have hempty : v.isEmpty = false := by rwa [List.isEmpty_eq_false_iff]
  simp only [tokens, fragments_append hv h, List.filter_cons]
  cases hd : isDecoration v <;> simp [directives, hd, hempty]

theorem isDecoration_run {c : Char} (cs : List Char) :
    isDecoration (cs.takeWhile (runClass c)) = true := by
  have hall : (cs.takeWhile (runClass c)).all (runClass c) = true := List.all_takeWhile
  unfold isDecoration runClass at *
  split at hall
  · simp [*]
  · simp [*]

theorem tokens_dropWhile (c : Char) (cs : List Char) :
    directives.tokens (cs.dropWhile (runClass c)) = directives.tokens cs := by
  cases cs with
  | nil => rfl
  | cons d cs =>
    by_cases hd : runClass c d = true
    · obtain ⟨hsep, hclass⟩ := runClass_eq hd
      have hsplit : (d :: cs).takeWhile (runClass c) ++ (d :: cs).dropWhile (runClass c) =
          d :: cs :=
        List.takeWhile_append_dropWhile
      have hne : (d :: cs).takeWhile (runClass c) ≠ [] := by
        rw [List.takeWhile_cons_of_pos hd]
        exact List.cons_ne_nil _ _
      have hl := tokens_append hne (by rw [hsplit, lexemeLength_separator hsep, hclass])
      rw [hsplit, isDecoration_run, if_pos rfl, List.nil_append] at hl
      exact hl.symm
    · rw [List.dropWhile_cons_of_neg hd]

/-- A separator in front adds no token. -/
theorem tokens_separator {c : Char} (hc : isSeparator c = true) (cs : List Char) :
    directives.tokens (c :: cs) = directives.tokens cs := by
  rw [← tokens_dropWhile c (c :: cs), List.dropWhile_cons_of_pos (runClass_self hc),
    tokens_dropWhile]

theorem tokens_separators : ∀ {gap : List Char} (cs : List Char),
    (∀ c ∈ gap, isSeparator c = true) → directives.tokens (gap ++ cs) = directives.tokens cs
  | [], _, _ => rfl
  | c :: gap, cs, h => by
    rw [List.cons_append, tokens_separator (h c List.mem_cons_self)]
    exact tokens_separators cs fun d hd => h d (List.mem_cons_of_mem _ hd)

theorem isDecoration_of_cons {c : Char} (hc : isSeparator c = false) (cs : List Char) :
    isDecoration (c :: cs) = false := by
  obtain ⟨hb, hs⟩ := Bool.or_eq_false_iff.1 hc
  simp only [isDecoration, List.all_cons, hb, hs, Bool.false_and, Bool.or_self]

/-- A lexeme that is no separator gives its token. -/
theorem tokens_lexed {c : Char} (hc : isSeparator c = false) {u rest : List Char}
    (h : Lexed (c :: u) rest) :
    directives.tokens (c :: u ++ rest) = directives.token (c :: u) :: directives.tokens rest := by
  rw [tokens_append (List.cons_ne_nil c u) ((lexemeLength_eq_iff hc).2 h),
    isDecoration_of_cons hc]
  rfl

/-- A text begins with a lexeme. -/
theorem exists_lexeme {cs : List Char} (hcs : cs ≠ []) :
    ∃ v rest, v ≠ [] ∧ cs = v ++ rest ∧ Lexeme.lexemeLength (v ++ rest) = v.length := by
  have hpos := lexemeLength_pos hcs
  have hle := lexemeLength_le cs
  refine ⟨cs.take (Lexeme.lexemeLength cs), cs.drop (Lexeme.lexemeLength cs), ?_,
    (List.take_append_drop _ cs).symm, ?_⟩
  · exact List.ne_nil_of_length_pos (by rw [List.length_take]; omega)
  · rw [List.take_append_drop, List.length_take, Nat.min_eq_left hle]

/-- What begins with no separator begins with a lexeme that is none. -/
theorem exists_lexed {c : Char} (hc : isSeparator c = false) (cs : List Char) :
    ∃ u rest, cs = u ++ rest ∧ Lexed (c :: u) rest := by
  obtain ⟨v, rest, hv, hsplit, hl⟩ := exists_lexeme (List.cons_ne_nil c cs)
  obtain ⟨d, u, rfl⟩ := List.exists_cons_of_ne_nil hv
  obtain ⟨rfl, rfl⟩ := List.cons.inj hsplit
  exact ⟨u, rest, rfl, (lexemeLength_eq_iff hc).1 hl⟩

/-- The characters of a token are characters of the text. -/
theorem mem_of_mem_tokens {cs : List Char} {t : Token} (ht : t ∈ directives.tokens cs) {x : Char}
    (hx : x ∈ t.text.toList) : x ∈ cs := by
  obtain ⟨fragment, hf, rfl⟩ := List.mem_map.1 ht
  have hflat : (directives.fragments cs).flatten = cs := flatten_fragmentsFrom directives [] cs
  rw [← hflat]
  exact List.mem_flatten.2 ⟨fragment, (List.mem_filter.1 hf).1, by simpa [token] using hx⟩

end Classifier

end DocDirectives
