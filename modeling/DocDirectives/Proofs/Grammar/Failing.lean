import DocDirectives.Proofs.Grammar.Span

/-! # Where the reading of arguments fails

    The failures of the grammar as a relation between the tokens in front, the mismatch that is
    reported, and the tokens from the place of the failure on. A list fails in the literal of an
    item, or behind an item where it neither ends nor goes on. -/

namespace DocDirectives.Grammar

open Number (Numeral Decimal Fits)

/-! ### The failures -/

/-- A token that is no literal by itself, and how that is reported. -/
inductive AtomFails : Token → Mismatch → Prop
  | range {s : String} : (∀ n, Numeral s.toList n → ¬Fits n) →
      AtomFails ⟨.integer, s⟩ ⟨"literal", "an integer within the 64-bit signed range"⟩
  | float {s : String} : (∀ x, ¬Decimal s.toList x) → AtomFails ⟨.float, s⟩ ⟨"literal", "a float"⟩
  | other {t : Token} : t.kind ∉ [.string, .integer, .float, .yes, .no, .openBrace] →
      AtomFails t ⟨"literal", "a literal value"⟩

mutual

/-- A literal that cannot be read, the mismatch, and the tokens at which it is found. -/
inductive LiteralFails : List Token → Mismatch → List Token → Prop
  | absent : LiteralFails [] ⟨"literal", "a literal value"⟩ []
  | atom {t : Token} {rest : List Token} {e : Mismatch} : AtomFails t e →
      LiteralFails (t :: rest) e (t :: rest)
  | array {o : Token} {ts us : List Token} {e : Mismatch} : o.kind = .openBrace →
      isNext .closeBrace ts = false → EntriesFail ts e us → LiteralFails (o :: ts) e us

/-- Entries that cannot be read, from one of them on. -/
inductive EntriesFail : List Token → Mismatch → List Token → Prop
  | value {ts us ws : List Token} {k : Option Key} {e : Mismatch} :
      Labelled .colon KeyDenotes ts k us → LiteralFails us e ws → EntriesFail ts e ws
  | unclosed {ts us ws : List Token} {k : Option Key} {v : Literal} :
      Labelled .colon KeyDenotes ts k us → LiteralAt us v ws → isNext .comma ws = false →
      isNext .closeBrace ws = false → EntriesFail ts ⟨"array", Kind.closeBrace.text⟩ ws
  | behind {ts us ws xs zs : List Token} {k : Option Key} {v : Literal} {e : Mismatch} :
      Labelled .colon KeyDenotes ts k us → LiteralAt us v ws → GoesOn .closeBrace ws xs →
      EntriesFail xs e zs → EntriesFail ts e zs

end

/-- Arguments that cannot be read, from one of them on. -/
inductive ArgumentsFail : List Token → Mismatch → List Token → Prop
  | value {ts us ws : List Token} {n : Option String} {e : Mismatch} :
      Labelled .assign NameDenotes ts n us → LiteralFails us e ws → ArgumentsFail ts e ws
  | unclosed {ts us ws : List Token} {n : Option String} {v : Literal} :
      Labelled .assign NameDenotes ts n us → LiteralAt us v ws → isNext .comma ws = false →
      isNext .closeParen ws = false → ArgumentsFail ts ⟨"parenthesis", Kind.closeParen.text⟩ ws
  | behind {ts us ws xs zs : List Token} {n : Option String} {v : Literal} {e : Mismatch} :
      Labelled .assign NameDenotes ts n us → LiteralAt us v ws → GoesOn .closeParen ws xs →
      ArgumentsFail xs e zs → ArgumentsFail ts e zs

/-- An argument list in parentheses that cannot be read. -/
inductive ListFails : List Token → Mismatch → List Token → Prop
  | list {o : Token} {ts us : List Token} {e : Mismatch} : o.kind = .openParen →
      isNext .closeParen ts = false → ArgumentsFail ts e us → ListFails (o :: ts) e us

/-! ### Single tokens -/

theorem ofText?_eq_none_iff {cs : List Char} :
    Number.Integer.ofText? cs = none ↔ ∀ n, Numeral cs n → ¬Fits n := by
  rw [Option.eq_none_iff_forall_ne_some]
  constructor
  · exact fun h n hn hf => h _ (Number.ofText?_eq_some_iff.2 ⟨n, hn, hf, rfl⟩)
  · intro h i hi
    obtain ⟨n, hn, hf, -⟩ := Number.ofText?_eq_some_iff.1 hi
    exact h n hn hf

theorem float_ofText?_eq_none_iff {cs : List Char} :
    Number.Binary64.ofText? cs = none ↔ ∀ x, ¬Decimal cs x := by
  rw [Option.eq_none_iff_forall_ne_some]
  exact forall_congr' fun x => not_congr Number.float_ofText?_eq_some_iff

theorem atom_eq_error_iff {t : Token} {e : Mismatch} (ht : t.kind ≠ .openBrace) :
    atom t = .error e ↔ AtomFails t e := by
  obtain ⟨k, s⟩ := t
  constructor
  · intro h
    cases k
    case integer =>
      simp only [atom] at h
      split at h
      · cases h
      · next hi =>
        obtain rfl := Except.error.inj h
        exact .range (ofText?_eq_none_iff.1 hi)
    case float =>
      simp only [atom] at h
      split at h
      · cases h
      · next hx =>
        obtain rfl := Except.error.inj h
        exact .float (float_ofText?_eq_none_iff.1 hx)
    all_goals first
      | cases h; done
      | exact absurd rfl ht
      | obtain rfl := Except.error.inj h
        exact .other (by simp)
  · intro h
    cases h with
    | range hn => simp only [atom, ofText?_eq_none_iff.2 hn]
    | float hx => simp only [atom, float_ofText?_eq_none_iff.2 hx]
    | other hk => cases k <;> first | rfl | simp at hk

/-! ### Lists -/

section Lists

variable {α : Type} {ts : List Token}

/-- Behind an item a list fails where it neither ends nor goes on, and where the tail fails. -/
theorem tail_eq_error_iff {closer : Kind} {us : List Token} {x : α}
    {e e' : Mismatch} {next : isNext .comma us = true → ¬isNext closer us.tail = true →
      Except Mismatch (Parsed α ts)} (items : ∀ xs, Except Mismatch (Parsed α xs))
    (hnext : ∀ hc hb, next hc hb = .error e' ↔ items us.tail = .error e')
    {h₁ : isNext .comma us = true → isNext closer us.tail = true → us.tail.tail.length < ts.length}
    {h₂ : isNext closer us = true → us.tail.length < ts.length} :
    (if hc : isNext .comma us = true then
        if hb : isNext closer us.tail = true then .ok ⟨x, us.tail.tail, h₁ hc hb⟩ else next hc hb
      else if hb : isNext closer us = true then .ok ⟨x, us.tail, h₂ hb⟩ else .error e) =
        (.error e' : Except Mismatch (Parsed α ts)) ↔
    isNext .comma us = false ∧ isNext closer us = false ∧ e' = e ∨
      ∃ xs, GoesOn closer us xs ∧ items xs = .error e' := by
  simp only [goesOn_iff]
  by_cases hc : isNext .comma us = true
  · by_cases hb : isNext closer us.tail = true
    · rw [dif_pos hc, dif_pos hb]
      simp [hc, hb]
    · rw [dif_pos hc, dif_neg hb, hnext]
      simp [hc, hb]
  · rw [dif_neg hc]
    by_cases hb : isNext closer us = true
    · rw [dif_pos hb]
      simp [hc, hb]
    · rw [dif_neg hb]
      simp only [hc, hb, Bool.false_eq_true, false_and, exists_false, or_false, true_and,
        Except.error.injEq]
      exact eq_comm

end Lists

theorem entries_eq_error_iff {m : LiteralMap} {ts : List Token} {e : Mismatch} :
    entries m ts = .error e ↔ literal (entryKey m ts).2 = .error e ∨
      ∃ v ws, Reads (literal (entryKey m ts).2) v ws ∧
        (isNext .comma ws = false ∧ isNext .closeBrace ws = false ∧
            e = ⟨"array", Kind.closeBrace.text⟩ ∨
          ∃ xs, GoesOn .closeBrace ws xs ∧
            entries (m.insert (entryKey m ts).1 v) xs = .error e) := by
  rw [entries]
  split
  · next e' he => simp [he, not_reads_error]
  · next p hp =>
    rw [tail_eq_error_iff (entries (m.insert (entryKey m ts).1 p.value)) fun hc hb => by
      cases entries (m.insert (entryKey m ts).1 p.value) p.rest.tail <;> simp]
    simp only [hp, reads_ok_iff, reduceCtorEq, false_or]
    constructor
    · exact fun h => ⟨p.value, p.rest, ⟨rfl, rfl⟩, h⟩
    · rintro ⟨v, ws, ⟨rfl, rfl⟩, h⟩
      exact h

theorem arguments_eq_error_iff {a : Arguments} {ts : List Token} {e : Mismatch} :
    arguments a ts = .error e ↔ literal (argumentName ts).2 = .error e ∨
      ∃ v ws, Reads (literal (argumentName ts).2) v ws ∧
        (isNext .comma ws = false ∧ isNext .closeParen ws = false ∧
            e = ⟨"parenthesis", Kind.closeParen.text⟩ ∨
          ∃ xs, GoesOn .closeParen ws xs ∧
            arguments (addArgument a (argumentName ts).1 v) xs = .error e) := by
  rw [arguments]
  split
  · next e' he => simp [he, not_reads_error]
  · next p hp =>
    rw [tail_eq_error_iff (arguments (addArgument a (argumentName ts).1 p.value)) fun hc hb => by
      cases arguments (addArgument a (argumentName ts).1 p.value) p.rest.tail <;> simp]
    simp only [hp, reads_ok_iff, reduceCtorEq, false_or]
    constructor
    · exact fun h => ⟨p.value, p.rest, ⟨rfl, rfl⟩, h⟩
    · rintro ⟨v, ws, ⟨rfl, rfl⟩, h⟩
      exact h

/-- A literal fails as an atom or as an array. -/
theorem literal_cons_eq_error_iff {t : Token} {ts : List Token} {e : Mismatch} :
    literal (t :: ts) = .error e ↔ t.kind ≠ .openBrace ∧ atom t = .error e ∨
      t.kind = .openBrace ∧ isNext .closeBrace ts = false ∧ entries .empty ts = .error e := by
  rw [literal]
  by_cases ho : t.kind = .openBrace
  · rw [if_pos ho]
    by_cases hc : isNext .closeBrace ts = true
    · rw [dif_pos hc]
      simp [ho, hc]
    · rw [dif_neg hc]
      simp only [ho, hc, ne_eq, not_true, false_and, true_and, false_or]
      cases he : entries .empty ts with
      | error e' => simp [show entries {} ts = .error e' from he]
      | ok p => simp [show entries {} ts = .ok p from he]
  · rw [if_neg ho]
    cases ha : atom t <;> simp [ho]

/-! ### Readings that fail -/

theorem AtomFails.ne_openBrace {t : Token} {e : Mismatch} (h : AtomFails t e) :
    t.kind ≠ .openBrace := by
  cases h with
  | range => exact Kind.noConfusion
  | float => exact Kind.noConfusion
  | other hk =>
    rintro ho
    simp [ho] at hk

mutual

/-- A literal fails just where the grammar has a failure. -/
theorem literal_eq_error_iff : ∀ (ts : List Token) (e : Mismatch),
    literal ts = .error e ↔ ∃ us, LiteralFails ts e us
  | [], e => by
    rw [literal]
    constructor
    · intro h
      obtain rfl := Except.error.inj h
      exact ⟨[], .absent⟩
    · rintro ⟨us, h⟩
      cases h
      rfl
  | t :: ts, e => by
    rw [literal_cons_eq_error_iff, entries_fail_iff .empty ts e]
    constructor
    · rintro (⟨ht, ha⟩ | ⟨ho, hc, us, hus⟩)
      · exact ⟨t :: ts, .atom ((atom_eq_error_iff ht).1 ha)⟩
      · exact ⟨us, .array ho hc hus⟩
    · rintro ⟨us, h⟩
      cases h with
      | atom ha => exact .inl ⟨ha.ne_openBrace, (atom_eq_error_iff ha.ne_openBrace).2 ha⟩
      | array ho hc hus => exact .inr ⟨ho, hc, us, hus⟩
termination_by ts => 2 * ts.length

/-- The entries of an array fail just where the grammar has a failure. -/
theorem entries_fail_iff (m : LiteralMap) (ts : List Token) (e : Mismatch) :
    entries m ts = .error e ↔ ∃ us, EntriesFail ts e us := by
  have hkey := length_entryKey_le m ts
  rw [entries_eq_error_iff, literal_eq_error_iff (entryKey m ts).2 e]
  constructor
  · obtain ⟨k, hl⟩ := labelled_entryKey m ts
    rintro (⟨us, h⟩ | ⟨v, ws, hread, h⟩)
    · exact ⟨us, .value hl h⟩
    · have hlt := shorter_of_reads hread
      have hv := (reads_literal _ ws v).1 hread
      rcases h with ⟨hc, hb, rfl⟩ | ⟨xs, hgoes, hxs⟩
      · exact ⟨ws, .unclosed hl hv hc hb⟩
      · have := length_of_goesOn hgoes
        obtain ⟨us, hus⟩ := (entries_fail_iff _ xs e).1 hxs
        exact ⟨us, .behind hl hv hgoes hus⟩
  · rintro ⟨us, h⟩
    cases h with
    | value hl h =>
      rw [entryKey_of_labelled hl]
      exact .inl ⟨us, h⟩
    | unclosed hl hv hc hb =>
      rw [entryKey_of_labelled hl]
      exact .inr ⟨_, _, (reads_literal _ _ _).2 hv, .inl ⟨hc, hb, rfl⟩⟩
    | behind hl hv hgoes h =>
      have hle := length_of_labelled hl
      have hlt := length_of_literalAt hv
      have := length_of_goesOn hgoes
      rw [entryKey_of_labelled hl]
      exact .inr ⟨_, _, (reads_literal _ _ _).2 hv,
        .inr ⟨_, hgoes, (entries_fail_iff _ _ e).2 ⟨us, h⟩⟩⟩
termination_by 2 * ts.length + 1

end

theorem exists_argumentsFail (a : Arguments) (ts : List Token) (e : Mismatch)
    (h : arguments a ts = .error e) : ∃ us, ArgumentsFail ts e us := by
  have hname := length_argumentName_le ts
  have hl := labelled_argumentName ts
  rw [arguments_eq_error_iff, literal_eq_error_iff] at h
  rcases h with ⟨us, h⟩ | ⟨v, ws, hread, h⟩
  · exact ⟨us, .value hl h⟩
  · have hlt := shorter_of_reads hread
    have hv := (reads_literal _ ws v).1 hread
    rcases h with ⟨hc, hb, rfl⟩ | ⟨xs, hgoes, hxs⟩
    · exact ⟨ws, .unclosed hl hv hc hb⟩
    · have := length_of_goesOn hgoes
      obtain ⟨us, hus⟩ := exists_argumentsFail _ xs e hxs
      exact ⟨us, .behind hl hv hgoes hus⟩
termination_by ts.length

theorem ArgumentsFail.arguments {ts us : List Token} {e : Mismatch} (h : ArgumentsFail ts e us)
    (a : Arguments) : arguments a ts = .error e := by
  rw [arguments_eq_error_iff]
  induction h generalizing a with
  | value hl h =>
    rw [argumentName_of_labelled hl]
    exact .inl ((literal_eq_error_iff _ _).2 ⟨_, h⟩)
  | unclosed hl hv hc hb =>
    rw [argumentName_of_labelled hl]
    exact .inr ⟨_, _, (reads_literal _ _ _).2 hv, .inl ⟨hc, hb, rfl⟩⟩
  | behind hl hv hgoes _ ih =>
    rw [argumentName_of_labelled hl]
    exact .inr ⟨_, _, (reads_literal _ _ _).2 hv,
      .inr ⟨_, hgoes, arguments_eq_error_iff.2 (ih _)⟩⟩

/-- Arguments fail just where the grammar has a failure. -/
theorem arguments_fail_iff {a : Arguments} {ts : List Token} {e : Mismatch} :
    arguments a ts = .error e ↔ ∃ us, ArgumentsFail ts e us :=
  ⟨exists_argumentsFail a ts e, fun ⟨_, h⟩ => h.arguments a⟩

theorem argumentsAfter_cons_eq_error_iff {o : Token} {ts : List Token} {e : Mismatch} :
    Parser.argumentsAfter (o :: ts) = .error e ↔
      o.kind = .openParen ∧ isNext .closeParen ts = false ∧ arguments {} ts = .error e := by
  rw [Parser.argumentsAfter]
  by_cases ho : o.kind = .openParen
  · have hnext : isNext .openParen (o :: ts) = true := beq_iff_eq.2 ho
    rw [if_pos hnext, parenthesis, if_pos ho]
    by_cases hc : isNext .closeParen ts = true
    · rw [dif_pos hc]
      simp [hc]
    · rw [dif_neg hc]
      cases arguments {} ts <;> simp [ho, hc]
  · have hnext : ¬isNext .openParen (o :: ts) = true := fun h => ho (beq_iff_eq.1 h)
    rw [if_neg hnext]
    simp [ho]

/-- Behind a directive name the reading fails just where the grammar has a failure. -/
theorem argumentsAfter_fails_iff {ts : List Token} {e : Mismatch} :
    Parser.argumentsAfter ts = .error e ↔ ∃ us, ListFails ts e us := by
  cases ts with
  | nil => exact ⟨fun h => (nomatch h), fun ⟨_, h⟩ => (nomatch h)⟩
  | cons o ts =>
    rw [argumentsAfter_cons_eq_error_iff, arguments_fail_iff]
    constructor
    · rintro ⟨ho, hc, us, h⟩
      exact ⟨us, .list ho hc h⟩
    · rintro ⟨us, h⟩
      cases h with
      | list ho hc h => exact ⟨ho, hc, us, h⟩

/-! ### The place of a failure -/

/-- What is wrong at the place of a failure: nothing is left, a token is no literal, or a list
    neither ends nor goes on. -/
inductive Wrong : List Token → Mismatch → Prop
  | absent : Wrong [] ⟨"literal", "a literal value"⟩
  | atom {t : Token} {rest : List Token} {e : Mismatch} : AtomFails t e → Wrong (t :: rest) e
  | unclosedArray {us : List Token} : isNext .comma us = false → isNext .closeBrace us = false →
      Wrong us ⟨"array", Kind.closeBrace.text⟩
  | unclosedList {us : List Token} : isNext .comma us = false → isNext .closeParen us = false →
      Wrong us ⟨"parenthesis", Kind.closeParen.text⟩

mutual

theorem LiteralFails.wrong {ts us : List Token} {e : Mismatch} : LiteralFails ts e us → Wrong us e
  | .absent => .absent
  | .atom h => .atom h
  | .array _ _ h => h.wrong

theorem EntriesFail.wrong {ts us : List Token} {e : Mismatch} : EntriesFail ts e us → Wrong us e
  | .value _ h => h.wrong
  | .unclosed _ _ hc hb => .unclosedArray hc hb
  | .behind _ _ _ h => h.wrong

end

theorem ArgumentsFail.wrong {ts us : List Token} {e : Mismatch} (h : ArgumentsFail ts e us) :
    Wrong us e := by
  induction h with
  | value _ h => exact h.wrong
  | unclosed _ _ hc hb => exact .unclosedList hc hb
  | behind _ _ _ _ ih => exact ih

theorem Labelled.suffix_of_goesOn {α : Type} {closer mark : Kind} {Denotes : Token → α → Prop}
    {ts us ws xs : List Token} {a : Option α} {v : Literal} (hl : Labelled mark Denotes ts a us)
    (hv : LiteralAt us v ws) (hgoes : GoesOn closer ws xs) : xs <:+ ts := by
  have hlast := (hgoes.spans (P := fun _ => True)).suffix
  exact hlast.trans (hv.spans.suffix.trans hl.suffix)

mutual

theorem LiteralFails.suffix {ts us : List Token} {e : Mismatch} : LiteralFails ts e us → us <:+ ts
  | .absent => List.suffix_refl _
  | .atom _ => List.suffix_refl _
  | .array _ _ h => h.suffix.trans (List.suffix_cons _ _)

theorem EntriesFail.suffix {ts us : List Token} {e : Mismatch} : EntriesFail ts e us → us <:+ ts
  | .value hl h => h.suffix.trans hl.suffix
  | .unclosed hl hv _ _ => hv.spans.suffix.trans hl.suffix
  | .behind hl hv hgoes h => h.suffix.trans (hl.suffix_of_goesOn hv hgoes)

end

theorem ArgumentsFail.suffix {ts us : List Token} {e : Mismatch} (h : ArgumentsFail ts e us) :
    us <:+ ts := by
  induction h with
  | value hl h => exact h.suffix.trans hl.suffix
  | unclosed hl hv _ _ => exact hv.spans.suffix.trans hl.suffix
  | behind hl hv hgoes _ ih => exact ih.trans (hl.suffix_of_goesOn hv hgoes)

theorem ListFails.wrong {ts us : List Token} {e : Mismatch} (h : ListFails ts e us) :
    us <:+ ts ∧ Wrong us e := by
  cases h with
  | list _ _ h => exact ⟨h.suffix.trans (List.suffix_cons _ _), h.wrong⟩

end DocDirectives.Grammar
