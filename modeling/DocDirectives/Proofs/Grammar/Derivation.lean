import DocDirectives.Parser
import DocDirectives.Proofs.Token.Kind

/-! # Derivations of argument lists

    The grammar of arguments as a relation between the tokens in front, what they denote, and the
    tokens behind. A list is the same for arguments and for entries: items with commas between them,
    perhaps a comma behind the last, and the closer. `Derives` speaks of whole argument lists.

        LiteralAt  ──▶ an atom, or '{' and EntriesAt
        EntriesAt  ──▶ [key ':'] LiteralAt, then the end of the list or a comma and EntriesAt
        Derives    ──▶ '(' and ArgumentsAt, whose items are [name '='] LiteralAt -/

namespace DocDirectives.Grammar

open Number (Numeral Decimal Fits)

/-! ### Denotation of single tokens -/

/-- A lexeme and the text it quotes; a lexeme that does not stand between quotes is that text. -/
inductive Quotes : String → String → Prop
  | quoted {s body : String} : s.toList = '"' :: (body.toList ++ ['"']) → Quotes s body
  | bare {s : String} : (∀ body, s.toList ≠ '"' :: (body ++ ['"'])) → Quotes s s

/-- The value of a token that is a literal by itself. -/
inductive AtomDenotes : Token → Literal → Prop
  | string {s body : String} : Quotes s body → AtomDenotes ⟨.string, s⟩ (.string body)
  | integer {s : String} {n : Int} : Numeral s.toList n → Fits n →
      AtomDenotes ⟨.integer, s⟩ (.integer (Int64.ofInt n))
  | float {s : String} {x : Number.Binary64} : Decimal s.toList x →
      AtomDenotes ⟨.float, s⟩ (.float x)
  | yes {s : String} : AtomDenotes ⟨.yes, s⟩ (.bool true)
  | no {s : String} : AtomDenotes ⟨.no, s⟩ (.bool false)

/-- The key that a token in front of a colon denotes. -/
inductive KeyDenotes : Token → Key → Prop
  | index {s : String} {n : Int} : Numeral s.toList n → Fits n →
      KeyDenotes ⟨.integer, s⟩ (.index (Int64.ofInt n))
  | large {s : String} : (∀ n, Numeral s.toList n → ¬Fits n) → KeyDenotes ⟨.integer, s⟩ (.name s)
  | string {s body : String} : Quotes s body → KeyDenotes ⟨.string, s⟩ (.name body)
  | word {t : Token} : t.kind ≠ .integer → t.kind ≠ .string → KeyDenotes t (.name t.text)

/-- The name that a token in front of an equals sign denotes. -/
def NameDenotes (t : Token) (n : String) : Prop := n = t.text

/-! ### The grammar -/

/-- An item with its label, or without one when its second token is not `mark`. -/
inductive Labelled {α : Type} (mark : Kind) (Denotes : Token → α → Prop) :
    List Token → Option α → List Token → Prop
  | marked {t c : Token} {a : α} {rest : List Token} : c.kind = mark → Denotes t a →
      Labelled mark Denotes (t :: c :: rest) (some a) rest
  | plain {ts : List Token} : isNext mark ts.tail = false → Labelled mark Denotes ts none ts

/-- A list ends: with its closer, or with a comma and its closer. -/
inductive Ends (closer : Kind) : List Token → List Token → Prop
  | here {c : Token} {rest : List Token} : c.kind = closer → Ends closer (c :: rest) rest
  | comma {a c : Token} {rest : List Token} : a.kind = .comma → c.kind = closer →
      Ends closer (a :: c :: rest) rest

/-- A list goes on: with a comma that is not in front of the closer. -/
inductive GoesOn (closer : Kind) : List Token → List Token → Prop
  | comma {a : Token} {ts : List Token} : a.kind = .comma → isNext closer ts = false →
      GoesOn closer (a :: ts) ts

/-- Insert an entry, under the next index when it has no key. -/
def addEntry (m : LiteralMap) (e : Option Key × Literal) : LiteralMap :=
  m.insert (e.1.getD (.index m.nextIndex)) e.2

/-- The map that an array denotes. -/
def mapOf (es : List (Option Key × Literal)) : LiteralMap := es.foldl addEntry .empty

mutual

/-- A literal, its value, and the tokens behind it. -/
inductive LiteralAt : List Token → Literal → List Token → Prop
  | atom {t : Token} {v : Literal} {rest : List Token} : AtomDenotes t v →
      LiteralAt (t :: rest) v rest
  | empty {o c : Token} {rest : List Token} : o.kind = .openBrace → c.kind = .closeBrace →
      LiteralAt (o :: c :: rest) (.map []) rest
  | array {o : Token} {ts rest : List Token} {es : List (Option Key × Literal)} :
      o.kind = .openBrace → isNext .closeBrace ts = false → EntriesAt ts es rest →
      LiteralAt (o :: ts) (.map (mapOf es).entries) rest

/-- The entries of an array from one of them on, and the tokens behind the array. -/
inductive EntriesAt : List Token → List (Option Key × Literal) → List Token → Prop
  | last {ts us ws rest : List Token} {k : Option Key} {v : Literal} :
      Labelled .colon KeyDenotes ts k us → LiteralAt us v ws → Ends .closeBrace ws rest →
      EntriesAt ts [(k, v)] rest
  | more {ts us ws xs rest : List Token} {k : Option Key} {v : Literal}
      {es : List (Option Key × Literal)} :
      Labelled .colon KeyDenotes ts k us → LiteralAt us v ws → GoesOn .closeBrace ws xs →
      EntriesAt xs es rest → EntriesAt ts ((k, v) :: es) rest

end

/-- The arguments from one of them on, and the tokens behind the list. -/
inductive ArgumentsAt : List Token → List (Option String × Literal) → List Token → Prop
  | last {ts us ws rest : List Token} {n : Option String} {v : Literal} :
      Labelled .assign NameDenotes ts n us → LiteralAt us v ws → Ends .closeParen ws rest →
      ArgumentsAt ts [(n, v)] rest
  | more {ts us ws xs rest : List Token} {n : Option String} {v : Literal}
      {vs : List (Option String × Literal)} :
      Labelled .assign NameDenotes ts n us → LiteralAt us v ws → GoesOn .closeParen ws xs →
      ArgumentsAt xs vs rest → ArgumentsAt ts ((n, v) :: vs) rest

/-- The positional values of a list of arguments. -/
def positionalOf (vs : List (Option String × Literal)) : List Literal :=
  vs.filterMap fun (n, v) => if n.isSome then none else some v

/-- The named values of a list of arguments, under their keys. -/
def namedOf (vs : List (Option String × Literal)) : List (Key × Literal) :=
  vs.filterMap fun (n, v) => n.map fun n => (.name n, v)

/-- What a list of arguments denotes: positional values in order, named ones written in order. -/
def argumentsOf (vs : List (Option String × Literal)) : Arguments :=
  { positional := positionalOf vs, named := .ofList (namedOf vs) }

/-- An argument list in parentheses, what it denotes, and the tokens behind it. -/
inductive Derives : List Token → Arguments → List Token → Prop
  | empty {o c : Token} {rest : List Token} : o.kind = .openParen → c.kind = .closeParen →
      Derives (o :: c :: rest) {} rest
  | list {o : Token} {ts rest : List Token} {vs : List (Option String × Literal)} :
      o.kind = .openParen → isNext .closeParen ts = false → ArgumentsAt ts vs rest →
      Derives (o :: ts) (argumentsOf vs) rest

/-! ### Single tokens -/

theorem unquote_of_quotes {s body : String} (h : Quotes s body) : unquote s = body := by
  rcases h with h | h
  · simp only [unquote, h, List.getLast?_concat, if_true, List.dropLast_concat,
      String.ofList_toList]
  · unfold unquote
    split
    · next cs hcs =>
      split
      · next hlast =>
        obtain ⟨body, rfl⟩ := List.getLast?_eq_some_iff.1 hlast
        exact absurd hcs (h body)
      · rfl
    · rfl

theorem exists_quotes (s : String) : ∃ body, Quotes s body := by
  by_cases h : ∃ body, s.toList = '"' :: (body ++ ['"'])
  · obtain ⟨body, hs⟩ := h
    exact ⟨String.ofList body, .quoted (by rw [hs, String.toList_ofList])⟩
  · exact ⟨s, .bare fun body hs => h ⟨body, hs⟩⟩

theorem quotes_iff {s body : String} : Quotes s body ↔ unquote s = body := by
  refine ⟨unquote_of_quotes, ?_⟩
  rintro rfl
  obtain ⟨body, h⟩ := exists_quotes s
  rwa [unquote_of_quotes h]

theorem atom_eq_ok_iff {t : Token} {v : Literal} : atom t = .ok v ↔ AtomDenotes t v := by
  obtain ⟨k, s⟩ := t
  constructor
  · intro h
    cases k <;> simp only [atom, Except.ok.injEq, reduceCtorEq] at h
    case yes => exact h ▸ .yes
    case no => exact h ▸ .no
    case string => exact h ▸ .string (quotes_iff.2 rfl)
    case integer =>
      split at h
      · next i hi =>
        obtain ⟨n, hn, hf, rfl⟩ := Number.ofText?_eq_some_iff.1 hi
        obtain rfl := Except.ok.inj h
        exact .integer hn hf
      · cases h
    case float =>
      split at h
      · next x hx =>
        obtain rfl := Except.ok.inj h
        exact .float (Number.float_ofText?_eq_some_iff.1 hx)
      · cases h
  · intro h
    cases h with
    | string h => simp only [atom, quotes_iff.1 h]
    | integer hn hf => simp only [atom, Number.ofText?_eq_some_iff.2 ⟨_, hn, hf, rfl⟩]
    | float hx => simp only [atom, Number.float_ofText?_eq_some_iff.2 hx]
    | yes => rfl
    | no => rfl

theorem keyOf_of_denotes {t : Token} {k : Key} (h : KeyDenotes t k) : keyOf t = k := by
  cases h with
  | index hn hf => simp only [keyOf, Number.ofText?_eq_some_iff.2 ⟨_, hn, hf, rfl⟩]
  | @large s h =>
    have hnone : Number.Integer.ofText? s.toList = none := by
      rw [Option.eq_none_iff_forall_ne_some]
      intro i hi
      obtain ⟨n, hn, hf, -⟩ := Number.ofText?_eq_some_iff.1 hi
      exact h n hn hf
    simp only [keyOf, hnone]
  | string h => simp only [keyOf, quotes_iff.1 h]
  | word hi hs =>
    unfold keyOf
    split
    · next h => exact absurd h hi
    · next h => exact absurd h hs
    · rfl

theorem keyDenotes_keyOf (t : Token) : KeyDenotes t (keyOf t) := by
  obtain ⟨k, s⟩ := t
  by_cases hi : k = .integer
  · subst hi
    by_cases h : ∃ n, Numeral s.toList n ∧ Fits n
    · obtain ⟨n, hn, hf⟩ := h
      have hd := KeyDenotes.index hn hf
      rwa [keyOf_of_denotes hd]
    · have hd : KeyDenotes ⟨.integer, s⟩ (.name s) := .large fun n hn hf => h ⟨n, hn, hf⟩
      rwa [keyOf_of_denotes hd]
  · by_cases hs : k = .string
    · subst hs
      exact .string (quotes_iff.2 rfl)
    · have hd : KeyDenotes ⟨k, s⟩ (.name s) := .word hi hs
      rwa [keyOf_of_denotes hd]

/-! ### Labels -/

theorem entryKey_of_labelled {m : LiteralMap} {ts us : List Token} {k : Option Key}
    (h : Labelled .colon KeyDenotes ts k us) :
    entryKey m ts = (k.getD (.index m.nextIndex), us) := by
  cases h with
  | marked hc hk => simp only [entryKey, hc, if_true, keyOf_of_denotes hk, Option.getD_some]
  | plain h =>
    unfold entryKey
    split
    · next k c rest => rw [if_neg (by simpa [isNext] using h), Option.getD_none]
    · rfl

theorem labelled_entryKey (m : LiteralMap) (ts : List Token) :
    ∃ k, Labelled .colon KeyDenotes ts k (entryKey m ts).2 := by
  cases h : isNext .colon ts.tail with
  | false => exact ⟨none, by rw [entryKey_of_labelled (.plain h)]; exact .plain h⟩
  | true =>
    match ts, h with
    | t :: c :: rest, h =>
      have hc : c.kind = .colon := eq_of_beq h
      refine ⟨some (keyOf t), ?_⟩
      have hl : Labelled .colon KeyDenotes (t :: c :: rest) (some (keyOf t)) rest :=
        .marked hc (keyDenotes_keyOf t)
      rwa [entryKey_of_labelled hl]

theorem argumentName_of_labelled {ts us : List Token} {n : Option String}
    (h : Labelled .assign NameDenotes ts n us) : argumentName ts = (n, us) := by
  cases h with
  | marked hc hn =>
    obtain rfl := hn
    simp only [argumentName, hc, if_true]
  | plain h =>
    unfold argumentName
    split
    · next k c rest => rw [if_neg (by simpa [isNext] using h)]
    · rfl

theorem labelled_argumentName (ts : List Token) :
    Labelled .assign NameDenotes ts (argumentName ts).1 (argumentName ts).2 := by
  cases h : isNext .assign ts.tail with
  | false => rw [argumentName_of_labelled (.plain h)]; exact .plain h
  | true =>
    match ts, h with
    | t :: c :: rest, h =>
      have hc : c.kind = .assign := eq_of_beq h
      have hl : Labelled .assign NameDenotes (t :: c :: rest) (some t.text) rest := .marked hc rfl
      rwa [argumentName_of_labelled hl]

theorem length_of_labelled {α : Type} {mark : Kind} {Denotes : Token → α → Prop}
    {ts us : List Token} {a : Option α} (h : Labelled mark Denotes ts a us) :
    us.length ≤ ts.length := by
  cases h with
  | marked => exact Nat.le_add_right _ 2
  | plain => exact Nat.le_refl _

/-! ### Ends of lists -/

theorem ends_iff {closer : Kind} {us rest : List Token} :
    Ends closer us rest ↔ isNext closer us = true ∧ rest = us.tail ∨
      isNext .comma us = true ∧ isNext closer us.tail = true ∧ rest = us.tail.tail := by
  constructor
  · rintro (h | ⟨ha, hc⟩)
    · exact .inl ⟨by simp [isNext, h], rfl⟩
    · exact .inr ⟨by simp [isNext, ha], by simp [isNext, hc], rfl⟩
  · rintro (⟨h, rfl⟩ | ⟨ha, hc, rfl⟩)
    · match us, h with
      | c :: us, h => exact .here (eq_of_beq h)
    · match us, ha, hc with
      | a :: c :: us, ha, hc => exact .comma (eq_of_beq ha) (eq_of_beq hc)

theorem goesOn_iff {closer : Kind} {us rest : List Token} :
    GoesOn closer us rest ↔
      isNext .comma us = true ∧ isNext closer us.tail = false ∧ rest = us.tail := by
  constructor
  · rintro ⟨ha, hc⟩
    exact ⟨by simp [isNext, ha], hc, rfl⟩
  · rintro ⟨ha, hc, rfl⟩
    match us, ha with
    | a :: us, ha => exact .comma (eq_of_beq ha) hc

theorem length_of_goesOn {closer : Kind} {us rest : List Token} (h : GoesOn closer us rest) :
    rest.length < us.length := by
  cases h
  exact Nat.lt_succ_self _

theorem isNext_unique {j k : Kind} {us : List Token} (hj : isNext j us = true)
    (hk : isNext k us = true) : j = k := by
  match us, hj, hk with
  | t :: us, hj, hk => exact (eq_of_beq hj).symm.trans (eq_of_beq hk)

/-! ### Readings -/

/-- A reader gives the value `v` and leaves the tokens `rest`. -/
def Reads {α : Type} {ts : List Token} (r : Except Mismatch (Parsed α ts)) (v : α)
    (rest : List Token) : Prop := ∃ p, r = .ok p ∧ p.value = v ∧ p.rest = rest

section Reads

variable {α : Type} {ts : List Token}

theorem reads_ok_iff {p : Parsed α ts} {v : α} {rest : List Token} :
    Reads (.ok p) v rest ↔ p.value = v ∧ p.rest = rest := by
  constructor
  · rintro ⟨q, hq, hv, hr⟩
    obtain rfl := Except.ok.inj hq
    exact ⟨hv, hr⟩
  · exact fun h => ⟨p, rfl, h⟩

theorem not_reads_error {e : Mismatch} {v : α} {rest : List Token} :
    ¬Reads (.error e : Except Mismatch (Parsed α ts)) v rest := by
  rintro ⟨q, hq, -⟩
  cases hq

theorem shorter_of_reads {r : Except Mismatch (Parsed α ts)} {v : α} {rest : List Token}
    (h : Reads r v rest) : rest.length < ts.length := by
  obtain ⟨p, -, -, rfl⟩ := h
  exact p.shorter

theorem reads_unique {r : Except Mismatch (Parsed α ts)} {v w : α} {rest tail : List Token}
    (h : Reads r v rest) (h' : Reads r w tail) : v = w ∧ rest = tail := by
  obtain ⟨p, rfl, rfl, rfl⟩ := h
  exact reads_ok_iff.1 h'

/-- A reader fails just when it reads nothing. -/
theorem error_iff_not_reads {r : Except Mismatch (Parsed α ts)} :
    (∃ e, r = .error e) ↔ ∀ v rest, ¬Reads r v rest := by
  cases r with
  | error e => exact ⟨fun _ v rest => not_reads_error, fun _ => ⟨e, rfl⟩⟩
  | ok p =>
    constructor
    · rintro ⟨e, he⟩
      cases he
    · exact fun h => absurd (reads_ok_iff.2 ⟨rfl, rfl⟩) (h p.value p.rest)

/-- A reading of a shorter list, handed on. -/
theorem reads_widen_iff {us : List Token} {r : Except Mismatch (Parsed α us)}
    {r' : Except Mismatch (Parsed α ts)} (h : us.length ≤ ts.length)
    (he : ∀ e, r = .error e → r' = .error e) (ho : ∀ q, r = .ok q → r' = .ok (q.widen h))
    {y : α} {rest : List Token} : Reads r' y rest ↔ Reads r y rest := by
  cases r with
  | error e => simp only [he e rfl, not_reads_error]
  | ok q =>
    simp only [ho q rfl, reads_ok_iff, Parsed.widen]

/-- Behind an item a list ends or goes on with a reading of the tail, and otherwise its reader
    fails. -/
theorem reads_tail_iff {closer : Kind} (hcloser : closer ≠ .comma) {us : List Token} {x : α}
    {e : Mismatch} {next : isNext .comma us = true → ¬isNext closer us.tail = true →
      Except Mismatch (Parsed α ts)} (items : ∀ xs, Except Mismatch (Parsed α xs))
    (hnext : ∀ hc hb y rest, Reads (next hc hb) y rest ↔ Reads (items us.tail) y rest)
    {h₁ : isNext .comma us = true → isNext closer us.tail = true → us.tail.tail.length < ts.length}
    {h₂ : isNext closer us = true → us.tail.length < ts.length} {y : α} {rest : List Token} :
    Reads (if hc : isNext .comma us = true then
        if hb : isNext closer us.tail = true then .ok ⟨x, us.tail.tail, h₁ hc hb⟩ else next hc hb
      else if hb : isNext closer us = true then .ok ⟨x, us.tail, h₂ hb⟩ else .error e) y rest ↔
    Ends closer us rest ∧ y = x ∨ ∃ xs, GoesOn closer us xs ∧ Reads (items xs) y rest := by
  simp only [ends_iff, goesOn_iff]
  by_cases hc : isNext .comma us = true
  · have hn : ¬isNext closer us = true := fun h => hcloser (isNext_unique h hc)
    by_cases hb : isNext closer us.tail = true
    · rw [dif_pos hc, dif_pos hb, reads_ok_iff]
      constructor
      · rintro ⟨rfl, rfl⟩
        exact .inl ⟨.inr ⟨hc, hb, rfl⟩, rfl⟩
      · rintro (⟨⟨h, -⟩ | ⟨-, -, rfl⟩, rfl⟩ | ⟨xs, ⟨-, h, -⟩, -⟩)
        · exact absurd h hn
        · exact ⟨rfl, rfl⟩
        · simp [hb] at h
    · rw [dif_pos hc, dif_neg hb, hnext]
      simp [hc, hb, hn]
  · rw [dif_neg hc]
    by_cases hb : isNext closer us = true
    · rw [dif_pos hb, reads_ok_iff]
      constructor
      · rintro ⟨rfl, rfl⟩
        exact .inl ⟨.inl ⟨hb, rfl⟩, rfl⟩
      · rintro (⟨⟨-, rfl⟩ | ⟨h, -⟩, rfl⟩ | ⟨xs, ⟨h, -⟩, -⟩)
        · exact ⟨rfl, rfl⟩
        · exact absurd h hc
        · exact absurd h hc
    · rw [dif_neg hb]
      simp [hc, hb, not_reads_error]

end Reads

/-- One entry of an array, and what comes behind it. -/
theorem reads_entries_iff {m y : LiteralMap} {ts rest : List Token} :
    Reads (entries m ts) y rest ↔ ∃ v ws, Reads (literal (entryKey m ts).2) v ws ∧
      (Ends .closeBrace ws rest ∧ y = m.insert (entryKey m ts).1 v ∨
        ∃ xs, GoesOn .closeBrace ws xs ∧
          Reads (entries (m.insert (entryKey m ts).1 v) xs) y rest) := by
  rw [entries]
  split
  · next e he =>
    simp only [he, not_reads_error, false_and, exists_false]
  · next p hp =>
    have hle : p.rest.tail.length ≤ ts.length := by
      have := p.shorter
      have := length_entryKey_le m ts
      simp only [List.length_tail]
      omega
    rw [reads_tail_iff (by decide) (entries (m.insert (entryKey m ts).1 p.value))
      fun hc hb y rest => reads_widen_iff hle (fun e he => by simp only [he])
        fun q hq => by simp only [hq]]
    simp only [hp, reads_ok_iff]
    constructor
    · exact fun h => ⟨p.value, p.rest, ⟨rfl, rfl⟩, h⟩
    · rintro ⟨v, ws, ⟨rfl, rfl⟩, h⟩
      exact h

/-- One argument of a list, and what comes behind it. -/
theorem reads_arguments_iff {a y : Arguments} {ts rest : List Token} :
    Reads (arguments a ts) y rest ↔ ∃ v ws, Reads (literal (argumentName ts).2) v ws ∧
      (Ends .closeParen ws rest ∧ y = addArgument a (argumentName ts).1 v ∨
        ∃ xs, GoesOn .closeParen ws xs ∧
          Reads (arguments (addArgument a (argumentName ts).1 v) xs) y rest) := by
  rw [arguments]
  split
  · next e he =>
    simp only [he, not_reads_error, false_and, exists_false]
  · next p hp =>
    have hle : p.rest.tail.length ≤ ts.length := by
      have := p.shorter
      have := length_argumentName_le ts
      simp only [List.length_tail]
      omega
    rw [reads_tail_iff (by decide) (arguments (addArgument a (argumentName ts).1 p.value))
      fun hc hb y rest => reads_widen_iff hle (fun e he => by simp only [he])
        fun q hq => by simp only [hq]]
    simp only [hp, reads_ok_iff]
    constructor
    · exact fun h => ⟨p.value, p.rest, ⟨rfl, rfl⟩, h⟩
    · rintro ⟨v, ws, ⟨rfl, rfl⟩, h⟩
      exact h

/-- A literal is an atom or an array. -/
theorem reads_literal_iff {t : Token} {ts rest : List Token} {v : Literal} :
    Reads (literal (t :: ts)) v rest ↔
      t.kind ≠ .openBrace ∧ atom t = .ok v ∧ rest = ts ∨
      t.kind = .openBrace ∧ isNext .closeBrace ts = true ∧ v = .map [] ∧ rest = ts.tail ∨
      t.kind = .openBrace ∧ isNext .closeBrace ts = false ∧
        ∃ m, Reads (entries .empty ts) m rest ∧ v = .map m.entries := by
  rw [literal]
  by_cases ho : t.kind = .openBrace
  · rw [if_pos ho]
    by_cases hc : isNext .closeBrace ts = true
    · rw [dif_pos hc]
      simp [ho, hc, reads_ok_iff, eq_comm]
    · rw [dif_neg hc]
      rw [Bool.not_eq_true] at hc
      simp only [ho, hc, ne_eq, not_true, false_and, Bool.false_eq_true, true_and, false_or]
      split
      · next e he => simp [show entries .empty ts = .error e from he, not_reads_error]
      · next p hp =>
        rw [show entries .empty ts = .ok p from hp]
        simp only [reads_ok_iff, Parsed.widen, Parsed.map, LiteralMap.toLiteral]
        constructor
        · rintro ⟨rfl, rfl⟩
          exact ⟨p.value, ⟨rfl, rfl⟩, rfl⟩
        · rintro ⟨m, ⟨rfl, rfl⟩, rfl⟩
          exact ⟨rfl, rfl⟩
  · rw [if_neg ho]
    cases ha : atom t with
    | error e => simp [ho, not_reads_error]
    | ok w =>
      simp only [reads_ok_iff, ho, ne_eq, not_false_eq_true, Except.ok.injEq, true_and, false_and,
        or_false]
      exact and_congr_right fun _ => eq_comm

mutual

/-- A literal is read just where one is derived. -/
theorem reads_literal : ∀ (ts rest : List Token) (v : Literal),
    Reads (literal ts) v rest ↔ LiteralAt ts v rest
  | [], rest, v => by
    rw [literal]
    exact ⟨fun h => absurd h not_reads_error, fun h => nomatch h⟩
  | t :: ts, rest, v => by
    rw [reads_literal_iff]
    constructor
    · rintro (⟨-, ha, rfl⟩ | ⟨ho, hc, rfl, rfl⟩ | ⟨ho, hc, m, hm, rfl⟩)
      · exact .atom (atom_eq_ok_iff.1 ha)
      · match ts, hc with
        | c :: ts, hc => exact .empty ho (eq_of_beq hc)
      · obtain ⟨es, hes, rfl⟩ := (reads_entries .empty m ts rest).1 hm
        exact .array ho hc hes
    · intro h
      cases h with
      | atom ha =>
        refine .inl ⟨?_, atom_eq_ok_iff.2 ha, rfl⟩
        rintro ho
        cases ha <;> cases ho
      | empty ho hc => exact .inr (.inl ⟨ho, by simp [isNext, hc], rfl, rfl⟩)
      | array ho hc hes =>
        exact .inr (.inr ⟨ho, hc, _, (reads_entries .empty _ ts rest).2 ⟨_, hes, rfl⟩, rfl⟩)
termination_by ts => 2 * ts.length

/-- The entries of an array are read just where they are derived, into the map read before. -/
theorem reads_entries (m y : LiteralMap) (ts rest : List Token) :
    Reads (entries m ts) y rest ↔ ∃ es, EntriesAt ts es rest ∧ y = es.foldl addEntry m := by
  rw [reads_entries_iff]
  constructor
  · rintro ⟨v, ws, hread, h⟩
    have hkey := length_entryKey_le m ts
    have hlt := shorter_of_reads hread
    obtain ⟨k, hl⟩ := labelled_entryKey m ts
    have hk : (entryKey m ts).1 = k.getD (.index m.nextIndex) := by rw [entryKey_of_labelled hl]
    have hv := (reads_literal _ ws v).1 hread
    rcases h with ⟨hends, rfl⟩ | ⟨xs, hgoes, hrest⟩
    · exact ⟨[(k, v)], .last hl hv hends, by rw [hk]; rfl⟩
    · have := length_of_goesOn hgoes
      obtain ⟨es, hes, rfl⟩ := (reads_entries _ y xs rest).1 hrest
      exact ⟨(k, v) :: es, .more hl hv hgoes hes, by rw [hk]; rfl⟩
  · rintro ⟨es, hes, rfl⟩
    cases hes with
    | last hl hv hends =>
      have hle := length_of_labelled hl
      rw [entryKey_of_labelled hl]
      exact ⟨_, _, (reads_literal _ _ _).2 hv, .inl ⟨hends, rfl⟩⟩
    | more hl hv hgoes hes =>
      have hle := length_of_labelled hl
      rw [entryKey_of_labelled hl]
      have hread := (reads_literal _ _ _).2 hv
      have hlt := shorter_of_reads hread
      have := length_of_goesOn hgoes
      exact ⟨_, _, hread, .inr ⟨_, hgoes, (reads_entries _ _ _ _).2 ⟨_, hes, rfl⟩⟩⟩
termination_by 2 * ts.length + 1

end

/-! ### Argument lists -/

/-- What is read as arguments is derived, and added to those read before. -/
theorem argumentsAt_of_reads (a y : Arguments) (ts rest : List Token)
    (h : Reads (arguments a ts) y rest) :
    ∃ vs, ArgumentsAt ts vs rest ∧ y = vs.foldl (fun b e => addArgument b e.1 e.2) a := by
  obtain ⟨v, ws, hread, h⟩ := reads_arguments_iff.1 h
  have hname := length_argumentName_le ts
  have hlt := shorter_of_reads hread
  have hl := labelled_argumentName ts
  have hv := (reads_literal _ ws v).1 hread
  rcases h with ⟨hends, rfl⟩ | ⟨xs, hgoes, hrest⟩
  · exact ⟨[(_, v)], .last hl hv hends, rfl⟩
  · have := length_of_goesOn hgoes
    obtain ⟨vs, hvs, rfl⟩ := argumentsAt_of_reads _ y xs rest hrest
    exact ⟨(_, v) :: vs, .more hl hv hgoes hvs, rfl⟩
termination_by ts.length

/-- What is derived as arguments is read. -/
theorem reads_of_argumentsAt {ts rest : List Token} {vs : List (Option String × Literal)}
    (h : ArgumentsAt ts vs rest) (a : Arguments) :
    Reads (arguments a ts) (vs.foldl (fun b e => addArgument b e.1 e.2) a) rest := by
  induction h generalizing a with
  | last hl hv hends =>
    rw [reads_arguments_iff, argumentName_of_labelled hl]
    exact ⟨_, _, (reads_literal _ _ _).2 hv, .inl ⟨hends, rfl⟩⟩
  | more hl hv hgoes _ ih =>
    rw [reads_arguments_iff, argumentName_of_labelled hl]
    exact ⟨_, _, (reads_literal _ _ _).2 hv, .inr ⟨_, hgoes, ih _⟩⟩

/-- Arguments added one by one are kept in two groups, each in order. -/
theorem foldl_addArgument : ∀ (vs : List (Option String × Literal)) (a : Arguments),
    vs.foldl (fun b e => addArgument b e.1 e.2) a =
      { positional := a.positional ++ positionalOf vs
        named := (namedOf vs).foldl (fun m e => m.insert e.1 e.2) a.named }
  | [], a => by simp [positionalOf, namedOf]
  | (none, v) :: vs, a => by
    rw [List.foldl_cons, foldl_addArgument vs]
    simp [addArgument, Arguments.push, positionalOf, namedOf]
  | (some n, v) :: vs, a => by
    rw [List.foldl_cons, foldl_addArgument vs]
    simp [addArgument, Arguments.set, positionalOf, namedOf]

/-- An argument list is read just where one is derived. -/
theorem reads_parenthesis (ts rest : List Token) (a : Arguments) :
    Reads (parenthesis ts) a rest ↔ Derives ts a rest := by
  have hfold : ∀ vs, vs.foldl (fun b e => addArgument b e.1 e.2) {} = argumentsOf vs := fun vs => by
    rw [foldl_addArgument]
    rfl
  cases ts with
  | nil => exact ⟨fun h => absurd h not_reads_error, fun h => nomatch h⟩
  | cons o ts =>
    rw [parenthesis]
    by_cases ho : o.kind = .openParen
    · rw [if_pos ho]
      by_cases hc : isNext .closeParen ts = true
      · rw [dif_pos hc, reads_ok_iff]
        constructor
        · rintro ⟨rfl, rfl⟩
          match ts, hc with
          | c :: ts, hc => exact .empty ho (eq_of_beq hc)
        · intro h
          cases h with
          | empty => exact ⟨rfl, rfl⟩
          | list _ hn => exact absurd hc (by simp [hn])
      · rw [dif_neg hc, reads_widen_iff (r := arguments {} ts) (Nat.le_succ _)
          (fun e he => by simp only [he]) (fun q hq => by simp only [hq])]
        constructor
        · intro h
          obtain ⟨vs, hvs, rfl⟩ := argumentsAt_of_reads _ a ts rest h
          rw [hfold]
          exact .list ho (by simpa using hc) hvs
        · intro h
          cases h with
          | empty _ hk => exact absurd (by simp [isNext, hk]) hc
          | list _ _ hvs => exact hfold _ ▸ reads_of_argumentsAt hvs {}
    · rw [if_neg ho]
      refine ⟨fun h => absurd h not_reads_error, fun h => ?_⟩
      cases h with
      | empty h => exact absurd h ho
      | list h => exact absurd h ho

theorem argumentsAfter_eq_ok_iff (ts rest : List Token) (a : Arguments) :
    (∃ h, Parser.argumentsAfter ts = .ok (a, ⟨rest, h⟩)) ↔
      Derives ts a rest ∨ isNext .openParen ts = false ∧ a = .placeholder ∧ rest = ts := by
  rw [← reads_parenthesis, Parser.argumentsAfter]
  by_cases ho : isNext .openParen ts = true
  · rw [if_pos ho]
    cases hp : parenthesis ts with
    | error e => simp [ho, not_reads_error]
    | ok p =>
      simp only [ho, reads_ok_iff, Bool.true_eq_false, false_and, or_false]
      constructor
      · rintro ⟨_, h⟩
        cases h
        exact ⟨rfl, rfl⟩
      · rintro ⟨rfl, rfl⟩
        exact ⟨Nat.le_of_lt p.shorter, rfl⟩
  · rw [if_neg ho]
    rw [Bool.not_eq_true] at ho
    have hnone : ¬Reads (parenthesis ts) a rest := by
      rw [reads_parenthesis]
      rintro (h | h) <;> simp [isNext, h] at ho
    simp only [ho, hnone, true_and, false_or]
    constructor
    · rintro ⟨_, h⟩
      cases h
      exact ⟨rfl, rfl⟩
    · rintro ⟨rfl, rfl⟩
      exact ⟨Nat.le_refl _, rfl⟩

theorem argumentsAfter_eq_error_iff (ts : List Token) :
    (∃ e, Parser.argumentsAfter ts = .error e) ↔
      isNext .openParen ts = true ∧ ∀ a rest, ¬Derives ts a rest := by
  simp only [← reads_parenthesis]
  rw [← error_iff_not_reads, Parser.argumentsAfter]
  by_cases ho : isNext .openParen ts = true
  · rw [if_pos ho]
    cases hp : parenthesis ts with
    | error e => simp [ho]
    | ok p => simp
  · rw [if_neg ho]
    simp [ho]

/-- Wherever one stands in the tokens of a text, the reader of arguments gives what the grammar
    derives there and nothing where no parenthesis is next, and it fails exactly where a parenthesis
    is next and nothing is derived. The grammar derives one thing at most. Of the tokens of a text
    all strings stand between quotes and all floats have a value, so a number out of range is the
    only single token that is the right kind of literal and yet none. -/
theorem argumentsAfter_iff_derives (text : String) (n : Nat) :
    let tokens := Classifier.directives.tokens text.toList
    let ts := tokens.drop n
    (∀ a rest, (∃ h, Parser.argumentsAfter ts = .ok (a, ⟨rest, h⟩)) ↔
      Derives ts a rest ∨ isNext .openParen ts = false ∧ a = .placeholder ∧ rest = ts) ∧
    ((∃ e, Parser.argumentsAfter ts = .error e) ↔
      isNext .openParen ts = true ∧ ∀ a rest, ¬Derives ts a rest) ∧
    (∀ a a' rest rest', Derives ts a rest → Derives ts a' rest' → a = a' ∧ rest = rest') ∧
    ∀ t ∈ tokens,
      (t.kind = .string → ∃ body, t.text.toList = '"' :: (body ++ ['"'])) ∧
      (t.kind = .float → ∃ x, Decimal t.text.toList x) ∧
      (t.kind = .integer → ∃ n, Numeral t.text.toList n) := by
  intro tokens ts
  refine ⟨fun a rest => argumentsAfter_eq_ok_iff ts rest a, argumentsAfter_eq_error_iff ts, ?_, ?_⟩
  · intro a a' rest rest' h h'
    exact reads_unique ((reads_parenthesis _ _ _).2 h) ((reads_parenthesis _ _ _).2 h')
  · intro t ht
    obtain ⟨f, -, rfl⟩ := List.mem_map.1 ht
    simp only [Classifier.token, String.toList_ofList]
    exact ⟨Classifier.kindOf_eq_string_iff.1, Classifier.kindOf_eq_float_iff.1,
      Classifier.kindOf_eq_integer_iff.1⟩

end DocDirectives.Grammar
