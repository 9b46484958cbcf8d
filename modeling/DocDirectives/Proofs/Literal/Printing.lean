import DocDirectives.Proofs.Comment.Occurrence
import DocDirectives.Proofs.Token.Spelling
import Mathlib.Data.List.Nodup

/-! # Printed literals

    A printed literal is read back. Booleans, integers and maps print what the grammar reads. A
    string is printed as it stands, so its quotes have to come in pairs, and the name of an entry is
    printed without quotes, so it has to be one token. The proof follows the printer: each part is
    printed in front of what ends it, and there its tokens are its own. -/

namespace DocDirectives

open Classifier Grammar Lexeme Number Text

/-! ### Quotes in pairs -/

/-- Wherever quotes stand next to each other and no further one beside them, their number is
    even. -/
def EvenRuns (s : List Char) : Prop :=
  ∀ front n rest, s = front ++ List.replicate n '"' ++ rest → front.getLast? ≠ some '"' →
    rest.head? ≠ some '"' → n % 2 = 0

theorem EvenRuns.of_cons {c : Char} {s : List Char} (hc : c ≠ '"') (h : EvenRuns (c :: s)) :
    EvenRuns s := by
  intro front n rest he hfront hrest
  refine h (c :: front) n rest (by rw [he]; rfl) ?_ hrest
  cases front with
  | nil => simpa using hc
  | cons d front => rwa [List.getLast?_cons_cons]

theorem EvenRuns.of_pair {s : List Char} (h : EvenRuns ('"' :: '"' :: s)) : EvenRuns s := by
  intro front n rest he hfront hrest
  cases front with
  | nil =>
    have htwo := h [] (n + 2) rest (by rw [he]; rfl) (by simp) hrest
    omega
  | cons d front =>
    refine h ('"' :: '"' :: d :: front) n rest (by rw [he]; rfl) ?_ hrest
    rwa [List.getLast?_cons_cons, List.getLast?_cons_cons]

theorem doubled_of_evenRuns : ∀ {s : List Char}, EvenRuns s → Doubled s
  | [], _ => .nil
  | c :: s, h => by
    by_cases hc : c = '"'
    · subst hc
      -- a quote without a partner is a run of one
      have hnext : s.head? = some '"' := by
        by_contra hs
        exact absurd (h [] 1 s rfl (by simp) hs) (by decide)
      obtain ⟨s, rfl⟩ := List.head?_eq_some_iff.1 hnext
      exact .pair (doubled_of_evenRuns h.of_pair)
    · exact .char hc (doubled_of_evenRuns (h.of_cons hc))
termination_by s => s.length

theorem Lexeme.Doubled.evenRuns {s : List Char} (h : Doubled s) : EvenRuns s := by
  rintro front n rest rfl hfront hrest
  have hruns : Doubled (front ++ List.replicate n '"') := by
    cases rest with
    | nil => rwa [List.append_nil] at h
    | cons c rest => exact (h.divide fun hc => hrest (congrArg some hc)).1
  have hrun : Doubled (List.replicate n '"') := by
    rcases List.eq_nil_or_concat front with rfl | ⟨front, c, rfl⟩
    · exact hruns
    · rw [List.concat_eq_append] at hfront hruns
      rw [List.append_assoc, List.singleton_append] at hruns
      rw [List.getLast?_concat] at hfront
      exact (hruns.divide fun hc => hfront (congrArg some hc)).2
  have hcount := hrun.count_mod_two
  rwa [List.count_replicate_self] at hcount

/-- The quotes of a text come in pairs when they can be read as doubled ones. -/
theorem evenRuns_iff {s : List Char} : EvenRuns s ↔ Doubled s :=
  ⟨doubled_of_evenRuns, Doubled.evenRuns⟩

/-! ### What is printed as it is read -/

/-- A key that is printed as one token: an index, or a name that is a qualified name. -/
inductive Key.Spelled : Key → Prop
  | index (i : Int64) : Spelled (.index i)
  | name {s : String} : IsName s.toList → Spelled (.name s)

/-- A literal of booleans, integers, strings whose quotes come in pairs, and maps of these with
    distinct keys. -/
inductive Literal.Printable : Literal → Prop
  | bool (b : Bool) : Printable (.bool b)
  | integer (i : Int64) : Printable (.integer i)
  | string {s : String} : EvenRuns s.toList → Printable (.string s)
  | map {es : List (Key × Literal)} : (es.map Prod.fst).Nodup → (∀ e ∈ es, e.1.Spelled) →
      (∀ e ∈ es, Printable e.2) → Printable (.map es)

/-! ### What comes behind a printed literal -/

/-- Text behind a printed literal: nothing, or what goes on with a list or ends it. -/
def EndsItem (rest : List Char) : Prop := Breaks (fun c => c == ',' || c == '}' || c == ')') rest

theorem endsItem_cases {c : Char} {rest : List Char} (h : EndsItem (c :: rest)) :
    c = ',' ∨ c = '}' ∨ c = ')' := by
  have hc : (c == ',' || c == '}' || c == ')') = true := h
  simpa only [Bool.or_eq_true, beq_iff_eq, or_assoc] using hc

theorem EndsItem.endsNumber : ∀ {rest : List Char}, EndsItem rest → EndsNumber rest
  | [], _ => trivial
  | c :: _, h => by
    show (!c.isDigit && c != '.') = true
    rcases endsItem_cases h with rfl | rfl | rfl <;> decide

theorem endsName_cons {c : Char} {rest : List Char} (hc : isNameChar c = false)
    (h : separatorLength (c :: rest) = 0) : EndsName (c :: rest) :=
  ⟨(by rw [hc]; rfl : (!isNameChar c) = true), h⟩

theorem EndsItem.endsName : ∀ {rest : List Char}, EndsItem rest → EndsName rest
  | [], _ => ⟨trivial, rfl⟩
  | c :: _, h => by
    rcases endsItem_cases h with rfl | rfl | rfl <;> exact endsName_cons (by decide) rfl

theorem EndsItem.not_quote {rest : List Char} (h : EndsItem rest) : rest.head? ≠ some '"' := by
  cases rest with
  | nil => exact fun he => nomatch he
  | cons c rest => rcases endsItem_cases h with rfl | rfl | rfl <;> simp

/-- No equals sign stands behind a printed literal. -/
theorem EndsItem.not_assign {rest : List Char} (h : EndsItem rest) :
    isNext .assign (directives.tokens rest) = false := by
  cases rest with
  | nil => rw [tokens_nil]; rfl
  | cons c rest =>
    rcases endsItem_cases h with rfl | rfl | rfl <;>
      rw [tokens_stop (by decide)] <;> rfl

/-! ### Labels -/

/-- A token that begins neither a mark of the grammar nor a number nor a string. -/
def IsWord (t : Token) : Prop := t.kind = .yes ∨ t.kind = .no ∨ t.kind = .other

theorem isWord_of_isName {s : String} (h : IsName s.toList) : IsWord (directives.token s.toList) :=
  kindOf_name h

theorem text_token (s : String) : (directives.token s.toList).text = s := String.ofList_toList

/-- A printed index is read as the index. -/
theorem numeral_text (i : Int64) :
    ∃ n, Numeral (Integer.text i.toInt) n ∧ Fits n ∧ i = Int64.ofInt n :=
  ofText?_eq_some_iff.1 (Integer.ofText?_text i)

/-- A printed key is one token in front of a colon, and denotes the key. -/
theorem Key.Spelled.tokens {k : Key} (h : k.Spelled) (rest : List Char) :
    ∃ t : Token, directives.tokens (k.chars ++ (':' :: ' ' :: rest)) =
      t :: directives.token [':'] :: directives.tokens rest ∧ KeyDenotes t k ∧
        (IsWord t ∨ t.kind = .integer) := by
  have hcolon : directives.tokens (':' :: ' ' :: rest) =
      directives.token [':'] :: directives.tokens rest := by
    rw [tokens_colon (by simp), tokens_separator (by decide)]
  cases h with
  | index i =>
    obtain ⟨n, hn, hf, hi⟩ := numeral_text i
    refine ⟨⟨.integer, String.ofList (Integer.text i.toInt)⟩, ?_, ?_, .inr rfl⟩
    · rw [Key.chars, tokens_numeral hn (by rfl), hcolon]
    · rw [hi]
      exact .index (by rwa [← hi, String.toList_ofList]) hf
  | @name s hs =>
    have hword := isWord_of_isName hs
    refine ⟨directives.token s.toList, ?_, ?_, .inl hword⟩
    · rw [Key.chars, tokens_name hs (endsName_cons (by decide) rfl), hcolon]
    · have hd : KeyDenotes (directives.token s.toList) (.name (directives.token s.toList).text) :=
        .word (by rcases hword with h | h | h <;> simp [h])
          (by rcases hword with h | h | h <;> simp [h])
      rwa [text_token] at hd

/-! ### Literals -/

/-- Inserting new keys one by one keeps the entries as they come. -/
theorem LiteralMap.put_of_notMem {k : Key} {v : Literal} : ∀ {es : List (Key × Literal)},
    k ∉ es.map Prod.fst → put k v es = es ++ [(k, v)]
  | [], _ => rfl
  | (k', v') :: es, h => by
    rw [List.map_cons, List.mem_cons, not_or] at h
    rw [put, if_neg (Ne.symm h.1), put_of_notMem h.2]
    rfl

theorem LiteralMap.foldl_insert {es : List (Key × Literal)} : ∀ {m : LiteralMap},
    (m.keys ++ es.map Prod.fst).Nodup →
      (es.foldl (fun m e => m.insert e.1 e.2) m).entries = m.entries ++ es := by
  induction es with
  | nil => exact fun _ => (List.append_nil _).symm
  | cons e es ih =>
    intro m h
    have hnew : e.1 ∉ m.keys := fun hmem =>
      (List.disjoint_of_nodup_append h) hmem List.mem_cons_self
    have hentries : (m.insert e.1 e.2).entries = m.entries ++ [e] := put_of_notMem hnew
    have hkeys : (m.insert e.1 e.2).keys = m.keys ++ [e.1] := by
      rw [keys, hentries, List.map_append]
      rfl
    rw [List.foldl_cons, ih (by rw [hkeys]; simpa using h), hentries]
    simp

/-- A literal begins with a token of one of six kinds. -/
theorem Grammar.LiteralAt.isNext_eq_false {ts rest : List Token} {v : Literal}
    (h : LiteralAt ts v rest) {k : Kind}
    (hk : k ∉ [.string, .integer, .float, .yes, .no, .openBrace]) : isNext k ts = false := by
  simp only [List.mem_cons, List.not_mem_nil, or_false, not_or] at hk
  obtain ⟨hstring, hinteger, hfloat, hyes, hno, hbrace⟩ := hk
  cases h with
  | atom ha => cases ha <;> exact beq_false_of_ne (Ne.symm ‹_›)
  | empty ho _ => exact beq_false_of_ne (ho ▸ Ne.symm hbrace)
  | array ho _ _ => exact beq_false_of_ne (ho ▸ Ne.symm hbrace)

/-- A literal is printed so that it is read back in front of what ends it, and it is no name of an
    argument. -/
def ReadsBack (v : Literal) : Prop := ∀ rest, EndsItem rest →
  LiteralAt (directives.tokens (v.chars ++ rest)) v (directives.tokens rest) ∧
    isNext .assign (directives.tokens (v.chars ++ rest)).tail = false

theorem entriesChars_cons (k : Key) (v : Literal) (es : List (Key × Literal)) :
    ∃ more, Literal.entriesChars ((k, v) :: es) = k.chars ++ (':' :: ' ' :: more) := by
  cases es with
  | nil => exact ⟨v.chars, by simp [Literal.entriesChars]⟩
  | cons e es =>
    exact ⟨v.chars ++ (',' :: ' ' :: Literal.entriesChars (e :: es)),
      by simp [Literal.entriesChars]⟩

/-- The entries of a map begin with a key. -/
theorem isNext_entriesChars {k : Kind} (hk : k ∉ [.yes, .no, .other, .integer])
    {es : List (Key × Literal)} (hes : es ≠ []) (hkeys : ∀ e ∈ es, e.1.Spelled)
    (rest : List Char) :
    isNext k (directives.tokens (Literal.entriesChars es ++ rest)) = false := by
  obtain ⟨⟨key, v⟩, es, rfl⟩ := List.exists_cons_of_ne_nil hes
  obtain ⟨more, hmore⟩ := entriesChars_cons key v es
  obtain ⟨t, ht, -, hkind⟩ := (hkeys _ List.mem_cons_self).tokens (more ++ rest)
  rw [hmore, List.append_assoc, List.cons_append, List.cons_append, ht]
  refine beq_false_of_ne ?_
  rcases hkind with (h | h | h) | h <;> exact h ▸ fun he => hk (he ▸ by decide)

/-- The entries of a map are read back up to its closing brace. -/
theorem entriesAt_chars (rest : List Char) : ∀ {es : List (Key × Literal)}, es ≠ [] →
    (∀ e ∈ es, e.1.Spelled) → (∀ e ∈ es, ReadsBack e.2) →
      EntriesAt (directives.tokens (Literal.entriesChars es ++ '}' :: rest))
        (es.map fun e => (some e.1, e.2)) (directives.tokens rest)
  | [(k, v)], _, hkeys, hvalues => by
    obtain ⟨t, ht, hd, -⟩ := (List.forall_mem_singleton.1 hkeys).tokens (v.chars ++ '}' :: rest)
    have hv := (List.forall_mem_singleton.1 hvalues ('}' :: rest) rfl).1
    have hsplit : Literal.entriesChars [(k, v)] ++ '}' :: rest =
        k.chars ++ (':' :: ' ' :: (v.chars ++ '}' :: rest)) := by
      simp [Literal.entriesChars]
    rw [hsplit, ht]
    refine .last (.marked rfl hd) hv ?_
    rw [tokens_stop (by decide)]
    exact .here rfl
  | (k, v) :: e :: es, _, hkeys, hvalues => by
    obtain ⟨hkey, hkeys⟩ := List.forall_mem_cons.1 hkeys
    obtain ⟨hvalue, hvalues⟩ := List.forall_mem_cons.1 hvalues
    have hne : e :: es ≠ [] := List.cons_ne_nil e es
    have ih := entriesAt_chars rest hne hkeys hvalues
    obtain ⟨t, ht, hd, -⟩ := hkey.tokens
      (v.chars ++ (',' :: ' ' :: (Literal.entriesChars (e :: es) ++ '}' :: rest)))
    have hv := (hvalue (',' :: ' ' :: (Literal.entriesChars (e :: es) ++ '}' :: rest)) rfl).1
    have hsplit : Literal.entriesChars ((k, v) :: e :: es) ++ '}' :: rest = k.chars ++
        (':' :: ' ' :: (v.chars ++
          (',' :: ' ' :: (Literal.entriesChars (e :: es) ++ '}' :: rest)))) := by
      simp [Literal.entriesChars]
    rw [hsplit, ht]
    refine .more (.marked rfl hd) hv ?_ ih
    rw [tokens_stop (by decide), tokens_separator (by decide)]
    exact .comma rfl (isNext_entriesChars (by decide) hne hkeys _)

/-- Distinct keys make the map of the entries. -/
theorem mapOf_entries {es : List (Key × Literal)} (h : (es.map Prod.fst).Nodup) :
    (mapOf (es.map fun e => (some e.1, e.2))).entries = es := by
  have hfold := LiteralMap.foldl_insert (m := .empty) h
  rw [mapOf, List.foldl_map]
  exact hfold

theorem readsBack_atom {t : Token} {v : Literal} (ha : AtomDenotes t v)
    (h : ∀ rest, EndsItem rest →
      directives.tokens (v.chars ++ rest) = t :: directives.tokens rest) : ReadsBack v := by
  intro rest hrest
  rw [h rest hrest]
  exact ⟨.atom ha, hrest.not_assign⟩

/-- What can be printed is read back. -/
theorem Literal.Printable.readsBack {v : Literal} (h : v.Printable) : ReadsBack v := by
  induction h with
  | bool b =>
    cases b with
    | true =>
      have htrue : IsName ['t', 'r', 'u', 'e'] := by decide +kernel
      exact readsBack_atom .yes fun rest hrest => tokens_name htrue hrest.endsName
    | false =>
      have hfalse : IsName ['f', 'a', 'l', 's', 'e'] := by decide +kernel
      exact readsBack_atom .no fun rest hrest => tokens_name hfalse hrest.endsName
  | integer i =>
    obtain ⟨n, hn, hf, hi⟩ := numeral_text i
    refine readsBack_atom (t := ⟨.integer, String.ofList (Integer.text i.toInt)⟩) ?_
      fun rest hrest => tokens_numeral hn hrest.endsNumber
    rw [hi]
    exact .integer (by rwa [← hi, String.toList_ofList]) hf
  | @string s hs =>
    refine readsBack_atom (.string (.quoted String.toList_ofList)) fun rest hrest => ?_
    rw [← tokens_string (evenRuns_iff.1 hs) hrest.not_quote]
    simp [Literal.chars]
  | @map es hkeys hspelled hvalues ih =>
    intro rest hrest
    have hsplit : (Literal.map es).chars ++ rest =
        '{' :: (Literal.entriesChars es ++ '}' :: rest) := by
      simp [Literal.chars]
    rw [hsplit, tokens_stop (by decide)]
    by_cases hes : es = []
    · subst hes
      rw [Literal.entriesChars, List.nil_append, tokens_stop (by decide)]
      exact ⟨.empty rfl rfl, rfl⟩
    · have hbegins : ∀ k : Kind, k ∉ [.yes, .no, .other, .integer] → isNext k
          (directives.tokens (Literal.entriesChars es ++ '}' :: rest)) = false :=
        fun k hk => isNext_entriesChars hk hes hspelled _
      have hmap := LiteralAt.array (o := directives.token ['{']) rfl
        (hbegins .closeBrace (by decide)) (entriesAt_chars rest hes hspelled ih)
      rw [mapOf_entries hkeys] at hmap
      exact ⟨hmap, hbegins .assign (by decide)⟩

end DocDirectives
