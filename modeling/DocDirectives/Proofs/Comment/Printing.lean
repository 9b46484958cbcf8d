import DocDirectives.Proofs.Literal.Printing

/-! # Printed directives

    What is printed of the arguments of a directive can stand behind its name: the directive that is
    read there has the arguments that were printed. -/

namespace DocDirectives

open Classifier Grammar Lexeme

/-- Arguments that are read back as they are printed: all values are, and the named ones stand under
    distinct qualified names. -/
structure Arguments.Printable (a : Arguments) : Prop where
  positional : ∀ v ∈ a.positional, v.Printable
  distinct : a.named.keys.Nodup
  names : ∀ e ∈ a.named.entries, ∃ n : String, e.1 = .name n ∧ IsName n.toList
  named : ∀ e ∈ a.named.entries, e.2.Printable

/-! ### Items -/

/-- An argument as it is printed. -/
def itemChars : Option String × Literal → List Char
  | (none, v) => v.chars
  | (some n, v) => n.toList ++ '=' :: v.chars

/-- Arguments as they are printed, with commas between them. -/
def itemsChars (vs : List (Option String × Literal)) : List Char :=
  ((vs.map itemChars).intersperse [',', ' ']).flatten

theorem itemsChars_singleton (i : Option String × Literal) : itemsChars [i] = itemChars i := by
  simp [itemsChars]

theorem itemsChars_cons (i j : Option String × Literal) (vs : List (Option String × Literal)) :
    itemsChars (i :: j :: vs) = itemChars i ++ (',' :: ' ' :: itemsChars (j :: vs)) := by
  simp [itemsChars]

/-- An argument that is read back: its value is, and its name is one token. -/
structure ItemReadsBack (i : Option String × Literal) : Prop where
  name : ∀ n ∈ i.1, IsName n.toList
  value : ReadsBack i.2

/-- A printed argument is read back in front of what ends it. -/
theorem ItemReadsBack.labelled {i : Option String × Literal} (h : ItemReadsBack i)
    {rest : List Char} (hrest : EndsItem rest) :
    (∃ us, Labelled .assign NameDenotes (directives.tokens (itemChars i ++ rest)) i.1 us ∧
      LiteralAt us i.2 (directives.tokens rest)) ∧
    isNext .closeParen (directives.tokens (itemChars i ++ rest)) = false := by
  obtain ⟨n, v⟩ := i
  obtain ⟨hv, hassign⟩ := h.value rest hrest
  cases n with
  | none => exact ⟨⟨_, .plain hassign, hv⟩, hv.isNext_eq_false (by decide)⟩
  | some n =>
    have hn := h.name n rfl
    have hsplit : itemChars (some n, v) ++ rest = n.toList ++ '=' :: (v.chars ++ rest) := by
      simp [itemChars]
    rw [hsplit, tokens_name hn (endsName_cons (by decide) rfl),
      tokens_stop (by decide)]
    refine ⟨⟨_, .marked rfl (text_token n).symm, hv⟩, beq_false_of_ne ?_⟩
    rcases isWord_of_isName hn with hk | hk | hk <;> exact hk ▸ by decide

/-- Printed arguments are read back up to the closing parenthesis. -/
theorem argumentsAt_items (rest : List Char) : ∀ {vs : List (Option String × Literal)}, vs ≠ [] →
    (∀ i ∈ vs, ItemReadsBack i) →
      ArgumentsAt (directives.tokens (itemsChars vs ++ ')' :: rest)) vs (directives.tokens rest) ∧
        isNext .closeParen (directives.tokens (itemsChars vs ++ ')' :: rest)) = false
  | [i], _, h => by
    have hrest : EndsItem (')' :: rest) := rfl
    obtain ⟨⟨us, hl, hv⟩, hnext⟩ := (List.forall_mem_singleton.1 h).labelled hrest
    rw [itemsChars_singleton]
    refine ⟨.last hl hv ?_, hnext⟩
    rw [tokens_stop (by decide)]
    exact .here rfl
  | i :: j :: vs, _, h => by
    obtain ⟨hi, hvs⟩ := List.forall_mem_cons.1 h
    obtain ⟨ih, ihnext⟩ := argumentsAt_items rest (List.cons_ne_nil j vs) hvs
    have hrest : EndsItem (',' :: ' ' :: (itemsChars (j :: vs) ++ ')' :: rest)) := rfl
    obtain ⟨⟨us, hl, hv⟩, hnext⟩ := hi.labelled hrest
    rw [itemsChars_cons, List.append_assoc, List.cons_append, List.cons_append]
    refine ⟨.more hl hv ?_ ih, hnext⟩
    rw [tokens_stop (by decide), tokens_separator (by decide)]
    exact .comma rfl ihnext

/-! ### Argument lists -/

/-- The arguments in the order in which they are printed. -/
def Arguments.items (a : Arguments) : List (Option String × Literal) :=
  a.positional.map (fun v => (none, v)) ++ a.named.entries.map fun e => (some e.1.text, e.2)

namespace Arguments

variable {a : Arguments}

theorem Printable.itemReadsBack (h : a.Printable) : ∀ i ∈ a.items, ItemReadsBack i := by
  intro i hi
  rcases List.mem_append.1 hi with hi | hi
  · obtain ⟨v, hv, rfl⟩ := List.mem_map.1 hi
    exact ⟨fun _ hn => (nomatch hn), (h.positional v hv).readsBack⟩
  · obtain ⟨e, he, rfl⟩ := List.mem_map.1 hi
    refine ⟨fun n hn => ?_, (h.named e he).readsBack⟩
    obtain ⟨m, hm, hname⟩ := h.names e he
    obtain rfl := Option.some.inj hn
    have htext : e.1.text = m := by rw [hm]; exact String.ofList_toList
    rwa [htext]

theorem Printable.isPlaceholder (h : a.Printable) : a.isPlaceholder = false := by
  unfold Arguments.isPlaceholder
  split
  · next hnull =>
    have hv : Literal.null.Printable := h.positional .null (by rw [hnull]; exact List.mem_cons_self)
    cases hv
  · rfl

theorem Printable.chars (h : a.Printable) : a.chars = '(' :: (itemsChars a.items ++ [')']) := by
  have hpositional : a.positional.map Literal.chars =
      (a.positional.map fun v => ((none : Option String), v)).map itemChars := by
    rw [List.map_map]
    rfl
  have hnamed : a.named.entries.map (fun e => e.1.chars ++ ['='] ++ e.2.chars) =
      (a.named.entries.map fun e => (some e.1.text, e.2)).map itemChars := by
    rw [List.map_map]
    exact List.map_congr_left fun e _ => by simp [itemChars, Key.text]
  simp only [Arguments.chars, h.isPlaceholder, Bool.false_eq_true, if_false, hpositional, hnamed,
    itemsChars, items, List.map_append]
  rfl

/-- The printed arguments denote the arguments. -/
theorem Printable.argumentsOf (h : a.Printable) : argumentsOf a.items = a := by
  have hnames : ∀ e ∈ a.named.entries, Key.name e.1.text = e.1 := by
    intro e he
    obtain ⟨n, hn, -⟩ := h.names e he
    rw [hn]
    exact congrArg Key.name String.ofList_toList
  have hpositional : positionalOf a.items = a.positional := by
    simp [positionalOf, items, List.filterMap_append, List.filterMap_map]
  have hnamed : namedOf a.items = a.named.entries := by
    have hentries : a.named.entries.map (fun e => (Key.name e.1.text, e.2)) =
        a.named.entries.map id :=
      List.map_congr_left fun e he => Prod.ext (hnames e he) rfl
    rw [List.map_id] at hentries
    rw [← List.filterMap_eq_map] at hentries
    simpa [namedOf, items, List.filterMap_append, List.filterMap_map] using hentries
  have hmap : LiteralMap.ofList a.named.entries = a.named := by
    have hfold := LiteralMap.foldl_insert (m := .empty) h.distinct
    exact congrArg LiteralMap.mk hfold
  rw [Grammar.argumentsOf, hpositional, hnamed, hmap]

theorem Printable.derives (h : a.Printable) (rest : List Char) :
    Derives (directives.tokens (a.chars ++ rest)) a (directives.tokens rest) := by
  have hsplit : a.chars ++ rest = '(' :: (itemsChars a.items ++ ')' :: rest) := by
    rw [h.chars]
    simp
  rw [hsplit, tokens_stop (by decide)]
  by_cases hitems : a.items = []
  · have hargs := h.argumentsOf
    rw [hitems] at hargs
    rw [hitems, ← hargs]
    have hclose := tokens_stop (c := ')') (by decide) rest
    show Derives (_ :: directives.tokens (')' :: rest)) {} _
    rw [hclose]
    exact .empty rfl rfl
  · obtain ⟨hvs, hnext⟩ := argumentsAt_items rest hitems h.itemReadsBack
    have hlist := Derives.list (o := directives.token ['(']) rfl hnext hvs
    rwa [h.argumentsOf] at hlist

end Arguments

/-! ### Directives -/

theorem length_text_le {cs : List Char} {t : Token} (h : t ∈ directives.tokens cs) :
    t.text.toList.length ≤ cs.length := by
  obtain ⟨f, hf, rfl⟩ := List.mem_map.1 h
  obtain ⟨as, bs, hsplit⟩ := List.append_of_mem (List.mem_filter.1 hf).1
  have hflat : (directives.fragments cs).flatten = cs := flatten_fragmentsFrom directives [] cs
  rw [← hflat, hsplit]
  simp only [token, String.toList_ofList, List.flatten_append, List.flatten_cons,
    List.length_append]
  omega

/-- A text that is one token as a whole is a lexeme. -/
theorem lexed_of_tokens {s : List Char} (h : directives.tokens s = [directives.token s]) :
    ∃ c u, s = c :: u ∧ isSeparator c = false ∧ Lexed (c :: u) [] := by
  cases s with
  | nil =>
    rw [tokens_nil] at h
    cases h
  | cons c cs =>
    cases hc : isSeparator c with
    | true =>
      -- the token would be longer than what is left behind the separator
      rw [tokens_separator hc] at h
      have hle := length_text_le (h ▸ List.mem_singleton_self (directives.token (c :: cs)))
      simp only [token, String.toList_ofList, List.length_cons] at hle
      exact absurd hle (Nat.not_succ_le_self _)
    | false =>
      obtain ⟨u, us, rfl, hlexed⟩ := exists_lexed hc cs
      rw [← List.cons_append, tokens_lexed hc hlexed] at h
      have htext := congrArg (fun t => t.text.toList) (List.cons.inj h).1
      have hus : us = [] := by simpa [token] using htext
      subst hus
      exact ⟨c, u, by rw [List.append_nil], hc, hlexed⟩

/-- A name that is one token, but no quote, is one in front of a parenthesis. -/
theorem tokens_directive {name : String}
    (hname : directives.tokens name.toList = [directives.token name.toList])
    (hquote : name ≠ "\"") (rest : List Char) :
    directives.tokens ('@' :: (name.toList ++ '(' :: rest)) = directives.token ['@'] ::
      directives.token name.toList :: directives.tokens ('(' :: rest) := by
  obtain ⟨c, u, hsplit, hc, hlexed⟩ := lexed_of_tokens hname
  have hstop : Breaks isStop ('(' :: rest) := (by decide : isStop '(' = true)
  have hlexed' : Lexed (c :: u) ('(' :: rest) :=
    hlexed.before_stop (List.cons_ne_nil c u) hstop (.of_head (by decide)) fun he =>
      absurd (String.toList_inj.1 (show name.toList = "\"".toList from hsplit.trans he)) hquote
  rw [tokens_stop (by decide), hsplit, tokens_lexed hc hlexed']

/-- A directive with printed arguments is read as one directive with these arguments. A lone quote
is a token too, but in front of the arguments it could open a string that ends within them. -/
theorem parse_printed (site : Site) (ignored : IgnoredNames) {name typeName : String}
    {a : Arguments} (ha : a.Printable)
    (hname : directives.tokens name.toList = [directives.token name.toList])
    (hquote : name ≠ "\"") (hignored : ignored.contains name = false)
    (htype : site.typeOf? name = some typeName) :
    Parser.parse ⟨.directives, ignored⟩ site ("@" ++ name ++ a.text) =
      .ok [⟨typeName, site.context, a⟩] := by
  have hsplit : ("@" ++ name ++ a.text).toList = '@' :: (name.toList ++ a.chars) := by
    simp [Arguments.text]
  have hargs := ha.derives []
  rw [List.append_nil, tokens_nil] at hargs
  have hoccurs : Parser.Occurs site ignored
      (directives.token ['@'] :: directives.token name.toList :: directives.tokens a.chars)
      ⟨(directives.token name.toList).text, directives.tokens a.chars,
        some ⟨typeName, site.context, a⟩⟩ [] :=
    .read rfl ((text_token name).symm ▸ hignored) ((text_token name).symm ▸ htype) (.list hargs)
  rw [Parser.parse, hsplit, ha.chars, tokens_directive hname hquote, ← ha.chars]
  exact Parser.Comment.directives (.directive hoccurs .nil)

/-- Arguments with quotes, signs, words of the language as keys, and maps within maps. -/
def nestedArguments : Arguments where
  positional := [.bool true, .integer (-5), .string "a\"\", b)", .map []]
  named := ⟨[(.name "app::a", .map [(.index (-3), .string ""),
    (.name "true", .map [(.name "x", .integer 1)])]), (.name "false", .bool false)]⟩

theorem nestedArguments_printable : nestedArguments.Printable where
  positional := by
    simp only [nestedArguments, List.forall_mem_cons]
    have hstring : Doubled "a\"\", b)".toList :=
      .char (by decide) (.pair (.char (by decide) (.char (by decide) (.char (by decide)
        (.char (by decide) .nil)))))
    exact ⟨.bool true, .integer (-5), .string hstring.evenRuns,
      .map List.nodup_nil (by simp) (by simp), by simp⟩
  distinct := by decide
  names := by
    simp only [nestedArguments, List.forall_mem_cons]
    exact ⟨⟨_, rfl, by decide +kernel⟩, ⟨_, rfl, by decide +kernel⟩, by simp⟩
  named := by
    simp only [nestedArguments, List.forall_mem_cons]
    have hinner : (Literal.map [(.name "x", .integer 1)]).Printable :=
      .map (by decide) (List.forall_mem_singleton.2 (.name (by decide +kernel)))
        (List.forall_mem_singleton.2 (.integer 1))
    refine ⟨.map (by decide) ?_ ?_, .bool false, by simp⟩
    · simp only [List.forall_mem_cons]
      exact ⟨.index (-3), .name (by decide +kernel), by simp⟩
    · simp only [List.forall_mem_cons]
      exact ⟨.string (Doubled.nil.evenRuns), hinner, by simp⟩

theorem parse_printed_nested :
    nestedArguments.Printable ∧ Parser.parse {} ⟨"type Fixture", [.plain "app::Mail"], .trusting⟩
        ("@Mail(true, -5, \"a\"\", b)\", \x7b\x7d, " ++
          "app::a=\x7b-3: \"\", true: \x7bx: 1\x7d\x7d, false=false)") =
      .ok [⟨"app::Mail", "type Fixture", nestedArguments⟩] := by
  have htext : "@" ++ "Mail" ++ nestedArguments.text =
      "@Mail(true, -5, \"a\"\", b)\", \x7b\x7d, " ++
        "app::a=\x7b-3: \"\", true: \x7bx: 1\x7d\x7d, false=false)" := by
    decide +kernel
  rw [← htext]
  exact ⟨nestedArguments_printable,
    parse_printed ⟨"type Fixture", [.plain "app::Mail"], .trusting⟩ .standard
      nestedArguments_printable (by decide +kernel) (by decide) (by decide +kernel)
      (by decide +kernel)⟩

end DocDirectives
