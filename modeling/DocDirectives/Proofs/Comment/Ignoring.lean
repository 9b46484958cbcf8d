import DocDirectives.Proofs.Comment.Occurrence
import DocDirectives.Proofs.Grammar.Span

/-! # Ignoring one more name

    An ignored directive is skipped up to the parenthesis that closes its group; a directive that is
    not ignored is read up to the end of its argument list. Where the list uses no parenthesis as a
    key, that is the same place. So a name that is added to the ignored ones takes its own
    directives out of what a comment gives, and nothing else changes. -/

namespace DocDirectives.Parser

open Grammar

variable {site : Site} {ignored : IgnoredNames}

/-! ### One directive -/

/-- A group is skipped just as far as an argument list is read. -/
theorem skipGroup_of_derives {ts rest : List Token} {a : Arguments} (h : Derives ts a rest)
    (hkeys : ∀ k, UsesKey ts k → k.isParen = false) : skipGroup ts = rest := by
  obtain ⟨g, hg, rfl⟩ := h.group hkeys
  exact skipGroup_of_group hg rest

theorem skipGroup_of_argumentsBehind {ts rest : List Token} {a : Arguments}
    (h : ArgumentsBehind ts a rest) (hkeys : ∀ k, UsesKey ts k → k.isParen = false) :
    skipGroup ts = rest := by
  cases h with
  | list h => exact skipGroup_of_derives h hkeys
  | none h => exact skipGroup_of_not_next h

/-- An occurrence when `n` is ignored too. -/
def Occurrence.ignoring (n : String) (o : Occurrence) : Occurrence :=
  { o with result := if o.name = n then none else o.result }

/-- The argument list behind a directive that is not ignored, if any, uses no parenthesis as a
    key. -/
def Occurrence.PlainKeys (o : Occurrence) : Prop :=
  o.result.isSome → ∀ k, UsesKey o.behind k → k.isParen = false

/-- With one more name ignored a directive is found in the same tokens. -/
theorem Occurs.ignoring {ts us : List Token} {o : Occurrence} (h : Occurs site ignored ts o us)
    (hkeys : o.PlainKeys) (n : String) :
    Occurs site (ignored.insert n) ts (o.ignoring n) us := by
  cases h with
  | @skipped mark name behind hm hn =>
    have hignored : (ignored.insert n).contains name.text = true := by
      rw [IgnoredNames.contains_insert, hn, Bool.or_true]
    have hsame : Occurrence.ignoring n ⟨name.text, behind, none⟩ = ⟨name.text, behind, none⟩ := by
      simp [Occurrence.ignoring]
    rw [hsame]
    exact .skipped hm hignored
  | @read mark name behind _ typeName a hm hn ht ha =>
    by_cases hname : name.text = n
    · have hignored : (ignored.insert n).contains name.text = true := by
        rw [IgnoredNames.contains_insert, hname, beq_self_eq_true, Bool.true_or]
      have hrest : skipGroup behind = us := skipGroup_of_argumentsBehind ha (hkeys rfl)
      rw [Occurrence.ignoring, if_pos hname, ← hrest]
      exact .skipped hm hignored
    · have hkept : (ignored.insert n).contains name.text = false := by
        rw [IgnoredNames.contains_insert, hn, Bool.or_false, beq_eq_false_iff_ne]
        exact hname
      rw [Occurrence.ignoring, if_neg hname]
      exact .read hm hkept ht ha

/-! ### Whole comments -/

theorem Comment.ignoring {ts : List Token} {os : List Occurrence} (h : Comment site ignored ts os)
    (hkeys : ∀ o ∈ os, o.PlainKeys) (n : String) :
    Comment site (ignored.insert n) ts (os.map (Occurrence.ignoring n)) := by
  induction h with
  | nil => exact .nil
  | prose ht _ ih => exact .prose ht (ih hkeys)
  | @directive ts us o os ho _ ih =>
    have hrest := ih fun o' ho' => hkeys o' (List.mem_cons_of_mem o ho')
    exact .directive (ho.ignoring (hkeys o List.mem_cons_self) n) hrest

/-- What is left when `n` is ignored comes from the directives with other names. -/
theorem results_ignoring (n : String) (os : List Occurrence) :
    results (os.map (Occurrence.ignoring n)) = results (os.filter fun o => o.name != n) := by
  induction os with
  | nil => rfl
  | cons o os ih =>
    rw [List.map_cons, results_cons, ih]
    by_cases hname : o.name = n
    · rw [List.filter_cons_of_neg (by simp [hname]), Occurrence.ignoring, if_pos hname]
      rfl
    · rw [List.filter_cons_of_pos (by simp [hname]), results_cons, Occurrence.ignoring,
        if_neg hname]

/-- When a comment can be read and no argument list in it uses a parenthesis as a key, the comment
    can be read with one more name ignored. It then gives what it gave, without the directives
    that are written with that name. A group is skipped just as far as an argument list is read. -/
theorem parse_insert (p : Parser) (site : Site) (text n : String) (ds : List Directive)
    (h : p.parse site text = .ok ds)
    (hkeys : ∀ os, Comment site p.ignored (p.classifier.tokens text.toList) os →
      ∀ o ∈ os, o.PlainKeys) :
    (∃ os, Comment site p.ignored (p.classifier.tokens text.toList) os ∧ ds = results os ∧
      Parser.parse { p with ignored := p.ignored.insert n } site text =
        .ok (results (os.filter fun o => o.name != n))) ∧
    ∀ (ts rest : List Token) (a : Arguments), Derives ts a rest →
      (∀ k, UsesKey ts k → k.isParen = false) → skipGroup ts = rest := by
  obtain ⟨os, hos, rfl⟩ := directives_eq_ok_iff.1 h
  refine ⟨⟨os, hos, rfl, ?_⟩, fun ts rest a => skipGroup_of_derives⟩
  rw [← results_ignoring]
  exact (hos.ignoring (hkeys os hos) n).directives

/-! ### A list with keys -/

/-- Where `A` and `B` are imported. -/
def twoTypes : Site := ⟨"type Fixture", [.plain "app::A", .plain "app::B"], .trusting⟩

/-- Two directives, the first with keys at two depths. -/
def keyed : String := "@A(k=\x7bx: true\x7d) @B"

/-- The tokens behind the first name in `keyed`. -/
def keyedList : List Token :=
  [⟨.openParen, "("⟩, ⟨.other, "k"⟩, ⟨.assign, "="⟩, ⟨.openBrace, "\x7b"⟩, ⟨.other, "x"⟩,
    ⟨.colon, ":"⟩, ⟨.yes, "true"⟩, ⟨.closeBrace, "\x7d"⟩, ⟨.closeParen, ")"⟩, ⟨.start, "@"⟩,
    ⟨.other, "B"⟩]

/-- The arguments of the first directive in `keyed`. -/
def keyedArguments : Arguments :=
  argumentsOf [(some "k", .map (mapOf [(some (.name "x"), .bool true)]).entries)]

/-- The occurrences in `keyed`. -/
def keyedOccurrences : List Occurrence :=
  [⟨"A", keyedList, some ⟨"app::A", "type Fixture", keyedArguments⟩⟩,
    ⟨"B", [], some ⟨"app::B", "type Fixture", .placeholder⟩⟩]

theorem comment_keyed :
    Comment twoTypes .standard (Classifier.directives.tokens keyed.toList) keyedOccurrences := by
  have htokens : Classifier.directives.tokens keyed.toList =
      ⟨.start, "@"⟩ :: ⟨.other, "A"⟩ :: keyedList := by decide +kernel
  have hx : EntriesAt (keyedList.drop 4) [(some (.name "x"), .bool true)] (keyedList.drop 8) :=
    .last (.marked rfl (.word (by decide) (by decide))) (.atom .yes) (.here rfl)
  have hlist : Derives keyedList keyedArguments (keyedList.drop 9) :=
    .list rfl rfl (.last (.marked rfl rfl) (.array rfl rfl hx) (.here rfl))
  have hA : Occurs twoTypes .standard (⟨.start, "@"⟩ :: ⟨.other, "A"⟩ :: keyedList)
      ⟨"A", keyedList, some ⟨"app::A", "type Fixture", keyedArguments⟩⟩ (keyedList.drop 9) :=
    .read rfl (by decide +kernel) (by decide +kernel) (.list hlist)
  have hB : Occurs twoTypes .standard (keyedList.drop 9)
      ⟨"B", [], some ⟨"app::B", "type Fixture", .placeholder⟩⟩ [] :=
    .read rfl (by decide +kernel) (by decide +kernel) (.none rfl)
  rw [htokens]
  exact .directive hA (.directive hB .nil)

theorem parse_insert_keyed :
    Parser.parse {} twoTypes keyed = .ok (results keyedOccurrences) ∧
      (∀ os, Comment twoTypes .standard (Classifier.directives.tokens keyed.toList) os →
        ∀ o ∈ os, o.PlainKeys) ∧
      Parser.parse { ignored := .insert .standard "A" } twoTypes keyed =
        .ok [⟨"app::B", "type Fixture", .placeholder⟩] := by
  have hparse : Parser.parse {} twoTypes keyed = .ok (results keyedOccurrences) :=
    comment_keyed.directives
  have hmarked : ∀ p ∈ keyedList.zip keyedList.tail,
      p.2.kind = .assign ∨ p.2.kind = .colon → p.1.isParen = false := by decide
  have hkeys : ∀ os, Comment twoTypes .standard (Classifier.directives.tokens keyed.toList) os →
      ∀ o ∈ os, o.PlainKeys := by
    intro os hos o ho _ k hk
    obtain rfl := hos.unique comment_keyed
    obtain ⟨m, hm, hmem⟩ := UsesKey.marked hk
    rcases List.mem_cons.1 ho with rfl | ho
    · exact hmarked (k, m) hmem hm
    · obtain rfl := List.mem_singleton.1 ho
      cases hmem
  obtain ⟨⟨os, hos, -, hignored⟩, -⟩ := parse_insert {} twoTypes keyed "A" _ hparse hkeys
  obtain rfl := hos.unique comment_keyed
  exact ⟨hparse, hkeys, hignored⟩

end DocDirectives.Parser
