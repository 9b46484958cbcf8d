import DocDirectives.Proofs.Comment.Occurrence
import DocDirectives.Proofs.Grammar.Span

/-! # Comments one behind the other

    A directive is read without regard to the tokens behind it, with two exceptions: a parenthesis
    behind a bare name belongs to it, and a group that an ignored name leaves open goes on. Where
    neither is the case, a comment with another behind it gives what the one gives and then what
    the other gives. -/

namespace DocDirectives.Parser

open Grammar

variable {site : Site} {ignored : IgnoredNames}

/-- A parenthesis behind the name is the beginning of a group. -/
def Occurrence.Closed (o : Occurrence) : Prop :=
  isNext .openParen o.behind = true → ∃ g rest, Group g ∧ o.behind = g ++ rest

/-! ### Tokens behind a directive -/

theorem isNext_openParen_append {ts more : List Token} (hts : isNext .openParen ts = false)
    (hmore : isNext .openParen more = false) : isNext .openParen (ts ++ more) = false := by
  cases ts with
  | nil => exact hmore
  | cons t ts => exact hts

theorem ArgumentsBehind.append {ts rest more : List Token} {a : Arguments}
    (h : ArgumentsBehind ts a rest) (hmore : isNext .openParen more = false) :
    ArgumentsBehind (ts ++ more) a (rest ++ more) := by
  cases h with
  | list h => exact .list (h.append more)
  | none h => exact .none (isNext_openParen_append h hmore)

theorem skipGroup_append {ts more : List Token}
    (hts : isNext .openParen ts = true → ∃ g rest, Group g ∧ ts = g ++ rest)
    (hmore : isNext .openParen more = false) : skipGroup (ts ++ more) = skipGroup ts ++ more := by
  cases ho : isNext .openParen ts with
  | false =>
    rw [skipGroup_of_not_next ho, skipGroup_of_not_next (isNext_openParen_append ho hmore)]
  | true =>
    obtain ⟨g, rest, hg, rfl⟩ := hts ho
    rw [List.append_assoc, skipGroup_of_group hg, skipGroup_of_group hg]

/-- A directive with tokens behind it: what was read is the same, and they are left. -/
theorem Occurs.append {ts us more : List Token} {o : Occurrence}
    (h : Occurs site ignored ts o us) (hclosed : o.result = none → o.Closed)
    (hmore : isNext .openParen more = false) :
    Occurs site ignored (ts ++ more) { o with behind := o.behind ++ more } (us ++ more) := by
  cases h with
  | skipped hm hn =>
    rw [← skipGroup_append (hclosed rfl) hmore]
    exact .skipped hm hn
  | read hm hn ht ha => exact .read hm hn ht (ha.append hmore)

/-! ### Comments -/

theorem directives_comment_append {ts more : List Token} {os : List Occurrence}
    (h : Comment site ignored ts os) (hclosed : ∀ o ∈ os, o.result = none → o.Closed)
    (hmore : isNext .openParen more = false) :
    directives site ignored (ts ++ more) =
      (directives site ignored more).map (results os ++ ·) := by
  induction h with
  | nil => cases hd : directives site ignored more <;> simp [Except.map, results, hd]
  | prose ht _ ih => rw [List.cons_append, directives_cons site ignored ht, ih hclosed]
  | @directive ts us o os ho _ ih =>
    have hfirst := ho.append (hclosed o List.mem_cons_self) hmore
    have hrest := ih fun o' ho' => hclosed o' (List.mem_cons_of_mem o ho')
    rw [directives_of_occurs hfirst, hrest, results_cons]
    cases directives site ignored more <;> simp [Except.map]

/-- Behind a comment that can be read and leaves no ignored group open, any tokens that do not begin
    with a parenthesis give what they give by themselves: their directives come behind those of the
    comment, and their failure is the failure of the whole. -/
theorem directives_append_of_closed (site : Site) (ignored : IgnoredNames) (ts more : List Token)
    (ds : List Directive) (hts : directives site ignored ts = .ok ds)
    (hclosed : ∀ os, Comment site ignored ts os → ∀ o ∈ os, o.result = none → o.Closed)
    (hmore : isNext .openParen more = false) :
    (∀ ds', directives site ignored more = .ok ds' →
      directives site ignored (ts ++ more) = .ok (ds ++ ds')) ∧
    ∀ e, directives site ignored more = .error e →
      directives site ignored (ts ++ more) = .error e := by
  obtain ⟨os, hos, rfl⟩ := directives_eq_ok_iff.1 hts
  have happend := directives_comment_append hos (hclosed os hos) hmore
  constructor
  · intro ds' hds'
    rw [happend, hds']
    rfl
  · intro e he
    rw [happend, he]
    rfl

/-! ### A note and a use -/

/-- Where `A` is imported. -/
def fixture : Site := ⟨"type Fixture", [.plain "app::A"], .trusting⟩

/-- An ignored note with a group behind it, and a directive. -/
def noted : List Token := Classifier.directives.tokens "@todo(fix (this)) @A(true)".toList

/-- The occurrences in `noted`. -/
def notedOccurrences : List Occurrence :=
  [⟨"todo", noted.drop 2, none⟩,
    ⟨"A", noted.drop 10, some ⟨"app::A", "type Fixture", argumentsOf [(none, .bool true)]⟩⟩]

theorem comment_noted : Comment fixture .standard noted notedOccurrences := by
  have htokens : noted = ⟨.start, "@"⟩ :: ⟨.other, "todo"⟩ :: (noted.drop 2) := by decide +kernel
  have hbehind : skipGroup (noted.drop 2) = ⟨.start, "@"⟩ :: ⟨.other, "A"⟩ :: noted.drop 10 := by
    decide +kernel
  have hlist : noted.drop 10 = [⟨.openParen, "("⟩, ⟨.yes, "true"⟩, ⟨.closeParen, ")"⟩] := by
    decide +kernel
  have hargs : Derives (noted.drop 10) (argumentsOf [(none, .bool true)]) [] := by
    rw [hlist]
    exact .list rfl rfl (.last (.plain rfl) (.atom .yes) (.here rfl))
  have hnote : Occurs fixture .standard noted ⟨"todo", noted.drop 2, none⟩
      (⟨.start, "@"⟩ :: ⟨.other, "A"⟩ :: noted.drop 10) := by
    have h : Occurs fixture .standard (⟨.start, "@"⟩ :: ⟨.other, "todo"⟩ :: noted.drop 2)
        ⟨"todo", noted.drop 2, none⟩ (skipGroup (noted.drop 2)) :=
      .skipped rfl (by decide +kernel)
    rwa [hbehind, ← htokens] at h
  have huse : Occurs fixture .standard (⟨.start, "@"⟩ :: ⟨.other, "A"⟩ :: noted.drop 10)
      ⟨"A", noted.drop 10, some ⟨"app::A", "type Fixture", argumentsOf [(none, .bool true)]⟩⟩ [] :=
    .read rfl (by decide +kernel) (by decide +kernel) (.list hargs)
  exact .directive hnote (.directive huse .nil)

theorem directives_append_of_closed_noted :
    directives fixture .standard noted = .ok (results notedOccurrences) ∧
      (∀ os, Comment fixture .standard noted os → ∀ o ∈ os, o.result = none → o.Closed) ∧
      isNext .openParen noted = false ∧
      directives fixture .standard (noted ++ noted) =
        .ok (results notedOccurrences ++ results notedOccurrences) := by
  have hnoted := comment_noted.directives
  have hgroup : Group ((noted.drop 2).take 6) := by decide +kernel
  have hclosed : ∀ os, Comment fixture .standard noted os →
      ∀ o ∈ os, o.result = none → o.Closed := by
    intro os hos o ho hnone _
    obtain rfl := hos.unique comment_noted
    rcases List.mem_cons.1 ho with rfl | ho
    · exact ⟨_, _, hgroup, (List.take_append_drop 6 (noted.drop 2)).symm⟩
    · obtain rfl := List.mem_singleton.1 ho
      cases hnone
  have hmore : isNext .openParen noted = false := by decide +kernel
  exact ⟨hnoted, hclosed, hmore,
    (directives_append_of_closed fixture .standard noted noted _ hnoted hclosed hmore).1 _ hnoted⟩

end DocDirectives.Parser
