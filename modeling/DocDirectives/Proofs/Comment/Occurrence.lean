import DocDirectives.Proofs.Grammar.Derivation

/-! # Directives as they stand in a comment

    A comment is read from one directive to the next. An occurrence records a directive as it is
    written, the tokens behind its name and what it gives; `Comment` relates the tokens of a comment
    that can be read to its occurrences. A comment has one list of occurrences, and what it gives is
    what they give, in order.

        Comment  ──▶ a token that is no '@', and Comment
                 ──▶ Occurs: '@', a name, and what is skipped or read behind it, then Comment -/

namespace DocDirectives.Parser

open Grammar

/-- A directive of a comment: its name as written, the tokens behind the name, and what it gives,
    which is nothing when it is ignored. -/
structure Occurrence where
  name : String
  behind : List Token
  result : Option Directive

/-- What is read behind a directive name: an argument list, or the placeholder where none is. -/
inductive ArgumentsBehind : List Token → Arguments → List Token → Prop
  | list {ts rest : List Token} {a : Arguments} : Derives ts a rest → ArgumentsBehind ts a rest
  | none {ts : List Token} : isNext .openParen ts = false → ArgumentsBehind ts .placeholder ts

/-- A directive at the front of the tokens, and the tokens from which the reading goes on. -/
inductive Occurs (site : Site) (ignored : IgnoredNames) :
    List Token → Occurrence → List Token → Prop
  | skipped {mark name : Token} {behind : List Token} : mark.kind = .start →
      ignored.contains name.text = true →
      Occurs site ignored (mark :: name :: behind) ⟨name.text, behind, none⟩ (skipGroup behind)
  | read {mark name : Token} {behind rest : List Token} {typeName : String} {a : Arguments} :
      mark.kind = .start → ignored.contains name.text = false →
      site.typeOf? name.text = some typeName → ArgumentsBehind behind a rest →
      Occurs site ignored (mark :: name :: behind)
        ⟨name.text, behind, some ⟨typeName, site.context, a⟩⟩ rest

/-- A comment that can be read, and its directives in order. -/
inductive Comment (site : Site) (ignored : IgnoredNames) : List Token → List Occurrence → Prop
  | nil : Comment site ignored [] []
  | prose {t : Token} {ts : List Token} {os : List Occurrence} : t.kind ≠ .start →
      Comment site ignored ts os → Comment site ignored (t :: ts) os
  | directive {ts us : List Token} {o : Occurrence} {os : List Occurrence} :
      Occurs site ignored ts o us → Comment site ignored us os → Comment site ignored ts (o :: os)

/-- What a list of occurrences gives. -/
def results (os : List Occurrence) : List Directive := os.filterMap Occurrence.result

variable {site : Site} {ignored : IgnoredNames}

/-! ### Steps of the reading -/

/-- A token that begins no directive is passed over. -/
theorem directives_cons (site : Site) (ignored : IgnoredNames) {t : Token} (ht : t.kind ≠ .start)
    (ts : List Token) : directives site ignored (t :: ts) = directives site ignored ts := by
  cases ts with
  | nil => rw [directives, directives, if_neg ht]
  | cons name rest => rw [directives, if_neg ht]

theorem argumentsBehind_iff {ts rest : List Token} {a : Arguments} :
    ArgumentsBehind ts a rest ↔ ∃ h, argumentsAfter ts = .ok (a, ⟨rest, h⟩) := by
  rw [argumentsAfter_eq_ok_iff]
  constructor
  · rintro (h | h)
    · exact .inl h
    · exact .inr ⟨h, rfl, rfl⟩
  · rintro (h | ⟨h, rfl, rfl⟩)
    · exact .list h
    · exact .none h

theorem results_cons (o : Occurrence) (os : List Occurrence) :
    results (o :: os) = o.result.toList ++ results os := by
  cases h : o.result <;> simp [results, h]

/-- What a directive gives comes before what is read behind it. -/
theorem directives_of_occurs {ts us : List Token} {o : Occurrence}
    (h : Occurs site ignored ts o us) :
    directives site ignored ts = (directives site ignored us).map (o.result.toList ++ ·) := by
  cases h with
  | skipped hm hn =>
    rw [directives, if_pos hm, if_pos hn]
    cases directives site ignored (skipGroup _) <;> rfl
  | read hm hn ht ha =>
    obtain ⟨hle, ha⟩ := argumentsBehind_iff.1 ha
    rw [directives, if_pos hm, if_neg (by simp [hn])]
    simp only [ht, ha]
    cases directives site ignored us <;> rfl

/-! ### Comments -/

/-- What a comment gives is what its occurrences give. -/
theorem Comment.directives {ts : List Token} {os : List Occurrence}
    (h : Comment site ignored ts os) : directives site ignored ts = .ok (results os) := by
  induction h with
  | nil =>
    rw [Parser.directives]
    rfl
  | prose ht _ ih => rw [directives_cons site ignored ht, ih]
  | directive ho _ ih =>
    rw [directives_of_occurs ho, ih, results_cons]
    rfl

/-- A comment that can be read has occurrences. -/
theorem exists_comment {ts : List Token} {ds : List Directive}
    (h : directives site ignored ts = .ok ds) : ∃ os, Comment site ignored ts os := by
  fun_induction Parser.directives site ignored ts generalizing ds with
  | case1 => exact ⟨[], .nil⟩
  | case2 => cases h
  | case3 t ht => exact ⟨[], .prose ht .nil⟩
  | case4 t name rest ht hn _ ih =>
    obtain ⟨os, hos⟩ := ih h
    exact ⟨_, .directive (.skipped ht hn) hos⟩
  | case5 => cases h
  | case6 => cases h
  | case7 => cases h
  | case8 t name rest ht hn typeName htype a rest' hle harg ds' hds ih =>
    obtain ⟨os, hos⟩ := ih hds
    have ha : ArgumentsBehind rest a rest' := argumentsBehind_iff.2 ⟨hle, harg⟩
    exact ⟨_, .directive (.read ht (by simpa using hn) htype ha) hos⟩
  | case9 t name rest ht ih =>
    obtain ⟨os, hos⟩ := ih h
    exact ⟨os, .prose ht hos⟩

theorem directives_eq_ok_iff {ts : List Token} {ds : List Directive} :
    directives site ignored ts = .ok ds ↔
      ∃ os, Comment site ignored ts os ∧ ds = results os := by
  constructor
  · intro h
    obtain ⟨os, hos⟩ := exists_comment h
    exact ⟨os, hos, Except.ok.inj (h.symm.trans hos.directives)⟩
  · rintro ⟨os, hos, rfl⟩
    exact hos.directives

/-! ### One reading -/

theorem ArgumentsBehind.unique {ts rest rest' : List Token} {a a' : Arguments}
    (h : ArgumentsBehind ts a rest) (h' : ArgumentsBehind ts a' rest') : a = a' ∧ rest = rest' := by
  obtain ⟨_, h⟩ := argumentsBehind_iff.1 h
  obtain ⟨_, h'⟩ := argumentsBehind_iff.1 h'
  cases h.symm.trans h'
  exact ⟨rfl, rfl⟩

theorem Occurs.unique {ts us us' : List Token} {o o' : Occurrence}
    (h : Occurs site ignored ts o us) (h' : Occurs site ignored ts o' us') : o = o' ∧ us = us' := by
  cases h with
  | skipped _ hn =>
    cases h' with
    | skipped => exact ⟨rfl, rfl⟩
    | read _ hn' => exact absurd (hn.symm.trans hn') (by decide)
  | read _ hn ht ha =>
    cases h' with
    | skipped _ hn' => exact absurd (hn.symm.trans hn') (by decide)
    | read _ _ ht' ha' =>
      obtain ⟨rfl, rfl⟩ := ha.unique ha'
      cases ht.symm.trans ht'
      exact ⟨rfl, rfl⟩

theorem Occurs.start {ts us : List Token} {o : Occurrence} (h : Occurs site ignored ts o us) :
    isNext .start ts = true := by
  cases h with
  | skipped hm => simp [isNext, hm]
  | read hm => simp [isNext, hm]

/-- The occurrences of a comment are determined by its tokens. -/
theorem Comment.unique {ts : List Token} {os os' : List Occurrence}
    (h : Comment site ignored ts os) (h' : Comment site ignored ts os') : os = os' := by
  induction h generalizing os' with
  | nil =>
    cases h' with
    | nil => rfl
    | directive ho => exact absurd ho.start (by simp [isNext])
  | prose ht _ ih =>
    cases h' with
    | prose _ h' => exact ih h'
    | directive ho => exact absurd (eq_of_beq ho.start) ht
  | directive ho _ ih =>
    cases h' with
    | nil => exact absurd ho.start (by simp [isNext])
    | prose ht => exact absurd (eq_of_beq ho.start) ht
    | directive ho' h' =>
      obtain ⟨rfl, rfl⟩ := ho.unique ho'
      rw [ih h']

end DocDirectives.Parser
