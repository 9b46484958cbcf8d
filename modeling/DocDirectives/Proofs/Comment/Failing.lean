import DocDirectives.Proofs.Comment.Occurrence

/-! # The first directive that fails

    A comment that cannot be read still has a beginning that can: the directives in front of the
    first one that fails. A directive fails for want of a name, because its name gives no type, or
    because the tokens behind the name are no argument list, and these are looked at in this
    order. -/

namespace DocDirectives.Parser

open Grammar

/-- The beginning of a comment, the directives in it, and the tokens behind it. -/
inductive Beginning (site : Site) (ignored : IgnoredNames) :
    List Token → List Occurrence → List Token → Prop
  | nil {us : List Token} : Beginning site ignored us [] us
  | prose {t : Token} {ts us : List Token} {os : List Occurrence} : t.kind ≠ .start →
      Beginning site ignored ts os us → Beginning site ignored (t :: ts) os us
  | directive {ts vs us : List Token} {o : Occurrence} {os : List Occurrence} :
      Occurs site ignored ts o vs → Beginning site ignored vs os us →
      Beginning site ignored ts (o :: os) us

/-- The failure of a directive at the front of the tokens. -/
inductive Fails (site : Site) (ignored : IgnoredNames) : List Token → Failure → Prop
  | nameless {mark : Token} : mark.kind = .start →
      Fails site ignored [mark] (site.failure ⟨"directive", "annotation name"⟩)
  | untyped {mark name : Token} {behind : List Token} : mark.kind = .start →
      ignored.contains name.text = false → site.typeOf? name.text = none →
      Fails site ignored (mark :: name :: behind) (.unresolved name.text site.context)
  | malformed {mark name : Token} {behind : List Token} {typeName : String} {m : Mismatch} :
      mark.kind = .start → ignored.contains name.text = false →
      site.typeOf? name.text = some typeName → argumentsAfter behind = .error m →
      Fails site ignored (mark :: name :: behind) (site.failure m)

variable {site : Site} {ignored : IgnoredNames}

theorem Fails.directives {ts : List Token} {e : Failure} (h : Fails site ignored ts e) :
    directives site ignored ts = .error e := by
  cases h with
  | nameless hm => rw [Parser.directives, if_pos hm]
  | untyped hm hn ht =>
    rw [Parser.directives, if_pos hm, if_neg (by simp [hn])]
    simp only [ht]
  | malformed hm hn ht ha =>
    rw [Parser.directives, if_pos hm, if_neg (by simp [hn])]
    simp only [ht, ha]

/-- What fails behind a beginning fails the comment. -/
theorem Beginning.directives {ts us : List Token} {os : List Occurrence} {e : Failure}
    (h : Beginning site ignored ts os us) (hus : directives site ignored us = .error e) :
    directives site ignored ts = .error e := by
  induction h with
  | nil => exact hus
  | prose ht _ ih => rw [directives_cons site ignored ht, ih hus]
  | directive ho _ ih =>
    rw [directives_of_occurs ho, ih hus]
    rfl

/-- A comment that cannot be read has a first directive that fails. -/
theorem exists_fails {ts : List Token} {e : Failure} (h : directives site ignored ts = .error e) :
    ∃ os us, Beginning site ignored ts os us ∧ Fails site ignored us e := by
  fun_induction Parser.directives site ignored ts generalizing e with
  | case1 => cases h
  | case2 t ht =>
    cases h
    exact ⟨[], [t], .nil, .nameless ht⟩
  | case3 => cases h
  | case4 t name rest ht hn _ ih =>
    obtain ⟨os, us, hos, hus⟩ := ih h
    exact ⟨_, us, .directive (.skipped ht hn) hos, hus⟩
  | case5 t name rest ht hn htype =>
    cases h
    exact ⟨[], _, .nil, .untyped ht (by simpa using hn) htype⟩
  | case6 t name rest ht hn typeName htype m hargs =>
    cases h
    exact ⟨[], _, .nil, .malformed ht (by simpa using hn) htype hargs⟩
  | case7 t name rest ht hn typeName htype a rest' hle hargs e' he ih =>
    cases h
    obtain ⟨os, us, hos, hus⟩ := ih he
    have ha : ArgumentsBehind rest a rest' := argumentsBehind_iff.2 ⟨hle, hargs⟩
    exact ⟨_, us, .directive (.read ht (by simpa using hn) htype ha) hos, hus⟩
  | case8 => cases h
  | case9 t name rest ht ih =>
    obtain ⟨os, us, hos, hus⟩ := ih h
    exact ⟨os, us, .prose ht hos, hus⟩

theorem directives_eq_error_iff {ts : List Token} {e : Failure} :
    directives site ignored ts = .error e ↔
      ∃ os us, Beginning site ignored ts os us ∧ Fails site ignored us e := by
  constructor
  · exact exists_fails
  · rintro ⟨os, us, hos, hus⟩
    exact hos.directives hus.directives

end DocDirectives.Parser
