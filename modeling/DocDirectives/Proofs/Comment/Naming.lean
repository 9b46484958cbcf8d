import DocDirectives.Proofs.Comment.Failing

/-! # What names a directive

    A directive name denotes a type by its last segment: the first import with that alias,
    whatever the catalog says, and where there is none the first import whose own last segment it
    is, if the catalog knows it. A comment gives types that its names denote, and it fails for a
    name just where the first directive that fails has one that denotes nothing. Ignored names are
    not asked. -/

namespace DocDirectives

/-- The first symbol of a table with a property. -/
def SymbolTable.FirstWith (table : SymbolTable) (P : Symbol → Prop) (s : Symbol) : Prop :=
  ∃ before behind, table = before ++ s :: behind ∧ P s ∧ ∀ t ∈ before, ¬P t

/-- The type that a directive name denotes. -/
inductive Site.Denotes (site : Site) (name : String) : String → Prop
  | byAlias {s : Symbol} :
      site.symbols.FirstWith (fun t => t.otherName = some (shortName name)) s →
      Site.Denotes site name s.fullName
  | byShort {s : Symbol} : (∀ t ∈ site.symbols, t.otherName ≠ some (shortName name)) →
      site.symbols.FirstWith (fun t => t.short = shortName name) s →
      site.catalog.knows s.fullName = true → Site.Denotes site name s.fullName

namespace SymbolTable

variable {table : SymbolTable} {s : Symbol} {name : String}

theorem find?_eq_some_iff_firstWith {p : Symbol → Bool} :
    table.find? p = some s ↔ table.FirstWith (fun t => p t = true) s := by
  rw [List.find?_eq_some_iff_append]
  constructor
  · rintro ⟨hs, before, behind, rfl, hbefore⟩
    exact ⟨before, behind, rfl, hs, fun t ht => by simpa using hbefore t ht⟩
  · rintro ⟨before, behind, rfl, hs, hbefore⟩
    exact ⟨hs, before, behind, rfl, fun t ht => by simpa using hbefore t ht⟩

theorem resolve_eq_byAlias_iff :
    table.resolve name = .byAlias s ↔
      table.FirstWith (fun t => t.otherName = some (shortName name)) s := by
  have hfind := @find?_eq_some_iff_firstWith table s
    (fun t => t.otherName == some (shortName name))
  simp only [beq_iff_eq] at hfind
  rw [← hfind, resolve]
  cases ha : table.find? fun t => t.otherName == some (shortName name) with
  | some t => simp
  | none => cases table.find? fun t => t.short == shortName name <;> simp

theorem resolve_eq_byShort_iff :
    table.resolve name = .byShort s ↔
      (∀ t ∈ table, t.otherName ≠ some (shortName name)) ∧
        table.FirstWith (fun t => t.short = shortName name) s := by
  have hfind := @find?_eq_some_iff_firstWith table s
    (fun t => t.short == shortName name)
  simp only [beq_iff_eq] at hfind
  rw [← hfind, resolve]
  cases ha : table.find? fun t => t.otherName == some (shortName name) with
  | some t =>
    have ht : t ∈ table := List.mem_of_find?_eq_some ha
    have halias : t.otherName = some (shortName name) := by simpa using List.find?_some ha
    simp only [reduceCtorEq, false_iff, not_and]
    exact fun h => absurd halias (h t ht)
  | none =>
    have hnone : ∀ t ∈ table, t.otherName ≠ some (shortName name) := by
      simpa using List.find?_eq_none.1 ha
    cases table.find? fun t => t.short == shortName name with
    | some t =>
      simp only [Resolution.byShort.injEq, Option.some.injEq]
      exact ⟨fun h => ⟨hnone, h⟩, And.right⟩
    | none => simp

end SymbolTable

variable {site : Site} {name typeName : String}

theorem Site.typeOf?_eq_some_iff :
    site.typeOf? name = some typeName ↔ site.Denotes name typeName := by
  constructor
  · intro h
    rw [Site.typeOf?] at h
    split at h
    · next s hs =>
      cases h
      exact .byAlias (SymbolTable.resolve_eq_byAlias_iff.1 hs)
    · next s hs =>
      split at h
      · next hknown =>
        cases h
        obtain ⟨hnone, hfirst⟩ := SymbolTable.resolve_eq_byShort_iff.1 hs
        exact .byShort hnone hfirst hknown
      · cases h
    · cases h
  · intro h
    cases h with
    | byAlias hfirst => simp only [Site.typeOf?, SymbolTable.resolve_eq_byAlias_iff.2 hfirst]
    | byShort hnone hfirst hknown =>
      simp only [Site.typeOf?, SymbolTable.resolve_eq_byShort_iff.2 ⟨hnone, hfirst⟩, hknown,
        if_true]

theorem Site.typeOf?_eq_none_iff : site.typeOf? name = none ↔ ∀ t, ¬site.Denotes name t := by
  simp only [← Site.typeOf?_eq_some_iff, Option.eq_none_iff_forall_ne_some, ne_eq]

namespace Parser

open Grammar

variable {ignored : IgnoredNames}

/-- What a directive gives has the type that its name denotes. -/
theorem Occurs.denotes {ts us : List Token} {o : Occurrence} {d : Directive}
    (h : Occurs site ignored ts o us) (hd : o.result = some d) :
    ignored.contains o.name = false ∧ site.Denotes o.name d.name := by
  cases h with
  | skipped => cases hd
  | read _ hn ht _ =>
    cases hd
    exact ⟨hn, Site.typeOf?_eq_some_iff.1 ht⟩

theorem Comment.denotes {ts : List Token} {os : List Occurrence} (h : Comment site ignored ts os) :
    ∀ o ∈ os, ∀ d, o.result = some d →
      ignored.contains o.name = false ∧ site.Denotes o.name d.name := by
  induction h with
  | nil => exact fun o ho => absurd ho List.not_mem_nil
  | prose _ _ ih => exact ih
  | directive ho _ ih =>
    intro o' ho' d hd
    rcases List.mem_cons.1 ho' with rfl | ho'
    · exact ho.denotes hd
    · exact ih o' ho' d hd

/-- A directive fails as unresolved when its name is not ignored and denotes nothing, whatever
    stands behind the name. -/
theorem fails_unresolved_iff {ts : List Token} {n context : String} :
    Fails site ignored ts (.unresolved n context) ↔
      context = site.context ∧ ignored.contains n = false ∧ (∀ t, ¬site.Denotes n t) ∧
        ∃ mark name behind, ts = mark :: name :: behind ∧ mark.kind = .start ∧ name.text = n := by
  constructor
  · intro h
    cases h with
    | @untyped mark name behind hm hn ht =>
      exact ⟨rfl, hn, Site.typeOf?_eq_none_iff.1 ht, mark, name, behind, rfl, hm, rfl⟩
  · rintro ⟨rfl, hn, ht, mark, name, behind, rfl, hm, rfl⟩
    exact .untyped hm hn (Site.typeOf?_eq_none_iff.2 ht)

/-- A comment that can be read gives, in order, what its directives that are not ignored give, each
    under the type that its name denotes. A comment fails for a name exactly when the first
    directive that fails has that name, it is not ignored, and it denotes no type; what stands
    behind the name is not looked at then. -/
theorem parse_denotes (p : Parser) (site : Site) (text : String) :
    let tokens := p.classifier.tokens text.toList
    (∀ ds, p.parse site text = .ok ds → ∃ os, Comment site p.ignored tokens os ∧
      ds = results os ∧ ∀ o ∈ os, ∀ d, o.result = some d →
        p.ignored.contains o.name = false ∧ site.Denotes o.name d.name) ∧
    ∀ n context, p.parse site text = .error (.unresolved n context) ↔
      context = site.context ∧ p.ignored.contains n = false ∧ (∀ t, ¬site.Denotes n t) ∧
        ∃ os mark name behind, Beginning site p.ignored tokens os (mark :: name :: behind) ∧
          mark.kind = .start ∧ name.text = n := by
  intro tokens
  constructor
  · intro ds hds
    obtain ⟨os, hos, rfl⟩ := directives_eq_ok_iff.1 hds
    exact ⟨os, hos, rfl, hos.denotes⟩
  · intro n context
    rw [parse, directives_eq_error_iff]
    simp only [fails_unresolved_iff]
    constructor
    · rintro ⟨os, us, hos, hcontext, hn, ht, mark, name, behind, rfl, hm, hname⟩
      exact ⟨hcontext, hn, ht, os, mark, name, behind, hos, hm, hname⟩
    · rintro ⟨hcontext, hn, ht, os, mark, name, behind, hos, hm, hname⟩
      exact ⟨os, _, hos, hcontext, hn, ht, mark, name, behind, rfl, hm, hname⟩

end Parser

end DocDirectives
