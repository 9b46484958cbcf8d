import DocDirectives.Config
import DocDirectives.Proofs.Comment.Failing

/-! # More known types

    Catalogs are ordered by what they know. A larger catalog takes every directive further that a
    smaller one takes, so the two readings of a comment go side by side up to the first directive
    that fails, and from there on they differ only where the smaller catalog did not know its type:
    a comment that is not unresolved stays what it is. -/

namespace DocDirectives

/-! ### Catalogs -/

/-- One catalog knows no type that another does not know. -/
instance : LE Catalog := ⟨fun c c' => ∀ n, c.knows n = true → c'.knows n = true⟩

theorem Catalog.le_trusting (c : Catalog) : c ≤ .trusting := fun _ _ => rfl

namespace Registry

theorem has_iff {r : Registry} {n : String} : r.has n = true ↔ n ∈ r.types.map Prod.fst := by
  simp [has, find?]

theorem has_register {r : Registry} {n m : String} {make : Option Constructor} :
    (r.register n make).has m = true ↔ m = n ∨ r.has m = true := by
  rw [has_iff, has_iff, register, unregister, List.map_append, List.mem_append, List.map_singleton,
    List.mem_singleton, or_comm]
  by_cases h : m = n
  · simp [h]
  · simp [h]

/-- A registry of names knows just those. -/
theorem has_ofNames {ns : List String} {n : String} : (ofNames ns).has n = true ↔ n ∈ ns := by
  have hfold : ∀ r : Registry, (ns.foldl (fun r n => r.register n none) r).has n = true ↔
      n ∈ ns ∨ r.has n = true := by
    induction ns with
    | nil => simp
    | cons m ns ih =>
      intro r
      rw [List.foldl_cons, ih, has_register, List.mem_cons, or_left_comm, or_assoc]
  rw [ofNames, hfold, has_iff]
  simp [empty]

end Registry

/-- With more known types, or with every import believed, a configuration has a larger catalog. -/
theorem Config.catalog_le {c c' : Config} (htypes : c.knownTypes ⊆ c'.knownTypes)
    (htrust : c.trustImports = true → c'.trustImports = true) : c.catalog ≤ c'.catalog := by
  rw [catalog, catalog]
  cases h' : c'.trustImports with
  | true => exact Catalog.le_trusting _
  | false =>
    have h : c.trustImports = false := by
      cases h : c.trustImports with
      | true => exact absurd (htrust h) (by simp [h'])
      | false => rfl
    rw [h]
    exact fun n hn => Registry.has_ofNames.2 (htypes (Registry.has_ofNames.1 hn))

/-! ### Directives -/

variable {site : Site} {larger : Catalog} {ignored : IgnoredNames}

/-- A name keeps its type when more types are known. -/
theorem Site.typeOf?_of_le (hle : site.catalog ≤ larger) {name typeName : String}
    (h : site.typeOf? name = some typeName) :
    Site.typeOf? { site with catalog := larger } name = some typeName := by
  rw [typeOf?] at h ⊢
  cases hresolve : site.symbols.resolve name with
  | byAlias s => simpa only [hresolve] using h
  | byShort s =>
    simp only [hresolve, Option.ite_none_right_eq_some] at h ⊢
    exact ⟨hle _ h.1, h.2⟩
  | unresolved => simp only [hresolve, reduceCtorEq] at h

namespace Parser

theorem Occurs.of_le (hle : site.catalog ≤ larger) {ts us : List Token} {o : Occurrence}
    (h : Occurs site ignored ts o us) : Occurs { site with catalog := larger } ignored ts o us := by
  cases h with
  | skipped hm hn => exact .skipped hm hn
  | read hm hn ht ha => exact .read hm hn (Site.typeOf?_of_le hle ht) ha

/-- A directive that fails, though not for its name, fails alike when more types are known. -/
theorem Fails.of_le (hle : site.catalog ≤ larger) {ts : List Token} {e : Failure}
    (h : Fails site ignored ts e) (he : ∀ n context, e ≠ .unresolved n context) :
    Fails { site with catalog := larger } ignored ts e := by
  cases h with
  | nameless hm => exact .nameless hm
  | untyped => exact absurd rfl (he _ _)
  | malformed hm hn ht ha => exact .malformed hm hn (Site.typeOf?_of_le hle ht) ha

/-! ### Comments -/

theorem Comment.of_le (hle : site.catalog ≤ larger) {ts : List Token} {os : List Occurrence}
    (h : Comment site ignored ts os) : Comment { site with catalog := larger } ignored ts os := by
  induction h with
  | nil => exact .nil
  | prose ht _ ih => exact .prose ht ih
  | directive ho _ ih => exact .directive (ho.of_le hle) ih

theorem Beginning.of_le (hle : site.catalog ≤ larger) {ts us : List Token} {os : List Occurrence}
    (h : Beginning site ignored ts os us) :
    Beginning { site with catalog := larger } ignored ts os us := by
  induction h with
  | nil => exact .nil
  | prose ht _ ih => exact .prose ht ih
  | directive ho _ ih => exact .directive (ho.of_le hle) ih

/-- Whatever a comment gives, unless it is unresolved, it gives when more types are known. -/
theorem directives_of_le (hle : site.catalog ≤ larger) {ts : List Token}
    (h : ∀ n context, directives site ignored ts ≠ .error (.unresolved n context)) :
    directives { site with catalog := larger } ignored ts = directives site ignored ts := by
  cases hts : directives site ignored ts with
  | ok ds =>
    obtain ⟨os, hos, rfl⟩ := directives_eq_ok_iff.1 hts
    exact (hos.of_le hle).directives
  | error e =>
    have he : ∀ n context, e ≠ .unresolved n context := by
      rintro n context rfl
      exact h n context hts
    obtain ⟨os, us, hos, hus⟩ := exists_fails hts
    exact (hos.of_le hle).directives (hus.of_le hle he).directives

/-- A comment that is not unresolved gives the same when more types are known: the same directives,
    or the same mismatch. The catalog that believes every import is the largest, and a
    configuration has a larger one when it knows more types or begins to believe imports. -/
theorem parse_of_le (p : Parser) (site : Site) (text : String) :
    (∀ larger, site.catalog ≤ larger →
      (∀ n context, p.parse site text ≠ .error (.unresolved n context)) →
      p.parse { site with catalog := larger } text = p.parse site text) ∧
    site.catalog ≤ .trusting ∧
    ∀ c c' : Config, c.knownTypes ⊆ c'.knownTypes →
      (c.trustImports = true → c'.trustImports = true) → c.catalog ≤ c'.catalog :=
  ⟨fun _ hle h => directives_of_le hle h, site.catalog.le_trusting, fun _ _ => Config.catalog_le⟩

/-- Where `A` and `B` are imported, and only `A` is known. -/
def oneKnown : Site :=
  ⟨"type Fixture", [.plain "app::A", .plain "app::B"], (Registry.ofNames ["app::A"]).catalog⟩

/-- A comment that breaks off in its second directive, with an unknown name behind. -/
def broken : String := "@A @A(1 2) @B"

theorem parse_of_le_broken :
    oneKnown.catalog ≤ .trusting ∧
      (∀ n context, Parser.parse {} oneKnown broken ≠ .error (.unresolved n context)) ∧
      Parser.parse {} { oneKnown with catalog := .trusting } broken =
        .error (.unexpected "type Fixture" "parenthesis" "close-parenthesis") := by
  have hfailure : (Parser.parse {} oneKnown broken).map (fun _ => ()) =
      .error (.unexpected "type Fixture" "parenthesis" "close-parenthesis") := by
    decide +kernel
  have hparse : Parser.parse {} oneKnown broken =
      .error (.unexpected "type Fixture" "parenthesis" "close-parenthesis") := by
    cases hresult : Parser.parse {} oneKnown broken with
    | ok ds =>
      rw [hresult] at hfailure
      cases hfailure
    | error e =>
      rw [hresult] at hfailure
      exact congrArg Except.error (Except.error.inj hfailure)
  obtain ⟨hlarger, hle, -⟩ := parse_of_le {} oneKnown broken
  have h : ∀ n context, Parser.parse {} oneKnown broken ≠ .error (.unresolved n context) := by
    intro n context
    rw [hparse]
    simp
  exact ⟨hle, h, (hlarger .trusting hle h).trans hparse⟩

end Parser

end DocDirectives
