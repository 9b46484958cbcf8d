import DocDirectives.Symbol
import Mathlib.Data.List.Nodup

/-! # What a directive name finds

    A file sees each of its imports under one name: the alias of a renamed import, the last segment
    of any other. Where these names are distinct, the look-up of a visible name finds the symbol
    that is seen under it, with one exception. A renamed import keeps its own last segment for the
    second pass, so standing first it captures the name of a later import that was not renamed. -/

namespace DocDirectives

namespace Symbol

/-- The name under which a file sees an import. -/
def visible (s : Symbol) : String := s.otherName.getD s.short

/-- Whether a renamed import has the own last segment `short`, a name under which it is not seen. -/
def captures (short : String) (s : Symbol) : Bool := s.otherName.isSome && s.short == short

theorem visible_of_otherName {s : Symbol} {a : String} (h : s.otherName = some a) :
    s.visible = a := by
  rw [visible, h, Option.getD_some]

theorem visible_of_plain {s : Symbol} (h : s.otherName = none) : s.visible = s.short := by
  rw [visible, h, Option.getD_none]

end Symbol

namespace SymbolTable

/-! ### The two passes -/

theorem resolve_of_alias {table : SymbolTable} {name : String} {s : Symbol}
    (h : table.find? (fun t => t.otherName == some (shortName name)) = some s) :
    table.resolve name = .byAlias s := by
  simp only [resolve, h]

theorem resolve_of_short {table : SymbolTable} {name : String} {s : Symbol}
    (ha : table.find? (fun t => t.otherName == some (shortName name)) = none)
    (hs : table.find? (fun t => t.short == shortName name) = some s) :
    table.resolve name = .byShort s := by
  simp only [resolve, ha, hs]

/-! ### Distinct visible names -/

/-- Nothing before or behind a symbol is seen under its name. -/
theorem visible_ne_of_nodup {before behind : SymbolTable} {s : Symbol}
    (distinct : ((before ++ s :: behind).map Symbol.visible).Nodup) :
    (∀ t ∈ before, t.visible ≠ s.visible) ∧ ∀ t ∈ behind, t.visible ≠ s.visible := by
  simp only [List.map_append, List.map_cons, List.nodup_append, List.nodup_cons,
    List.mem_cons, List.mem_map] at distinct
  obtain ⟨_, ⟨hbehind, _⟩, hbefore⟩ := distinct
  refine ⟨fun t ht => hbefore _ ⟨t, ht, rfl⟩ _ (.inl rfl), fun t ht he => hbehind ⟨t, ht, he⟩⟩

/-- A renamed import is the first with its alias. -/
theorem find?_alias_renamed {before behind : SymbolTable} {s : Symbol} {a : String}
    (ha : s.otherName = some a) (hbefore : ∀ t ∈ before, t.visible ≠ s.visible) :
    (before ++ s :: behind).find? (fun t => t.otherName == some a) = some s := by
  have hnone : before.find? (fun t => t.otherName == some a) = none := by
    refine List.find?_eq_none.2 fun t ht hta => hbefore t ht ?_
    rw [Symbol.visible_of_otherName ha, Symbol.visible_of_otherName (eq_of_beq hta)]
  rw [List.find?_append, hnone, Option.none_or, List.find?_cons_of_pos (by simp [ha])]

/-- The name of an import that was not renamed is no alias. -/
theorem find?_alias_plain {before behind : SymbolTable} {s : Symbol} (hs : s.otherName = none)
    (hbefore : ∀ t ∈ before, t.visible ≠ s.visible)
    (hbehind : ∀ t ∈ behind, t.visible ≠ s.visible) :
    (before ++ s :: behind).find? (fun t => t.otherName == some s.short) = none := by
  refine List.find?_eq_none.2 fun t ht hta => ?_
  have hv : t.visible = s.visible := by
    rw [Symbol.visible_of_plain hs, Symbol.visible_of_otherName (eq_of_beq hta)]
  rcases List.mem_append.1 ht with h | h
  · exact hbefore t h hv
  · rcases List.mem_cons.1 h with rfl | h
    · simp [hs] at hta
    · exact hbehind t h hv

/-- Before an import that was not renamed, only renamed ones have its last segment. -/
theorem find?_short_before {before : SymbolTable} {s : Symbol} (hs : s.otherName = none)
    (hbefore : ∀ t ∈ before, t.visible ≠ s.visible) :
    before.find? (fun t => t.short == s.short) = before.find? (Symbol.captures s.short) := by
  induction before with
  | nil => rfl
  | cons t ts ih =>
    have hts := ih fun u hu => hbefore u (List.mem_cons_of_mem _ hu)
    have ht := hbefore t List.mem_cons_self
    cases hta : t.otherName with
    | some a =>
      simp only [List.find?_cons, Symbol.captures, hta, Option.isSome_some, Bool.true_and, hts]
    | none =>
      rw [Symbol.visible_of_plain hs, Symbol.visible_of_plain hta] at ht
      rw [List.find?_cons_of_neg (by simpa using ht),
        List.find?_cons_of_neg (by simp [Symbol.captures, hta]), hts]

/-! ### The law -/

/-- Where visible names are distinct, a renamed import is found under its alias. Any other import is
    found under its last segment unless a renamed one with that last segment stands before it: then
    the first such one is found. -/
theorem resolve_visible (before behind : SymbolTable) (s : Symbol) (name : String)
    (distinct : ((before ++ s :: behind).map Symbol.visible).Nodup)
    (hname : shortName name = s.visible) :
    resolve (before ++ s :: behind) name =
        (if s.otherName.isSome then .byAlias s
         else .byShort ((before.find? (Symbol.captures s.short)).getD s)) ∧
      ((resolve (before ++ s :: behind) name).symbol? = some s ↔
        s.otherName.isSome ∨ ∀ t ∈ before, t.otherName.isSome → t.short ≠ s.short) := by
  obtain ⟨hbefore, hbehind⟩ := visible_ne_of_nodup distinct
  cases hs : s.otherName with
  | some a =>
    rw [Symbol.visible_of_otherName hs] at hname
    rw [resolve_of_alias (hname ▸ find?_alias_renamed hs hbefore)]
    simp [Resolution.symbol?]
  | none =>
    rw [Symbol.visible_of_plain hs] at hname
    have hshort : (before ++ s :: behind).find? (fun t => t.short == shortName name) =
        some ((before.find? (Symbol.captures s.short)).getD s) := by
      rw [hname, List.find?_append, find?_short_before hs hbefore,
        List.find?_cons_of_pos (by simp)]
      cases before.find? (Symbol.captures s.short) <;> rfl
    rw [resolve_of_short (hname ▸ find?_alias_plain hs hbefore hbehind) hshort]
    refine ⟨by simp, ?_⟩
    simp only [Resolution.symbol?, Option.isSome_none, Bool.false_eq_true, false_or,
      Option.some.injEq]
    constructor
    · intro h t ht htr hts
      cases hf : before.find? (Symbol.captures s.short) with
      | none =>
        exact absurd (List.find?_eq_none.1 hf t ht) (by simp [Symbol.captures, htr, hts])
      | some u =>
        -- the captured name would be the visible name of `u` itself, which is renamed
        rw [hf, Option.getD_some] at h
        have hu := List.find?_some hf
        simp [Symbol.captures, h, hs] at hu
    · intro h
      rw [List.find?_eq_none.2 fun t ht hc => ?_, Option.getD_none]
      simp only [Symbol.captures, Bool.and_eq_true, beq_iff_eq] at hc
      exact h t ht hc.1 hc.2

/-- An import of `Route` behind a renamed import of another `Route`. -/
def twoRoutes : SymbolTable := [.renamed "other::Route" "Endpoint", .plain "app::Route"]

theorem resolve_visible_twoRoutes :
    (twoRoutes.map Symbol.visible).Nodup ∧
      shortName "app.Route" = (Symbol.plain "app::Route").visible ∧
      twoRoutes.resolve "app.Route" = .byShort (.renamed "other::Route" "Endpoint") := by
  have distinct : (twoRoutes.map Symbol.visible).Nodup := by decide +kernel
  have hname : shortName "app.Route" = (Symbol.plain "app::Route").visible := by decide +kernel
  have h := resolve_visible [.renamed "other::Route" "Endpoint"] [] (.plain "app::Route")
    "app.Route" distinct hname
  exact ⟨distinct, hname, h.1.trans (by decide +kernel)⟩

/-- Distinct visible names alone do not make a look-up find what is seen under the name. -/
theorem resolve_not_always_visible :
    ¬ ∀ (table : SymbolTable) (s : Symbol) (name : String), s ∈ table →
      (table.map Symbol.visible).Nodup → shortName name = s.visible →
      (table.resolve name).symbol? = some s := by
  intro h
  have hroute := h twoRoutes (.plain "app::Route") "Route" (by decide +kernel) (by decide +kernel)
    (by decide +kernel)
  exact absurd hroute (by decide +kernel)

end SymbolTable

end DocDirectives
