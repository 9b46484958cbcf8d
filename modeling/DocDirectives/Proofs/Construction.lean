import DocDirectives.Proofs.Comment.Naming
import DocDirectives.Proofs.Reading

/-! # Building instances

    A host builds an instance for each directive that a file gives, and the first directive that it
    refuses fails the file. A registry refuses a directive for one of two reasons: the constructor
    does not take the arguments, or the type is not registered. The second is left to aliases, since
    a name that is found without one was asked for in the same registry. -/

namespace DocDirectives

/-! ### Lists of readings -/

section Readings

variable {α β γ ε : Type}

theorem map_eq_ok_iff {x : Except ε α} {g : α → β} {b : β} :
    x.map g = .ok b ↔ ∃ a, x = .ok a ∧ g a = b := by
  cases x <;> simp [Except.map]

theorem map_eq_error_iff {x : Except ε α} {g : α → β} {e : ε} :
    x.map g = .error e ↔ x = .error e := by
  cases x <;> simp [Except.map]

/-- Every member has a partner just when the list has a list of partners. -/
theorem exists_forall₂_iff {R : α → β → Prop} {xs : List α} :
    (∃ ys, List.Forall₂ R xs ys) ↔ ∀ x ∈ xs, ∃ y, R x y := by
  induction xs with
  | nil => exact ⟨fun _ x hx => absurd hx List.not_mem_nil, fun _ => ⟨[], .nil⟩⟩
  | cons x xs ih =>
    rw [List.forall_mem_cons, ← ih]
    constructor
    · rintro ⟨_, _ | ⟨hfirst, hrest⟩⟩
      exact ⟨⟨_, hfirst⟩, _, hrest⟩
    · rintro ⟨⟨y, hfirst⟩, ys, hrest⟩
      exact ⟨y :: ys, .cons hfirst hrest⟩

/-- Two steps of a reading, member by member or list by list. -/
theorem forall₂_through {R : α → β → Prop} {S : β → γ → Prop} {xs : List α} {zs : List γ} :
    List.Forall₂ (fun x z => ∃ y, R x y ∧ S y z) xs zs ↔
      ∃ ys, List.Forall₂ R xs ys ∧ List.Forall₂ S ys zs := by
  constructor
  · intro h
    induction h with
    | nil => exact ⟨[], .nil, .nil⟩
    | cons hfirst _ ih =>
      obtain ⟨y, hR, hS⟩ := hfirst
      obtain ⟨ys, hRs, hSs⟩ := ih
      exact ⟨y :: ys, .cons hR hRs, .cons hS hSs⟩
  · rintro ⟨ys, hR, hS⟩
    induction hR generalizing zs with
    | nil =>
      cases hS
      exact .nil
    | cons hfirst _ ih =>
      cases hS with
      | cons hS hSs => exact .cons ⟨_, hfirst, hS⟩ (ih hSs)

end Readings

namespace Host

variable {α : Type} {h : Host α} {p : Parser} {f : SourceFile} {d : Declaration} {e : Failure}

/-! ### One declaration -/

/-- `a` is the instance of a directive, under its name and for its declaration. -/
structure Builds (h : Host α) (x : Directive) (a : Attached α) : Prop where
  typeName : a.typeName = x.name
  context : a.context = x.context
  inst : h.construct x.name x.arguments = .ok a.inst

/-- A declaration with an instance for each directive that it gives, in order. -/
structure BuildsAll (h : Host α) (given : DeclarationDirectives)
    (built : Declaration × List (Attached α)) : Prop where
  declaration : built.1 = given.declaration
  instances : List.Forall₂ h.Builds given.directives built.2

theorem attach_eq_ok_iff {x : Directive} {a : Attached α} : h.attach x = .ok a ↔ h.Builds x a := by
  obtain ⟨typeName, context, inst⟩ := a
  unfold attach
  constructor
  · intro hx
    split at hx
    · next hinst =>
      cases hx
      exact ⟨rfl, rfl, hinst⟩
    · cases hx
  · rintro ⟨rfl, rfl, hinst⟩
    rw [hinst]

theorem attach_eq_error_iff {x : Directive} :
    h.attach x = .error e ↔ ∃ message, h.construct x.name x.arguments = .error message ∧
      e = .construction x.name x.context message := by
  unfold attach
  cases h.construct x.name x.arguments with
  | ok inst => simp
  | error message => simp [eq_comm]

theorem attachedTo_eq_ok_iff {as : List (Attached α)} :
    h.attachedTo p f d = .ok as ↔
      ∃ xs, p.parseDeclaration h.catalog f d = .ok xs ∧ List.Forall₂ h.Builds xs as := by
  unfold attachedTo
  cases p.parseDeclaration h.catalog f d with
  | error e => simp
  | ok xs => simp [mapM_eq_ok_iff, attach_eq_ok_iff]

/-- A declaration fails as its comment does, or as the first directive that the host refuses. -/
theorem attachedTo_eq_error_iff :
    h.attachedTo p f d = .error e ↔ p.parseDeclaration h.catalog f d = .error e ∨
      ∃ before x behind message,
        p.parseDeclaration h.catalog f d = .ok (before ++ x :: behind) ∧
        (∀ b ∈ before, ∃ a, h.Builds b a) ∧ h.construct x.name x.arguments = .error message ∧
        e = .construction x.name x.context message := by
  unfold attachedTo
  cases p.parseDeclaration h.catalog f d with
  | error e' => simp
  | ok xs =>
    simp only [mapM_eq_error_iff, attach_eq_ok_iff, attach_eq_error_iff, reduceCtorEq, false_or,
      Except.ok.injEq]
    constructor
    · rintro ⟨before, x, behind, hxs, hbefore, message, hmessage, he⟩
      exact ⟨before, x, behind, message, hxs, hbefore, hmessage, he⟩
    · rintro ⟨before, x, behind, message, hxs, hbefore, hmessage, he⟩
      exact ⟨before, x, behind, hxs, hbefore, message, hmessage, he⟩

/-! ### A file -/

/-- What the loop over the declarations keeps for one of them. -/
theorem keeps_iff {built : Declaration × List (Attached α)} :
    (h.attachedTo p f d).map (fun as => (d, as)) = .ok built ↔
      ∃ given, Parser.Gives p h.catalog f d given ∧ h.BuildsAll given built := by
  simp only [map_eq_ok_iff, attachedTo_eq_ok_iff]
  constructor
  · rintro ⟨as, ⟨xs, hparse, hbuilds⟩, rfl⟩
    exact ⟨⟨d, xs⟩, ⟨rfl, hparse⟩, rfl, hbuilds⟩
  · rintro ⟨⟨_, xs⟩, ⟨rfl, hparse⟩, rfl, hbuilds⟩
    exact ⟨built.2, ⟨xs, hparse, hbuilds⟩, rfl⟩

/-- A file gives its declarations with their instances, without those that have none. -/
theorem readSource_eq_ok_iff {all : List (Declaration × List (Attached α))} :
    h.readSource p f = .ok all ↔ ∃ given built, p.parseSource h.catalog f = .ok given ∧
      List.Forall₂ h.BuildsAll given built ∧ all = built.filter fun b => !b.2.isEmpty := by
  rw [readSource, map_eq_ok_iff]
  simp only [mapM_eq_ok_iff, keeps_iff, forall₂_through, Parser.parseSource_eq_ok_iff]
  constructor
  · rintro ⟨built, ⟨given, hgiven, hbuilt⟩, rfl⟩
    exact ⟨given, built, hgiven, hbuilt, rfl⟩
  · rintro ⟨given, built, hgiven, hbuilt, rfl⟩
    exact ⟨built, ⟨given, hgiven, hbuilt⟩, rfl⟩

/-- Instances can be built of all directives when the host takes each of them. -/
theorem exists_buildsAll_iff {given : DeclarationDirectives} :
    (∃ built, h.BuildsAll given built) ↔
      ∀ x ∈ given.directives, ∃ inst, h.construct x.name x.arguments = .ok inst := by
  constructor
  · rintro ⟨built, hbuilt⟩ x hx
    obtain ⟨a, ha⟩ := exists_forall₂_iff.1 ⟨_, hbuilt.instances⟩ x hx
    exact ⟨a.inst, ha.inst⟩
  · intro htakes
    have hbuilds : ∀ x ∈ given.directives, ∃ a, h.Builds x a := by
      intro x hx
      obtain ⟨inst, hinst⟩ := htakes x hx
      exact ⟨⟨x.name, x.context, inst⟩, rfl, rfl, hinst⟩
    obtain ⟨as, has⟩ := exists_forall₂_iff.2 hbuilds
    exact ⟨(given.declaration, as), rfl, has⟩

/-- A file can be read when it can be parsed and the host takes every directive that it gives. -/
theorem exists_readSource_iff : (∃ all, h.readSource p f = .ok all) ↔
    ∃ given, p.parseSource h.catalog f = .ok given ∧
      ∀ g ∈ given, ∀ x ∈ g.directives, ∃ inst, h.construct x.name x.arguments = .ok inst := by
  simp only [← exists_buildsAll_iff, ← exists_forall₂_iff (R := h.BuildsAll), readSource_eq_ok_iff]
  constructor
  · rintro ⟨all, given, built, hgiven, hbuilt, -⟩
    exact ⟨given, hgiven, built, hbuilt⟩
  · rintro ⟨given, hgiven, built, hbuilt⟩
    exact ⟨_, given, built, hgiven, hbuilt, rfl⟩

/-- The declarations that are given back are those with directives, and each directive has its
    instance. -/
theorem buildsAll_of_readSource {all : List (Declaration × List (Attached α))}
    (hall : h.readSource p f = .ok all) :
    ∃ given, p.parseSource h.catalog f = .ok given ∧
      List.Forall₂ h.BuildsAll (given.filter fun g => !g.directives.isEmpty) all := by
  obtain ⟨given, built, hgiven, hbuilt, rfl⟩ := readSource_eq_ok_iff.1 hall
  refine ⟨given, hgiven, List.rel_filter (fun g b hb => ?_) hbuilt⟩
  have hlength := hb.instances.length_eq
  change (!g.directives.isEmpty) = true ↔ (!b.2.isEmpty) = true
  rw [Bool.not_eq_true', Bool.not_eq_true', List.isEmpty_eq_false_iff, List.isEmpty_eq_false_iff,
    ← List.length_pos_iff, ← List.length_pos_iff, hlength]

/-- A file fails as one of its documented declarations does. -/
theorem exists_of_readSource_error (he : h.readSource p f = .error e) :
    ∃ d ∈ f.documented, h.attachedTo p f d = .error e := by
  rw [readSource, map_eq_error_iff, mapM_eq_error_iff] at he
  obtain ⟨before, d, behind, hdoc, -, hd⟩ := he
  exact ⟨d, hdoc ▸ List.mem_append_right _ List.mem_cons_self, map_eq_error_iff.1 hd⟩

end Host

/-! ### What a constructor takes -/

/-- The list that is passed to a constructor: the positional values, and behind them the map of the
    named ones when there are any. -/
inductive Arguments.Passes : Arguments → List Literal → Prop
  | positional {vs : List Literal} : Passes ⟨vs, ⟨[]⟩⟩ vs
  | named {vs : List Literal} {es : List (Key × Literal)} : es ≠ [] →
      Passes ⟨vs, ⟨es⟩⟩ (vs ++ [.map es])

theorem Arguments.passes_iff {a : Arguments} {vs : List Literal} :
    a.Passes vs ↔ a.forConstructor = vs := by
  constructor
  · rintro (_ | hne)
    · rfl
    · exact if_neg (by simpa [LiteralMap.isEmpty] using hne)
  · rintro rfl
    obtain ⟨vs, ⟨es⟩⟩ := a
    unfold forConstructor LiteralMap.isEmpty LiteralMap.toLiteral
    cases es with
    | nil => exact .positional
    | cons e es => exact .named (List.cons_ne_nil e es)

/-! ### Registries -/

namespace Registry

variable {r : Registry} {p : Parser} {f : SourceFile} {x : Directive} {message : String}

/-- A directive names a registered type, and the constructor, if there is one, takes the
    arguments. -/
structure Accepts (r : Registry) (x : Directive) : Prop where
  registered : r.has x.name = true
  takes : ∀ make, r.find? x.name = some (x.name, some make) →
    ∃ vs state, x.arguments.Passes vs ∧ make vs = .ok state

/-- The constructor of a registered type does not take the arguments, and says why. -/
def Untaken (r : Registry) (x : Directive) (message : String) : Prop :=
  ∃ make vs, r.find? x.name = some (x.name, some make) ∧ x.arguments.Passes vs ∧
    make vs = .error message

/-- What a registry knows of a type, under its name. -/
theorem find?_cases (r : Registry) (n : String) :
    r.has n = false ∧ r.find? n = none ∨
      ∃ make, r.has n = true ∧ r.find? n = some (n, make) := by
  unfold has
  cases hfind : r.find? n with
  | none => exact .inl ⟨rfl, rfl⟩
  | some t =>
    obtain ⟨m, make⟩ := t
    rw [find?] at hfind
    have hname := List.find?_some hfind
    obtain rfl : m = n := by simpa using hname
    exact .inr ⟨make, rfl, rfl⟩

theorem exists_construct_iff :
    (∃ inst, r.construct x.name x.arguments = .ok inst) ↔ r.Accepts x := by
  rcases find?_cases r x.name with ⟨hhas, hfind⟩ | ⟨make, hhas, hfind⟩
  · constructor
    · rintro ⟨inst, hinst⟩
      simp [construct, hfind] at hinst
    · rintro ⟨hregistered, -⟩
      simp [hhas] at hregistered
  · cases make with
    | none =>
      have hinst : r.construct x.name x.arguments = .ok ⟨x.name, .null⟩ := by
        simp only [construct, hfind]
      exact ⟨fun _ => ⟨hhas, fun make hmake => by simp [hfind] at hmake⟩, fun _ => ⟨_, hinst⟩⟩
    | some make =>
      have hinst : (∃ inst, r.construct x.name x.arguments = .ok inst) ↔
          ∃ vs state, x.arguments.Passes vs ∧ make vs = .ok state := by
        simp only [construct, hfind, map_eq_ok_iff, Arguments.passes_iff]
        constructor
        · rintro ⟨inst, state, hstate, -⟩
          exact ⟨_, state, rfl, hstate⟩
        · rintro ⟨_, state, rfl, hstate⟩
          exact ⟨_, state, hstate, rfl⟩
      rw [hinst]
      refine ⟨fun htakes => ⟨hhas, fun make' hmake' => ?_⟩, fun h => h.takes make hfind⟩
      obtain rfl : make = make' := by simpa [hfind] using hmake'
      exact htakes

/-- A registry refuses a type that it does not know, and arguments that the constructor refuses. -/
theorem construct_eq_error_iff :
    r.construct x.name x.arguments = .error message ↔
      r.has x.name = false ∧ message = s!"type {x.name} is not registered" ∨
        r.Untaken x message := by
  rcases find?_cases r x.name with ⟨hhas, hfind⟩ | ⟨make, hhas, hfind⟩
  · simp only [construct, hfind, hhas, Untaken]
    simp [eq_comm]
  · cases make with
    | none => simp [construct, hfind, hhas, Untaken]
    | some make =>
      simp [construct, hfind, hhas, Untaken, map_eq_error_iff, Arguments.passes_iff]

/-! ### Names -/

open DocDirectives.Parser

/-- The type of a directive was found by an alias, or it was asked for and is registered. -/
theorem resolve_of_denotes {n typeName : String} {d : Declaration}
    (h : (f.site r.catalog d).Denotes n typeName) :
    (∃ s, f.symbols.resolve n = .byAlias s ∧ s.fullName = typeName) ∨
      ∃ s, f.symbols.resolve n = .byShort s ∧ s.fullName = typeName ∧ r.has typeName = true := by
  cases h with
  | byAlias hfirst => exact .inl ⟨_, SymbolTable.resolve_eq_byAlias_iff.2 hfirst, rfl⟩
  | byShort hnone hfirst hknown =>
    exact .inr ⟨_, SymbolTable.resolve_eq_byShort_iff.2 ⟨hnone, hfirst⟩, rfl, hknown⟩

/-- Why a registry refuses a directive, by the name that it is written with. -/
inductive Refuses (r : Registry) (table : SymbolTable) (written : String) (x : Directive) :
    String → Prop
  | unregistered {s : Symbol} : table.resolve written = .byAlias s → s.fullName = x.name →
      r.has x.name = false → Refuses r table written x s!"type {x.name} is not registered"
  | untaken {message : String} : r.Untaken x message → Refuses r table written x message

variable {d : Declaration} {os : List Occurrence} {o : Occurrence}

/-- What a registry refuses was found by an alias or is refused by its constructor. -/
theorem refuses_of_construct_error (hos : Comment (f.site r.catalog d) p.ignored
      (p.classifier.tokens d.documentation.toList) os)
    (ho : o ∈ os) (hx : o.result = some x)
    (hmessage : r.construct x.name x.arguments = .error message) :
    r.Refuses f.symbols o.name x message := by
  obtain ⟨-, hdenotes⟩ := hos.denotes o ho x hx
  rcases construct_eq_error_iff.1 hmessage with ⟨hhas, rfl⟩ | huntaken
  · rcases resolve_of_denotes hdenotes with ⟨s, hs, hname⟩ | ⟨s, -, -, hhas'⟩
    · exact .unregistered hs hname hhas
    · exact absurd (hhas.symm.trans hhas') (by decide)
  · exact .untaken huntaken

/-- A type that is found without an alias is registered. -/
theorem has_of_byShort (hos : Comment (f.site r.catalog d) p.ignored
      (p.classifier.tokens d.documentation.toList) os)
    (ho : o ∈ os) (hx : o.result = some x) {s : Symbol}
    (hs : f.symbols.resolve o.name = .byShort s) : r.has x.name = true := by
  obtain ⟨-, hdenotes⟩ := hos.denotes o ho x hx
  rcases resolve_of_denotes hdenotes with ⟨s', hs', -⟩ | ⟨s', -, -, hhas⟩
  · exact absurd (hs.symm.trans hs') (by simp)
  · exact hhas

/-- A construction that fails a file is that of a directive in it, which the registry refuses. -/
theorem refuses_of_readSource_error {n context : String}
    (he : r.host.readSource p f = .error (.construction n context message)) :
    ∃ d ∈ f.documented, ∃ os,
      Comment (f.site r.catalog d) p.ignored (p.classifier.tokens d.documentation.toList) os ∧
      ∃ o ∈ os, ∃ x, o.result = some x ∧ x.name = n ∧ x.context = context ∧
        r.Refuses f.symbols o.name x message := by
  obtain ⟨d, hd, he⟩ := Host.exists_of_readSource_error he
  rcases Host.attachedTo_eq_error_iff.1 he with he | ⟨before, x, behind, message', hxs, -, hm, he⟩
  · -- a comment fails by its text or by a name, never by a construction
    rcases directives_error he with ⟨_, _, he⟩ | ⟨_, he⟩ <;> cases he
  · cases he
    obtain ⟨os, hos, hresults⟩ := directives_eq_ok_iff.1 hxs
    have hx : x ∈ results os := hresults ▸ List.mem_append_right _ List.mem_cons_self
    obtain ⟨o, ho, hx⟩ := List.mem_filterMap.1 hx
    exact ⟨d, hd, os, hos, o, ho, x, hx, rfl, rfl, refuses_of_construct_error hos ho hx hm⟩

/-- A file can be read with a registry just when it can be parsed and the registry accepts every
    directive that it gives; then the declarations with directives are given back, each with an
    instance for every directive. A type that was found without an alias is registered, so such a
    directive is refused by its constructor only. The first directive that is refused fails the
    file, and when its type is not registered it was found by an alias. -/
theorem readSource_registry (r : Registry) (p : Parser) (f : SourceFile) :
    ((∃ all, r.host.readSource p f = .ok all) ↔
      ∃ given, p.parseSource r.catalog f = .ok given ∧
        ∀ g ∈ given, ∀ x ∈ g.directives, r.Accepts x) ∧
    (∀ all, r.host.readSource p f = .ok all →
      ∃ given, p.parseSource r.catalog f = .ok given ∧
        List.Forall₂ r.host.BuildsAll (given.filter fun g => !g.directives.isEmpty) all) ∧
    (∀ d xs, p.parseDeclaration r.catalog f d = .ok xs →
      ∃ os, Comment (f.site r.catalog d) p.ignored (p.classifier.tokens d.documentation.toList) os ∧
        xs = results os ∧ ∀ o ∈ os, ∀ x, o.result = some x →
          (∀ s, f.symbols.resolve o.name = .byShort s → r.has x.name = true ∧
            ∀ message, r.construct x.name x.arguments = .error message → r.Untaken x message) ∧
          ∀ message, r.construct x.name x.arguments = .error message →
            r.Refuses f.symbols o.name x message) ∧
    ∀ n context message, r.host.readSource p f = .error (.construction n context message) →
      ∃ d ∈ f.documented, ∃ os,
        Comment (f.site r.catalog d) p.ignored (p.classifier.tokens d.documentation.toList) os ∧
        ∃ o ∈ os, ∃ x, o.result = some x ∧ x.name = n ∧ x.context = context ∧
          r.Refuses f.symbols o.name x message := by
  refine ⟨?_, fun all => Host.buildsAll_of_readSource, ?_, ?_⟩
  · simp only [← exists_construct_iff]
    exact Host.exists_readSource_iff
  · intro d xs hxs
    obtain ⟨os, hos, rfl⟩ := directives_eq_ok_iff.1 hxs
    refine ⟨os, hos, rfl, fun o ho x hx => ⟨fun s hs => ?_, fun message =>
      refuses_of_construct_error hos ho hx⟩⟩
    have hhas := has_of_byShort hos ho hx hs
    refine ⟨hhas, fun message hmessage => ?_⟩
    rcases construct_eq_error_iff.1 hmessage with ⟨hhas', -⟩ | huntaken
    · exact absurd (hhas'.symm.trans hhas) (by decide)
    · exact huntaken
  · intro n context message he
    exact refuses_of_readSource_error he

end Registry

end DocDirectives
