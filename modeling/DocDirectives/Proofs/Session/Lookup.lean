import DocDirectives.Proofs.Construction
import DocDirectives.Proofs.Session.Memory

/-! # Looking up one instance

    A look-up builds the first directive of a type and no other. Where all the directives of a
    declaration can be built, it gives the first instance of the type among them; where some cannot,
    it still gives what it is asked for, unless the comment does not parse or that one directive is
    refused. -/

namespace DocDirectives

/-- The first directive of a type in a list. -/
def Directive.First (typeName : String) (xs : List Directive) (x : Directive) : Prop :=
  ∃ before behind, xs = before ++ x :: behind ∧ x.name = typeName ∧ ∀ b ∈ before, b.name ≠ typeName

theorem Directive.find?_eq_some_iff_first {typeName : String} {xs : List Directive}
    {x : Directive} :
    xs.find? (fun r => r.name == typeName) = some x ↔ First typeName xs x := by
  rw [List.find?_eq_some_iff_append]
  constructor
  · rintro ⟨hx, before, behind, rfl, hbefore⟩
    exact ⟨before, behind, rfl, by simpa using hx, fun b hb => by simpa using hbefore b hb⟩
  · rintro ⟨before, behind, rfl, hx, hbefore⟩
    exact ⟨by simpa using hx, before, behind, rfl, fun b hb => by simpa using hbefore b hb⟩

namespace Host

variable {α : Type} {h : Host α} {p : Parser} {f : SourceFile} {d : Declaration}
  {typeName : String} {e : Failure} {xs : List Directive}

/-! ### Directives and their instances -/

/-- The first instance of a type is built of the first directive of that type. -/
theorem find?_builds {as : List (Attached α)} (hbuilds : List.Forall₂ h.Builds xs as)
    (typeName : String) :
    Option.Rel h.Builds (xs.find? fun r => r.name == typeName)
      (as.find? fun a => a.typeName == typeName) := by
  induction hbuilds with
  | nil => exact .none
  | @cons x a xs as hfirst _ ih =>
    have hname := hfirst.typeName
    by_cases hx : x.name = typeName
    · rw [List.find?_cons_of_pos (by simpa using hx),
        List.find?_cons_of_pos (by simpa [hname] using hx)]
      exact .some hfirst
    · rw [List.find?_cons_of_neg (by simpa using hx),
        List.find?_cons_of_neg (by simpa [hname] using hx)]
      exact ih

/-! ### What a look-up gives -/

/-- A look-up in a comment that parses. -/
theorem firstOf_of_ok (hparse : p.parseDeclaration h.catalog f d = .ok xs) :
    h.firstOf p f d typeName =
      match xs.find? fun r => r.name == typeName with
      | some x => (h.attach x).map fun a => some a.inst
      | none => .ok none := by
  cases hfind : xs.find? fun r => r.name == typeName with
  | some x => simp only [firstOf, hparse, hfind]
  | none => simp only [firstOf, hparse, hfind]

theorem firstOf_of_error (hparse : p.parseDeclaration h.catalog f d = .error e) :
    h.firstOf p f d typeName = .error e := by
  rw [firstOf, hparse]

/-- Among instances of all directives, a look-up finds the first of its type. -/
theorem firstOf_of_attachedTo {as : List (Attached α)} (has : h.attachedTo p f d = .ok as) :
    h.firstOf p f d typeName =
      .ok ((as.find? fun a => a.typeName == typeName).map Attached.inst) := by
  obtain ⟨xs, hparse, hbuilds⟩ := attachedTo_eq_ok_iff.1 has
  have hfind := find?_builds hbuilds typeName
  rw [firstOf_of_ok hparse]
  generalize xs.find? (fun r => r.name == typeName) = first at hfind ⊢
  generalize as.find? (fun a => a.typeName == typeName) = built at hfind ⊢
  cases hfind with
  | none => rfl
  | some hx =>
    simp only [attach_eq_ok_iff.2 hx]
    rfl

theorem firstOf_eq_none_iff :
    h.firstOf p f d typeName = .ok none ↔
      ∃ xs, p.parseDeclaration h.catalog f d = .ok xs ∧ ∀ x ∈ xs, x.name ≠ typeName := by
  cases hparse : p.parseDeclaration h.catalog f d with
  | error e => simp [firstOf_of_error hparse]
  | ok xs =>
    rw [firstOf_of_ok hparse]
    cases hfind : xs.find? fun r => r.name == typeName with
    | none => simpa using hfind
    | some x =>
      obtain ⟨before, behind, rfl, hx, -⟩ := Directive.find?_eq_some_iff_first.1 hfind
      have hsome : (h.attach x).map (fun a => some a.inst) ≠ .ok none := by
        cases h.attach x <;> simp [Except.map]
      simp only [hsome, Except.ok.injEq, exists_eq_left', false_iff, not_forall]
      exact ⟨x, by simp, not_not.2 hx⟩

theorem firstOf_eq_some_iff {inst : α} :
    h.firstOf p f d typeName = .ok (some inst) ↔
      ∃ xs x, p.parseDeclaration h.catalog f d = .ok xs ∧ Directive.First typeName xs x ∧
        h.construct typeName x.arguments = .ok inst := by
  cases hparse : p.parseDeclaration h.catalog f d with
  | error e => simp [firstOf_of_error hparse]
  | ok xs =>
    simp only [firstOf_of_ok hparse, Except.ok.injEq, exists_and_left, exists_eq_left',
      ← Directive.find?_eq_some_iff_first]
    cases hfind : xs.find? fun r => r.name == typeName with
    | none => simp
    | some x =>
      obtain ⟨before, behind, rfl, rfl, -⟩ := Directive.find?_eq_some_iff_first.1 hfind
      simp only [attach, Option.some.injEq, exists_eq_left']
      cases h.construct x.name x.arguments <;> simp [Except.map]

/-- A look-up fails as the comment does, or as the first directive of its type is refused. -/
theorem firstOf_eq_error_iff :
    h.firstOf p f d typeName = .error e ↔ p.parseDeclaration h.catalog f d = .error e ∨
      ∃ xs x message, p.parseDeclaration h.catalog f d = .ok xs ∧ Directive.First typeName xs x ∧
        h.construct typeName x.arguments = .error message ∧
        e = .construction typeName x.context message := by
  cases hparse : p.parseDeclaration h.catalog f d with
  | error e' => simp [firstOf_of_error hparse]
  | ok xs =>
    simp only [firstOf_of_ok hparse, Except.ok.injEq, exists_and_left, exists_eq_left',
      ← Directive.find?_eq_some_iff_first, reduceCtorEq, false_or]
    cases hfind : xs.find? fun r => r.name == typeName with
    | none => simp
    | some x =>
      obtain ⟨before, behind, rfl, rfl, -⟩ := Directive.find?_eq_some_iff_first.1 hfind
      simp only [attach, Option.some.injEq, exists_eq_left']
      cases h.construct x.name x.arguments <;> simp [Except.map, eq_comm]

/-- How a host builds other types makes no difference to a look-up. -/
theorem firstOf_congr {h' : Host α} (hcatalog : h'.catalog = h.catalog)
    (hconstruct : ∀ a, h'.construct typeName a = h.construct typeName a) :
    h'.firstOf p f d typeName = h.firstOf p f d typeName := by
  cases hparse : p.parseDeclaration h.catalog f d with
  | error e => rw [firstOf_of_error hparse, firstOf_of_error (hcatalog ▸ hparse)]
  | ok xs =>
    rw [firstOf_of_ok hparse, firstOf_of_ok (hcatalog ▸ hparse)]
    cases hfind : xs.find? fun r => r.name == typeName with
    | none => rfl
    | some x =>
      obtain ⟨before, behind, rfl, rfl, -⟩ := Directive.find?_eq_some_iff_first.1 hfind
      simp only [attach, hconstruct]

end Host

/-! ### Sessions -/

namespace Session

variable {α : Type}

/-- The instances of a declaration, and the session behind them. -/
def attachedTo (s : Session) (h : Host α) (f : SourceFile) (d : Declaration) :
    Except Failure (List (Attached α)) × Session :=
  match s.parse (f.site h.catalog d) d.documentation with
  | (.error e, s') => (.error e, s')
  | (.ok ds, s') => (ds.mapM h.attach, s')

/-- The instance of the first directive of a type, and the session behind it. -/
def firstOf (s : Session) (h : Host α) (f : SourceFile) (d : Declaration) (typeName : String) :
    Except Failure (Option α) × Session :=
  match s.parse (f.site h.catalog d) d.documentation with
  | (.error e, s') => (.error e, s')
  | (.ok ds, s') =>
    match ds.find? fun r => r.name == typeName with
    | some r => ((h.attach r).map fun a => some a.inst, s')
    | none => (.ok none, s')

/-- A session gives the instances that its reader gives, and keeps its reader. -/
theorem attachedTo_spec (s : Session) (h : Host α) (f : SourceFile) (d : Declaration) :
    (s.attachedTo h f d).1 = h.attachedTo s.parser f d ∧
      (s.attachedTo h f d).2.parser = s.parser := by
  have hresult := parse_result s (f.site h.catalog d) d.documentation
  have hkept := parser_parse s (f.site h.catalog d) d.documentation
  rw [attachedTo, Host.attachedTo, Parser.parseDeclaration, ← hresult]
  rcases hstep : s.parse (f.site h.catalog d) d.documentation with ⟨r, s'⟩
  rw [hstep] at hkept
  cases r <;> exact ⟨rfl, hkept⟩

theorem firstOf_spec (s : Session) (h : Host α) (f : SourceFile) (d : Declaration)
    (typeName : String) :
    (s.firstOf h f d typeName).1 = h.firstOf s.parser f d typeName ∧
      (s.firstOf h f d typeName).2.parser = s.parser := by
  have hresult := parse_result s (f.site h.catalog d) d.documentation
  have hkept := parser_parse s (f.site h.catalog d) d.documentation
  rw [firstOf, Host.firstOf, Parser.parseDeclaration, ← hresult]
  rcases hstep : s.parse (f.site h.catalog d) d.documentation with ⟨r, s'⟩
  rw [hstep] at hkept
  cases r with
  | error e => exact ⟨rfl, hkept⟩
  | ok xs =>
    dsimp only
    cases xs.find? fun r => r.name == typeName <;> exact ⟨rfl, hkept⟩

/-- A look-up agrees with the instances of all directives: where each can be built, it gives the
    first of its type, or none when there is none. It gives none just when the comment parses
    without a directive of the type, and an instance just when the first such directive has one.
    So it fails just when the comment does not parse or the host refuses that directive, in these
    words, and how the host builds other types makes no difference to it. A session gives the
    same, whatever it has read before, one of the two readings included. -/
theorem firstOf_agrees (h : Host α) (p : Parser) (f : SourceFile) (d : Declaration)
    (typeName : String) :
    (∀ as, h.attachedTo p f d = .ok as → h.firstOf p f d typeName =
      .ok ((as.find? fun a => a.typeName == typeName).map Attached.inst)) ∧
    (h.firstOf p f d typeName = .ok none ↔
      ∃ xs, p.parseDeclaration h.catalog f d = .ok xs ∧ ∀ x ∈ xs, x.name ≠ typeName) ∧
    (∀ inst, h.firstOf p f d typeName = .ok (some inst) ↔
      ∃ xs x, p.parseDeclaration h.catalog f d = .ok xs ∧ Directive.First typeName xs x ∧
        h.construct typeName x.arguments = .ok inst) ∧
    (∀ e, h.firstOf p f d typeName = .error e ↔ p.parseDeclaration h.catalog f d = .error e ∨
      ∃ xs x message, p.parseDeclaration h.catalog f d = .ok xs ∧ Directive.First typeName xs x ∧
        h.construct typeName x.arguments = .error message ∧
        e = .construction typeName x.context message) ∧
    (∀ h' : Host α, h'.catalog = h.catalog →
      (∀ a, h'.construct typeName a = h.construct typeName a) →
      h'.firstOf p f d typeName = h.firstOf p f d typeName) ∧
    ∀ s : Session, s.parser = p →
      ((s.attachedTo h f d).1 = h.attachedTo p f d ∧ (s.attachedTo h f d).2.parser = p) ∧
      (s.firstOf h f d typeName).1 = h.firstOf p f d typeName ∧
        (s.firstOf h f d typeName).2.parser = p := by
  refine ⟨fun as => Host.firstOf_of_attachedTo, Host.firstOf_eq_none_iff,
    fun inst => Host.firstOf_eq_some_iff, fun e => Host.firstOf_eq_error_iff,
    fun h' => Host.firstOf_congr, ?_⟩
  rintro s rfl
  exact ⟨attachedTo_spec s h f d, firstOf_spec s h f d typeName⟩

/-- A host that refuses one type. -/
def choosy : Host Unit where
  catalog := .trusting
  construct n _ := if n = "m::B" then .error "no" else .ok ()

/-- A directive that is refused, in front of another one. -/
def refusedFirst : Declaration := ⟨.function, "f", none, {}, "@B @A"⟩

/-- Its file. -/
def refusedFile : SourceFile := ⟨"a.rs", .rust, [.plain "m::A", .plain "m::B"], [refusedFirst]⟩

/-- The reading of all directives fails, and behind it another directive is still found. -/
theorem firstOf_agrees_refused :
    ((fresh .directives .standard).attachedTo choosy refusedFile refusedFirst).1.isOk = false ∧
      (((fresh .directives .standard).attachedTo choosy refusedFile refusedFirst).2.firstOf choosy
        refusedFile refusedFirst "m::A").1.toOption = some (some ()) := by
  obtain ⟨-, -, -, -, -, hsession⟩ :=
    firstOf_agrees choosy (fresh .directives .standard).parser refusedFile refusedFirst "m::A"
  obtain ⟨⟨hall, hkept⟩, -⟩ := hsession (fresh .directives .standard) rfl
  rw [hall, (hsession _ hkept).2.1]
  decide +kernel

end Session

end DocDirectives
