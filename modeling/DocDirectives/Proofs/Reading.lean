import DocDirectives.Reading
import Mathlib.Data.List.Forall2

/-! # Reading a source file

    A file can be read just when each of its documented declarations can, and then it gives what
    they give; otherwise it fails as the first of them that fails. What fails is the text of a
    directive or its name. -/

namespace DocDirectives

/-! ### Lists of readings -/

section Readings

variable {α β ε : Type} {f : α → Except ε β}

theorem mapM_cons_ok {x : α} {y : β} (h : f x = .ok y) (xs : List α) :
    (x :: xs).mapM f = (xs.mapM f).map (y :: ·) := by
  rw [List.mapM_cons, h]
  cases xs.mapM f <;> rfl

theorem mapM_cons_error {x : α} {e : ε} (h : f x = .error e) (xs : List α) :
    (x :: xs).mapM f = .error e := by
  rw [List.mapM_cons, h]
  rfl

/-- A list can be read when each of its members can. -/
theorem mapM_eq_ok_iff {xs : List α} {ys : List β} :
    xs.mapM f = .ok ys ↔ List.Forall₂ (fun x y => f x = .ok y) xs ys := by
  induction xs generalizing ys with
  | nil =>
    rw [List.mapM_nil, List.forall₂_nil_left_iff]
    exact ⟨fun h => (Except.ok.inj h).symm, fun h => h ▸ rfl⟩
  | cons x xs ih =>
    rw [List.forall₂_cons_left_iff]
    cases hx : f x with
    | error e =>
      rw [mapM_cons_error hx]
      simp
    | ok y =>
      rw [mapM_cons_ok hx]
      constructor
      · intro h
        obtain ⟨ys', hys, rfl⟩ : ∃ ys', xs.mapM f = .ok ys' ∧ ys = y :: ys' := by
          cases hm : xs.mapM f with
          | error e => simp [hm, Except.map] at h
          | ok ys' => exact ⟨ys', rfl, by simpa [hm, Except.map, eq_comm] using h⟩
        exact ⟨y, ys', rfl, ih.1 hys, rfl⟩
      · rintro ⟨y', ys', hy, hys, rfl⟩
        obtain rfl := Except.ok.inj hy
        rw [ih.2 hys]
        rfl

/-- A list that cannot be read fails as its first member that cannot. -/
theorem mapM_eq_error_iff {xs : List α} {e : ε} :
    xs.mapM f = .error e ↔ ∃ before x behind, xs = before ++ x :: behind ∧
      (∀ b ∈ before, ∃ y, f b = .ok y) ∧ f x = .error e := by
  induction xs with
  | nil =>
    constructor
    · intro h
      cases h
    · rintro ⟨before, x, behind, h, -⟩
      exact absurd h.symm (by simp)
  | cons x xs ih =>
    cases hx : f x with
    | error e' =>
      rw [mapM_cons_error hx]
      constructor
      · intro h
        obtain rfl := Except.error.inj h
        exact ⟨[], x, xs, rfl, by simp, hx⟩
      · rintro ⟨before, x', behind, hxs, hbefore, hx'⟩
        cases before with
        | nil =>
          obtain ⟨rfl, -⟩ := List.cons.inj hxs
          obtain rfl := Except.error.inj (hx.symm.trans hx')
          rfl
        | cons b before =>
          obtain ⟨rfl, -⟩ := List.cons.inj hxs
          obtain ⟨y, hy⟩ := hbefore x List.mem_cons_self
          exact absurd (hx.symm.trans hy) (by simp)
    | ok y =>
      have hmap : (x :: xs).mapM f = .error e ↔ xs.mapM f = .error e := by
        rw [mapM_cons_ok hx]
        cases xs.mapM f <;> simp [Except.map]
      rw [hmap, ih]
      constructor
      · rintro ⟨before, x', behind, rfl, hbefore, hx'⟩
        refine ⟨x :: before, x', behind, rfl, ?_, hx'⟩
        rintro b (_ | ⟨_, hb⟩)
        · exact ⟨y, hx⟩
        · exact hbefore b hb
      · rintro ⟨before, x', behind, hxs, hbefore, hx'⟩
        cases before with
        | nil =>
          obtain ⟨rfl, -⟩ := List.cons.inj hxs
          exact absurd (hx.symm.trans hx') (by simp)
        | cons b before =>
          obtain ⟨rfl, rfl⟩ := List.cons.inj hxs
          exact ⟨before, x', behind, rfl, fun b hb => hbefore b (List.mem_cons_of_mem _ hb), hx'⟩

end Readings

namespace Parser

/-! ### Failures of a comment -/

/-- A comment fails by its text or by a name, and says where it stands. -/
theorem directives_error {site : Site} {ignored : IgnoredNames} {ts : List Token} {e : Failure}
    (h : directives site ignored ts = .error e) :
    (∃ construct expected, e = .unexpected site.context construct expected) ∨
      ∃ name, e = .unresolved name site.context := by
  fun_induction directives site ignored ts with
  | case1 => cases h
  | case2 =>
    obtain rfl := Except.error.inj h
    exact .inl ⟨_, _, rfl⟩
  | case3 => cases h
  | case4 _ _ _ _ _ _ ih => exact ih h
  | case5 =>
    obtain rfl := Except.error.inj h
    exact .inr ⟨_, rfl⟩
  | case6 =>
    obtain rfl := Except.error.inj h
    exact .inl ⟨_, _, rfl⟩
  | case7 t name rest ht hn typeName htype a rest' hle harg e' he' ih =>
    obtain rfl := Except.error.inj h
    exact ih he'
  | case8 => cases h
  | case9 _ _ _ _ ih => exact ih h

/-! ### Declarations of a file -/

variable {p : Parser} {catalog : Catalog} {f : SourceFile}

/-- `r` is what the declaration `d` gives. -/
def Gives (p : Parser) (catalog : Catalog) (f : SourceFile) (d : Declaration)
    (r : DeclarationDirectives) : Prop :=
  r.declaration = d ∧ p.parseDeclaration catalog f d = .ok r.directives

theorem gives_iff {d : Declaration} {r : DeclarationDirectives} :
    (p.parseDeclaration catalog f d).map (fun ds => (⟨d, ds⟩ : DeclarationDirectives)) = .ok r ↔
      Gives p catalog f d r := by
  obtain ⟨d', ds'⟩ := r
  unfold Gives
  cases p.parseDeclaration catalog f d with
  | error e => simp [Except.map]
  | ok ds => simp [Except.map, eq_comm]

/-- A file gives what its documented declarations give, in order. -/
theorem parseSource_eq_ok_iff {all : List DeclarationDirectives} :
    p.parseSource catalog f = .ok all ↔ List.Forall₂ (Gives p catalog f) f.documented all := by
  rw [parseSource, mapM_eq_ok_iff]
  exact ⟨.imp fun _ _ => gives_iff.1, .imp fun _ _ => gives_iff.2⟩

theorem exists_of_gives {ds : List Declaration} {all : List DeclarationDirectives}
    (h : List.Forall₂ (Gives p catalog f) ds all) {d : Declaration} (hd : d ∈ ds) :
    ∃ rs, p.parseDeclaration catalog f d = .ok rs := by
  induction h with
  | nil => cases hd
  | cons hfirst _ ih =>
    rcases List.mem_cons.1 hd with rfl | hd
    · exact ⟨_, hfirst.2⟩
    · exact ih hd

/-- Every documented declaration of a file that can be read can be read. -/
theorem exists_of_parseSource {all : List DeclarationDirectives}
    (h : p.parseSource catalog f = .ok all) {d : Declaration} (hd : d ∈ f.documented) :
    ∃ rs, p.parseDeclaration catalog f d = .ok rs :=
  exists_of_gives (parseSource_eq_ok_iff.1 h) hd

/-- A file fails as its first documented declaration that fails. -/
theorem parseSource_eq_error_iff {e : Failure} :
    p.parseSource catalog f = .error e ↔ ∃ before d behind, f.documented = before ++ d :: behind ∧
      (∀ b ∈ before, ∃ ds, p.parseDeclaration catalog f b = .ok ds) ∧
      p.parseDeclaration catalog f d = .error e := by
  have hok : ∀ d, (∃ r, (p.parseDeclaration catalog f d).map
      (fun ds => (⟨d, ds⟩ : DeclarationDirectives)) = .ok r) ↔
        ∃ ds, p.parseDeclaration catalog f d = .ok ds := by
    intro d
    constructor
    · rintro ⟨r, hr⟩
      exact ⟨r.directives, (gives_iff.1 hr).2⟩
    · rintro ⟨ds, hds⟩
      exact ⟨⟨d, ds⟩, gives_iff.2 ⟨rfl, hds⟩⟩
  have herror : ∀ d, (p.parseDeclaration catalog f d).map
      (fun ds => (⟨d, ds⟩ : DeclarationDirectives)) = .error e ↔
        p.parseDeclaration catalog f d = .error e := by
    intro d
    cases p.parseDeclaration catalog f d <;> simp [Except.map]
  simp only [parseSource, mapM_eq_error_iff, hok, herror]

end Parser

end DocDirectives
