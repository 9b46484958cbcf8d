import DocDirectives.Proofs.Declaration.Kinds
import DocDirectives.Proofs.Declaration.Nesting

/-! # Owners of members

    In a language of braces a line of code first announces what it is the head of, and then its
    braces and semicolons come. So the nesting behind some lines is what the events of these lines
    leave, and the origin of the innermost open block is a line: a member belongs to the type that
    an earlier line at the level of the file announced, whose brace is still open and has nothing
    open inside. -/

namespace DocDirectives

open Text

namespace Scanner

variable {l : Language} {s : Scanner} {line : List Char} {lines : List (List Char)}
  {kind : ScopeKind}

/-! ### Events of lines -/

/-- The block that a line of code announces. -/
def announcement (l : Language) (n : Nesting) (line : List Char) : Option ScopeKind :=
  if n.current = some .file then (fileMember l.heads line).2 else none

/-- The braces and semicolons of a line, as events. -/
def marks (l : Language) (line : List Char) : List Event :=
  (Braces.structural l line).map .mark

def lineEvents (l : Language) (s : Scanner) (line : List Char) : List Event :=
  if LineKind.of l.commentStyle s.mode (trim line) = .code then
    ((announcement l s.nesting (trim line)).map Event.announce).toList ++ marks l (trim line)
  else []

/-- The events of lines read one after another from `s` on. -/
def events (l : Language) (s : Scanner) : List (List Char) → List Event
  | [] => []
  | line :: lines => lineEvents l s line ++ events l (step l s line).1 lines

theorem foldl_marks (l : Language) (n : Nesting) (line : List Char) :
    (marks l line).foldl Nesting.occur n = n.followLine l line := List.foldl_map

/-- A line of code announces its block, and its braces are followed behind that. -/
theorem nesting_braceLine (l : Language) (n : Nesting) (line : List Char) :
    (braceLine l n line).1 =
      (((announcement l n line).map Event.announce).toList ++ marks l line).foldl
        Nesting.occur n := by
  rw [List.foldl_append, foldl_marks, announcement, braceLine]
  cases hcurrent : n.current with
  | none => rfl
  | some kind =>
    cases kind with
    | owner name fields => rfl
    | file =>
      rw [if_pos rfl]
      obtain ⟨found, announced⟩ := fileMember l.heads line
      cases announced <;> rfl

theorem nesting_behind (s : Scanner) (kind : LineKind) : (s.behind kind).nesting = s.nesting := by
  cases kind with
  | inBlock text closes | opensBlock text closes => cases closes <;> rfl
  | inComment closes => cases closes <;> rfl
  | comment goesOn => cases goesOn <;> rfl
  | blank | documentation | decorator | code => rfl

theorem nesting_step (hl : l ≠ .python) (s : Scanner) (line : List Char) :
    (step l s line).1.nesting = (lineEvents l s line).foldl Nesting.occur s.nesting := by
  by_cases h : LineKind.of l.commentStyle s.mode (trim line) = .code
  · rw [step_of_code h, (nesting_codeLine hl _ _ _).1, nesting_braceLine, lineEvents, if_pos h]
  · rw [step_of_ne_code h, nesting_behind, lineEvents, if_neg h]
    rfl

/-- The nesting behind some lines is what their events leave. -/
theorem nesting_after (hl : l ≠ .python) (s : Scanner) (lines : List (List Char)) :
    (after l s lines).nesting = (events l s lines).foldl Nesting.occur s.nesting := by
  induction lines generalizing s with
  | nil => rfl
  | cons line lines ih =>
    rw [events, List.foldl_append, ← nesting_step hl]
    exact ih _

theorem traced_after (hl : l ≠ .python) (lines : List (List Char)) :
    Traced (events l {} lines) (after l {} lines).nesting := by
  rw [nesting_after hl]
  exact traced_foldl _

/-! ### The line of an announcement -/

/-- Braces and semicolons in front announce nothing. -/
theorem exists_of_marks {cs : List Char} {es front rest : List Event}
    (h : cs.map Event.mark ++ es = front ++ .announce kind :: rest) :
    ∃ front', es = front' ++ .announce kind :: rest := by
  induction cs generalizing front with
  | nil => exact ⟨front, h⟩
  | cons c cs ih =>
    cases front with
    | nil => cases (List.cons.inj h).1
    | cons e front => exact ih (List.cons.inj h).2

/-- One of some lines is a line of code that announces `kind`; what comes behind the announcement
    are the braces of that line and the events of the lines behind it. -/
def AnnouncedIn (l : Language) (s : Scanner) (lines : List (List Char)) (kind : ScopeKind)
    (rest : List Event) : Prop :=
  ∃ front header behind, lines = front ++ header :: behind ∧
    LineKind.of l.commentStyle (after l s front).mode (trim header) = .code ∧
    announcement l (after l s front).nesting (trim header) = some kind ∧
    rest = marks l (trim header) ++ events l (after l s (front ++ [header])) behind

theorem AnnouncedIn.later {rest : List Event}
    (h : AnnouncedIn l (step l s line).1 lines kind rest) :
    AnnouncedIn l s (line :: lines) kind rest := by
  obtain ⟨front, header, behind, rfl, hheader⟩ := h
  exact ⟨line :: front, header, behind, rfl, hheader⟩

/-- An announcement among the events of some lines comes from one of them. -/
theorem announcedIn_of_events {front rest : List Event}
    (h : events l s lines = front ++ .announce kind :: rest) :
    AnnouncedIn l s lines kind rest := by
  induction lines generalizing s front with
  | nil => exact absurd h (by simp [events])
  | cons line lines ih =>
    rw [events, lineEvents] at h
    split at h
    · next hcode =>
      cases hannounced : announcement l s.nesting (trim line) with
      | none =>
        rw [hannounced] at h
        obtain ⟨_, h⟩ := exists_of_marks h
        exact (ih h).later
      | some kind' =>
        rw [hannounced] at h
        cases front with
        | nil =>
          obtain ⟨hkind, hrest⟩ := List.cons.inj h
          obtain rfl : kind' = kind := Event.announce.inj hkind
          exact ⟨[], line, lines, rfl, hcode, hannounced, hrest.symm⟩
        | cons e front =>
          obtain ⟨_, h⟩ := exists_of_marks (List.cons.inj h).2
          exact (ih h).later
    · exact (ih h).later

end Scanner

/-! ### Heads -/

/-- A line names a type whose members follow: it declares the type, or in Rust it is the header of
    an `impl` block. `fields` says whether fields are among the members. -/
inductive NamesOwner (l : Language) (line name : List Char) (fields : Bool) : Prop
  | declares {keyword : List Char} : l.heads.typeHead line = some (keyword, name) →
      (fields = true ↔ keyword ∈ l.heads.fieldOwners) → NamesOwner l line name fields
  | implements : l = .rust → Head.rustImpl line = true → Head.implTarget? line = some name →
      fields = false → NamesOwner l line name fields

namespace Scanner

variable {l : Language} {s : Scanner} {n : Nesting} {line name : List Char} {fields : Bool}
  {f : Found}

theorem rust_of_opensImpl (h : l.heads.opensImpl line = true) :
    l = .rust ∧ Head.rustImpl line = true := by
  cases l with
  | rust => exact ⟨rfl, h⟩
  | python | java | php => cases h

theorem namesOwner_of_fileMember (h : (fileMember l.heads line).2 = some (.owner name fields)) :
    NamesOwner l line name fields := by
  unfold fileMember at h
  cases hhead : l.heads.typeHead line with
  | some head =>
    obtain ⟨keyword, name'⟩ := head
    rw [hhead] at h
    obtain ⟨rfl, rfl⟩ := ScopeKind.owner.inj (Option.some.inj h)
    exact .declares hhead List.contains_iff_mem
  | none =>
    simp only [hhead] at h
    split at h
    · next himpl =>
      obtain ⟨target, htarget, hkind⟩ := Option.map_eq_some_iff.1 h
      obtain ⟨rfl, rfl⟩ := ScopeKind.owner.inj hkind
      obtain ⟨hrust, himpl⟩ := rust_of_opensImpl himpl
      exact .implements hrust himpl htarget rfl
    · split at h <;> cases h

theorem owner_of_fileMember (h : (fileMember l.heads line).1 = some f) :
    (f.kind = .type ∨ f.kind = .function) ∧ f.owner = none := by
  unfold fileMember at h
  split at h
  · obtain rfl := Option.some.inj h
    exact ⟨.inl rfl, rfl⟩
  · split at h
    · cases h
    · split at h
      · cases h
      · obtain ⟨name, -, rfl⟩ := Option.map_eq_some_iff.1 h
        exact ⟨.inr rfl, rfl⟩

theorem owner_of_typeMember (h : typeMember l.heads name fields line = some f) :
    (f.kind = .method ∨ f.kind = .field ∧ fields = true) ∧ f.owner = some name := by
  unfold typeMember at h
  split at h
  · obtain rfl := Option.some.inj h
    exact ⟨.inl rfl, rfl⟩
  · split at h
    · next hfields =>
      obtain ⟨member, -, rfl⟩ := Option.map_eq_some_iff.1 h
      exact ⟨.inr ⟨rfl, hfields⟩, rfl⟩
    · cases h

/-- What a line gives: a member of the file, which has no owner, or a member of the type whose block
    it stands in. -/
theorem owner_of_step (hl : l ≠ .python) (h : (step l s line).2 = some f) :
    (f.kind = .type ∨ f.kind = .function) ∧ f.owner = none ∨
      ∃ name fields, s.nesting.current = some (.owner name fields) ∧
        (f.kind = .method ∨ f.kind = .field ∧ fields = true) ∧ f.owner = some name := by
  have hbraces : l.usesBraces = true := by cases l <;> first | rfl | exact absurd rfl hl
  rw [step_of_code (code_of_found h), codeLine, if_pos hbraces, braceLine] at h
  cases hcurrent : s.nesting.current with
  | none =>
    rw [hcurrent] at h
    cases h
  | some kind =>
    rw [hcurrent] at h
    cases kind with
    | file => exact .inl (owner_of_fileMember h)
    | owner name fields => exact .inr ⟨name, fields, rfl, owner_of_typeMember h⟩

end Scanner

/-! ### Sources -/

/-- Behind the lines `front`, `header` and `behind` of a source, a line is a member of the type
    `name`: the line `header` stands at the level of the file and names the type, the first brace
    behind the name is open behind these lines, and no brace inside it is. -/
structure Owns (l : Language) (front : List (List Char)) (header : List Char)
    (behind : List (List Char)) (name : List Char) (fields : Bool) : Prop where
  code : LineKind.of l.commentStyle (Scanner.after l {} front).mode (trim header) = .code
  outer : (Scanner.after l {} front).nesting.current = some .file
  names : NamesOwner l (trim header) name fields
  opens : Opens (Scanner.marks l (trim header) ++
    Scanner.events l (Scanner.after l {} (front ++ [header])) behind) 0

theorem NamesOwner.exists_keyword {l : Language} {line name : List Char}
    (h : NamesOwner l line name true) :
    ∃ keyword ∈ l.heads.fieldOwners, l.heads.typeHead line = some (keyword, name) := by
  cases h with
  | declares hhead hfields => exact ⟨_, hfields.1 rfl, hhead⟩
  | implements _ _ _ hfields => cases hfields

namespace Scanner

variable {l : Language} {name : List Char} {fields : Bool}

/-- The type whose members come behind some lines is named by one of them. -/
theorem exists_owns (hl : l ≠ .python) {ls : List (List Char)}
    (h : (after l {} ls).nesting.current = some (.owner name fields)) :
    ∃ front header behind, ls = front ++ header :: behind ∧
      Owns l front header behind name fields := by
  obtain ⟨_, rest, hevents, hopens⟩ := (traced_after hl ls).opened_of_current h
  obtain ⟨front, header, behind, hls, hcode, hannounced, rfl⟩ :=
    announcedIn_of_events hevents
  obtain ⟨houter, hmember⟩ := Option.ite_none_right_eq_some.1 hannounced
  exact ⟨front, header, behind, hls, hcode, houter, namesOwner_of_fileMember hmember, hopens⟩

/-- Behind any lines the open blocks lie inside one another. So types and functions have no owner,
    and a method or a field has as owner the type that a line in front of it names, whose block is
    the innermost one open behind the lines in between; only some types have fields. -/
theorem scan_owned (hl : l ≠ .python) (path content : String) :
    (∀ front, front <+: lines content.toList →
      ((after l {} front).nesting.scopes.Pairwise fun inner outer => outer.depth < inner.depth) ∧
        ∀ scope ∈ (after l {} front).nesting.scopes,
          1 ≤ scope.depth ∧ scope.depth ≤ (after l {} front).nesting.depth) ∧
    ∀ d ∈ (SourceFile.scan l path content).declarations,
      ((d.kind = .type ∨ d.kind = .function) → d.owner = none) ∧
      ((d.kind = .method ∨ d.kind = .field) →
        ∃ front header behind line rest name fields,
          lines content.toList = front ++ header :: behind ++ line :: rest ∧
          d.location.line = (front ++ header :: behind).length + 1 ∧
          d.owner = some (String.ofList name) ∧ Owns l front header behind name fields ∧
          (d.kind = .field → ∃ keyword ∈ l.heads.fieldOwners,
            l.heads.typeHead (trim header) = some (keyword, name))) := by
  refine ⟨fun front _ => ⟨(traced_after hl front).inner, (traced_after hl front).depth⟩,
    fun d hd => ?_⟩
  obtain ⟨ls, line, rest, f, hlines, hfound, rfl⟩ := exists_of_mem_declarations hd
  rcases owner_of_step hl hfound with ⟨hkind, howner⟩ | ⟨name, fields, hcurrent, hkind, howner⟩
  · refine ⟨fun _ => by simp only [declaration, howner, Option.map_none], fun hmember => ?_⟩
    change f.kind = .method ∨ f.kind = .field at hmember
    rcases hkind with hkind | hkind <;> simp [hkind] at hmember
  · refine ⟨fun hfile => ?_, fun _ => ?_⟩
    · change f.kind = .type ∨ f.kind = .function at hfile
      rcases hkind with hkind | ⟨hkind, -⟩ <;> simp [hkind] at hfile
    · obtain ⟨front, header, behind, rfl, howns⟩ := exists_owns hl hcurrent
      refine ⟨front, header, behind, line, rest, name, fields, hlines, Nat.add_comm _ _, ?_, howns,
        fun hfield => ?_⟩
      · simp only [declaration, howner, Option.map_some]
      · change f.kind = .field at hfield
        rcases hkind with hkind | ⟨-, rfl⟩
        · rw [hfield] at hkind
          cases hkind
        · exact howns.names.exists_keyword

/-- A structure whose brace comes two lines later, a surplus brace and an `impl` block. -/
def nested : String :=
  "\x7d\npub struct A\nwhere\n\x7b\n    b: u8,\n\x7d\n" ++
    "impl X for A \x7b\n    fn c() \x7b\x7d\n\x7d\n"

theorem scan_owned_nested :
    Language.rust ≠ .python ∧
    ∃ d ∈ (SourceFile.scan .rust "a.rs" nested).declarations,
      d.kind = .field ∧ d.location.line = 5 ∧ d.owner = some "A" ∧
      ∃ front header behind line rest name fields,
        lines nested.toList = front ++ header :: behind ++ line :: rest ∧
        d.location.line = (front ++ header :: behind).length + 1 ∧
        d.owner = some (String.ofList name) ∧ Owns .rust front header behind name fields := by
  let d : Declaration := ⟨.field, "b", some "A", ⟨"a.rs", 5, some 5⟩, ""⟩
  have hmem : d ∈ (SourceFile.scan .rust "a.rs" nested).declarations := by decide +kernel
  obtain ⟨front, header, behind, line, rest, name, fields, hlines, hnumber, howner, howns, -⟩ :=
    ((scan_owned (l := .rust) (by decide) "a.rs" nested).2 d hmem).2 (.inr rfl)
  exact ⟨by decide, d, hmem, rfl, rfl, rfl, front, header, behind, line, rest, name, fields, hlines,
    hnumber, howner, howns⟩

end Scanner

end DocDirectives
