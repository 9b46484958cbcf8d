import DocDirectives.Proofs.Declaration.Closing

/-! # Attributes over several lines

    An attribute is known by the mark that its line begins with, so of an attribute on several lines
    only the first is passed over as one; the others are read like any line. Where none of them is
    code, the layout of the attribute makes no difference. A line of code among them takes the
    documentation pending in front of the attribute, and the declaration behind it has none. -/

namespace DocDirectives

open Text

/-- A mark in front of a line stays there, whatever is written behind the line. -/
theorem Text.prefix_trim_append {mark line : List Char} (hne : mark ≠ [])
    (hmark : ∀ c ∈ mark, isBlank c = false) (h : mark <+: trim line) (joint : List Char) :
    mark <+: trim (line ++ joint) := by
  obtain ⟨g, -, hend⟩ := exists_trimEnd (trimStart line)
  obtain ⟨text, hstart⟩ : mark <+: trimStart line := h.trans ⟨g, hend.symm⟩
  have hstarts : trimStart line ≠ [] := by
    rw [← hstart]
    exact List.append_ne_nil_of_left_ne_nil hne text
  rw [trim, trimStart_append_of_ne_nil hstarts, ← hstart, List.append_assoc,
    trimEnd_append_of_not_blank hmark]
  exact List.prefix_append _ _

/-- Marks of attributes hold no white space. -/
theorem CommentStyle.decorator_not_blank {l : Language} {mark : List Char}
    (h : mark ∈ l.commentStyle.decorator) : mark ≠ [] ∧ ∀ c ∈ mark, isBlank c = false := by
  cases l with
  | rust | php =>
    obtain rfl : mark = ['#', '['] := by simpa [Language.commentStyle] using h
    have hbracket : ∀ c ∈ ['['], isBlank c = false := List.forall_mem_singleton.2 (by decide)
    exact ⟨List.cons_ne_nil _ _, List.forall_mem_cons.2 ⟨by decide, hbracket⟩⟩
  | python | java =>
    obtain rfl : mark = ['@'] := by simpa [Language.commentStyle] using h
    exact ⟨List.cons_ne_nil _ _, List.forall_mem_singleton.2 (by decide)⟩

/-- Kind, name and owner of a declaration, without its place and its documentation. -/
def Declaration.bare (d : Declaration) : Declaration := { d.unplaced with documentation := "" }

namespace Scanner

variable {l : Language} {s t : Scanner} {line : List Char} {more : List (List Char)}

/-! ### Scans that differ in what documentation is pending -/

/-- The same is pending but for the documentation. -/
structure Alike (s t : Scanner) : Prop where
  mode : s.mode = t.mode
  nesting : s.nesting = t.nesting
  openClass : s.openClass = t.openClass

theorem Alike.refl (s : Scanner) : Alike s s := ⟨rfl, rfl, rfl⟩

theorem alike_documented (hs : s.mode = .code) (documentation : List (List Char)) :
    Alike s (s.documented documentation) := ⟨hs, rfl, rfl⟩

/-- A line of code is read without regard to the documentation that it takes. -/
theorem Alike.codeLine_eq (h : Alike s t) (line trimmed : List Char) :
    codeLine l s line trimmed = codeLine l t line trimmed := by
  obtain ⟨mode, documentation, nesting, openClass⟩ := s
  obtain ⟨_, _, _, _⟩ := t
  obtain ⟨rfl, rfl, rfl⟩ := h
  rfl

theorem Alike.behind (h : Alike s t) (kind : LineKind) : Alike (s.behind kind) (t.behind kind) := by
  obtain ⟨mode, documentation, nesting, openClass⟩ := s
  obtain ⟨_, _, _, _⟩ := t
  obtain ⟨rfl, rfl, rfl⟩ := h
  cases kind with
  | inBlock text closes | opensBlock text closes | inComment closes =>
    cases closes <;> exact ⟨rfl, rfl, rfl⟩
  | comment goesOn => cases goesOn <;> exact ⟨rfl, rfl, rfl⟩
  | blank | documentation | decorator | code => exact ⟨rfl, rfl, rfl⟩

/-- One line: the same is found, and what is pending differs in the documentation at most. -/
theorem Alike.step (h : Alike s t) (line : List Char) :
    (step l s line).2 = (step l t line).2 ∧ Alike (step l s line).1 (step l t line).1 := by
  have hkinds : LineKind.of l.commentStyle s.mode (trim line) =
      LineKind.of l.commentStyle t.mode (trim line) := by rw [h.mode]
  by_cases hcode : LineKind.of l.commentStyle s.mode (trim line) = .code
  · rw [step_of_code hcode, step_of_code (hkinds ▸ hcode), h.codeLine_eq]
    exact ⟨rfl, .refl _⟩
  · rw [step_of_ne_code hcode, step_of_ne_code (hkinds ▸ hcode), ← hkinds]
    exact ⟨rfl, h.behind _⟩

/-- Two scans of the same lines: what a relation that each line keeps says of every declaration, it
    says of all of them. -/
theorem map_declarations_congr {R : Scanner → Scanner → Prop} {view : Declaration → Declaration}
    (hstep : ∀ {s t}, R s t → ∀ line, (Scanner.step l s line).2 = (Scanner.step l t line).2 ∧
      R (Scanner.step l s line).1 (Scanner.step l t line).1)
    (path : String)
    (hview : ∀ {s t}, R s t → ∀ number start line f,
      view (declaration path s number line f) = view (declaration path t start line f))
    (h : R s t) (number start : Nat) (lines : List (List Char)) :
    (declarations l path s number lines).map view =
      (declarations l path t start lines).map view := by
  induction lines generalizing s t number start with
  | nil => rfl
  | cons line lines ih =>
    obtain ⟨hfound, hnext⟩ := hstep h line
    simp only [declarations, List.map_append, ih hnext (number + 1) (start + 1), hfound]
    congr 1
    cases (Scanner.step l t line).2 with
    | none => rfl
    | some f => exact congrArg (fun d => [d]) (hview h number start line f)

/-- Where the lines are counted from matters to the places only. -/
theorem map_unplaced_declarations (l : Language) (path : String) (s : Scanner) (number start : Nat)
    (lines : List (List Char)) :
    (declarations l path s number lines).map Declaration.unplaced =
      (declarations l path s start lines).map Declaration.unplaced := by
  refine map_declarations_congr (R := Eq) ?_ path ?_ rfl number start lines
  · rintro s _ rfl line
    exact ⟨rfl, rfl⟩
  · rintro s _ rfl number start line f
    rfl

/-- The documentation pending in front matters to documentation only. -/
theorem Alike.map_bare_declarations (h : Alike s t) (path : String) (number start : Nat)
    (lines : List (List Char)) :
    (declarations l path s number lines).map Declaration.bare =
      (declarations l path t start lines).map Declaration.bare :=
  map_declarations_congr (R := Alike) Alike.step path (fun _ _ _ _ _ => rfl) h number start lines

/-! ### The further lines of an attribute -/

/-- A line of code that declares nothing and changes nothing that is pending but the documentation,
    which it takes. -/
def Idle (l : Language) (s : Scanner) (line : List Char) : Prop :=
  LineKind.of l.commentStyle .code (trim line) = .code ∧
    codeLine l s line (trim line) = (s.documented [], none)

instance (l : Language) (s : Scanner) (line : List Char) : Decidable (Idle l s line) :=
  inferInstanceAs (Decidable (_ ∧ _))

/-- Whether a line is idle does not depend on the documentation. -/
theorem Idle.documented (h : Idle l s line) (hs : s.mode = .code)
    (documentation : List (List Char)) : Idle l (s.documented documentation) line :=
  ⟨h.1, ((alike_documented hs documentation).codeLine_eq _ _).symm.trans h.2⟩

theorem step_idle (h : Idle l s line) (hs : s.mode = .code) :
    step l s line = (s.documented [], none) := by
  rw [step_of_code (by rw [hs, h.1]), h.2]

/-- A line without a declaration gives nothing of its own. -/
theorem run_cons_of_silent {next : Scanner} (h : step l s line = (next, none)) (path : String)
    (number : Nat) (more : List (List Char)) :
    declarations l path s number (line :: more) = declarations l path next (number + 1) more ∧
      after l s (line :: more) = after l next more := by
  constructor
  · rw [declarations, h]
    rfl
  · rw [after, List.foldl_cons, h]
    rfl

/-- Lines that are noise give nothing and leave everything pending. -/
theorem run_noise (hs : s.mode = .code) (path : String) (number : Nat)
    (h : ∀ line ∈ more, Noise l.commentStyle (trim line)) :
    declarations l path s number more = [] ∧ after l s more = s := by
  induction more generalizing number with
  | nil => exact ⟨rfl, rfl⟩
  | cons line more ih =>
    obtain ⟨hline, hmore⟩ := List.forall_mem_cons.1 h
    obtain ⟨hgives, hafter⟩ := run_cons_of_silent (step_noise hline hs) path number more
    rw [hgives, hafter]
    exact ih (number + 1) hmore

/-- Lines that are noise or idle give nothing; behind an idle one no documentation is pending. -/
theorem run_idle (hs : s.mode = .code) (path : String) (number : Nat)
    (h : ∀ line ∈ more, Noise l.commentStyle (trim line) ∨ Idle l s line) :
    declarations l path s number more = [] ∧
      (after l s more = s ∨ after l s more = s.documented []) ∧
      ((∃ line ∈ more, Idle l s line) → after l s more = s.documented []) := by
  induction more generalizing s number with
  | nil => exact ⟨rfl, .inl rfl, by simp⟩
  | cons line more ih =>
    obtain ⟨hline, hmore⟩ := List.forall_mem_cons.1 h
    by_cases hidle : Idle l s line
    · -- Nothing is pending behind this line, so the lines behind it find nothing more to take.
      obtain ⟨hgives, hafter⟩ := run_cons_of_silent (step_idle hidle hs) path number more
      obtain ⟨hnone, hlast, -⟩ := ih (s := s.documented []) rfl (number + 1)
        fun line hmem => (hmore line hmem).imp_right fun h => h.documented hs []
      have hempty : after l (s.documented []) more = s.documented [] := hlast.elim id id
      rw [hgives, hafter]
      exact ⟨hnone, .inr hempty, fun _ => hempty⟩
    · have hnoise := hline.resolve_right hidle
      obtain ⟨hgives, hafter⟩ := run_cons_of_silent (step_noise hnoise hs) path number more
      obtain ⟨hnone, hlast, hlater⟩ := ih hs (number + 1) hmore
      rw [hgives, hafter]
      refine ⟨hnone, hlast, ?_⟩
      rintro ⟨other, hmem, hother⟩
      rcases List.mem_cons.1 hmem with rfl | hmem
      · exact absurd hother hidle
      · exact hlater ⟨other, hmem, hother⟩

/-- Behind code among lines that are noise or code no documentation is pending. -/
theorem run_code (hs : s.mode = .code)
    (h : ∀ line ∈ more, Noise l.commentStyle (trim line) ∨
      LineKind.of l.commentStyle .code (trim line) = .code)
    (hempty : s.documentation = [] ∨
      ∃ line ∈ more, LineKind.of l.commentStyle .code (trim line) = .code) :
    (after l s more).documentation = [] := by
  induction more generalizing s with
  | nil => exact hempty.elim id fun ⟨_, hmem, _⟩ => absurd hmem List.not_mem_nil
  | cons line more ih =>
    obtain ⟨hline, hmore⟩ := List.forall_mem_cons.1 h
    rw [after, List.foldl_cons]
    by_cases hcode : LineKind.of l.commentStyle .code (trim line) = .code
    · rw [step_of_code (hs ▸ hcode)]
      obtain ⟨hmode, hnone⟩ := codeLine_takes l s line (trim line)
      exact ih (hmode.trans hs) hmore (.inl hnone)
    · rw [step_noise (hline.resolve_right hcode) hs]
      refine ih hs hmore (hempty.imp_right ?_)
      rintro ⟨other, hmem, hother⟩
      rcases List.mem_cons.1 hmem with rfl | hmem
      · exact absurd hother hcode
      · exact ⟨other, hmem, hother⟩

/-! ### What stands behind an attribute -/

/-- The line of an attribute has no part in the scan. -/
theorem declarations_decorator {front : List (List Char)} {mark : List Char}
    (hmark : mark ∈ l.commentStyle.decorator) (hline : mark <+: trim line)
    (hmode : (after l {} front).mode = .code) (path : String) (rest : List (List Char)) :
    declarations l path {} 1 (front ++ line :: rest) = declarations l path {} 1 front ++
      declarations l path (after l {} front) (front.length + 2) rest := by
  have hnumber : 1 + front.length + 1 = front.length + 2 := by omega
  have hpassed := run_cons_of_silent (step_noise (.decorator hmark hline) hmode) path
    (1 + front.length) rest
  rw [declarations_append, hpassed.1, hnumber]

/-- Noise in front of some lines matters to the places only. -/
theorem map_unplaced_noise (path : String) (number start : Nat) (rest : List (List Char))
    (hs : s.mode = .code) (h : ∀ line ∈ more, Noise l.commentStyle (trim line)) :
    (declarations l path s number (more ++ rest)).map Declaration.unplaced =
      (declarations l path s start rest).map Declaration.unplaced := by
  obtain ⟨hnone, hafter⟩ := run_noise hs path number h
  rw [declarations_append, hnone, hafter]
  exact map_unplaced_declarations l path s _ start rest

/-- Idle code in front of some lines matters to documentation only. -/
theorem map_bare_idle (path : String) (number start : Nat) (rest : List (List Char))
    (hs : s.mode = .code)
    (h : ∀ line ∈ more, Noise l.commentStyle (trim line) ∨ Idle l s line) :
    (declarations l path s number (more ++ rest)).map Declaration.bare =
      (declarations l path s start rest).map Declaration.bare := by
  obtain ⟨hnone, hafter, -⟩ := run_idle hs path number h
  rw [declarations_append, hnone]
  rcases hafter with hafter | hafter
  · rw [hafter]
    exact (Alike.refl s).map_bare_declarations path _ start rest
  · rw [hafter]
    exact ((alike_documented hs []).map_bare_declarations path start _ rest).symm

/-- The declaration on the line behind lines that are noise or idle, one of them idle, has no
    documentation; without these lines it has what is pending. -/
theorem map_unplaced_idle {f : Found} (path : String) (number start : Nat)
    (rest : List (List Char)) (hs : s.mode = .code)
    (h : ∀ line ∈ more, Noise l.commentStyle (trim line) ∨ Idle l s line)
    (hidle : ∃ line ∈ more, Idle l s line) (hline : (step l s line).2 = some f) :
    ∃ d others, d.kind = f.kind ∧ d.name = String.ofList f.name ∧
      d.documentation = String.ofList (joinDocumentation s.documentation) ∧
      (declarations l path s start (line :: rest)).map Declaration.unplaced = d :: others ∧
      (declarations l path s number (more ++ line :: rest)).map Declaration.unplaced =
        { d with documentation := "" } :: others := by
  obtain ⟨hnone, -, hafter⟩ := run_idle hs path number h
  have hcode := code_of_found hline
  have hsame : step l (s.documented []) line = step l s line := by
    rw [step_of_code hcode, step_of_code (by rw [← hcode, hs]; rfl),
      (alike_documented hs []).codeLine_eq]
  have hempty : (step l (s.documented []) line).2 = some f := by rw [hsame, hline]
  refine ⟨(declaration path s start line f).unplaced,
    (declarations l path (step l s line).1 (start + 1) rest).map Declaration.unplaced,
    rfl, rfl, rfl, ?_, ?_⟩
  · rw [declarations_of_found hline, List.map_cons]
  · rw [declarations_append, hnone, hafter hidle, List.nil_append, declarations_of_found hempty,
      List.map_cons, hsame, map_unplaced_declarations l path _ _ (start + 1)]
    rfl

/-- A declaration on the line behind lines that are noise or code, one of them code, has no
    documentation. -/
theorem exists_undocumented {f : Found} (path : String) (number : Nat) (rest : List (List Char))
    (hs : s.mode = .code)
    (h : ∀ line ∈ more, Noise l.commentStyle (trim line) ∨
      LineKind.of l.commentStyle .code (trim line) = .code)
    (hcode : ∃ line ∈ more, LineKind.of l.commentStyle .code (trim line) = .code)
    (hline : (step l (after l s more) line).2 = some f) :
    ∃ d before others, d.kind = f.kind ∧ d.name = String.ofList f.name ∧ d.documentation = "" ∧
      declarations l path s number (more ++ line :: rest) = before ++ d :: others := by
  have hempty := run_code hs h (.inr hcode)
  refine ⟨declaration path (after l s more) (number + more.length) line f,
    declarations l path s number more,
    declarations l path (step l (after l s more) line).1 (number + more.length + 1) rest,
    rfl, rfl, ?_, ?_⟩
  · rw [declaration, hempty]
    rfl
  · rw [declarations_append, declarations_of_found hline]

/-- An attribute that stands on one line, and on several with a line feed behind each, in Rust,
    Java, PHP and Python. On one line it has no part in the scan. On several, the lines behind the
    first are scanned as lines of their own. If they are no code, the two scans find the same
    declarations. If they are idle code too, both find the same kinds, names and owners, but the
    documentation that was pending is lost: the declaration on the line behind the attribute has it
    in the one scan and none in the other, and all others are as before. Whatever else code among
    the lines does, a declaration on the line behind the attribute has no documentation. -/
theorem scan_layout (path : String) {joined broken : String} {mark first joint : List Char}
    {front rest : List (List Char)}
    (hjoined : lines joined.toList = front ++ (first ++ joint) :: rest)
    (hbroken : lines broken.toList = front ++ first :: (more ++ rest))
    (hmark : mark ∈ l.commentStyle.decorator) (hfirst : mark <+: trim first)
    (hs : after l {} front = s) (hmode : s.mode = .code) :
    (SourceFile.scan l path joined).declarations = declarations l path {} 1 front ++
        declarations l path s (front.length + 2) rest ∧
      (SourceFile.scan l path broken).declarations = declarations l path {} 1 front ++
        declarations l path s (front.length + 2) (more ++ rest) ∧
      ((∀ line ∈ more, Noise l.commentStyle (trim line)) →
        (SourceFile.scan l path broken).declarations.map Declaration.unplaced =
          (SourceFile.scan l path joined).declarations.map Declaration.unplaced) ∧
      ((∀ line ∈ more, Noise l.commentStyle (trim line) ∨ Idle l s line) →
        (SourceFile.scan l path broken).declarations.map Declaration.bare =
          (SourceFile.scan l path joined).declarations.map Declaration.bare) ∧
      ((∀ line ∈ more, Noise l.commentStyle (trim line) ∨ Idle l s line) →
        (∃ line ∈ more, Idle l s line) → ∀ line behind f, rest = line :: behind →
        (step l s line).2 = some f →
        ∃ d before others, d.kind = f.kind ∧ d.name = String.ofList f.name ∧
          d.documentation = String.ofList (joinDocumentation s.documentation) ∧
          (SourceFile.scan l path joined).declarations.map Declaration.unplaced =
            before ++ d :: others ∧
          (SourceFile.scan l path broken).declarations.map Declaration.unplaced =
            before ++ { d with documentation := "" } :: others) ∧
      ((∀ line ∈ more, Noise l.commentStyle (trim line) ∨
          LineKind.of l.commentStyle .code (trim line) = .code) →
        (∃ line ∈ more, LineKind.of l.commentStyle .code (trim line) = .code) →
        ∀ line behind f, rest = line :: behind → (step l (after l s more) line).2 = some f →
        ∃ d before others, d.kind = f.kind ∧ d.name = String.ofList f.name ∧
          d.documentation = "" ∧
          (SourceFile.scan l path broken).declarations = before ++ d :: others) := by
  subst hs
  obtain ⟨hne, hblank⟩ := CommentStyle.decorator_not_blank hmark
  have hone : (SourceFile.scan l path joined).declarations = declarations l path {} 1 front ++
      declarations l path (after l {} front) (front.length + 2) rest := by
    rw [SourceFile.scan, hjoined]
    exact declarations_decorator hmark (prefix_trim_append hne hblank hfirst joint) hmode path rest
  have hseveral : (SourceFile.scan l path broken).declarations = declarations l path {} 1 front ++
      declarations l path (after l {} front) (front.length + 2) (more ++ rest) := by
    rw [SourceFile.scan, hbroken]
    exact declarations_decorator hmark hfirst hmode path (more ++ rest)
  refine ⟨hone, hseveral, fun hnoise => ?_, fun hidle => ?_, ?_, ?_⟩
  · rw [hone, hseveral, List.map_append, List.map_append, map_unplaced_noise path _
      (front.length + 2) rest hmode hnoise]
  · rw [hone, hseveral, List.map_append, List.map_append, map_bare_idle path _
      (front.length + 2) rest hmode hidle]
  · rintro hidle hexists line behind f rfl hf
    obtain ⟨d, others, hkind, hname, hdocumentation, hin, hout⟩ :=
      map_unplaced_idle path (front.length + 2) (front.length + 2) behind hmode hidle hexists hf
    refine ⟨d, (declarations l path {} 1 front).map Declaration.unplaced, others, hkind, hname,
      hdocumentation, ?_, ?_⟩
    · rw [hone, List.map_append, hin]
    · rw [hseveral, List.map_append, hout]
  · rintro hcode hexists line behind f rfl hf
    obtain ⟨d, before, others, hkind, hname, hdocumentation, hdeclarations⟩ :=
      exists_undocumented path (front.length + 2) behind hmode hcode hexists hf
    refine ⟨d, declarations l path {} 1 front ++ before, others, hkind, hname, hdocumentation, ?_⟩
    rw [hseveral, hdeclarations, List.append_assoc]

/-- A documented type with an attribute on one line. -/
def attributeOnOneLine : String := "/// @A\n#[derive(Debug, Clone)]\nstruct S;\n"

/-- The same type with the attribute on several lines, a comment among them. -/
def attributeOnLines : String :=
  "/// @A\n#[derive(\n    // for logs\n    Debug, Clone\n)]\nstruct S;\n"

theorem scan_layout_derive :
    ∃ mark first joint front more rest line behind f,
      (lines attributeOnOneLine.toList = front ++ (first ++ joint) :: rest ∧
        lines attributeOnLines.toList = front ++ first :: (more ++ rest) ∧
        mark ∈ Language.rust.commentStyle.decorator ∧ mark <+: trim first ∧
        (after .rust {} front).mode = .code ∧
        (∀ line ∈ more, Noise Language.rust.commentStyle (trim line) ∨
          Idle .rust (after .rust {} front) line) ∧
        (∃ line ∈ more, Idle .rust (after .rust {} front) line) ∧
        rest = line :: behind ∧ (step .rust (after .rust {} front) line).2 = some f) ∧
      ∃ d before others, d.kind = .type ∧ d.name = "S" ∧ d.documentation = "@A" ∧
        (SourceFile.scan .rust "a.rs" attributeOnOneLine).declarations.map Declaration.unplaced =
          before ++ d :: others ∧
        (SourceFile.scan .rust "a.rs" attributeOnLines).declarations.map Declaration.unplaced =
          before ++ { d with documentation := "" } :: others := by
  have hone : lines attributeOnOneLine.toList = ["/// @A".toList] ++
      ("#[derive(".toList ++ "Debug, Clone)]".toList) :: ["struct S;".toList] := by decide +kernel
  have hseveral : lines attributeOnLines.toList = ["/// @A".toList] ++ "#[derive(".toList ::
      (["    // for logs".toList, "    Debug, Clone".toList, ")]".toList] ++
        ["struct S;".toList]) := by decide +kernel
  have hmark : ['#', '['] ∈ Language.rust.commentStyle.decorator := by decide
  have hfirst : ['#', '['] <+: trim "#[derive(".toList := ⟨"derive(".toList, by decide +kernel⟩
  have hmode : (after .rust {} ["/// @A".toList]).mode = .code := by decide +kernel
  have hcomment : Noise Language.rust.commentStyle (trim "    // for logs".toList) := by
    have htrim : trim "    // for logs".toList = ['/', '/'] ++ " for logs".toList := by
      decide +kernel
    rw [htrim]
    refine .lineComment (by decide) (by decide) (List.prefix_append ['/', '/'] _) ?_
    intro doc hdoc hslashes
    obtain rfl : doc = ['/', '/', '/'] := List.mem_singleton.1 hdoc
    obtain ⟨text, htext⟩ := hslashes
    cases htext
  have hnames : Idle .rust (after .rust {} ["/// @A".toList]) "    Debug, Clone".toList := by
    decide +kernel
  have hclose : Idle .rust (after .rust {} ["/// @A".toList]) ")]".toList := by decide +kernel
  have hmore : ∀ line ∈ ["    // for logs".toList, "    Debug, Clone".toList, ")]".toList],
      Noise Language.rust.commentStyle (trim line) ∨
        Idle .rust (after .rust {} ["/// @A".toList]) line := by
    simp only [List.forall_mem_cons]
    exact ⟨.inl hcomment, .inr hnames, .inr hclose, fun _ h => absurd h List.not_mem_nil⟩
  have hidle : ∃ line ∈ ["    // for logs".toList, "    Debug, Clone".toList, ")]".toList],
      Idle .rust (after .rust {} ["/// @A".toList]) line := ⟨_, by simp, hclose⟩
  have hfound : (step .rust (after .rust {} ["/// @A".toList]) "struct S;".toList).2 =
      some ⟨.type, ['S'], none⟩ := by decide +kernel
  obtain ⟨-, -, -, -, hlost, -⟩ := scan_layout "a.rs" hone hseveral hmark hfirst rfl hmode
  obtain ⟨d, before, others, hkind, hname, hdocumentation, hin, hout⟩ :=
    hlost hmore hidle _ _ _ rfl hfound
  have hpending : String.ofList
      (joinDocumentation (after .rust {} ["/// @A".toList]).documentation) = "@A" := by
    decide +kernel
  exact ⟨_, _, _, _, _, _, _, _, _,
    ⟨hone, hseveral, hmark, hfirst, hmode, hmore, hidle, rfl, hfound⟩,
    d, before, others, hkind, hname, hdocumentation.trans hpending, hin, hout⟩

/-- The brackets that close those a text leaves open, the innermost first, or nothing if the text
    closes one that is not open. -/
def openBrackets (pending : List Char) : List Char → Option (List Char)
  | [] => some pending
  | c :: cs =>
    if c = '(' then openBrackets (')' :: pending) cs
    else if c = '[' then openBrackets (']' :: pending) cs
    else if c = '\x7b' then openBrackets ('\x7d' :: pending) cs
    else if c = ')' ∨ c = ']' ∨ c = '\x7d' then
      if pending.head? = some c then openBrackets pending.tail cs else none
    else openBrackets pending cs

/-- A documented declaration does not always keep its documentation when an attribute with balanced
    brackets in front of it is broken inside the brackets. -/
theorem scan_not_always_layout_free :
    ¬∀ (l : Language) (path joined broken : String) (mark first : List Char)
      (front more rest : List (List Char)) (line : List Char) (f : Found),
      lines joined.toList = front ++ (first ++ more.flatten) :: line :: rest →
      lines broken.toList = front ++ first :: (more ++ line :: rest) →
      mark ∈ l.commentStyle.decorator → mark <+: trim first →
      openBrackets [] (first ++ more.flatten) = some [] →
      (∀ n < more.length, openBrackets [] (first ++ (more.take n).flatten) ≠ some []) →
      (after l {} front).mode = .code → (after l {} front).documentation ≠ [] →
      (step l (after l {} front) line).2 = some f →
      (SourceFile.scan l path broken).declarations.map Declaration.unplaced =
        (SourceFile.scan l path joined).declarations.map Declaration.unplaced := by
  intro h
  have hsame := h .rust "a.rs" "/// @A\n#[derive(    Debug)]\nstruct S;\n"
    "/// @A\n#[derive(\n    Debug\n)]\nstruct S;\n" ['#', '['] "#[derive(".toList
    ["/// @A".toList] ["    Debug".toList, ")]".toList] [] "struct S;".toList ⟨.type, ['S'], none⟩
    (by decide +kernel) (by decide +kernel) (by decide)
    ⟨"derive(".toList, by decide +kernel⟩ (by decide +kernel) (by decide +kernel)
    (by decide +kernel) (by decide +kernel) (by decide +kernel)
  revert hsame
  decide +kernel

end Scanner

end DocDirectives
