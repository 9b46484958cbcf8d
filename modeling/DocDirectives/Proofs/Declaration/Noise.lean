import DocDirectives.Proofs.Declaration.Kinds

/-! # Lines that a scan passes over

    A blank line, an attribute and a plain comment that ends on its line leave everything that is
    pending as it is. So wherever one of them is put in between two lines, outside of blocks and
    comments, the scan goes on from the same state, and the declarations behind it only move down by
    one line. -/

namespace DocDirectives

open Text

/-- A `mark` that occurs in a text is found. -/
theorem Text.holds_of_occurs {mark cs : List Char} (h : mark <:+: cs) : holds mark cs = true := by
  rw [holds, Option.isSome_iff_ne_none]
  exact fun hnone => cut?_eq_none_iff.1 hnone h

/-- A line, without the white space around it, that says nothing: it is blank, begins with an
    attribute, or is a whole plain comment. What begins like a line of documentation or opens a
    documentation block is no plain comment. -/
inductive Noise (style : CommentStyle) (line : List Char) : Prop
  | blank : line = [] → Noise style line
  | decorator {mark : List Char} : mark ∈ style.decorator → mark <+: line → Noise style line
  | lineComment {mark : List Char} : mark ∈ style.plain → mark ≠ LineKind.starComment →
      mark <+: line →
      (∀ doc ∈ style.docLine, doc <+: line → ∃ other ∈ style.notDocLine, other <+: line) →
      Noise style line
  | starComment : LineKind.starComment ∈ style.plain → LineKind.starComment <+: line →
      (∀ opening closing, style.docBlock = some (opening, closing) →
        ∀ rest, line = opening ++ rest → ['/'] <+: rest) →
      LineKind.starClose <:+: line → Noise style line

namespace LineKind

variable {l : Language} {style : CommentStyle} {line : List Char}

theorem startsWithAny_iff {marks : List (List Char)} :
    startsWithAny marks line = true ↔ ∃ mark ∈ marks, mark <+: line := by
  simp [startsWithAny, startsWith]

/-- Kinds of lines that leave everything pending. -/
def Neutral : LineKind → Prop
  | .blank => True
  | .decorator => True
  | .comment goesOn => goesOn = false
  | _ => False

theorem documentation?_eq_none
    (h : ∀ doc ∈ style.docLine, doc <+: line → ∃ other ∈ style.notDocLine, other <+: line) :
    documentation? style line = none := by
  unfold documentation?
  split
  · rfl
  · next hother =>
    have hnone : (style.docLine.findSome? fun m => after? m line) = none := by
      refine List.findSome?_eq_none_iff.2 fun doc hdoc => ?_
      by_contra hafter
      obtain ⟨rest, hrest⟩ := Option.ne_none_iff_exists'.1 hafter
      exact hother (startsWithAny_iff.2 (h doc hdoc ⟨rest, after?_eq_some.1 hrest⟩))
    rw [hnone]

theorem blockOpening?_eq_none
    (h : ∀ opening closing, style.docBlock = some (opening, closing) →
      ∀ rest, line = opening ++ rest → ['/'] <+: rest) : blockOpening? style line = none := by
  unfold blockOpening?
  split
  · rfl
  · next opening closing hblock =>
    split
    · rfl
    · next rest hrest =>
      obtain ⟨behind, hslash⟩ := h opening closing hblock rest (after?_eq_some.1 hrest).symm
      exact if_pos (startsWith_eq_true_iff.2 ⟨behind, hslash.symm⟩)

/-- A comment that is no documentation and ends on its line. -/
theorem neutral_of_plain (hne : line ≠ []) (hblock : blockOpening? style line = none)
    (hdocumentation : documentation? style line = none)
    (hplain : startsWithAny style.plain line = true)
    (hends : startsWith starComment line = true → holds starClose line = true) :
    (of style .code line).Neutral := by
  have hempty : line.isEmpty = false := by simpa using hne
  simp only [of, hempty, hblock, hdocumentation, hplain, Bool.false_eq_true, if_false, if_true]
  split
  · trivial
  · show (startsWith starComment line && !holds starClose line) = false
    cases hstar : startsWith starComment line with
    | false => rfl
    | true => rw [hends hstar]; rfl

theorem neutral_of_decorator {mark : List Char} (hmark : mark ∈ l.commentStyle.decorator)
    (h : mark <+: line) : of l.commentStyle .code line = .decorator := by
  obtain ⟨rest, rfl⟩ := h
  cases l with
  | rust | php =>
    obtain rfl : mark = ['#', '['] := by simpa [Language.commentStyle] using hmark
    rfl
  | python | java =>
    obtain rfl : mark = ['@'] := by simpa [Language.commentStyle] using hmark
    rfl

/-- Line comments begin with two slashes, or in PHP with a number sign. -/
theorem blockOpening?_of_lineComment {mark : List Char} (hmark : mark ∈ l.commentStyle.plain)
    (hstar : mark ≠ starComment) (h : mark <+: line) :
    line ≠ [] ∧ blockOpening? l.commentStyle line = none ∧ startsWith starComment line = false := by
  obtain ⟨rest, rfl⟩ := h
  cases l with
  | python => exact absurd hmark List.not_mem_nil
  | rust | java =>
    obtain rfl | rfl : mark = ['/', '/'] ∨ mark = ['/', '*'] := by
      simpa [Language.commentStyle] using hmark
    · exact ⟨List.cons_ne_nil _ _, rfl, rfl⟩
    · exact absurd rfl hstar
  | php =>
    obtain rfl | rfl | rfl : mark = ['/', '/'] ∨ mark = ['/', '*'] ∨ mark = ['#'] := by
      simpa [Language.commentStyle] using hmark
    · exact ⟨List.cons_ne_nil _ _, rfl, rfl⟩
    · exact absurd rfl hstar
    · exact ⟨List.cons_ne_nil _ _, rfl, rfl⟩

theorem documentation?_of_starComment (h : starComment <+: line) :
    line ≠ [] ∧ documentation? l.commentStyle line = none := by
  obtain ⟨rest, rfl⟩ := h
  exact ⟨List.cons_ne_nil _ _, by cases l <;> rfl⟩

end LineKind

open LineKind in
/-- Noise outside of blocks and comments is read as such. -/
theorem Noise.neutral {l : Language} {line : List Char} (h : Noise l.commentStyle line) :
    (of l.commentStyle .code line).Neutral := by
  cases h with
  | blank hline =>
    rw [hline]
    trivial
  | decorator hmark h =>
    rw [neutral_of_decorator hmark h]
    trivial
  | lineComment hmark hstar h hdoc =>
    obtain ⟨hne, hblock, hnostar⟩ := blockOpening?_of_lineComment hmark hstar h
    refine neutral_of_plain hne hblock (documentation?_eq_none hdoc)
      (startsWithAny_iff.2 ⟨_, hmark, h⟩) fun hline => ?_
    rw [hnostar] at hline
    cases hline
  | starComment hmark h hblock hcloses =>
    obtain ⟨hne, hdocumentation⟩ := documentation?_of_starComment (l := l) h
    exact neutral_of_plain hne (blockOpening?_eq_none hblock) hdocumentation
      (startsWithAny_iff.2 ⟨_, hmark, h⟩) fun _ => holds_of_occurs hcloses

/-- A declaration of a source when a line is put in behind the first `number` lines. -/
def Declaration.below (number : Nat) (d : Declaration) : Declaration :=
  if number < d.location.line then
    { d with location := { d.location with line := d.location.line + 1 } }
  else d

namespace Scanner

variable {l : Language} {s : Scanner} {path : String} {line : List Char}

/-- A line that is noise leaves everything pending. -/
theorem step_noise (h : Noise l.commentStyle (trim line)) (hs : s.mode = .code) :
    step l s line = (s, none) := by
  have hneutral := h.neutral
  rw [← hs] at hneutral
  cases hkind : LineKind.of l.commentStyle s.mode (trim line) with
  | blank | decorator => simp only [step, hkind]
  | comment goesOn =>
    rw [hkind] at hneutral
    obtain rfl : goesOn = false := hneutral
    simp only [step, hkind, Bool.false_eq_true, if_false]
  | inBlock | inComment | opensBlock | documentation | code =>
    rw [hkind] at hneutral
    exact hneutral.elim

/-- Where the lines are counted from makes no other difference. -/
theorem declarations_succ (l : Language) (path : String) (s : Scanner) {number start : Nat}
    (hstart : number < start) (lines : List (List Char)) :
    declarations l path s (start + 1) lines =
      (declarations l path s start lines).map (Declaration.below number) := by
  induction lines generalizing s start with
  | nil => rfl
  | cons line lines ih =>
    simp only [declarations, List.map_append, ih _ (hstart.trans (Nat.lt_add_one start))]
    congr 1
    cases (step l s line).2 with
    | none => rfl
    | some f =>
      have hbelow : (declaration path s start line f).below number =
          declaration path s (start + 1) line f := if_pos hstart
      rw [Option.map_some, Option.map_some, Option.toList_some, Option.toList_some,
        List.map_singleton, hbelow]

/-- Declarations of the first lines stay where they are. -/
theorem below_eq_self {front : List (List Char)} {d : Declaration}
    (h : d ∈ declarations l path {} 1 front) : d.below front.length = d := by
  obtain ⟨before, line, rest, f, rfl, -, rfl⟩ := exists_of_mem_declarations h
  refine if_neg ?_
  simp only [declaration, List.length_append, List.length_cons]
  omega

/-- Noise put in between two lines, outside of blocks and comments, moves the declarations behind it
    down by one line and changes nothing else. -/
theorem scan_noise (path : String) {content inserted : String} {front rest : List (List Char)}
    (hlines : lines content.toList = front ++ rest)
    (hinserted : lines inserted.toList = front ++ line :: rest)
    (hmode : (after l {} front).mode = .code) (h : Noise l.commentStyle (trim line)) :
    (SourceFile.scan l path inserted).declarations =
      (SourceFile.scan l path content).declarations.map (Declaration.below front.length) := by
  have hfront : (declarations l path {} 1 front).map (Declaration.below front.length) =
      declarations l path {} 1 front :=
    (List.map_congr_left fun _ => below_eq_self).trans (List.map_id' _)
  have hline : declarations l path (after l {} front) (1 + front.length) (line :: rest) =
      declarations l path (after l {} front) (1 + front.length + 1) rest := by
    rw [declarations, step_noise h hmode]
    rfl
  calc (SourceFile.scan l path inserted).declarations
      = declarations l path {} 1 front ++
          declarations l path (after l {} front) (1 + front.length + 1) rest := by
        rw [SourceFile.scan, hinserted, declarations_append, hline]
    _ = (declarations l path {} 1 front).map (Declaration.below front.length) ++
          (declarations l path (after l {} front) (1 + front.length) rest).map
            (Declaration.below front.length) := by
        rw [hfront, declarations_succ l path _ (Nat.lt_add_of_pos_left Nat.zero_lt_one)]
    _ = (SourceFile.scan l path content).declarations.map (Declaration.below front.length) := by
        rw [SourceFile.scan, hlines, declarations_append, List.map_append]

/-- A documented type, without and with a comment in front of it. -/
def uncommented : String := "struct A;\n/// one\nstruct B;\n"

def commented : String := "struct A;\n/// one\n  /* two */\nstruct B;\n"

theorem scan_noise_commented :
    ∃ front line rest, lines uncommented.toList = front ++ rest ∧
      lines commented.toList = front ++ line :: rest ∧ (after .rust {} front).mode = .code ∧
      Noise Language.rust.commentStyle (trim line) ∧
      (SourceFile.scan .rust "a.rs" commented).declarations =
        (SourceFile.scan .rust "a.rs" uncommented).declarations.map
          (Declaration.below front.length) := by
  have hlines : lines uncommented.toList =
      ["struct A;".toList, "/// one".toList] ++ ["struct B;".toList] := by decide +kernel
  have hinserted : lines commented.toList =
      ["struct A;".toList, "/// one".toList] ++ "  /* two */".toList :: ["struct B;".toList] := by
    decide +kernel
  have hmode : (after .rust {} ["struct A;".toList, "/// one".toList]).mode = .code := by
    decide +kernel
  have hnoise : Noise Language.rust.commentStyle (trim "  /* two */".toList) := by
    have htrim : trim "  /* two */".toList = "/* two */".toList := by decide +kernel
    rw [htrim]
    refine .starComment (by decide) ⟨" two */".toList, rfl⟩ ?_ ⟨"/* two ".toList, [], rfl⟩
    rintro opening closing ⟨⟩ rest hrest
    cases hrest
  exact ⟨_, _, _, hlines, hinserted, hmode, hnoise,
    scan_noise "a.rs" hlines hinserted hmode hnoise⟩

end Scanner

end DocDirectives
