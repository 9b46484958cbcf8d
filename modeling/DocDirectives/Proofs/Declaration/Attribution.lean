import DocDirectives.Proofs.Declaration.Kinds
import Mathlib.Data.List.Induction

/-! # Which documentation belongs to a declaration

    Documentation is pending from one line of code to the next: a line of it adds to what was read
    before, a block takes its place, and everything else leaves it. `Documents` says this of the
    kinds of the lines between two lines of code; it is kept line by line, and the next line of code
    takes what is pending. So a declaration has the documentation between the last line of code and
    its own line, and no other declaration has any of it. -/

namespace DocDirectives

open Text

namespace LineKind

/-- A line that leaves pending documentation as it is. -/
def Quiet : LineKind → Prop
  | .blank => True
  | .decorator => True
  | .comment _ => True
  | .inComment _ => True
  | _ => False

/-- The lines of a documentation block that is not closed, and its text. -/
inductive OpenBlock : List LineKind → List (List Char) → Prop
  | opens {text : List Char} : OpenBlock [.opensBlock text false] [text]
  | goesOn {text : List Char} {ks : List LineKind} {texts : List (List Char)} :
      OpenBlock ks texts → OpenBlock (ks ++ [.inBlock text false]) (texts ++ [text])

/-- The lines of a whole documentation block, and its text. -/
inductive Block : List LineKind → List (List Char) → Prop
  | one {text : List Char} : Block [.opensBlock text true] [text]
  | closes {text : List Char} {ks : List LineKind} {texts : List (List Char)} :
      OpenBlock ks texts → Block (ks ++ [.inBlock text true]) (texts ++ [text])

/-- Lines without code among them, and the documentation that they leave pending. -/
inductive Documents : List LineKind → List (List Char) → Prop
  | nil : Documents [] []
  | quiet {kind : LineKind} {ks : List LineKind} {texts : List (List Char)} :
      kind.Quiet → Documents ks texts → Documents (ks ++ [kind]) texts
  | line {text : List Char} {ks : List LineKind} {texts : List (List Char)} :
      Documents ks texts → Documents (ks ++ [.documentation text]) (texts ++ [text])
  | block {ks bs : List LineKind} {before texts : List (List Char)} :
      Documents ks before → Block bs texts → Documents (ks ++ bs) texts

theorem Block.exists_not_quiet {ks : List LineKind} {texts : List (List Char)}
    (h : Block ks texts) : ∃ kind ∈ ks, ¬kind.Quiet := by
  cases h with
  | one => exact ⟨_, List.mem_singleton_self _, id⟩
  | closes => exact ⟨_, List.mem_append_right _ (List.mem_singleton_self _), id⟩

/-- Without a line of documentation nothing is pending. -/
theorem Documents.eq_nil {ks : List LineKind} {texts : List (List Char)} (h : Documents ks texts)
    (hks : ∀ kind ∈ ks, kind.Quiet) : texts = [] := by
  induction h with
  | nil => rfl
  | quiet _ _ ih => exact ih fun kind hkind => hks kind (List.mem_append_left _ hkind)
  | line => exact (hks _ (List.mem_append_right _ (List.mem_singleton_self _))).elim
  | block _ hblock =>
    obtain ⟨kind, hmem, hkind⟩ := hblock.exists_not_quiet
    exact absurd (hks kind (List.mem_append_right _ hmem)) hkind

end LineKind

/-! ### Lines of a documentation -/

/-- Lines without the empty ones at both ends. -/
def Core (lines kept : List (List Char)) : Prop :=
  ∃ front behind, lines = front ++ kept ++ behind ∧ (∀ line ∈ front ++ behind, line = []) ∧
    kept.head? ≠ some [] ∧ kept.getLast? ≠ some []

theorem head?_dropWhile_isEmpty (lines : List (List Char)) :
    (lines.dropWhile List.isEmpty).head? ≠ some [] := by
  intro h
  have hhead := List.head?_dropWhile_not List.isEmpty lines
  rw [h] at hhead
  cases hhead

theorem eq_nil_of_mem_takeWhile {lines : List (List Char)} :
    ∀ line ∈ lines.takeWhile List.isEmpty, line = [] := fun _ h =>
  List.isEmpty_iff.1 (List.mem_takeWhile_imp h)

namespace Scanner

open LineKind

theorem exists_core (lines : List (List Char)) :
    ∃ kept, Core lines kept ∧ joinDocumentation lines = joinWith ['\n'] kept := by
  let behindFront := lines.dropWhile List.isEmpty
  let kept := (behindFront.reverse.dropWhile List.isEmpty).reverse
  let behind := (behindFront.reverse.takeWhile List.isEmpty).reverse
  have hbehind : kept ++ behind = behindFront := by
    rw [← List.reverse_append, List.takeWhile_append_dropWhile, List.reverse_reverse]
  refine ⟨kept, ⟨lines.takeWhile List.isEmpty, behind, ?_, ?_, ?_, ?_⟩, rfl⟩
  · rw [List.append_assoc, hbehind, List.takeWhile_append_dropWhile]
  · intro line h
    rcases List.mem_append.1 h with h | h
    · exact eq_nil_of_mem_takeWhile line h
    · exact eq_nil_of_mem_takeWhile line (List.mem_reverse.1 h)
  · intro h
    refine head?_dropWhile_isEmpty lines ?_
    rw [show lines.dropWhile List.isEmpty = kept ++ behind from hbehind.symm, List.head?_append, h]
    rfl
  · rw [List.getLast?_reverse]
    exact head?_dropWhile_isEmpty _

/-! ### Lines since the last line of code -/

/-- What is pending behind lines of the kinds `ks`: documentation, and inside a block the text of it
    too. -/
def Pending (ks : List LineKind) (s : Scanner) : Prop :=
  match s.mode with
  | .block texts =>
    ∃ front bs, ks = front ++ bs ∧ Documents front s.documentation ∧ OpenBlock bs texts
  | _ => Documents ks s.documentation

/-- A line that is not code adds to what is pending, takes its place, or leaves it. -/
theorem Pending.behind {s : Scanner} {ks : List LineKind} {kind : LineKind} (h : Pending ks s)
    (hbegins : Begins s.mode kind) (hcode : kind ≠ .code) :
    Pending (ks ++ [kind]) (s.behind kind) := by
  obtain ⟨mode, documentation, nesting, openClass⟩ := s
  cases kind with
  | code => exact absurd rfl hcode
  | inBlock text closes =>
    obtain ⟨texts, rfl⟩ := hbegins
    obtain ⟨front, bs, rfl, hfront, hblock⟩ := h
    rw [List.append_assoc]
    cases closes with
    | false => exact ⟨front, _, rfl, hfront, .goesOn hblock⟩
    | true => exact .block hfront (.closes hblock)
  | opensBlock text closes =>
    obtain rfl : mode = .code := hbegins
    cases closes with
    | false => exact ⟨ks, _, rfl, h, .opens⟩
    | true => exact .block h .one
  | documentation text =>
    obtain rfl : mode = .code := hbegins
    exact .line h
  | inComment closes =>
    obtain rfl : mode = .comment := hbegins
    cases closes <;> exact .quiet trivial h
  | comment goesOn =>
    obtain rfl : mode = .code := hbegins
    cases goesOn <;> exact .quiet trivial h
  | blank | decorator =>
    obtain rfl : mode = .code := hbegins
    exact .quiet trivial h

theorem Pending.documents {s : Scanner} {ks : List LineKind} (h : Pending ks s)
    (hmode : s.mode = .code) : Documents ks s.documentation := by
  rwa [Pending, hmode] at h

variable {l : Language} {s : Scanner}

theorem Pending.step {ks : List LineKind} {line : List Char} (h : Pending ks s)
    (hcode : of l.commentStyle s.mode (trim line) ≠ .code) :
    Pending (ks ++ [of l.commentStyle s.mode (trim line)]) (step l s line).1 := by
  rw [step_of_ne_code hcode]
  exact h.behind (begins_of _ _ _) hcode

/-- Lines without code among them leave the documentation pending that they have. -/
theorem Pending.after {ks : List LineKind} {lines : List (List Char)} (h : Pending ks s)
    (hcode : .code ∉ ofLines l.commentStyle s.mode lines) :
    Pending (ks ++ ofLines l.commentStyle s.mode lines) (after l s lines) := by
  induction lines generalizing s ks with
  | nil => rwa [ofLines, List.append_nil]
  | cons line lines ih =>
    simp only [ofLines, List.mem_cons, not_or] at hcode
    obtain ⟨hline, hlines⟩ := hcode
    rw [← mode_step] at hlines
    have hrest := ih (h.step (Ne.symm hline)) hlines
    rwa [List.append_assoc, List.singleton_append, mode_step] at hrest

/-- Lines read from `s` on that end with a line of code, or no lines. -/
def EndsWithCode (l : Language) (s : Scanner) (front : List (List Char)) : Prop :=
  front = [] ∨ ∃ before line, front = before ++ [line] ∧
    of l.commentStyle (Scanner.after l s before).mode (trim line) = .code

/-- Behind the last line of code no line is code. -/
theorem exists_since (l : Language) (s : Scanner) (lines : List (List Char)) :
    ∃ front between, lines = front ++ between ∧ EndsWithCode l s front ∧
      .code ∉ ofLines l.commentStyle (Scanner.after l s front).mode between := by
  induction lines using List.reverseRecOn with
  | nil => exact ⟨[], [], rfl, .inl rfl, List.not_mem_nil⟩
  | append_singleton lines line ih =>
    by_cases hcode : of l.commentStyle (Scanner.after l s lines).mode (trim line) = .code
    · have hends : EndsWithCode l s (lines ++ [line]) := .inr ⟨lines, line, rfl, hcode⟩
      exact ⟨lines ++ [line], [], (List.append_nil _).symm, hends, List.not_mem_nil⟩
    · obtain ⟨front, between, rfl, hends, hbetween⟩ := ih
      refine ⟨front, between ++ [line], (List.append_assoc _ _ _), hends, ?_⟩
      rw [after_append] at hcode
      simp only [ofLines_cut, ofLines, List.mem_append, List.mem_singleton, not_or]
      exact ⟨hbetween, Ne.symm hcode⟩

/-- A line of code takes the documentation that was pending. -/
theorem EndsWithCode.pending {front : List (List Char)} (h : EndsWithCode l {} front) :
    Pending [] (Scanner.after l {} front) := by
  rcases h with rfl | ⟨before, line, rfl, hcode⟩
  · exact .nil
  · have hmode := mode_of_code hcode
    obtain ⟨hkept, htaken⟩ := codeLine_takes l (Scanner.after l {} before) line (trim line)
    rw [after_concat, step_of_code hcode, Pending, hkept, htaken, hmode]
    exact .nil

end Scanner

/-! ### Sources -/

/-- White space in front of a line, in bytes. -/
theorem Text.indentation_eq_byteSize (line : List Char) :
    indentation line = (String.ofList (line.takeWhile isBlank)).utf8ByteSize := by
  induction line with
  | nil => rfl
  | cons c line ih =>
    rw [indentation, List.takeWhile_cons]
    split
    · rw [ih, String.ofList_cons, String.utf8ByteSize_append, String.utf8ByteSize_singleton]
    · rfl

/-- Where a declaration stands and what documents it, in a source with the lines `ls` of the kinds
    `ks`. The lines `front` are none or end with code, the lines `between` have no code among them,
    and the next line is the declaration's. -/
structure Attributed (path : String) (ls : List (List Char)) (ks front between : List LineKind)
    (d : Declaration) : Prop where
  kinds : ∃ rest, ks = front ++ between ++ .code :: rest
  since : front = [] ∨ front.getLast? = some .code
  free : .code ∉ between
  location : ∃ line, ls[front.length + between.length]? = some line ∧
    d.location = { file := path, line := front.length + between.length + 1,
                   column := some ((String.ofList (line.takeWhile isBlank)).utf8ByteSize + 1) }
  documentation : ∃ texts kept, LineKind.Documents between texts ∧ Core texts kept ∧
    d.documentation = String.ofList (joinWith ['\n'] kept)
  bare : (∀ kind ∈ between, kind.Quiet) → d.documentation = ""

namespace Scanner

open LineKind

variable {l : Language} {path : String} {ls : List (List Char)} {d : Declaration}

theorem EndsWithCode.kinds {front : List (List Char)} (h : EndsWithCode l {} front) :
    ofLines l.commentStyle .code front = [] ∨
      (ofLines l.commentStyle .code front).getLast? = some .code := by
  rcases h with rfl | ⟨before, line, rfl, hcode⟩
  · exact .inl rfl
  · refine .inr ?_
    have hkinds := ofLines_cut l {} before line []
    rw [hcode] at hkinds
    exact hkinds ▸ List.getLast?_concat

/-- The lines in front of a declaration are cut behind the last one of code. -/
theorem exists_attributed (h : d ∈ declarations l path {} 1 ls) :
    ∃ front between, Attributed path ls (ofLines l.commentStyle .code ls) front between d := by
  obtain ⟨lines, line, rest, f, rfl, hf, rfl⟩ := exists_of_mem_declarations h
  have hcode := code_of_found hf
  obtain ⟨front, between, rfl, hends, hbetween⟩ := exists_since l {} lines
  have hdocuments := (hends.pending.after hbetween).documents <| by
    rw [← after_append]
    exact mode_of_code hcode
  rw [← after_append, List.nil_append] at hdocuments
  obtain ⟨kept, hcore, hjoin⟩ := exists_core (Scanner.after l {} (front ++ between)).documentation
  have hkinds : ∃ behind, ofLines l.commentStyle .code (front ++ between ++ line :: rest) =
      ofLines l.commentStyle .code front ++
        ofLines l.commentStyle (Scanner.after l {} front).mode between ++ .code :: behind := by
    have hcut := ofLines_cut l {} (front ++ between) line rest
    rw [hcode, ofLines_after l {} front between] at hcut
    exact ⟨_, hcut⟩
  have hlength : 1 + (front ++ between).length = (ofLines l.commentStyle .code front).length +
      (ofLines l.commentStyle (Scanner.after l {} front).mode between).length + 1 := by
    simp only [length_ofLines, List.length_append]
    omega
  refine ⟨ofLines l.commentStyle .code front,
    ofLines l.commentStyle (Scanner.after l {} front).mode between, ⟨hkinds, hends.kinds, hbetween,
      ⟨line, ?_, ?_⟩, ⟨_, kept, hdocuments, hcore, ?_⟩, ?_⟩⟩
  · rw [length_ofLines, length_ofLines, ← List.length_append,
      List.getElem?_append_right (Nat.le_refl _), Nat.sub_self, List.getElem?_cons_zero]
  · rw [declaration, hlength, indentation_eq_byteSize]
  · rw [declaration, hjoin]
  · intro hquiet
    rw [declaration, hdocuments.eq_nil hquiet]
    rfl

end Scanner

namespace Attributed

variable {path : String} {ls : List (List Char)} {ks front between front' between' : List LineKind}
  {d e : Declaration}

theorem line_eq (h : Attributed path ls ks front between d) :
    d.location.line = front.length + between.length + 1 := by
  obtain ⟨line, -, hlocation⟩ := h.location
  rw [hlocation]

/-- No declaration stands among the lines that document another one. -/
theorem line_le (hd : Attributed path ls ks front between d)
    (he : Attributed path ls ks front' between' e) (hlt : e.location.line < d.location.line) :
    e.location.line ≤ front.length := by
  obtain ⟨rest, hks⟩ := hd.kinds
  obtain ⟨rest', hks'⟩ := he.kinds
  rw [hd.line_eq, he.line_eq] at hlt
  rw [he.line_eq]
  by_contra hle
  have hcode : ks[front'.length + between'.length]? = some .code := by
    rw [hks', ← List.length_append, List.getElem?_append_right (Nat.le_refl _), Nat.sub_self,
      List.getElem?_cons_zero]
  rw [hks, List.append_assoc, List.getElem?_append_right (by omega),
    List.getElem?_append_left (by omega)] at hcode
  exact hd.free (List.mem_of_getElem? hcode)

end Attributed

namespace Scanner

open LineKind

/-- Every declaration stands on a line of code, in the order of the lines and one on a line at most.
    Its documentation is what the lines document since the line of code before, and these lines are
    behind every earlier declaration. -/
theorem scan_attributed (l : Language) (path content : String) :
    ((SourceFile.scan l path content).declarations.Pairwise fun d e =>
      d.location.line < e.location.line) ∧
    ∀ d ∈ (SourceFile.scan l path content).declarations, ∃ front between,
      Attributed path (lines content.toList)
        (ofLines l.commentStyle .code (lines content.toList)) front between d ∧
      ∀ e ∈ (SourceFile.scan l path content).declarations,
        e.location.line < d.location.line → e.location.line ≤ front.length := by
  refine ⟨pairwise_declarations l path {} 1 _, fun d hd => ?_⟩
  obtain ⟨front, between, hattributed⟩ := exists_attributed hd
  refine ⟨front, between, hattributed, fun e he hlt => ?_⟩
  obtain ⟨front', between', hattributed'⟩ := exists_attributed he
  exact hattributed.line_le hattributed' hlt

/-- A line of documentation, a block, another line, an attribute and a type; and a function. -/
def replaced : String :=
  "/// old\n/** one\n * two\n */\n/// three\n#[x]\n  struct A;\nfn f() \x7b\x7d\n"

/-- The type in `replaced`: the block takes the place of the line in front of it. -/
def replacedType : Declaration :=
  ⟨.type, "A", none, ⟨"a.rs", 7, some 3⟩, "one\ntwo\n\nthree"⟩

theorem scan_attributed_replaced :
    replacedType ∈ (SourceFile.scan .rust "a.rs" replaced).declarations ∧
      ∃ front between, Attributed "a.rs" (lines replaced.toList)
        (ofLines Language.rust.commentStyle .code (lines replaced.toList)) front between
        replacedType := by
  have hmem : replacedType ∈ (SourceFile.scan .rust "a.rs" replaced).declarations := by
    decide +kernel
  obtain ⟨front, between, h, -⟩ := (scan_attributed .rust "a.rs" replaced).2 _ hmem
  exact ⟨hmem, front, between, h⟩

end Scanner

end DocDirectives
