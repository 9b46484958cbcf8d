import DocDirectives.Declaration.Scan
import DocDirectives.Proofs.Declaration.Outside

/-! # Depth of the braces

    The depth follows the balance of the braces outside comments and literals, as long as lines are
    tidy: a line that begins with a comment or inside one has no brace outside, a line that begins
    with an attribute has none either, and a comment behind code ends on its line. One line keeps
    the depth and the place inside a comment or outside, and so do the lines of a whole source by
    induction. -/

namespace DocDirectives

open Text Braces

/-- Nesting behind some braces. No closing brace takes it below zero. -/
def balance (depth : Nat) (braces : List Char) : Nat :=
  braces.foldl (fun depth c => if c = '{' then depth + 1 else depth - 1) depth

theorem balance_append (depth : Nat) (braces behind : List Char) :
    balance depth (braces ++ behind) = balance (balance depth braces) behind :=
  List.foldl_append

/-! ### Nesting -/

namespace Nesting

theorem depth_follow_brace {c : Char} (h : isBrace c = true) (n : Nesting) :
    (n.follow c).depth = balance n.depth [c] := by
  obtain rfl | rfl : c = '{' ∨ c = '}' := by simpa [isBrace] using h
  all_goals rfl

theorem depth_follow_of_not_brace {c : Char} (h : isBrace c = false) (n : Nesting) :
    (n.follow c).depth = n.depth := by
  obtain ⟨hopen, hclose⟩ : c ≠ '{' ∧ c ≠ '}' := by simpa [isBrace] using h
  rw [follow, if_neg hopen, if_neg hclose]
  split <;> rfl

/-- The depth depends on the braces only. -/
theorem depth_foldl_follow (cs : List Char) (n : Nesting) :
    (cs.foldl follow n).depth = balance n.depth (cs.filter isBrace) := by
  induction cs generalizing n with
  | nil => rfl
  | cons c cs ih =>
    rw [List.foldl_cons, ih]
    by_cases hc : isBrace c = true
    · rw [List.filter_cons_of_pos hc, depth_follow_brace hc, ← balance_append,
        List.singleton_append]
    · rw [List.filter_cons_of_neg hc, depth_follow_of_not_brace (by simpa using hc)]

theorem depth_followLine (l : Language) (n : Nesting) (line : List Char) :
    (n.followLine l line).depth = balance n.depth (bracesOf l line) :=
  depth_foldl_follow _ n

end Nesting

/-! ### Kinds of lines -/

namespace LineKind

variable {l : Language} {line : List Char}

theorem docBlock_eq (hl : l ≠ .python) : l.commentStyle.docBlock = Language.starBlock := by
  cases l <;> first | rfl | exact absurd rfl hl

theorem blockText_closes (hl : l ≠ .python) (line : List Char) :
    ∃ text, blockText l.commentStyle line = .inBlock text (holds starClose line) := by
  unfold blockText holds
  rw [docBlock_eq hl]
  simp only [Language.starBlock, Option.map_some, Option.getD_some, starClose]
  cases cut? ['*', '/'] line with
  | none => exact ⟨_, rfl⟩
  | some p => exact ⟨_, rfl⟩

/-- Behind `/**` the closing mark is looked for where it is found in the whole line, since `/**/`
    opens no documentation. -/
theorem holds_starClose {rest : List Char} (h : startsWith ['/'] rest = false) :
    holds starClose ('/' :: '*' :: '*' :: rest) = (cut? starClose rest).isSome := by
  have hhead := startsWith_eq_false_iff.1 h
  simp [holds, starClose, cut?, after?, hhead]

/-- A line opens documentation, up to the closing mark, or none. -/
theorem blockOpening?_closes (hl : l ≠ .python) (line : List Char) :
    (∃ text, blockOpening? l.commentStyle line = some (.opensBlock text (holds starClose line))) ∨
      blockOpening? l.commentStyle line = none := by
  unfold blockOpening?
  rw [docBlock_eq hl]
  simp only [Language.starBlock]
  cases hopening : after? ['/', '*', '*'] line with
  | none => exact .inr rfl
  | some rest =>
    cases hslash : startsWith ['/'] rest with
    | true => exact .inr (if_pos hslash)
    | false =>
      simp only [hslash, Bool.false_eq_true, if_false]
      have hclose : holds starClose line = (cut? starClose rest).isSome := by
        rw [← after?_eq_some.1 hopening]
        exact holds_starClose hslash
      rw [hclose, starClose]
      cases cut? ['*', '/'] rest with
      | none => exact .inl ⟨_, rfl⟩
      | some p => exact .inl ⟨_, rfl⟩

/-- A line that begins with a comment goes on unless it has the closing mark. -/
theorem of_code_star (hl : l ≠ .python) (h : startsWith starComment line = true) :
    (∃ text, of l.commentStyle .code line = .opensBlock text (holds starClose line)) ∨
      of l.commentStyle .code line = .comment (!holds starClose line) := by
  obtain ⟨rest, hline⟩ := startsWith_eq_true_iff.1 h
  have hne : line.isEmpty = false := by rw [hline]; rfl
  rcases blockOpening?_closes hl line with ⟨text, hopening⟩ | hopening
  · exact .inl ⟨text, by simp [of, hne, hopening]⟩
  · have hplain : startsWithAny l.commentStyle.plain line = true := by
      cases l <;> simp_all [startsWithAny, Language.commentStyle, starComment]
    have hdecorator : startsWithAny l.commentStyle.decorator line = false := by
      rw [hline]
      cases l <;> rfl
    have hdocumentation : documentation? l.commentStyle line = none := by
      rw [hline]
      cases l <;> rfl
    exact .inr (by simp [of, hne, hopening, hdocumentation, hdecorator, hplain, h])

theorem bracesOf_of_lineComment (h : startsWith ['/', '/'] line = true) : bracesOf l line = [] := by
  obtain ⟨rest, rfl⟩ := startsWith_eq_true_iff.1 h
  exact bracesOf_lineComment

/-- A line of documentation is a line comment. -/
theorem bracesOf_documentation (hl : l ≠ .python) {text : List Char}
    (h : documentation? l.commentStyle line = some text) : bracesOf l line = [] := by
  unfold documentation? at h
  cases l with
  | python => exact absurd rfl hl
  | java | php => simp [Language.commentStyle, startsWithAny] at h
  | rust =>
    cases hafter : after? ['/', '/', '/'] line with
    | none => simp [Language.commentStyle, hafter] at h
    | some rest =>
      rw [← after?_eq_some.1 hafter]
      exact bracesOf_lineComment

/-- A comment that begins a line and is not in stars takes the whole line. -/
theorem bracesOf_comment (hl : l ≠ .python) (hstar : startsWith starComment line = false)
    (hdecorator : startsWithAny l.commentStyle.decorator line = false)
    (h : startsWithAny l.commentStyle.plain line = true) : bracesOf l line = [] := by
  have hstar' : startsWith ['/', '*'] line = false := hstar
  cases l with
  | python => exact absurd rfl hl
  | rust | java =>
    refine bracesOf_of_lineComment ?_
    simpa [startsWithAny, Language.commentStyle, hstar'] using h
  | php =>
    by_cases hline : startsWith ['/', '/'] line = true
    · exact bracesOf_of_lineComment hline
    · have hhash : startsWith ['#'] line = true := by
        simpa [startsWithAny, Language.commentStyle, hstar', hline] using h
      obtain ⟨rest, rfl⟩ := startsWith_eq_true_iff.1 hhash
      refine bracesOf_hashComment fun hhead => ?_
      obtain ⟨rest, rfl⟩ : ∃ more, rest = '[' :: more := by
        cases rest with
        | nil => cases hhead
        | cons c rest => exact ⟨rest, by simpa using hhead⟩
      cases hdecorator

/-- A line of another kind has no brace unless it is a line of code or begins with an attribute. -/
theorem of_code_other (hl : l ≠ .python) (h : startsWith starComment line = false) :
    match of l.commentStyle .code line with
    | .code => True
    | .decorator => startsWithAny l.commentStyle.decorator line = true
    | .blank => bracesOf l line = []
    | .documentation _ => bracesOf l line = []
    | .comment goesOn => goesOn = false ∧ bracesOf l line = []
    | _ => False := by
  have hopening : blockOpening? l.commentStyle line = none := by
    unfold blockOpening?
    rw [docBlock_eq hl]
    simp only [Language.starBlock]
    cases hafter : after? ['/', '*', '*'] line with
    | none => rfl
    | some rest =>
      rw [← after?_eq_some.1 hafter] at h
      cases h
  cases hempty : line.isEmpty with
  | true =>
    obtain rfl := List.isEmpty_iff.1 hempty
    exact bracesOf_nil
  | false =>
    simp only [of, hempty, hopening, Bool.false_eq_true, if_false, h, Bool.false_and]
    cases hdocumentation : documentation? l.commentStyle line with
    | some text => exact bracesOf_documentation hl hdocumentation
    | none =>
      simp only
      by_cases hdecorator : startsWithAny l.commentStyle.decorator line = true
      · rwa [if_pos hdecorator]
      · rw [if_neg hdecorator]
        by_cases hplain : startsWithAny l.commentStyle.plain line = true
        · rw [if_pos hplain]
          exact ⟨rfl, bracesOf_comment hl h (by simpa using hdecorator) hplain⟩
        · rw [if_neg hplain]
          trivial

end LineKind

/-! ### Lines -/

namespace Scanner

variable {l : Language} {s : Scanner} {line braces : List Char} {inside ends : Bool}

theorem depth_braceLine (l : Language) (n : Nesting) (line : List Char) :
    (braceLine l n line).1.depth = balance n.depth (bracesOf l line) := by
  unfold braceLine
  split
  all_goals exact Nesting.depth_followLine l _ line

/-- A line, without the white space around it, whose braces are followed. When it begins inside a
    comment or with one, it has no brace outside, and ends inside unless the closing mark is in it.
    Any other line ends outside, and has no brace when it begins with an attribute. -/
def Tidy (l : Language) (inside : Bool) (line braces : List Char) (ends : Bool) : Prop :=
  if inside ∨ startsWith LineKind.starComment line then
    braces = [] ∧ ends = !holds LineKind.starClose line
  else ends = false ∧ (LineKind.startsWithAny l.commentStyle.decorator line → braces = [])

instance (l : Language) (inside : Bool) (line braces : List Char) (ends : Bool) :
    Decidable (Tidy l inside line braces ends) :=
  inferInstanceAs (Decidable (if inside ∨ startsWith LineKind.starComment line then
    braces = [] ∧ ends = !holds LineKind.starClose line else ends = false ∧ (_ → braces = [])))

/-- A line read from inside a comment or outside, and tidy. -/
structure TidyLine (l : Language) (inside : Bool) (line braces : List Char) (ends : Bool) :
    Prop where
  outside : Outside l inside line braces ends
  tidy : Tidy l inside (trim line) braces ends

/-- Whether the next line begins inside a comment. -/
def insideComment (s : Scanner) : Bool := s.mode != .code

theorem insideComment_addToBlock (s : Scanner) (text : List Char) (closes : Bool) :
    (s.addToBlock text closes).insideComment = !closes := by
  cases closes <;> rfl

theorem nesting_addToBlock (s : Scanner) (text : List Char) (closes : Bool) :
    (s.addToBlock text closes).nesting = s.nesting := by
  cases closes <;> rfl

/-- A line of code follows its braces. -/
theorem nesting_codeLine (hl : l ≠ .python) (s : Scanner) (line trimmed : List Char) :
    (codeLine l s line trimmed).1.nesting = (braceLine l s.nesting trimmed).1 ∧
      (codeLine l s line trimmed).1.mode = s.mode := by
  have hbraces : l.usesBraces = true := by cases l <;> first | rfl | exact absurd rfl hl
  unfold codeLine
  rw [if_pos hbraces]
  exact ⟨rfl, rfl⟩

/-- A tidy line moves the depth by its braces, and the scan knows whether it ends inside a
    comment. -/
theorem step_tidy (hl : l ≠ .python) (h : TidyLine l inside line braces ends)
    (hs : s.insideComment = inside) :
    (step l s line).1.nesting.depth = balance s.nesting.depth braces ∧
      (step l s line).1.insideComment = ends := by
  have htidy := h.tidy
  unfold Tidy at htidy
  cases hmode : s.mode with
  | block lines =>
    obtain rfl : true = inside := by rw [← hs, insideComment, hmode]; rfl
    obtain ⟨rfl, rfl⟩ : braces = [] ∧ ends = !holds LineKind.starClose (trim line) := by
      simpa using htidy
    obtain ⟨text, htext⟩ := LineKind.blockText_closes hl (trim line)
    simp only [step, hmode, LineKind.of, htext]
    exact ⟨congrArg Nesting.depth (nesting_addToBlock _ _ _), insideComment_addToBlock _ _ _⟩
  | comment =>
    obtain rfl : true = inside := by rw [← hs, insideComment, hmode]; rfl
    obtain ⟨rfl, rfl⟩ : braces = [] ∧ ends = !holds LineKind.starClose (trim line) := by
      simpa using htidy
    simp only [step, hmode, LineKind.of]
    cases holds LineKind.starClose (trim line)
    · exact ⟨rfl, by simp [insideComment, hmode]⟩
    · exact ⟨rfl, rfl⟩
  | code =>
    obtain rfl : false = inside := by rw [← hs, insideComment, hmode]; rfl
    cases hstar : startsWith LineKind.starComment (trim line) with
    | true =>
      obtain ⟨rfl, rfl⟩ : braces = [] ∧ ends = !holds LineKind.starClose (trim line) := by
        simpa [hstar] using htidy
      rcases LineKind.of_code_star hl hstar with ⟨text, hkind⟩ | hkind
      · simp only [step, hmode, hkind]
        exact ⟨congrArg Nesting.depth (nesting_addToBlock _ _ _), insideComment_addToBlock _ _ _⟩
      · simp only [step, hmode, hkind]
        cases holds LineKind.starClose (trim line)
        · exact ⟨rfl, rfl⟩
        · exact ⟨rfl, by simp [insideComment, hmode]⟩
    | false =>
      -- A line that does not begin with a comment has the braces that are structural in it.
      obtain ⟨rfl, hdecorator⟩ : ends = false ∧ (LineKind.startsWithAny l.commentStyle.decorator
          (trim line) = true → braces = []) := by
        simpa [hstar] using htidy
      have hbraces : bracesOf l (trim line) = braces := h.outside.trim.braces_eq
      have hkind := LineKind.of_code_other hl hstar
      have hinside : s.insideComment = false := hs
      have hsame : braces = [] → s.nesting.depth = balance s.nesting.depth braces := by
        rintro rfl
        rfl
      simp only [step, hmode]
      cases hof : LineKind.of l.commentStyle .code (trim line) with
      | code =>
        obtain ⟨hnesting, hcode⟩ := nesting_codeLine hl s line (trim line)
        simp only
        rw [hnesting, depth_braceLine, hbraces, insideComment, hcode]
        exact ⟨rfl, hinside⟩
      | blank =>
        rw [hof] at hkind
        exact ⟨hsame (hbraces ▸ hkind), hinside⟩
      | documentation text =>
        rw [hof] at hkind
        exact ⟨hsame (hbraces ▸ hkind), rfl⟩
      | decorator =>
        rw [hof] at hkind
        exact ⟨hsame (hdecorator hkind), hinside⟩
      | comment goesOn =>
        rw [hof] at hkind
        obtain ⟨rfl, hnone⟩ := hkind
        exact ⟨hsame (hbraces ▸ hnone), hinside⟩
      | inBlock | inComment | opensBlock =>
        rw [hof] at hkind
        exact hkind.elim

/-! ### Sources -/

/-- What is pending behind some lines. -/
def after (l : Language) (s : Scanner) (lines : List (List Char)) : Scanner :=
  lines.foldl (fun s line => (step l s line).1) s

/-- The lines behind some others are scanned from what is pending behind those. -/
theorem declarations_append (l : Language) (path : String) (s : Scanner) (number : Nat)
    (front rest : List (List Char)) :
    declarations l path s number (front ++ rest) = declarations l path s number front ++
      declarations l path (after l s front) (number + front.length) rest := by
  induction front generalizing s number with
  | nil => rfl
  | cons line front ih =>
    have hnumber : number + 1 + front.length = number + (front.length + 1) := by omega
    simp only [List.cons_append, declarations, ih, after, List.foldl_cons, List.length_cons,
      hnumber, List.append_assoc]

/-- Lines read one after another: whether the first one begins inside a comment, the braces of them
    all, and whether the last one ends inside a comment. -/
inductive Reads (Line : Bool → List Char → List Char → Bool → Prop) :
    Bool → List (List Char) → List Char → Bool → Prop
  | nil {inside : Bool} : Reads Line inside [] [] inside
  | cons {inside between ends : Bool} {line braces behind : List Char}
      {lines : List (List Char)} : Line inside line braces between →
      Reads Line between lines behind ends →
      Reads Line inside (line :: lines) (braces ++ behind) ends

/-- Behind tidy lines the depth is the balance of their braces outside. -/
theorem after_tidy (hl : l ≠ .python) {lines : List (List Char)}
    (h : Reads (TidyLine l) inside lines braces ends) (hs : s.insideComment = inside) :
    (after l s lines).nesting.depth = balance s.nesting.depth braces ∧
      (after l s lines).insideComment = ends := by
  induction h generalizing s with
  | nil => exact ⟨rfl, hs⟩
  | cons hline _ ih =>
    obtain ⟨hdepth, hbetween⟩ := step_tidy hl hline hs
    obtain ⟨hdepth', hends⟩ := ih hbetween
    refine ⟨?_, hends⟩
    rw [balance_append, ← hdepth]
    exact hdepth'

/-- Whatever stands behind tidy lines is scanned from a depth that is the balance of their
    braces. -/
theorem scan_tidy (hl : l ≠ .python) (path : String) {content : String}
    {front rest : List (List Char)} (hlines : lines content.toList = front ++ rest)
    (h : Reads (TidyLine l) false front braces ends) :
    (SourceFile.scan l path content).declarations = declarations l path {} 1 front ++
        declarations l path (after l {} front) (1 + front.length) rest ∧
      (after l {} front).nesting.depth = balance 0 braces ∧
      (after l {} front).insideComment = ends := by
  obtain ⟨hdepth, hends⟩ := after_tidy hl h (s := {}) rfl
  refine ⟨?_, hdepth, hends⟩
  rw [SourceFile.scan, hlines, declarations_append]

/-- A brace in a comment, in a character literal and behind a line comment. -/
theorem scan_tidy_class :
    Language.java ≠ .python ∧
    (∃ front rest : List (List Char),
      lines "class A \x7b\n  /* \x7d */\n  char c = '\x7b'; // \x7b\n\x7d\n".toList =
        front ++ rest ∧
      Reads (TidyLine .java) false front ['{'] false ∧
      (after .java {} front).nesting.depth = 1) := by
  have hlines : lines "class A \x7b\n  /* \x7d */\n  char c = '\x7b'; // \x7b\n\x7d\n".toList =
      ["class A \x7b".toList, "  /* \x7d */".toList, "  char c = '\x7b'; // \x7b".toList] ++
        ["\x7d".toList] := by
    decide +kernel
  have hopen : TidyLine .java false "class A \x7b".toList ['{'] false := by
    refine ⟨?_, by decide +kernel⟩
    have hhead : "class A ".toList.all isInert = true := by decide
    exact .inert hhead (.brace (.inl rfl) .done)
  have hcomment : TidyLine .java false "  /* \x7d */".toList [] false := by
    refine ⟨?_, by decide +kernel⟩
    have hgap : "  ".toList.all isInert = true := by decide
    have htext : '*' ∉ " \x7d ".toList ∧ '/' ∉ " \x7d ".toList := by decide
    exact .inert hgap (.opens (.commented htext.1 htext.2 (.closes .done)))
  have hliteral : TidyLine .java false "  char c = '\x7b'; // \x7b".toList [] false := by
    refine ⟨?_, by decide +kernel⟩
    have hhead : "  cha".toList.all isInert = true := by decide
    have hname : " c = ".toList.all isInert = true := by decide
    have hend : "; ".toList.all isInert = true := by decide
    have hquoted : Quoted '\'' ['{'] := .plain (by decide) (by decide) .nil
    exact .inert hhead <| .plain (by decide) <| .inert hname <|
      .literal (.inr ⟨rfl, by decide⟩) hquoted <| .inert hend .lineComment
  have hread := Reads.cons hopen (Reads.cons hcomment (Reads.cons hliteral Reads.nil))
  exact ⟨by decide, _, _, hlines, hread, (scan_tidy (by decide) "A.java" hlines hread).2.1⟩

/-- A comment that begins behind code and goes on over the line end is no comment to the next line:
    a brace in it closes a block. -/
theorem depth_not_always_balance :
    ∃ front rest : List (List Char), ∃ braces : List Char,
      lines "class A \x7b /* one\n \x7d */\n    int x;\n\x7d\n".toList = front ++ rest ∧
      Reads (Outside .java) false front braces false ∧
      (after .java {} front).nesting.depth ≠ balance 0 braces := by
  refine ⟨["class A \x7b /* one".toList, " \x7d */".toList],
    ["    int x;".toList, "\x7d".toList], ['{'], by decide +kernel, ?_, by decide +kernel⟩
  have hhead : "class A ".toList.all isInert = true := by decide
  have hgap : " ".toList.all isInert = true := by decide
  have hone : '*' ∉ " one".toList ∧ '/' ∉ " one".toList := by decide
  have htwo : '*' ∉ " \x7d ".toList ∧ '/' ∉ " \x7d ".toList := by decide
  have hopen : Outside .java false "class A \x7b /* one".toList ['{'] true :=
    .inert hhead <| .brace (.inl rfl) <| .inert hgap <| .opens <| .commented hone.1 hone.2 .done
  have hclose : Outside .java true " \x7d */".toList [] false :=
    .commented htwo.1 htwo.2 (.closes .done)
  exact .cons hopen (.cons hclose .nil)

end Scanner

end DocDirectives
