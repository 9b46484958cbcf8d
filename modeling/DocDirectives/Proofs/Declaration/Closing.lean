import DocDirectives.Proofs.Declaration.Noise
import DocDirectives.Proofs.Text.Lines

/-! # What stands behind a documentation block

    A line on which a documentation block closes is read up to the closing mark. Code behind the
    mark has no part in the scan: it is not declared, its braces do not count, and the block stays
    pending for the next line of code. A line feed between the mark and the code makes the code a
    line of its own, which the block documents. Only what is no code, blank space or a comment, may
    stand on either line. -/

namespace DocDirectives

open Text

namespace Text

variable {text cs : List Char}

/-- A text is cut at the first closing mark. -/
theorem cut?_starClose (h : ¬LineKind.starClose <:+: text) (cs : List Char) :
    cut? LineKind.starClose (text ++ '*' :: '/' :: cs) = some (text, cs) :=
  cut?_mark (by decide : '*' ∉ ['/']) h cs

/-- White space around a text with a closing mark is in front of the mark or behind it. -/
theorem trim_starClose (text cs : List Char) :
    trim (text ++ '*' :: '/' :: cs) = trimStart text ++ '*' :: '/' :: trimEnd cs := by
  have hstar : isBlank '*' = false := by decide
  have hslash : isBlank '/' = false := by decide
  have hend : trimEnd ('*' :: '/' :: cs) = '*' :: '/' :: trimEnd cs := by
    rw [trimEnd_cons_of_not_blank hstar, trimEnd_cons_of_not_blank hslash]
  rw [trim, trimStart_append_cons hstar, trimEnd_append_of_ne_nil _ (by simp [hend]), hend]

end Text

/-! ### Lines that close a block -/

namespace LineKind

/-- Text of a line inside a documentation block, without white space around it and the star in
    front of it. -/
def undecorated (text : List Char) : List Char :=
  trim ((after? ['*'] (trimStart text)).getD (trimStart text))

/-- A line that begins inside `mode` and ends with the mark that closes a documentation block, and
    the documentation of the block: the line opens the block too, or it begins in the block. -/
inductive Closes (mode : Mode) (line : List Char) : List (List Char) → Prop
  | alone {indent text : List Char} : mode = .code → Blank indent → ¬['/'] <+: text →
      ¬starClose <:+: text → line = indent ++ '/' :: '*' :: '*' :: (text ++ starClose) →
      Closes mode line [trim text]
  | behind {texts : List (List Char)} {text : List Char} : mode = .block texts →
      ¬starClose <:+: text → line = text ++ starClose →
      Closes mode line (texts ++ [undecorated text])

variable {l : Language}

theorem blockOpening?_starClose (hl : l ≠ .python) {text : List Char} (hslash : ¬['/'] <+: text)
    (htext : ¬starClose <:+: text) (cs : List Char) :
    blockOpening? l.commentStyle ('/' :: '*' :: '*' :: (text ++ '*' :: '/' :: cs)) =
      some (.opensBlock (trim text) true) := by
  have hnot : startsWith ['/'] (text ++ '*' :: '/' :: cs) = false := by
    rw [startsWith_append_cons (by decide), ← Bool.not_eq_true, startsWith_eq_true_iff]
    rintro ⟨rest, rfl⟩
    exact hslash ⟨rest, rfl⟩
  have hopening : after? ['/', '*', '*'] ('/' :: '*' :: '*' :: (text ++ '*' :: '/' :: cs)) =
      some (text ++ '*' :: '/' :: cs) := after?_append ['/', '*', '*'] _
  have hcut := cut?_starClose htext cs
  rw [starClose] at hcut
  simp only [blockOpening?, docBlock_eq hl, Language.starBlock, hopening, hnot, hcut,
    Bool.false_eq_true, if_false]

theorem blockText_starClose (hl : l ≠ .python) {text : List Char} (htext : ¬starClose <:+: text)
    (cs : List Char) : blockText l.commentStyle (trimStart text ++ '*' :: '/' :: cs) =
      .inBlock (undecorated text) true := by
  have htrimmed : ¬starClose <:+: trimStart text := fun h =>
    htext (h.trans (List.dropWhile_suffix _).isInfix)
  have hcut := cut?_starClose htrimmed cs
  have hline : l.commentStyle.blockLine = some ['*'] := by
    cases l with
    | python => exact absurd rfl hl
    | rust | java | php => rfl
  rw [starClose] at hcut
  simp only [blockText, docBlock_eq hl, Language.starBlock, hcut, hline, Option.map_some,
    Option.getD_some, undecorated]

end LineKind

/-- A declaration, wherever it stands. -/
def Declaration.unplaced (d : Declaration) : Declaration := { d with location := {} }

open LineKind

namespace Scanner

variable {l : Language} {s : Scanner} {line : List Char} {documentation : List (List Char)}

/-- What is pending behind a documentation block. -/
def documented (s : Scanner) (documentation : List (List Char)) : Scanner :=
  { s with mode := .code, documentation }

/-- A line is read up to the mark that closes the block. -/
theorem step_closes (hl : l ≠ .python) (h : Closes s.mode line documentation) (code : List Char) :
    step l s (line ++ code) = (s.documented documentation, none) := by
  cases h with
  | @alone indent text hmode hindent hslash htext hline =>
    have htrim : trim (line ++ code) =
        '/' :: '*' :: '*' :: (text ++ '*' :: '/' :: trimEnd code) := by
      have hstart : trimStart (indent ++ '/' :: '*' :: '*' :: text) = '/' :: '*' :: '*' :: text :=
        trimStart_append hindent _
      have hparts : line ++ code = (indent ++ '/' :: '*' :: '*' :: text) ++ '*' :: '/' :: code := by
        rw [hline]
        simp [starClose]
      rw [hparts, trim_starClose, hstart]
      rfl
    have hkind : LineKind.of l.commentStyle s.mode (trim (line ++ code)) =
        .opensBlock (trim text) true := by
      simp only [htrim, hmode, LineKind.of, blockOpening?_starClose hl hslash htext,
        List.isEmpty_cons, Bool.false_eq_true, if_false]
    rw [step_of_ne_code (by simp [hkind]), hkind, behind, addToBlock, if_pos rfl, hmode]
    rfl
  | @behind texts text hmode htext hline =>
    have htrim : trim (line ++ code) = trimStart text ++ '*' :: '/' :: trimEnd code := by
      have hparts : line ++ code = text ++ '*' :: '/' :: code := by
        rw [hline]
        simp [starClose]
      rw [hparts, trim_starClose]
    have hkind : LineKind.of l.commentStyle s.mode (trim (line ++ code)) =
        .inBlock (undecorated text) true := by
      rw [htrim, hmode, LineKind.of, blockText_starClose hl htext]
    rw [step_of_ne_code (by simp [hkind]), hkind, behind, addToBlock, if_pos rfl, hmode]
    rfl

/-! ### Line feeds behind a block -/

/-- What is pending behind some lines and one that closes a documentation block. -/
def behindBlock (l : Language) (front documentation : List (List Char)) : Scanner :=
  (after l {} front).documented documentation

/-- A text that ends with a closing mark, and what follows it with and without a line feed. -/
theorem lines_starClose {before behind head code : List Char} {front rest : List (List Char)}
    (hmark : starClose <:+ before) (hbefore : lines before = front ++ [head])
    (hbehind : lines behind = code :: rest) :
    lines (before ++ behind) = front ++ (head ++ code) :: rest ∧
      lines (before ++ '\n' :: behind) = front ++ head :: code :: rest := by
  obtain ⟨text, rfl⟩ := hmark
  have hslash : isBlank '/' = false := by decide
  have hends : text ++ starClose = (text ++ ['*']) ++ ['/'] := by simp [starClose]
  rw [hends] at hbefore
  obtain ⟨hjoined, hbroken⟩ := lines_append hslash hbefore hbehind
  rw [hends, List.append_assoc, List.append_assoc (text ++ ['*'])]
  exact ⟨hjoined, hbroken⟩

/-- A declaration that a line of code gives takes the documentation, so nothing is pending then. -/
theorem documentation_of_found {f : Found} (h : (step l s line).2 = some f) :
    (step l s line).1.documentation = [] := by
  rw [step_of_code (code_of_found h)]
  exact (codeLine_takes l s line (trim line)).2

/-- A line with a declaration gives it in front of what the lines behind give. -/
theorem declarations_of_found {f : Found} (h : (step l s line).2 = some f) (path : String)
    (number : Nat) (rest : List (List Char)) :
    declarations l path s number (line :: rest) =
      declaration path s number line f ::
        declarations l path (step l s line).1 (number + 1) rest := by
  simp only [declarations, h, Option.map_some, Option.toList_some, List.singleton_append]

section Behind

variable {front rest : List (List Char)} {head code : List Char} {path : String}

/-- The scan of a source goes on behind a block with the lines behind the line that closes it. -/
theorem declarations_closing (path : String) (hl : l ≠ .python)
    (hcloses : Closes (after l {} front).mode head documentation) (code : List Char)
    (rest : List (List Char)) :
    declarations l path {} 1 (front ++ (head ++ code) :: rest) = declarations l path {} 1 front ++
      declarations l path (behindBlock l front documentation) (front.length + 2) rest := by
  have hnumber : 1 + front.length + 1 = front.length + 2 := by omega
  rw [declarations_append, declarations, step_closes hl hcloses code, hnumber]
  rfl

/-- The declarations in front of the line of a block stay where they are. -/
theorem map_below_front (l : Language) (path : String) (front : List (List Char)) :
    (declarations l path {} 1 front).map (Declaration.below (front.length + 1)) =
      declarations l path {} 1 front := by
  refine (List.map_congr_left fun d hd => ?_).trans (List.map_id' _)
  have hmem : d ∈ declarations l path {} 1 (front ++ [[]]) := by
    rw [declarations_append]
    exact List.mem_append_left _ hd
  simpa using below_eq_self hmem

/-- Noise behind a block may stand on the line of the block or on the next one. -/
theorem declarations_noise (h : Noise l.commentStyle (trim code)) :
    declarations l path (behindBlock l front documentation) (front.length + 2) (code :: rest) =
      (declarations l path (behindBlock l front documentation) (front.length + 2) rest).map
        (Declaration.below (front.length + 1)) := by
  rw [declarations, step_noise h rfl]
  exact declarations_succ l path _ (Nat.lt_add_one (front.length + 1)) rest

end Behind

/-- Behind the mark that closes a documentation block in Rust, Java or PHP, code on the same line
    has no part in the scan, which goes on with the next line and with the block pending. With a
    line feed behind the mark the scan goes on with the code: if that is a declaration, the block
    documents it and no other. What is no code may stand on either line: a blank rest of the line,
    an attribute or a comment makes no difference but to the numbers of the lines behind. -/
theorem scan_closing (hl : l ≠ .python) (path : String) {before behind : String}
    {front rest : List (List Char)} {head code : List Char}
    (hmark : starClose <:+ before.toList) (hbefore : lines before.toList = front ++ [head])
    (hcloses : Closes (after l {} front).mode head documentation)
    (hbehind : lines behind.toList = code :: rest) :
    (SourceFile.scan l path (before ++ behind)).declarations =
        declarations l path {} 1 front ++
          declarations l path (behindBlock l front documentation) (front.length + 2) rest ∧
      (SourceFile.scan l path (before ++ "\n" ++ behind)).declarations =
        declarations l path {} 1 front ++
          declarations l path (behindBlock l front documentation) (front.length + 2)
            (code :: rest) ∧
      (∀ f, (step l (behindBlock l front documentation) code).2 = some f →
        ∃ d next, d.kind = f.kind ∧ d.name = String.ofList f.name ∧
          d.documentation = String.ofList (joinDocumentation documentation) ∧
          next.documentation = [] ∧
          (SourceFile.scan l path (before ++ "\n" ++ behind)).declarations =
            declarations l path {} 1 front ++
              d :: declarations l path next (front.length + 3) rest) ∧
      (Noise l.commentStyle (trim code) →
        (SourceFile.scan l path (before ++ "\n" ++ behind)).declarations =
          (SourceFile.scan l path (before ++ behind)).declarations.map
            (Declaration.below (front.length + 1))) := by
  obtain ⟨hjoined, hbroken⟩ := lines_starClose hmark hbefore hbehind
  have hfeed : (before ++ "\n" ++ behind).toList = before.toList ++ '\n' :: behind.toList := by simp
  have hcontent : (SourceFile.scan l path (before ++ behind)).declarations =
      declarations l path {} 1 front ++
        declarations l path (behindBlock l front documentation) (front.length + 2) rest := by
    rw [SourceFile.scan, String.toList_append, hjoined, declarations_closing path hl hcloses]
  have hinserted : (SourceFile.scan l path (before ++ "\n" ++ behind)).declarations =
      declarations l path {} 1 front ++
        declarations l path (behindBlock l front documentation) (front.length + 2)
          (code :: rest) := by
    have halone := declarations_closing path hl hcloses [] (code :: rest)
    rw [List.append_nil] at halone
    rw [SourceFile.scan, hfeed, hbroken, halone]
  refine ⟨hcontent, hinserted, fun f hf => ?_, fun hnoise => ?_⟩
  · refine ⟨declaration path (behindBlock l front documentation) (front.length + 2) code f, _,
      rfl, rfl, rfl, documentation_of_found hf, ?_⟩
    rw [hinserted, declarations_of_found hf]
  · rw [hinserted, declarations_noise hnoise, hcontent, List.map_append, map_below_front]

/-- A class whose field is documented by a block, up to the mark that closes the block. -/
def upToMark : String := "class A \x7b\n    /** one\n     * @B */"

/-- The rest of the class, with a comment behind the mark. -/
def behindMark : String := "  // of all\n    int x;\n\x7d\n"

theorem scan_closing_class :
    ∃ front rest head code documentation,
      (Language.java ≠ .python ∧ starClose <:+ upToMark.toList ∧
        lines upToMark.toList = front ++ [head] ∧
        Closes (after .java {} front).mode head documentation ∧
        lines behindMark.toList = code :: rest ∧ Noise Language.java.commentStyle (trim code)) ∧
      documentation = ["one".toList, "@B".toList] ∧
      (SourceFile.scan .java "A.java" (upToMark ++ "\n" ++ behindMark)).declarations =
        (SourceFile.scan .java "A.java" (upToMark ++ behindMark)).declarations.map
          (Declaration.below (front.length + 1)) := by
  have hjava : Language.java ≠ .python := by decide
  have hmark : starClose <:+ upToMark.toList :=
    ⟨"class A \x7b\n    /** one\n     * @B ".toList, by decide +kernel⟩
  have hbefore : lines upToMark.toList =
      ["class A \x7b".toList, "    /** one".toList] ++ ["     * @B */".toList] := by
    decide +kernel
  have hmode : (after .java {} ["class A \x7b".toList, "    /** one".toList]).mode =
      .block ["one".toList] := by decide +kernel
  have hcloses : Closes (after .java {} ["class A \x7b".toList, "    /** one".toList]).mode
      "     * @B */".toList (["one".toList] ++ [undecorated "     * @B ".toList]) :=
    .behind hmode (by decide +kernel) (by decide +kernel)
  have hdocumentation : ["one".toList] ++ [undecorated "     * @B ".toList] =
      ["one".toList, "@B".toList] := by decide +kernel
  have hbehind : lines behindMark.toList =
      "  // of all".toList :: ["    int x;".toList, "\x7d".toList] := by decide +kernel
  have hnoise : Noise Language.java.commentStyle (trim "  // of all".toList) := by
    have htrim : trim "  // of all".toList = ['/', '/'] ++ " of all".toList := by decide +kernel
    rw [htrim]
    refine .lineComment (by decide) (by decide) (List.prefix_append ['/', '/'] _) ?_
    exact fun mark hmark => absurd hmark List.not_mem_nil
  obtain ⟨-, -, -, hsame⟩ := scan_closing hjava "A.java" hmark hbefore hcloses hbehind
  exact ⟨_, _, _, _, _, ⟨hjava, hmark, hbefore, hcloses, hbehind, hnoise⟩, hdocumentation,
    hsame hnoise⟩

/-- A function behind the mark is not declared, and the block documents the next one. -/
theorem scan_closing_not_always_documented :
    ¬∀ (l : Language) (path before behind : String) (front rest : List (List Char))
      (head code : List Char) (documentation : List (List Char)), l ≠ .python →
      starClose <:+ before.toList → lines before.toList = front ++ [head] →
      Closes (after l {} front).mode head documentation → lines behind.toList = code :: rest →
      LineKind.of l.commentStyle .code (trim code) = .code →
      (SourceFile.scan l path (before ++ "\n" ++ behind)).declarations.map Declaration.unplaced =
        (SourceFile.scan l path (before ++ behind)).declarations.map Declaration.unplaced := by
  intro h
  have hmark : starClose <:+ "/** @A */".toList := ⟨"/** @A ".toList, by decide +kernel⟩
  have hcloses : Closes (after .rust {} []).mode "/** @A */".toList [trim " @A ".toList] :=
    .alone rfl blank_nil (by decide +kernel) (by decide +kernel) (by decide +kernel)
  have hsame := h .rust "a.rs" "/** @A */" " fn f() \x7b\x7d\nfn g() \x7b\x7d\n" []
    ["fn g() \x7b\x7d".toList] "/** @A */".toList " fn f() \x7b\x7d".toList _ (by decide) hmark
    (by decide +kernel) hcloses (by decide +kernel) (by decide +kernel)
  revert hsame
  decide +kernel

end Scanner

end DocDirectives
