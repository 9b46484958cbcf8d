import DocDirectives.Proofs.Declaration.Closing
import DocDirectives.Proofs.Token.Extent
import Mathlib.Data.List.Induction

/-! # Members of indented classes

    Where blocks are indented, the scan keeps the class of the last line of code in the first column
    and the indentation of the first line of code behind it. Blank lines, comments and decorators
    change neither, nor do deeper blocks. So the methods are the function heads that are indented
    like the first line of the class body, and every head in the first column is a type or a
    function.

        line of code:   class head       other head       indented
        column one  ──▶ a new class      no class
        indented    ──▶                                   the class stays, its body is fixed -/

namespace DocDirectives

open Text

/-! ### Heads -/

namespace Head

variable {keyword : List Char} {cs name rest : List Char}

/-- The name at the beginning of a text: a letter or underscore, and then word characters as far as
    they go. -/
inductive NameAt : List Char → List Char → Prop
  | intro {c : Char} {word rest : List Char} : isNameStart c = true →
      (∀ d ∈ word, isWord d = true) → endsWord rest = true → NameAt (c :: word ++ rest) (c :: word)

/-- A keyword, white space and a name, at the beginning of a text. -/
inductive KeywordAt (keyword : List Char) : List Char → List Char → Prop
  | intro {g cs name : List Char} : g ≠ [] → Blank g → NameAt cs name →
      KeywordAt keyword (keyword ++ g ++ cs) name

/-- The head of a class, and its name. -/
def ClassHead (cs name : List Char) : Prop := KeywordAt "class".toList cs name

/-- The head of a function, and its name. -/
inductive FunctionHead : List Char → List Char → Prop
  | plain {cs name : List Char} : KeywordAt "def".toList cs name → FunctionHead cs name
  | async {g cs name : List Char} : g ≠ [] → Blank g → KeywordAt "def".toList cs name →
      FunctionHead ("async".toList ++ g ++ cs) name

theorem wordName?_eq_some_iff : wordName? cs = some name ↔ NameAt cs name := by
  constructor
  · intro h
    cases cs with
    | nil => cases h
    | cons c cs =>
      rw [wordName?, Option.ite_none_right_eq_some] at h
      obtain ⟨hc, hname⟩ := h
      obtain rfl := Option.some.inj hname
      have hends : endsWord (cs.dropWhile isWord) = true := by
        have hnot := List.head?_dropWhile_not isWord cs
        cases hrest : cs.dropWhile isWord with
        | nil => rfl
        | cons d ds =>
          rw [hrest] at hnot
          simpa [endsWord] using hnot
      have hword : ∀ d ∈ cs.takeWhile isWord, isWord d = true := fun d hd =>
        List.all_eq_true.1 List.all_takeWhile d hd
      have hat := NameAt.intro hc hword hends
      rwa [List.cons_append, List.takeWhile_append_dropWhile] at hat
  · rintro ⟨hc, hword, hends⟩
    next c word rest =>
      have htake : (word ++ rest).takeWhile isWord = word := by
        rw [List.takeWhile_append_of_pos hword]
        cases rest with
        | nil => simp
        | cons d ds =>
          have hd : isWord d = false := by simpa [endsWord] using hends
          rw [List.takeWhile_cons_of_neg (by simp [hd]), List.append_nil]
      simp only [List.cons_append, wordName?, hc, if_true, htake]

theorem NameAt.not_blank (h : NameAt cs name) : startsBlank cs = false := by
  obtain ⟨hc, -, -⟩ := h
  exact Bool.eq_false_iff.2 fun hblank =>
    absurd (isNameChar_of_isNameStart hc) (by simp [Lexeme.isNameChar_of_isBlank hblank])

theorem KeywordAt.not_blank (h : KeywordAt keyword cs name) (hne : keyword ≠ [])
    (hkeyword : startsBlank keyword = false) : startsBlank cs = false := by
  obtain ⟨-, -, -⟩ := h
  rwa [List.append_assoc, startsBlank_append hne]

/-- What stands behind a keyword, and the white space between the two. -/
theorem afterWord?_eq_some_iff {word : String} : afterWord? word cs = some rest ↔
    ∃ g, g ≠ [] ∧ Blank g ∧ cs = word.toList ++ g ++ rest ∧ startsBlank rest = false := by
  constructor
  · intro h
    rw [afterWord?] at h
    split at h
    · next behind hbehind =>
      obtain rfl := after?_eq_some.1 hbehind
      obtain ⟨hblank, hrest⟩ := Option.ite_none_right_eq_some.1 h
      obtain rfl := Option.some.inj hrest
      refine ⟨behind.takeWhile isBlank, ?_, fun c hc => List.all_eq_true.1 List.all_takeWhile c hc,
        ?_, startsBlank_trimStart behind⟩
      · cases behind with
        | nil => cases hblank
        | cons c behind =>
          have hc : isBlank c = true := hblank
          rw [List.takeWhile_cons_of_pos hc]
          exact List.cons_ne_nil _ _
      · rw [List.append_assoc, takeWhile_append_trimStart]
    · cases h
  · rintro ⟨g, hne, hg, rfl, hrest⟩
    have hblank : startsBlank (g ++ rest) = true := by
      obtain ⟨c, g, rfl⟩ := List.exists_cons_of_ne_nil hne
      exact hg c List.mem_cons_self
    rw [afterWord?, List.append_assoc, after?_append]
    simp only [hblank, if_true, trimStart_append hg, trimStart_eq_self hrest]

theorem keyword_eq_some_iff {word : String} :
    (afterWord? word cs).bind wordName? = some name ↔ KeywordAt word.toList cs name := by
  rw [Option.bind_eq_some_iff]
  constructor
  · rintro ⟨rest, hafter, hname⟩
    obtain ⟨g, hne, hg, rfl, -⟩ := afterWord?_eq_some_iff.1 hafter
    exact .intro hne hg (wordName?_eq_some_iff.1 hname)
  · rintro ⟨hne, hg, hname⟩
    exact ⟨_, afterWord?_eq_some_iff.2 ⟨_, hne, hg, rfl, hname.not_blank⟩,
      wordName?_eq_some_iff.2 hname⟩

theorem typeHead_eq_some_iff :
    python.typeHead cs = some (keyword, name) ↔ keyword = "class".toList ∧ ClassHead cs name := by
  rw [ClassHead, ← keyword_eq_some_iff]
  simp only [python, keywordAndName?, List.findSome?_cons, List.findSome?_nil]
  cases (afterWord? "class" cs).bind wordName? with
  | none => simp
  | some n => simp [eq_comm]

theorem pythonFunction_eq_some_iff : pythonFunction cs = some name ↔ FunctionHead cs name := by
  rw [pythonFunction, keyword_eq_some_iff]
  constructor
  · intro h
    cases hasync : afterWord? "async" cs with
    | none =>
      rw [hasync] at h
      exact .plain h
    | some rest =>
      rw [hasync] at h
      obtain ⟨g, hne, hg, rfl, -⟩ := afterWord?_eq_some_iff.1 hasync
      exact .async hne hg h
  · rintro (h | ⟨hne, hg, h⟩)
    · have hasync : afterWord? "async" cs = none := by
        obtain ⟨-, -, -⟩ := h
        rfl
      rwa [hasync]
    · rw [afterWord?_eq_some_iff.2 ⟨_, hne, hg, rfl, h.not_blank (by decide) rfl⟩]
      exact h

end Head

/-! ### Lines of code -/

namespace Scanner

variable {s : Scanner} {front body : List (List Char)} {line name owner : List Char}

/-- A line of code: it is not blank, no decorator, and no comment; what begins with `#!` is none. -/
def IsCode (line : List Char) : Prop :=
  trim line ≠ [] ∧ ¬['@'] <+: trim line ∧ (['#'] <+: trim line → ['#', '!'] <+: trim line)

instance : DecidablePred IsCode := fun line =>
  inferInstanceAs (Decidable (trim line ≠ [] ∧ ¬['@'] <+: trim line ∧
    (['#'] <+: trim line → ['#', '!'] <+: trim line)))

theorem documentation?_isSome_iff (text : List Char) :
    (LineKind.documentation? Language.python.commentStyle text).isSome = true ↔
      ['#'] <+: text ∧ ¬['#', '!'] <+: text := by
  simp only [LineKind.documentation?, Language.commentStyle, LineKind.startsWithAny_iff,
    List.mem_singleton, exists_eq_left, List.findSome?_singleton]
  split
  · next h => simp [h]
  · next h =>
    simp only [h, not_false_eq_true, and_true]
    cases hafter : after? ['#'] text with
    | none =>
      simp only [Option.isSome_none, Bool.false_eq_true, false_iff]
      rintro ⟨rest, rfl⟩
      rw [after?_append] at hafter
      cases hafter
    | some rest => simpa using ⟨rest, after?_eq_some.1 hafter⟩

/-- Outside of blocks the lines of code are read as code. -/
theorem of_eq_code_iff :
    LineKind.of Language.python.commentStyle .code (trim line) = .code ↔ IsCode line := by
  have hplain : LineKind.startsWithAny Language.python.commentStyle.plain (trim line) = false := rfl
  have hblock : LineKind.blockOpening? Language.python.commentStyle (trim line) = none := rfl
  have hdecorator : LineKind.startsWithAny Language.python.commentStyle.decorator (trim line) =
      true ↔ ['@'] <+: trim line := by simp [Language.commentStyle, LineKind.startsWithAny_iff]
  have hdocumentation := documentation?_isSome_iff (trim line)
  rw [LineKind.of, hblock, hplain, IsCode]
  by_cases hempty : trim line = []
  · simp [hempty]
  · cases hdoc : LineKind.documentation? Language.python.commentStyle (trim line) with
    | some text =>
      obtain ⟨hsign, hbang⟩ := hdocumentation.1 (by rw [hdoc]; rfl)
      simp [hempty, hsign, hbang]
    | none =>
      have hcomment : ['#'] <+: trim line → ['#', '!'] <+: trim line := fun hsign => by
        by_contra hbang
        rw [hdoc] at hdocumentation
        cases hdocumentation.2 ⟨hsign, hbang⟩
      by_cases hat : ['@'] <+: trim line
      · simp [hempty, hdecorator.2 hat, hat]
      · simpa [hempty, mt hdecorator.1 hat, hat] using hcomment

theorem mode_behind_of (line : List Char) :
    Mode.code.behind (LineKind.of Language.python.commentStyle .code line) = .code := by
  have hplain : LineKind.startsWithAny Language.python.commentStyle.plain line = false := rfl
  have hblock : LineKind.blockOpening? Language.python.commentStyle line = none := rfl
  rw [LineKind.of, hblock, hplain]
  split
  · rfl
  · simp only [Bool.false_eq_true, if_false]
    split
    · rfl
    · split <;> rfl

/-- Every line begins outside of blocks. -/
theorem mode_after_indented (lines : List (List Char)) : (after .python {} lines).mode = .code := by
  induction lines using List.reverseRecOn with
  | nil => rfl
  | append_singleton lines line ih => rw [after_concat, mode_step, ih, mode_behind_of]

theorem openClass_behind (s : Scanner) (kind : LineKind) :
    (s.behind kind).openClass = s.openClass := by
  cases kind with
  | inBlock text closes | opensBlock text closes => cases closes <;> rfl
  | inComment closes => cases closes <;> rfl
  | comment goesOn => cases goesOn <;> rfl
  | blank | documentation | decorator | code => rfl

/-- What is not code changes no class and gives no declaration. -/
theorem step_of_not_code (hs : s.mode = .code) (h : ¬IsCode line) :
    (step .python s line).1.openClass = s.openClass ∧ (step .python s line).2 = none := by
  rw [← of_eq_code_iff, ← hs] at h
  rw [step_of_ne_code h]
  exact ⟨openClass_behind _ _, rfl⟩

theorem step_of_isCode (hs : s.mode = .code) (h : IsCode line) :
    ((step .python s line).1.openClass, (step .python s line).2) =
      indentedLine Head.python s.openClass (indentation line) (trim line) := by
  rw [← of_eq_code_iff, ← hs] at h
  rw [step_of_code h]
  rfl

/-! ### The class of a line -/

theorem isCode_of_cons {c : Char} {cs : List Char} (h : trim line = c :: cs) (hsign : c ≠ '#')
    (hat : c ≠ '@') : IsCode line := by
  simp [IsCode, h, hsign.symm, hat.symm]

theorem isCode_of_classHead (h : Head.ClassHead (trim line) name) : IsCode line := by
  generalize hline : trim line = cs at h
  obtain ⟨-, -, -⟩ := h
  exact isCode_of_cons hline (by decide) (by decide)

theorem isCode_of_functionHead (h : Head.FunctionHead (trim line) name) : IsCode line := by
  generalize hline : trim line = cs at h
  obtain ⟨-, -, -⟩ | ⟨-, -, -⟩ := h
  · exact isCode_of_cons hline (by decide) (by decide)
  · exact isCode_of_cons hline (by decide) (by decide)

/-- `body` are the lines behind the line of the class `name`, and none of them is a line of code in
    the first column. -/
inductive InClass : List (List Char) → List Char → List (List Char) → Prop
  | intro {before body : List (List Char)} {header name : List Char} : indentation header = 0 →
      Head.ClassHead (trim header) name → (∀ line ∈ body, IsCode line → 0 < indentation line) →
      InClass (before ++ header :: body) name body

/-- The indentation of the first line of code. -/
def bodyIndentation? (body : List (List Char)) : Option Nat :=
  (body.find? fun line => IsCode line).map indentation

theorem bodyIndentation?_concat (body : List (List Char)) (line : List Char) :
    bodyIndentation? (body ++ [line]) =
      (bodyIndentation? body).or (if IsCode line then some (indentation line) else none) := by
  rw [bodyIndentation?, List.find?_append, Option.map_or]
  by_cases h : IsCode line <;> simp [bodyIndentation?, h]

theorem not_inClass_nil : ¬InClass [] name body := by
  generalize hlines : [] = lines
  rintro ⟨-, -, -⟩
  exact absurd hlines.symm (List.append_ne_nil_of_right_ne_nil _ (List.cons_ne_nil _ _))

theorem inClass_concat : InClass (front ++ [line]) name body ↔
    indentation line = 0 ∧ Head.ClassHead (trim line) name ∧ body = [] ∨
      (IsCode line → 0 < indentation line) ∧ ∃ lines, body = lines ++ [line] ∧
        InClass front name lines := by
  constructor
  · generalize hlines : front ++ [line] = lines
    rintro ⟨hcolumn, hclass, hbody⟩
    next before header =>
      rcases List.eq_nil_or_concat body with rfl | ⟨body, last, rfl⟩
      · obtain ⟨-, hheader⟩ := List.append_inj' hlines rfl
        obtain rfl := (List.cons.inj hheader).1
        exact .inl ⟨hcolumn, hclass, rfl⟩
      · rw [List.concat_eq_append] at hlines hbody ⊢
        rw [← List.cons_append, ← List.append_assoc] at hlines
        obtain ⟨rfl, hlast⟩ := List.append_inj' hlines rfl
        obtain rfl := (List.cons.inj hlast).1
        exact .inr ⟨hbody line (by simp), body, rfl, hcolumn, hclass, fun l hl =>
          hbody l (List.mem_append_left _ hl)⟩
  · rintro (⟨hcolumn, hclass, rfl⟩ | ⟨hindented, lines, rfl, hcolumn, hclass, hbody⟩)
    · exact .intro hcolumn hclass (by simp)
    · rw [List.append_assoc, List.cons_append]
      refine .intro hcolumn hclass fun l hl => ?_
      rcases List.mem_append.1 hl with hl | hl
      · exact hbody l hl
      · obtain rfl := List.mem_singleton.1 hl
        exact hindented

/-- A line of code in the first column opens the class that it is the head of. -/
theorem indentedLine_column (c : Option OpenClass) (d : OpenClass) (cs : List Char) :
    (indentedLine Head.python c 0 cs).1 = some d ↔
      Head.ClassHead cs d.name ∧ d.bodyIndentation = none := by
  obtain ⟨name, body⟩ := d
  simp only [indentedLine, if_true]
  cases hhead : Head.python.typeHead cs with
  | none =>
    have hnot : ¬Head.ClassHead cs name := fun h => by
      rw [Head.typeHead_eq_some_iff.2 ⟨rfl, h⟩] at hhead
      cases hhead
    simp [hnot]
  | some head =>
    obtain ⟨keyword, name'⟩ := head
    obtain ⟨rfl, hclass⟩ := Head.typeHead_eq_some_iff.1 hhead
    have hname : Head.ClassHead cs name ↔ name' = name := by
      constructor
      · intro h
        rw [Head.typeHead_eq_some_iff.2 ⟨rfl, h⟩] at hhead
        exact (Prod.mk.inj (Option.some.inj hhead)).2.symm
      · rintro rfl
        exact hclass
    simp [hname, eq_comm]

/-- The first indented line of code fixes the indentation of the body. -/
theorem indentedLine_indented (c : Option OpenClass) {indent : Nat} (h : 0 < indent)
    (cs : List Char) : (indentedLine Head.python c indent cs).1 =
      c.map fun c => { c with bodyIndentation := c.bodyIndentation.or (some indent) } := by
  simp only [indentedLine, Nat.pos_iff_ne_zero.1 h, if_false]
  cases c with
  | none => rfl
  | some c => cases hbody : c.bodyIndentation <;> simp [hbody]

/-- What the scan knows of the class in front of a line. -/
theorem openClass_after (front : List (List Char)) (c : OpenClass) :
    (after .python {} front).openClass = some c ↔
      ∃ body, InClass front c.name body ∧ c.bodyIndentation = bodyIndentation? body := by
  induction front using List.reverseRecOn generalizing c with
  | nil => simp [after, not_inClass_nil]
  | append_singleton front line ih =>
    have hmode := mode_after_indented front
    simp only [after_concat, inClass_concat]
    by_cases hcode : IsCode line
    · have hstep := congrArg Prod.fst (step_of_isCode hmode hcode)
      dsimp only at hstep
      rw [hstep]
      rcases Nat.eq_zero_or_pos (indentation line) with hcolumn | hindented
      · simp [hcolumn, indentedLine_column, hcode, bodyIndentation?]
      · rw [indentedLine_indented _ hindented, Option.map_eq_some_iff]
        constructor
        · rintro ⟨d, hd, rfl⟩
          obtain ⟨body, hbody, hfirst⟩ := (ih d).1 hd
          exact ⟨body ++ [line], .inr ⟨fun _ => hindented, body, rfl, hbody⟩, by
            simp [bodyIndentation?_concat, hcode, hfirst]⟩
        · rintro ⟨_, ⟨hcolumn, -⟩ | ⟨-, body, rfl, hbody⟩, hfirst⟩
          · exact absurd hcolumn (Nat.pos_iff_ne_zero.1 hindented)
          · refine ⟨⟨c.name, bodyIndentation? body⟩, (ih _).2 ⟨body, hbody, rfl⟩, ?_⟩
            rw [bodyIndentation?_concat, if_pos hcode] at hfirst
            rw [← hfirst]
    · rw [(step_of_not_code hmode hcode).1, ih]
      constructor
      · rintro ⟨body, hbody, hfirst⟩
        exact ⟨body ++ [line], .inr ⟨fun h => absurd h hcode, body, rfl, hbody⟩, by
          simp [bodyIndentation?_concat, hcode, hfirst]⟩
      · rintro ⟨_, ⟨-, hclass, -⟩ | ⟨-, body, rfl, hbody⟩, hfirst⟩
        · exact absurd (isCode_of_classHead hclass) hcode
        · exact ⟨body, hbody, by simpa [bodyIndentation?_concat, hcode] using hfirst⟩

/-! ### Declarations -/

/-- What a line declares behind the lines `front`: a type or a function in the first column, and a
    method where it is indented like the first line of code in the body of the last class, as long
    as no other line of code in the first column came between. -/
inductive Member (front : List (List Char)) (line : List Char) : Found → Prop
  | type {name : List Char} : indentation line = 0 → Head.ClassHead (trim line) name →
      Member front line ⟨.type, name, none⟩
  | function {name : List Char} : indentation line = 0 → Head.FunctionHead (trim line) name →
      Member front line ⟨.function, name, none⟩
  | method {name owner : List Char} {body : List (List Char)} : IsCode line →
      0 < indentation line → Head.FunctionHead (trim line) name → InClass front owner body →
      bodyIndentation? (body ++ [line]) = some (indentation line) →
      Member front line ⟨.method, name, some owner⟩

theorem Member.isCode {f : Found} (h : Member front line f) : IsCode line := by
  cases h with
  | type _ h => exact isCode_of_classHead h
  | function _ h => exact isCode_of_functionHead h
  | method h => exact h

/-- A head of a class is none of a function. -/
theorem not_functionHead {cs name' : List Char} (h : Head.ClassHead cs name) :
    ¬Head.FunctionHead cs name' := by
  obtain ⟨-, -, -⟩ := h
  generalize hcs : "class".toList ++ _ ++ _ = cs
  rintro (⟨-, -, -⟩ | ⟨-, -, -⟩)
  · exact absurd (List.cons.inj hcs).1 (by decide)
  · exact absurd (List.cons.inj hcs).1 (by decide)

/-- What is found on a line of code in the first column. -/
theorem found_column (c : Option OpenClass) (hcolumn : indentation line = 0) {f : Found} :
    (indentedLine Head.python c (indentation line) (trim line)).2 = some f ↔
      Member front line f := by
  simp only [indentedLine, hcolumn, if_true]
  cases hhead : Head.python.typeHead (trim line) with
  | some head =>
    obtain ⟨keyword, name⟩ := head
    obtain ⟨rfl, hclass⟩ := Head.typeHead_eq_some_iff.1 hhead
    simp only [Option.some.injEq]
    constructor
    · rintro rfl
      exact .type hcolumn hclass
    · rintro (⟨-, h⟩ | ⟨-, h⟩ | ⟨-, h⟩)
      · rw [Head.typeHead_eq_some_iff.2 ⟨rfl, h⟩] at hhead
        rw [(Prod.mk.inj (Option.some.inj hhead)).2]
      · exact absurd h (not_functionHead hclass)
      · exact absurd hcolumn (Nat.pos_iff_ne_zero.1 h)
  | none =>
    simp only [Option.map_eq_some_iff]
    constructor
    · rintro ⟨name, hname, rfl⟩
      exact .function hcolumn (Head.pythonFunction_eq_some_iff.1 hname)
    · rintro (⟨-, h⟩ | ⟨-, h⟩ | ⟨-, h⟩)
      · rw [Head.typeHead_eq_some_iff.2 ⟨rfl, h⟩] at hhead
        cases hhead
      · exact ⟨_, Head.pythonFunction_eq_some_iff.2 h, rfl⟩
      · exact absurd hcolumn (Nat.pos_iff_ne_zero.1 h)

/-- What is found on an indented line of code. -/
theorem found_indented (hindented : 0 < indentation line) (hcode : IsCode line) {f : Found} :
    (indentedLine Head.python (after .python {} front).openClass (indentation line)
      (trim line)).2 = some f ↔ Member front line f := by
  have hbodies : ∀ body, bodyIndentation? (body ++ [line]) =
      some ((bodyIndentation? body).getD (indentation line)) := fun body => by
    rw [bodyIndentation?_concat, if_pos hcode]
    cases bodyIndentation? body <;> rfl
  simp only [indentedLine, Nat.pos_iff_ne_zero.1 hindented, if_false]
  constructor
  · cases hclass : (after .python {} front).openClass with
    | none => exact fun h => nomatch h
    | some c =>
      intro h
      obtain ⟨body, hbody, hfirst⟩ := (openClass_after front c).1 hclass
      obtain ⟨hindent, hfound⟩ := Option.ite_none_right_eq_some.1 h
      obtain ⟨name, hname, rfl⟩ := Option.map_eq_some_iff.1 hfound
      exact .method hcode hindented (Head.pythonFunction_eq_some_iff.1 hname) hbody (by
        rw [hbodies, ← hfirst, ← hindent])
  · rintro (⟨h, -⟩ | ⟨h, -⟩ | ⟨-, -, hname, hbody, hfirst⟩)
    · exact absurd h (Nat.pos_iff_ne_zero.1 hindented)
    · exact absurd h (Nat.pos_iff_ne_zero.1 hindented)
    · next name owner body =>
      have hclass := (openClass_after front ⟨owner, bodyIndentation? body⟩).2 ⟨body, hbody, rfl⟩
      have hmethod : Head.python.method (trim line) = some name :=
        Head.pythonFunction_eq_some_iff.2 hname
      rw [hbodies] at hfirst
      simp only [hclass, Option.some.inj hfirst, if_true, hmethod, Option.map_some]

/-- What the scan finds on a line is what the line declares. -/
theorem found_iff {f : Found} :
    (step .python (after .python {} front) line).2 = some f ↔ Member front line f := by
  have hmode := mode_after_indented front
  by_cases hcode : IsCode line
  · have hstep := congrArg Prod.snd (step_of_isCode hmode hcode)
    dsimp only at hstep
    rw [hstep]
    rcases Nat.eq_zero_or_pos (indentation line) with hcolumn | hindented
    · exact found_column _ hcolumn
    · exact found_indented hindented hcode
  · rw [(step_of_not_code hmode hcode).2]
    exact ⟨fun h => (nomatch h), fun h => absurd h.isCode hcode⟩

/-- The declarations of a source of indented blocks are the members that its lines declare, each
    from the line on which it stands. -/
theorem scan_indented (path content : String) (number : Nat) (kind : DeclarationKind)
    (name : String) (owner : Option String) :
    (∃ d ∈ (SourceFile.scan .python path content).declarations,
      d.location.line = number ∧ d.kind = kind ∧ d.name = name ∧ d.owner = owner) ↔
    ∃ front line rest, lines content.toList = front ++ line :: rest ∧ number = front.length + 1 ∧
      Member front line ⟨kind, name.toList, owner.map String.toList⟩ := by
  constructor
  · rintro ⟨d, hd, rfl, rfl, rfl, rfl⟩
    obtain ⟨front, line, rest, f, hlines, hfound, rfl⟩ := exists_of_mem_declarations hd
    refine ⟨front, line, rest, hlines, Nat.add_comm 1 _, ?_⟩
    have hmember := found_iff.1 hfound
    obtain ⟨kind, name, owner⟩ := f
    cases owner <;> simpa [declaration] using hmember
  · rintro ⟨front, line, rest, hlines, rfl, hmember⟩
    refine ⟨declaration path (after .python {} front) (1 + front.length) line
      ⟨kind, name.toList, owner.map String.toList⟩, ?_, Nat.add_comm 1 _, rfl,
      String.ofList_toList, by cases owner <;> simp [declaration]⟩
    rw [SourceFile.scan, hlines, declarations_append,
      declarations_of_found (found_iff.2 hmember)]
    exact List.mem_append_right _ List.mem_cons_self

example : ((SourceFile.scan .python "a.py"
      "class A:\n  # note\n    @final\n    def f(self):\n        def g(): pass\ndef h(): pass"
    ).declarations.map fun d => (d.kind, d.name, d.owner)) =
      [(.type, "A", none), (.method, "f", some "A"), (.function, "h", none)] := by
  decide +kernel

end Scanner

end DocDirectives
