import DocDirectives.Proofs.Declaration.Depth

/-! # Kinds of the lines of a source

    What a line is depends on the line and on what it begins inside of, so the kinds of the lines of
    a source can be read without the rest of the scan. Only a line of code gives a declaration, and
    what it gives is put together from what is pending behind the lines in front of it. -/

namespace DocDirectives

open Text

/-- Inside what the next line begins, behind a line of some kind. -/
def Mode.behind (m : Mode) : LineKind → Mode
  | .inBlock text closes => if closes then .code else .block (Scanner.blockLines m ++ [text])
  | .opensBlock text closes => if closes then .code else .block (Scanner.blockLines m ++ [text])
  | .inComment closes => if closes then .code else m
  | .comment goesOn => if goesOn then .comment else m
  | .blank => m
  | .documentation _ => m
  | .decorator => m
  | .code => m

namespace LineKind

/-- The kinds of lines read one after another, the first beginning inside `m`. -/
def ofLines (style : CommentStyle) (m : Mode) : List (List Char) → List LineKind
  | [] => []
  | line :: lines =>
    let kind := of style m (trim line)
    kind :: ofLines style (m.behind kind) lines

variable {style : CommentStyle} {m : Mode} {line : List Char}

@[simp] theorem length_ofLines (style : CommentStyle) (m : Mode) (lines : List (List Char)) :
    (ofLines style m lines).length = lines.length := by
  induction lines generalizing m with
  | nil => rfl
  | cons line lines ih => simp [ofLines, ih]

theorem ofLines_append (style : CommentStyle) (m : Mode) (front rest : List (List Char)) :
    ofLines style m (front ++ rest) = ofLines style m front ++
      ofLines style ((ofLines style m front).foldl Mode.behind m) rest := by
  induction front generalizing m with
  | nil => rfl
  | cons line front ih => simp only [List.cons_append, ofLines, List.foldl_cons, ih]

/-- Whether a line of some kind may begin inside `m`. -/
def Begins (m : Mode) : LineKind → Prop
  | .inBlock _ _ => ∃ lines, m = .block lines
  | .inComment _ => m = .comment
  | _ => m = .code

theorem opensBlock_of_blockOpening? {kind : LineKind} (h : blockOpening? style line = some kind) :
    ∃ text closes, kind = .opensBlock text closes := by
  unfold blockOpening? at h
  split at h
  · cases h
  · split at h
    · cases h
    · split at h
      · cases h
      · split at h <;> exact ⟨_, _, (Option.some.inj h).symm⟩

theorem begins_of (style : CommentStyle) (m : Mode) (line : List Char) :
    Begins m (of style m line) := by
  cases m with
  | block lines =>
    simp only [of, blockText]
    split <;> exact ⟨lines, rfl⟩
  | comment => rfl
  | code =>
    simp only [of]
    split
    · rfl
    · split
      · next h =>
        obtain ⟨text, closes, rfl⟩ := opensBlock_of_blockOpening? h
        rfl
      · split
        · rfl
        · split
          · rfl
          · split <;> rfl

/-- A line of code begins inside nothing. -/
theorem mode_of_code (h : of style m line = .code) : m = .code := by
  have hbegins := begins_of style m line
  rwa [h] at hbegins

end LineKind

namespace Scanner

variable {l : Language} {s : Scanner} {line : List Char} {path : String} {number : Nat}

/-! ### One line -/

/-- What is pending behind a line of some kind that is not code. -/
def behind (s : Scanner) : LineKind → Scanner
  | .inBlock text closes => s.addToBlock text closes
  | .opensBlock text closes => s.addToBlock text closes
  | .inComment closes => if closes then { s with mode := .code } else s
  | .comment goesOn => if goesOn then { s with mode := .comment } else s
  | .documentation text => { s with documentation := s.documentation ++ [text] }
  | .blank => s
  | .decorator => s
  | .code => s

/-- Of a line that is not code only the kind matters. -/
theorem step_of_ne_code (h : LineKind.of l.commentStyle s.mode (trim line) ≠ .code) :
    step l s line = (s.behind (LineKind.of l.commentStyle s.mode (trim line)), none) := by
  cases hkind : LineKind.of l.commentStyle s.mode (trim line) with
  | code => exact absurd hkind h
  | _ => simp only [step, hkind, behind]

theorem step_of_code (h : LineKind.of l.commentStyle s.mode (trim line) = .code) :
    step l s line = codeLine l s line (trim line) := by
  simp only [step, h]

/-- Only a line of code gives a declaration. -/
theorem code_of_found {f : Found} (h : (step l s line).2 = some f) :
    LineKind.of l.commentStyle s.mode (trim line) = .code := by
  by_contra hne
  rw [step_of_ne_code hne] at h
  cases h

/-- A line of code takes the documentation. -/
theorem codeLine_takes (l : Language) (s : Scanner) (line trimmed : List Char) :
    (codeLine l s line trimmed).1.mode = s.mode ∧
      (codeLine l s line trimmed).1.documentation = [] := by
  unfold codeLine
  split <;> exact ⟨rfl, rfl⟩

theorem mode_behind (s : Scanner) (kind : LineKind) :
    (s.behind kind).mode = s.mode.behind kind := by
  cases kind with
  | inBlock text closes | opensBlock text closes => cases closes <;> rfl
  | inComment closes => cases closes <;> rfl
  | comment goesOn => cases goesOn <;> rfl
  | blank | documentation | decorator | code => rfl

theorem mode_step (l : Language) (s : Scanner) (line : List Char) :
    (step l s line).1.mode = s.mode.behind (LineKind.of l.commentStyle s.mode (trim line)) := by
  by_cases h : LineKind.of l.commentStyle s.mode (trim line) = .code
  · rw [step_of_code h, (codeLine_takes _ _ _ _).1, h]
    rfl
  · rw [step_of_ne_code h, mode_behind]

/-! ### Lines one after another -/

theorem after_append (l : Language) (s : Scanner) (front rest : List (List Char)) :
    after l s (front ++ rest) = after l (after l s front) rest := List.foldl_append

theorem after_concat (l : Language) (s : Scanner) (front : List (List Char)) (line : List Char) :
    after l s (front ++ [line]) = (step l (after l s front) line).1 := after_append l s front [line]

/-- The kinds of the lines read so far say what the next line begins inside of. -/
theorem mode_after (l : Language) (s : Scanner) (lines : List (List Char)) :
    (after l s lines).mode =
      (LineKind.ofLines l.commentStyle s.mode lines).foldl Mode.behind s.mode := by
  induction lines generalizing s with
  | nil => rfl
  | cons line lines ih =>
    rw [LineKind.ofLines, List.foldl_cons, ← mode_step]
    exact ih _

theorem ofLines_after (l : Language) (s : Scanner) (front rest : List (List Char)) :
    LineKind.ofLines l.commentStyle s.mode (front ++ rest) =
      LineKind.ofLines l.commentStyle s.mode front ++
        LineKind.ofLines l.commentStyle (after l s front).mode rest := by
  rw [LineKind.ofLines_append, mode_after]

theorem ofLines_cut (l : Language) (s : Scanner) (front : List (List Char)) (line : List Char)
    (rest : List (List Char)) :
    LineKind.ofLines l.commentStyle s.mode (front ++ line :: rest) =
      LineKind.ofLines l.commentStyle s.mode front ++
        LineKind.of l.commentStyle (after l s front).mode (trim line) ::
          LineKind.ofLines l.commentStyle (after l s (front ++ [line])).mode rest := by
  rw [ofLines_after, LineKind.ofLines, after_concat, mode_step]

/-- A declaration comes from one line, with what is pending behind the lines in front of it. -/
theorem exists_of_mem_declarations {lines : List (List Char)} {d : Declaration}
    (h : d ∈ declarations l path s number lines) :
    ∃ front line rest f, lines = front ++ line :: rest ∧
      (step l (after l s front) line).2 = some f ∧
      d = declaration path (after l s front) (number + front.length) line f := by
  induction lines generalizing s number with
  | nil => cases h
  | cons line lines ih =>
    rw [declarations, List.mem_append] at h
    rcases h with h | h
    · obtain ⟨f, hf, rfl⟩ := Option.map_eq_some_iff.1 (Option.mem_toList.1 h)
      exact ⟨[], line, lines, f, rfl, hf, rfl⟩
    · obtain ⟨front, line', rest, f, rfl, hf, rfl⟩ := ih h
      have hnumber : number + 1 + front.length = number + (line :: front).length := by
        rw [List.length_cons]
        omega
      exact ⟨line :: front, line', rest, f, rfl, hf, by rw [hnumber]; rfl⟩

/-- Declarations come in the order of their lines, one from a line at most. -/
theorem pairwise_declarations (l : Language) (path : String) (s : Scanner) (number : Nat)
    (lines : List (List Char)) :
    (declarations l path s number lines).Pairwise fun d e => d.location.line < e.location.line := by
  induction lines generalizing s number with
  | nil => exact .nil
  | cons line lines ih =>
    rw [declarations, List.pairwise_append]
    refine ⟨?_, ih _ _, ?_⟩
    · cases (step l s line).2 with
      | none => exact .nil
      | some f => exact List.pairwise_singleton _ _
    · intro d hd e he
      obtain ⟨f, -, rfl⟩ := Option.map_eq_some_iff.1 (Option.mem_toList.1 hd)
      obtain ⟨front, _, _, _, _, _, rfl⟩ := exists_of_mem_declarations he
      simp only [declaration]
      omega

end Scanner

end DocDirectives
