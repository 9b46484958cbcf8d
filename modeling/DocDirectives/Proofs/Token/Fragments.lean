import DocDirectives.Proofs.Token.Kind
import DocDirectives.Proofs.Token.Lexing

/-! # Fragments and their kinds

    A text is cut into fragments first, and what a fragment is gets decided from its characters
    alone. The two agree: what is a string by its characters was cut as one, what is dropped was cut
    as a run of white space or of stars, and a mark is a single character. -/

namespace DocDirectives.Classifier

open Lexeme Number Text

variable {cs v rest : List Char}

/-! ### Fragments -/

/-- `v` is a fragment of a text, and `rest` stands behind it. -/
inductive FragmentAt : List Char → List Char → List Char → Prop
  | here {v rest : List Char} : v ≠ [] → Lexeme.lexemeLength (v ++ rest) = v.length →
      FragmentAt (v ++ rest) v rest
  | later {u cs v rest : List Char} : u ≠ [] → Lexeme.lexemeLength (u ++ cs) = u.length →
      FragmentAt cs v rest → FragmentAt (u ++ cs) v rest

theorem FragmentAt.lexeme (h : FragmentAt cs v rest) :
    v ≠ [] ∧ Lexeme.lexemeLength (v ++ rest) = v.length := by
  induction h with
  | here hv hl => exact ⟨hv, hl⟩
  | later _ _ _ ih => exact ih

theorem FragmentAt.mem (h : FragmentAt cs v rest) : v ∈ directives.fragments cs := by
  induction h with
  | here hv hl =>
    rw [fragments_append hv hl]
    exact List.mem_cons_self
  | later hu hl _ ih =>
    rw [fragments_append hu hl]
    exact List.mem_cons_of_mem _ ih

theorem exists_fragmentAt (v cs : List Char) (h : v ∈ directives.fragments cs) :
    ∃ rest, FragmentAt cs v rest := by
  by_cases hcs : cs = []
  · have hnil : directives.fragments [] = [] := by simp [fragments, fragmentsFrom, gap]
    rw [hcs, hnil] at h
    cases h
  · obtain ⟨u, us, hu, rfl, hl⟩ := exists_lexeme hcs
    have hshorter : us.length < (u ++ us).length := by
      have := List.length_pos_iff.2 hu
      rw [List.length_append]
      omega
    rw [fragments_append hu hl, List.mem_cons] at h
    rcases h with rfl | h
    · exact ⟨us, .here hu hl⟩
    · obtain ⟨rest, h⟩ := exists_fragmentAt v us h
      exact ⟨rest, .later hu hl h⟩
termination_by cs.length

/-- The fragments of a text are what it is cut into. -/
theorem mem_fragments_iff : v ∈ directives.fragments cs ↔ ∃ rest, FragmentAt cs v rest :=
  ⟨exists_fragmentAt v cs, fun ⟨_, h⟩ => h.mem⟩

/-! ### Runs -/

/-- A run of white space, or one of stars, as far as it goes. -/
inductive RunAt (v rest : List Char) : Prop
  | blank : (∀ c ∈ v, isBlank c = true) → Breaks (fun c => !isBlank c) rest → RunAt v rest
  | stars : (∀ c ∈ v, c = '*') → Breaks (fun c => c != '*') rest → RunAt v rest

/-- A run that ends within a text is followed by something else. -/
theorem breaks_of_takeWhile {p : Char → Bool} (hv : ∀ c ∈ v, p c = true)
    (h : v.length = ((v ++ rest).takeWhile p).length) : Breaks (fun c => !p c) rest := by
  rw [List.takeWhile_append_of_pos hv, List.length_append] at h
  cases rest with
  | nil => trivial
  | cons c rest =>
    show (!p c) = true
    by_contra hc
    rw [List.takeWhile_cons_of_pos (by simpa using hc), List.length_cons] at h
    omega

/-- What is dropped was cut as a run. -/
theorem FragmentAt.isDecoration_iff (h : FragmentAt cs v rest) :
    isDecoration v = true ↔ RunAt v rest := by
  obtain ⟨hv, hl⟩ := h.lexeme
  constructor
  · intro hd
    obtain ⟨c, u, rfl⟩ := List.exists_cons_of_ne_nil hv
    have hsep : isSeparator c = true := by
      by_contra hc
      rw [isDecoration_of_cons (by simpa using hc)] at hd
      cases hd
    rw [List.cons_append, lexemeLength_separator hsep, ← List.cons_append] at hl
    rcases Bool.or_eq_true_iff.1 hd with hall | hall
    · have hblank : runClass c = isBlank := if_pos (List.all_eq_true.1 hall c List.mem_cons_self)
      rw [hblank] at hl
      have hv := List.all_eq_true.1 hall
      exact .blank hv (breaks_of_takeWhile hv hl.symm)
    · have hstar : c = '*' := eq_of_beq (List.all_eq_true.1 hall c List.mem_cons_self)
      have hclass : runClass c = (· == '*') := by
        rw [hstar]
        exact if_neg (by decide)
      rw [hclass] at hl
      have hv := List.all_eq_true.1 hall
      exact .stars (fun d hd => eq_of_beq (hv d hd)) (breaks_of_takeWhile hv hl.symm)
  · rintro (⟨hv, -⟩ | ⟨hv, -⟩)
    · exact Bool.or_eq_true_iff.2 (.inl (List.all_eq_true.2 hv))
    · exact Bool.or_eq_true_iff.2 (.inr (List.all_eq_true.2 fun c hc => beq_iff_eq.2 (hv c hc)))

/-! ### Kinds -/

/-- What is a string by its characters was cut as a string. -/
theorem FragmentAt.string_iff (h : FragmentAt cs v rest) :
    kindOf v = .string ↔ stringLength (v ++ rest) = v.length := by
  obtain ⟨hv, hl⟩ := h.lexeme
  constructor
  · intro hk
    obtain ⟨body, rfl⟩ := kindOf_eq_string_iff.1 hk
    rcases (lexemeLength_eq_iff (by decide)).1 hl with h1 | ⟨-, h2⟩ | ⟨-, -, h3⟩ | ⟨-, -, -, h4⟩
    · exact absurd List.mem_cons_self (bounded_nameLength.notMem h1 (by decide : isStop '"' = true))
    · exact absurd List.mem_cons_self
        (bounded_numberLength.notMem h2 (by decide : isStop '"' = true))
    · exact h3
    · simp at h4
  · intro hs
    obtain ⟨inner, rfl, -, -⟩ := doubled_of_lexeme hv hs
    exact kindOf_eq_string_iff.2 ⟨inner, rfl⟩

/-- A string holds no quote without a partner. -/
theorem FragmentAt.exists_doubled_iff (h : FragmentAt cs v rest) :
    kindOf v = .string ↔ ∃ inner, v = '"' :: (inner ++ ['"']) ∧ Doubled inner := by
  constructor
  · intro hk
    obtain ⟨inner, hv, hd, -⟩ := doubled_of_lexeme h.lexeme.1 (h.string_iff.1 hk)
    exact ⟨inner, hv, hd⟩
  · rintro ⟨inner, rfl, -⟩
    exact kindOf_eq_string_iff.2 ⟨inner, rfl⟩

theorem kindOf_eq_integer_iff_signed :
    kindOf v = .integer ↔ ∃ minus ds, Signed v minus ds ∧ isDigits ds = true := by
  rw [kindOf_eq_integer_iff]
  constructor
  · rintro ⟨n, minus, ds, hs, hd, -⟩
    exact ⟨minus, ds, hs, hd⟩
  · rintro ⟨minus, ds, hs, hd⟩
    exact ⟨_, minus, ds, hs, hd, rfl⟩

theorem kindOf_eq_float_iff_signed : kindOf v = .float ↔ ∃ minus whole fraction,
    Signed v minus (whole ++ '.' :: fraction) ∧ isDigits whole = true ∧
      isDigits fraction = true := by
  rw [kindOf_eq_float_iff]
  constructor
  · rintro ⟨x, minus, whole, fraction, magnitude, hs, hw, hf, -⟩
    exact ⟨minus, whole, fraction, hs, hw, hf⟩
  · rintro ⟨minus, whole, fraction, hs, hw, hf⟩
    exact exists_decimal hs hw hf

/-- The marks of the grammar. -/
def marks : List (Char × Kind) :=
  [('@', .start), ('(', .openParen), (')', .closeParen), ('\'', .singleQuote),
    ('"', .doubleQuote), ('{', .openBrace), ('}', .closeBrace), ('=', .assign), (',', .comma),
    (':', .colon)]

theorem punctuation?_eq_some_iff {k : Kind} :
    punctuation? cs = some k ↔ ∃ c, (c, k) ∈ marks ∧ cs = [c] := by
  constructor
  · intro h
    unfold punctuation? at h
    split at h <;> cases h <;> exact ⟨_, by decide, rfl⟩
  · rintro ⟨c, hc, rfl⟩
    have hall : ∀ m ∈ marks, punctuation? [m.1] = some m.2 := by decide
    exact hall (c, k) hc

/-- A mark is a single character. -/
theorem kindOf_eq_mark_iff {m : Char × Kind} (hm : m ∈ marks) : kindOf cs = m.2 ↔ cs = [m.1] := by
  have hkinds : ∀ m ∈ marks, m.2 ∉ [.string, .integer, .float, .yes, .no, .other] := by decide
  have hone : ∀ m ∈ marks, ∀ m' ∈ marks, m'.2 = m.2 → m'.1 = m.1 := by decide
  have hsingle : ∀ m ∈ marks, kindOf [m.1] = m.2 := by decide
  constructor
  · intro h
    have hk := hkinds m hm
    rw [← h] at hk
    rcases kindOf_origin cs with o | o | o | ⟨hq, hn, -⟩
    · simp [o.2] at hk
    · simp [o.2.2] at hk
    · simp [o.2.2] at hk
    · rcases kindOf_cases hq hn with hw | hw | hw | hp
      · simp [hw] at hk
      · simp [hw] at hk
      · simp [hw] at hk
      · obtain ⟨c, hc, rfl⟩ := punctuation?_eq_some_iff.1 hp
        exact congrArg (fun c => [c]) (hone m hm _ hc h)
  · rintro rfl
    exact hsingle m hm

end DocDirectives.Classifier
