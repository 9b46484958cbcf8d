import DocDirectives.Proofs.Token.Kind
import DocDirectives.Proofs.Token.Lexing

/-! # Texts that are one token

    A text of a class of lexemes, written in front of other text, is the first lexeme there as long
    as what comes behind cannot go on with it. Names end in front of whatever is neither a character
    of names nor a separator of segments, numbers in front of whatever is neither a digit nor a
    point, strings in front of everything but a quote. -/

namespace DocDirectives

namespace Lexeme

open Text

variable {v rest : List Char} {c : Char}

/-! ### Stops -/

theorem nameLength_of_stop (hc : isStop c = true) (rest : List Char) :
    nameLength (c :: rest) = 0 :=
  Nat.le_zero.1 (bounded_nameLength.append_le [] (show Breaks isStop (c :: rest) from hc))

theorem numberLength_of_stop (hc : isStop c = true) (rest : List Char) :
    numberLength (c :: rest) = 0 :=
  Nat.le_zero.1 (bounded_numberLength.append_le [] (show Breaks isStop (c :: rest) from hc))

/-- A stop that is no quote is a lexeme. -/
theorem lexed_stop (hc : isStop c = true) (hquote : c ≠ '"') (rest : List Char) :
    Lexed [c] rest :=
  .single (nameLength_of_stop hc rest) (numberLength_of_stop hc rest)
    (stringLength_of_ne hquote rest) rfl

/-- A colon is a lexeme where no other follows it. -/
theorem lexed_colon (h : rest.head? ≠ some ':') : Lexed [':'] rest := by
  have hlead : leadLength (':' :: rest) = 0 := by
    unfold leadLength
    split
    · next he => exact absurd (by rw [(List.cons.inj he).2]; rfl) h
    · next he => exact absurd (List.cons.inj he).1 (by decide)
    · rfl
  refine .single (marked_of_body ?_) (marked_of_body ?_) (stringLength_of_ne (by decide) rest) rfl
  · rw [List.singleton_append, hlead]
    exact segmentLength_of_not_nameChar (by decide) rest
  · exact isBody_digitsLength.stops ':' rest (by decide)

/-! ### Names -/

/-- A text that is a qualified name as a whole. -/
def IsName (v : List Char) : Prop := v ≠ [] ∧ nameLength v = v.length

instance (v : List Char) : Decidable (IsName v) :=
  inferInstanceAs (Decidable (v ≠ [] ∧ nameLength v = v.length))

/-- A name does not go on in `rest`. -/
def EndsName (rest : List Char) : Prop :=
  Breaks (fun c => !isNameChar c) rest ∧ separatorLength rest = 0

theorem segmentLength_append (hrest : EndsName rest) (h : segmentLength v ≠ 0) :
    segmentLength (v ++ rest) = segmentLength v := by
  cases v with
  | nil => exact absurd rfl h
  | cons c v =>
    have hle : ((c :: v ++ []).takeWhile isNameChar).length ≤ (c :: v).length := by
      rw [List.append_nil]
      exact (List.takeWhile_prefix _).length_le
    have hrun := takeWhile_append_of_le (by simp) hle hrest.1
    rw [List.append_nil, List.cons_append] at hrun
    simp only [List.cons_append, segmentLength, hrun]

/-- A mark that has a segment behind it is the same in front of other text. -/
def KeepsMark (mark : List Char → Nat) : Prop :=
  ∀ v rest, segmentLength (v.drop (mark v)) ≠ 0 → mark (v ++ rest) = mark v

theorem segmentLength_nil : segmentLength [] = 0 := rfl

theorem keepsMark_leadLength : KeepsMark leadLength := by
  intro v rest h
  have hcolon : segmentLength [':'] = 0 := rfl
  unfold leadLength at h ⊢
  rcases v with _ | ⟨c, _ | ⟨d, v⟩⟩ <;> grind [segmentLength_nil]

theorem keepsMark_separatorLength : KeepsMark separatorLength := by
  intro v rest h
  have hcolon : segmentLength [':'] = 0 := rfl
  unfold separatorLength at h ⊢
  rcases v with _ | ⟨c, _ | ⟨d, v⟩⟩ <;> grind [segmentLength_nil]

/-- A group that takes a whole text takes it in front of what does not go on with it. -/
theorem marked_append {mark tail : List Char → Nat} (hmark : KeepsMark mark)
    (hrest : EndsName rest) (hv : v ≠ [])
    (ht : ∀ u, u.length < v.length → tail u = u.length → tail (u ++ rest) = u.length)
    (h : marked mark segmentLength tail v = v.length) :
    marked mark segmentLength tail (v ++ rest) = v.length := by
  have hlen : v.length ≠ 0 := fun hl => hv (List.length_eq_zero_iff.1 hl)
  have hbody : segmentLength (v.drop (mark v)) ≠ 0 := fun h0 => hlen (by
    rw [← h, marked_of_body h0])
  have hle := isBody_segmentLength.le (v.drop (mark v))
  have hk : mark v ≤ v.length := by
    by_contra hk
    rw [List.drop_of_length_le (by omega)] at hbody
    exact hbody rfl
  rw [List.length_drop] at hle
  have hn : mark v + segmentLength (v.drop (mark v)) ≤ v.length := by omega
  simp only [marked, hbody, if_false] at h
  have htail : tail (v.drop (mark v + segmentLength (v.drop (mark v)))) =
      (v.drop (mark v + segmentLength (v.drop (mark v)))).length := by
    rw [List.length_drop]
    omega
  have hgoes := ht _ (by rw [List.length_drop]; omega) htail
  rw [List.length_drop] at hgoes
  simp only [marked, hmark v rest hbody, List.drop_append_of_le_length hk,
    segmentLength_append hrest hbody, List.drop_append_of_le_length hn, hbody, if_false, hgoes]
  omega

theorem tailLength_append (hrest : EndsName rest) :
    ∀ {v : List Char}, tailLength v = v.length → tailLength (v ++ rest) = v.length
  | [], _ => by rw [List.nil_append, tailLength_eq, if_pos hrest.2, List.length_nil]
  | c :: v, h => by
    rw [tailLength_eq] at h
    split at h
    · cases h
    · next hk =>
      have hbody : segmentLength ((c :: v).drop (separatorLength (c :: v))) ≠ 0 := fun h0 => by
        rw [marked_of_body h0] at h
        cases h
      rw [tailLength_eq, keepsMark_separatorLength _ rest hbody, if_neg hk]
      exact marked_append keepsMark_separatorLength hrest (List.cons_ne_nil c v)
        (fun u hu => tailLength_append hrest) h
termination_by v => v.length
decreasing_by exact hu

theorem nameLength_append (h : IsName v) (hrest : EndsName rest) :
    nameLength (v ++ rest) = v.length :=
  marked_append keepsMark_leadLength hrest h.1 (fun _ _ => tailLength_append hrest) h.2

theorem lexed_name (h : IsName v) (hrest : EndsName rest) : Lexed v rest :=
  .name (nameLength_append h hrest)

/-! ### Numbers -/

/-- Digits behind an optional sign do not go on in `rest`. -/
def EndsNumber (rest : List Char) : Prop := Breaks (fun c => !c.isDigit && c != '.') rest

theorem digitsLength_append {ds : List Char} (hds : ∀ d ∈ ds, d.isDigit = true)
    (hrest : EndsNumber rest) : digitsLength (ds ++ rest) = ds.length := by
  rw [digitsLength, List.takeWhile_append_of_pos hds]
  cases rest with
  | nil => simp
  | cons c rest =>
    have hc : c.isDigit = false := by
      have := Bool.and_eq_true_iff.1 (show (!c.isDigit && c != '.') = true from hrest)
      simpa using this.1
    rw [List.takeWhile_cons_of_neg (by simp [hc]), List.append_nil]

theorem fractionLength_of_endsNumber (hrest : EndsNumber rest) : fractionLength rest = 0 := by
  rw [fractionLength_eq, if_pos]
  refine pointLength_of_ne ?_
  rintro tail rfl
  exact absurd hrest (by simp [EndsNumber, Breaks])

/-- No name begins with a character that begins no segment and no separator. -/
theorem nameLength_of_not_start (hcolon : c ≠ ':') (hslash : c ≠ '\\')
    (hstart : isNameStart c = false) (cs : List Char) : nameLength (c :: cs) = 0 := by
  have hlead : leadLength (c :: cs) = 0 := by
    unfold leadLength
    split
    · next he => exact absurd (List.cons.inj he).1 hcolon
    · next he => exact absurd (List.cons.inj he).1 hslash
    · rfl
  refine marked_of_body ?_
  rw [hlead, List.drop_zero]
  simp only [segmentLength, hstart, Bool.false_eq_true, if_false]

theorem isNameStart_of_isDigit (h : c.isDigit = true) : isNameStart c = false := by
  rw [Bool.eq_false_iff]
  intro hstart
  obtain ⟨hlow, hhigh⟩ := Bool.and_eq_true_iff.1 h
  have hlow : 48 ≤ c.toNat := of_decide_eq_true hlow
  have hhigh : c.toNat ≤ 57 := of_decide_eq_true hhigh
  rcases Bool.or_eq_true_iff.1 hstart with halpha | hline
  · rcases Bool.or_eq_true_iff.1 halpha with hupper | hlower
    · have hupper : 65 ≤ c.toNat ∧ c.toNat ≤ 90 := of_decide_eq_true hupper
      omega
    · have hlower : 97 ≤ c.toNat := of_decide_eq_true (Bool.and_eq_true_iff.1 hlower).1
      omega
  · rw [eq_of_beq hline] at hhigh
    exact absurd hhigh (by decide)

/-- Digits behind a sign, or behind none, are a number. -/
theorem numberLength_of_sign (sign : List Char) {ds : List Char}
    (hsign : signLength (sign ++ (ds ++ rest)) = sign.length)
    (hds : Number.isDigits ds = true) (hrest : EndsNumber rest) :
    numberLength (sign ++ (ds ++ rest)) = (sign ++ ds).length := by
  have hlength := digitsLength_append (fun _ => Number.isDigit_of_isDigits hds) hrest
  have hpos : ds.length ≠ 0 := fun hl =>
    Number.ne_nil_of_isDigits hds (List.length_eq_zero_iff.1 hl)
  have hbehind : (sign ++ (ds ++ rest)).drop (sign.length + ds.length) = rest := by
    rw [← List.append_assoc, ← List.length_append, List.drop_left]
  simp only [numberLength, hsign, List.drop_left, hlength, hpos, if_false, hbehind,
    fractionLength_of_endsNumber hrest, List.length_append, Nat.add_zero]

variable {minus : Bool} {ds : List Char}

theorem nameLength_of_signed {more : List Char} (h : Number.Signed v minus (ds ++ more))
    (hds : Number.isDigits ds = true) (rest : List Char) : nameLength (v ++ rest) = 0 := by
  cases h with
  | plus => exact nameLength_of_not_start (by decide) (by decide) (by decide) _
  | minus => exact nameLength_of_not_start (by decide) (by decide) (by decide) _
  | none =>
    obtain ⟨d, ds', rfl⟩ := List.exists_cons_of_ne_nil (Number.ne_nil_of_isDigits hds)
    have hd := Number.isDigit_of_isDigits hds List.mem_cons_self
    refine nameLength_of_not_start ?_ ?_ (isNameStart_of_isDigit hd) _
    · rintro rfl; exact absurd hd (by decide)
    · rintro rfl; exact absurd hd (by decide)

theorem numberLength_of_signed (h : Number.Signed v minus ds) (hds : Number.isDigits ds = true)
    (hrest : EndsNumber rest) : numberLength (v ++ rest) = v.length := by
  cases h with
  | plus => exact numberLength_of_sign ['+'] rfl hds hrest
  | minus => exact numberLength_of_sign ['-'] rfl hds hrest
  | none =>
    refine numberLength_of_sign [] ?_ hds hrest
    have hsign := Number.no_sign_of_isDigits hds rest
    rw [List.nil_append]
    unfold signLength
    split
    · next he => exact absurd rfl (hsign _ _ he).2
    · next he => exact absurd rfl (hsign _ _ he).1
    · rfl

/-- A signed number is a lexeme where no digit and no point follows. -/
theorem lexed_number (h : Number.Signed v minus ds) (hds : Number.isDigits ds = true)
    (hrest : EndsNumber rest) : Lexed v rest :=
  .number (nameLength_of_signed (by rwa [List.append_nil]) hds rest)
    (numberLength_of_signed h hds hrest)

/-! ### Strings -/

/-- Doubled quotes between two more are a string where no other quote follows. -/
theorem lexed_string {inner : List Char} (h : Doubled inner) (hrest : rest.head? ≠ some '"') :
    Lexed ('"' :: (inner ++ ['"'])) rest := by
  have hf : Final rest := fun cs he => absurd (by rw [he]; rfl) hrest
  refine .string (nameLength_of_stop (by decide) _) (numberLength_of_stop (by decide) _) ?_
  rw [List.cons_append, List.append_assoc, List.singleton_append, stringLength_of_doubled h hf]
  simp

/-- What a name or a number begins with is no separator. -/
theorem Bounded.not_separator {f : List Char → Nat} (hf : Bounded f) {cs : List Char}
    (h : f (c :: cs) ≠ 0) : isSeparator c = false := by
  rw [Bool.eq_false_iff]
  intro hc
  have hstop : Breaks isStop (c :: cs) := isStop_of_isSeparator hc
  exact h (Nat.le_zero.1 (hf.append_le [] hstop))

end Lexeme

namespace Classifier

open Lexeme Number

variable {v rest : List Char} {c : Char}

/-! ### Tokens -/

/-- A stop that is neither a separator nor a quote is a token. -/
theorem tokens_stop (hc : isStop c = true ∧ isSeparator c = false ∧ c ≠ '"') (rest : List Char) :
    directives.tokens (c :: rest) = directives.token [c] :: directives.tokens rest :=
  tokens_lexed hc.2.1 (lexed_stop hc.1 hc.2.2 rest)

theorem tokens_colon (h : rest.head? ≠ some ':') :
    directives.tokens (':' :: rest) = directives.token [':'] :: directives.tokens rest :=
  tokens_lexed (by decide) (lexed_colon h)

theorem tokens_string {inner : List Char} (h : Doubled inner) (hrest : rest.head? ≠ some '"') :
    directives.tokens ('"' :: (inner ++ '"' :: rest)) =
      ⟨.string, String.ofList ('"' :: (inner ++ ['"']))⟩ :: directives.tokens rest := by
  have hsplit : '"' :: (inner ++ '"' :: rest) = '"' :: (inner ++ ['"']) ++ rest := by simp
  have hkind : kindOf ('"' :: (inner ++ ['"'])) = .string := kindOf_eq_string_iff.2 ⟨inner, rfl⟩
  rw [hsplit, tokens_lexed (by decide) (lexed_string h hrest), token,
    show directives.classify _ = _ from hkind]

theorem tokens_name (h : IsName v) (hrest : EndsName rest) :
    directives.tokens (v ++ rest) = directives.token v :: directives.tokens rest := by
  obtain ⟨c, u, rfl⟩ := List.exists_cons_of_ne_nil h.1
  have hpos : nameLength (c :: u) ≠ 0 := by
    rw [h.2]
    exact Nat.succ_ne_zero _
  exact tokens_lexed (bounded_nameLength.not_separator hpos) (lexed_name h hrest)

theorem tokens_numeral {n : Int} (h : Numeral v n) (hrest : EndsNumber rest) :
    directives.tokens (v ++ rest) = ⟨.integer, String.ofList v⟩ :: directives.tokens rest := by
  have hkind : kindOf v = .integer := kindOf_eq_integer_iff.2 ⟨n, h⟩
  obtain ⟨minus, ds, hs, hds, -⟩ := h
  have hlength := numberLength_of_signed hs hds hrest
  have hne : v ≠ [] := by
    rintro rfl
    cases hs
    cases hds
  obtain ⟨c, u, rfl⟩ := List.exists_cons_of_ne_nil hne
  have hpos : numberLength (c :: u ++ rest) ≠ 0 := by
    rw [hlength]
    exact Nat.succ_ne_zero _
  rw [tokens_lexed (bounded_numberLength.not_separator hpos) (lexed_number hs hds hrest), token,
    show directives.classify _ = _ from hkind]

/-! ### Kinds of names -/

/-- A name is a word of the language or nothing that it knows. -/
theorem kindOf_name (h : IsName v) : kindOf v = .yes ∨ kindOf v = .no ∨ kindOf v = .other := by
  have hlength : nameLength (v ++ []) = v.length := by rw [List.append_nil, h.2]
  have hquoted : isQuoted v = false := by
    rw [Bool.eq_false_iff, Ne, isQuoted_iff]
    rintro ⟨body, rfl⟩
    exact bounded_nameLength.notMem hlength (by decide : isStop '"' = true) List.mem_cons_self
  have hsigned : ∀ {minus ds more}, Signed v minus (ds ++ more) → isDigits ds = true → False :=
    fun hs hds => h.1 (List.length_eq_zero_iff.1 (hlength ▸ nameLength_of_signed hs hds []))
  have hnumeric : numeric? v = none := by
    rcases numeric?_cases v with hn | hn | hn
    · exact hn
    · obtain ⟨n, minus, ds, hs, hds, -⟩ :=
        kindOf_eq_integer_iff.1 (kindOf_of_numeric hquoted hn)
      exact (hsigned (by rwa [List.append_nil]) hds).elim
    · obtain ⟨x, minus, whole, fraction, magnitude, hs, hw, -⟩ :=
        kindOf_eq_float_iff.1 (kindOf_of_numeric hquoted hn)
      exact (hsigned hs hw).elim
  rcases kindOf_cases hquoted hnumeric with hk | hk | hk | hk
  · exact .inl hk
  · exact .inr (.inl hk)
  · exact .inr (.inr hk)
  · -- no mark is a name
    unfold punctuation? at hk
    split at hk <;> first | exact absurd h (by decide) | cases hk

end Classifier

end DocDirectives
