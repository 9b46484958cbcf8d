import DocDirectives.Proofs.Number.Rounding
import DocDirectives.Token.Classifier
import Mathlib.Data.List.TakeWhile

/-! # Shapes of lexemes

    What the kind of a lexeme says about its text: a string stands between quotes, an integer is
    digits behind an optional sign, a float has a point between two runs of digits. `Numeral` and
    `Decimal` say what the two kinds of numbers denote. Every lexeme of kind float denotes a number,
    and one of kind integer has a value just when its number fits 64 bits. -/

namespace DocDirectives

namespace Number

/-! ### Signed numbers -/

/-- An optional sign, whether it is a minus, and what stands behind it. -/
inductive Signed : List Char → Bool → List Char → Prop
  | none (ds : List Char) : Signed ds false ds
  | plus (ds : List Char) : Signed ('+' :: ds) false ds
  | minus (ds : List Char) : Signed ('-' :: ds) true ds

/-- The integer that a lexeme denotes. -/
def Numeral (cs : List Char) (n : Int) : Prop :=
  ∃ minus ds, Signed cs minus ds ∧ isDigits ds = true ∧
    n = if minus then -(ofDigits ds : Int) else ofDigits ds

/-- The binary64 number nearest to the decimal fraction that a lexeme denotes. -/
def Decimal (cs : List Char) (x : Binary64) : Prop :=
  ∃ minus whole fraction magnitude, Signed cs minus (whole ++ '.' :: fraction) ∧
    isDigits whole = true ∧ isDigits fraction = true ∧
    Binary64.IsNearest (ofDigits (whole ++ fraction)) (Nat.pow 10 fraction.length) magnitude ∧
    x = .ofMagnitude minus magnitude

/-- Whether an integer is a signed 64-bit number. -/
def Fits (n : Int) : Prop := Int64.minValue.toInt ≤ n ∧ n ≤ Int64.maxValue.toInt

theorem signed_splitSign (cs : List Char) : Signed cs (splitSign cs).1 (splitSign cs).2 := by
  unfold splitSign
  split
  · exact .minus _
  · exact .plus _
  · exact .none _

theorem splitSign_of_signed {cs ds : List Char} {minus : Bool} (h : Signed cs minus ds)
    (hd : ∀ c rest, ds = c :: rest → c ≠ '-' ∧ c ≠ '+') : splitSign cs = (minus, ds) := by
  cases h with
  | plus => rfl
  | minus => rfl
  | none =>
    unfold splitSign
    split
    · next r => exact absurd rfl (hd _ r rfl).1
    · next r => exact absurd rfl (hd _ r rfl).2
    · rfl

theorem unsigned_eq_splitSign (cs : List Char) : Classifier.unsigned cs = (splitSign cs).2 := by
  unfold Classifier.unsigned
  split
  · rfl
  · rfl
  · next hm hp =>
    rw [splitSign_of_signed (.none cs) fun c rest he => ⟨?_, ?_⟩]
    · rintro rfl; exact hm rest he
    · rintro rfl; exact hp rest he

/-! ### Runs of digits -/

theorem isDigit_of_isDigits {ds : List Char} (h : isDigits ds = true) {c : Char} (hc : c ∈ ds) :
    c.isDigit = true := by
  simp only [isDigits, Bool.and_eq_true, List.all_eq_true] at h
  exact h.2 c hc

theorem ne_nil_of_isDigits {ds : List Char} (h : isDigits ds = true) : ds ≠ [] := by
  rintro rfl
  cases h

/-- Behind a sign comes no other, where digits have to begin. -/
theorem no_sign_of_isDigits {ds : List Char} (h : isDigits ds = true) (rest : List Char) :
    ∀ c tail, ds ++ rest = c :: tail → c ≠ '-' ∧ c ≠ '+' := by
  intro c tail he
  obtain ⟨d, ds', rfl⟩ := List.exists_cons_of_ne_nil (ne_nil_of_isDigits h)
  obtain ⟨rfl, _⟩ := List.cons.inj he
  have hd := isDigit_of_isDigits h List.mem_cons_self
  constructor <;> rintro rfl <;> exact absurd hd (by decide)

theorem point_notMem_of_isDigits {ds : List Char} (h : isDigits ds = true) :
    ∀ c ∈ ds, (c != '.') = true := by
  intro c hc
  have hd := isDigit_of_isDigits h hc
  rw [bne_iff_ne]
  rintro rfl
  exact absurd hd (by decide)

/-- The point behind a run of digits divides a text. -/
theorem divide_at_point {whole : List Char} (h : isDigits whole = true) (fraction : List Char) :
    (whole ++ '.' :: fraction).takeWhile (· != '.') = whole ∧
      (whole ++ '.' :: fraction).dropWhile (· != '.') = '.' :: fraction := by
  have hw := point_notMem_of_isDigits h
  constructor
  · rw [List.takeWhile_append_of_pos hw, List.takeWhile_cons_of_neg (by simp), List.append_nil]
  · rw [List.dropWhile_append_of_pos hw, List.dropWhile_cons_of_neg (by simp)]

theorem takeWhile_of_dropWhile_eq_nil {cs : List Char} (h : cs.dropWhile (· != '.') = []) :
    cs.takeWhile (· != '.') = cs := by
  have := List.takeWhile_append_dropWhile (p := fun c : Char => c != '.') (l := cs)
  rwa [h, List.append_nil] at this

theorem eq_append_of_dropWhile {cs rest : List Char} {c : Char}
    (h : cs.dropWhile (· != '.') = c :: rest) :
    c = '.' ∧ cs = cs.takeWhile (· != '.') ++ '.' :: rest := by
  have hc : c = '.' := by
    have := List.head?_dropWhile_not (fun c : Char => c != '.') cs
    rw [h] at this
    simpa using this
  subst hc
  refine ⟨rfl, ?_⟩
  rw [← h, List.takeWhile_append_dropWhile]

/-! ### Values -/

theorem ofText?_eq_some_iff {cs : List Char} {i : Int64} :
    Integer.ofText? cs = some i ↔ ∃ n, Numeral cs n ∧ Fits n ∧ i = Int64.ofInt n := by
  constructor
  · intro h
    simp only [Integer.ofText?] at h
    split at h
    · next hd =>
      simp only [Integer.inRange?, Option.ite_none_right_eq_some, Option.some.injEq] at h
      exact ⟨_, ⟨_, _, signed_splitSign cs, hd, rfl⟩, h.1, h.2.symm⟩
    · cases h
  · rintro ⟨n, ⟨minus, ds, hs, hd, rfl⟩, hf, rfl⟩
    have hsplit := splitSign_of_signed hs (by simpa using no_sign_of_isDigits hd [])
    simp only [Integer.ofText?, hsplit, hd, if_true]
    exact if_pos hf

theorem pow_ten_pos (k : Nat) : 0 < Nat.pow 10 k := Nat.pow_pos (by decide)

/-- Every decimal fraction denotes a number. -/
theorem exists_decimal {cs whole fraction : List Char} {minus : Bool}
    (hs : Signed cs minus (whole ++ '.' :: fraction)) (hw : isDigits whole = true)
    (hf : isDigits fraction = true) : ∃ x, Decimal cs x := by
  have hnearest := Binary64.isNearest_nearest (ofDigits (whole ++ fraction))
    (pow_ten_pos fraction.length)
  exact ⟨_, minus, whole, fraction, _, hs, hw, hf, hnearest, rfl⟩

theorem float_ofText?_eq_some_iff {cs : List Char} {x : Binary64} :
    Binary64.ofText? cs = some x ↔ Decimal cs x := by
  constructor
  · intro h
    simp only [Binary64.ofText?] at h
    split at h
    · next fraction hdrop =>
      simp only [Option.ite_none_right_eq_some, Option.some.injEq, Bool.and_eq_true] at h
      obtain ⟨⟨hw, hf⟩, hx⟩ := h
      have hnearest := Binary64.isNearest_nearest
        (ofDigits ((splitSign cs).2.takeWhile (· != '.') ++ fraction))
        (pow_ten_pos fraction.length)
      refine ⟨_, _, fraction, _, ?_, hw, hf, hnearest, hx.symm⟩
      rw [← (eq_append_of_dropWhile hdrop).2]
      exact signed_splitSign cs
    · cases h
  · rintro ⟨minus, whole, fraction, magnitude, hs, hw, hf, hm, rfl⟩
    have hsplit := splitSign_of_signed hs (no_sign_of_isDigits hw _)
    obtain ⟨htake, hdrop⟩ := divide_at_point hw fraction
    have hnearest : Binary64.nearest (ofDigits (whole ++ fraction))
        (Nat.pow 10 fraction.length) = magnitude :=
      (Binary64.nearest_eq_iff (pow_ten_pos _)).2 hm
    simp only [Binary64.ofText?, hsplit, hdrop, htake, hw, hf, hnearest, Bool.and_self, if_true]

end Number

namespace Classifier

open Number

/-! ### Kinds -/

theorem isQuoted_iff {cs : List Char} :
    isQuoted cs = true ↔ ∃ body, cs = '"' :: (body ++ ['"']) := by
  simp only [isQuoted, Bool.and_eq_true, decide_eq_true_eq, beq_iff_eq]
  constructor
  · rintro ⟨⟨hlen, hhead⟩, hlast⟩
    cases cs with
    | nil => cases hhead
    | cons c cs =>
      obtain rfl := Option.some.inj hhead
      have hne : cs ≠ [] := by rintro rfl; simp at hlen
      obtain ⟨body, b, rfl⟩ := (List.eq_nil_or_concat cs).resolve_left hne
      rw [List.concat_eq_append, ← List.cons_append, List.getLast?_concat] at hlast
      obtain rfl := Option.some.inj hlast
      exact ⟨body, by rw [List.concat_eq_append]⟩
  · rintro ⟨body, rfl⟩
    refine ⟨⟨by simp, rfl⟩, ?_⟩
    rw [← List.cons_append, List.getLast?_concat]

theorem numeric?_eq_integer_iff {cs : List Char} :
    numeric? cs = some .integer ↔ isDigits (unsigned cs) = true := by
  simp only [numeric?]
  constructor
  · intro h
    split at h
    · next hdrop =>
      rw [takeWhile_of_dropWhile_eq_nil hdrop] at h
      simpa using h
    · simp at h
  · intro h
    have hdrop : (unsigned cs).dropWhile (· != '.') = [] :=
      List.dropWhile_eq_nil_iff.2 (point_notMem_of_isDigits h)
    simp only [hdrop, takeWhile_of_dropWhile_eq_nil hdrop, h, if_true]

theorem numeric?_eq_float_iff {cs : List Char} :
    numeric? cs = some .float ↔ ∃ whole fraction, unsigned cs = whole ++ '.' :: fraction ∧
      isDigits whole = true ∧ isDigits fraction = true := by
  simp only [numeric?]
  constructor
  · intro h
    split at h
    · simp at h
    · next c fraction hdrop =>
      simp only [Option.ite_none_right_eq_some, Bool.and_eq_true] at h
      exact ⟨_, fraction, (eq_append_of_dropWhile hdrop).2, h.1.1, h.1.2⟩
  · rintro ⟨whole, fraction, he, hw, hf⟩
    obtain ⟨htake, hdrop⟩ := divide_at_point hw fraction
    simp only [he, htake, hdrop, hw, hf, Bool.and_self, if_true]

theorem numeric?_cases (cs : List Char) :
    numeric? cs = none ∨ numeric? cs = some .integer ∨ numeric? cs = some .float := by
  simp only [numeric?]
  split <;> split <;> simp

theorem punctuation?_cases (cs : List Char) : punctuation? cs ≠ some .string ∧
    punctuation? cs ≠ some .integer ∧ punctuation? cs ≠ some .float ∧
    (punctuation? cs = some .start → cs = ['@']) := by
  unfold punctuation?
  split <;> simp

/-- The kind of a lexeme that is neither quoted nor a number. -/
theorem kindOf_cases {cs : List Char} (hq : isQuoted cs = false) (hn : numeric? cs = none) :
    kindOf cs = .yes ∨ kindOf cs = .no ∨ kindOf cs = .other ∨
      punctuation? cs = some (kindOf cs) := by
  simp only [kindOf, hq, hn, Bool.false_eq_true, if_false]
  split
  · exact .inl rfl
  · split
    · exact .inr (.inl rfl)
    · cases hp : punctuation? cs with
      | none => exact .inr (.inr (.inl rfl))
      | some k => exact .inr (.inr (.inr rfl))

theorem kindOf_of_numeric {cs : List Char} {k : Kind} (hq : isQuoted cs = false)
    (hn : numeric? cs = some k) : kindOf cs = k := by
  simp only [kindOf, hq, hn, Bool.false_eq_true, if_false]

/-- What each kind of interest says about a lexeme. -/
theorem kindOf_origin (cs : List Char) :
    isQuoted cs = true ∧ kindOf cs = .string ∨
      isQuoted cs = false ∧ numeric? cs = some .integer ∧ kindOf cs = .integer ∨
      isQuoted cs = false ∧ numeric? cs = some .float ∧ kindOf cs = .float ∨
      isQuoted cs = false ∧ numeric? cs = none ∧ kindOf cs ≠ .string ∧ kindOf cs ≠ .integer ∧
        kindOf cs ≠ .float ∧ (kindOf cs = .start → cs = ['@']) := by
  cases hq : isQuoted cs with
  | true => exact .inl ⟨rfl, by simp only [kindOf, hq, if_true]⟩
  | false =>
    rcases numeric?_cases cs with hn | hn | hn
    · refine .inr (.inr (.inr ⟨rfl, hn, ?_⟩))
      obtain ⟨hstring, hinteger, hfloat, hstart⟩ := punctuation?_cases cs
      rcases kindOf_cases hq hn with h | h | h | h
      · simp [h]
      · simp [h]
      · simp [h]
      · rw [h] at hstring hinteger hfloat hstart
        exact ⟨fun e => hstring (e ▸ rfl), fun e => hinteger (e ▸ rfl), fun e => hfloat (e ▸ rfl),
          fun e => hstart (e ▸ rfl)⟩
    · exact .inr (.inl ⟨rfl, hn, kindOf_of_numeric hq hn⟩)
    · exact .inr (.inr (.inl ⟨rfl, hn, kindOf_of_numeric hq hn⟩))

theorem isQuoted_of_unsigned {cs : List Char} (h : ∀ body, unsigned cs ≠ '"' :: body) :
    isQuoted cs = false := by
  rw [Bool.eq_false_iff, Ne, isQuoted_iff]
  rintro ⟨body, rfl⟩
  exact h _ rfl

/-- Digits do not begin with a quote. -/
theorem ne_quote_of_isDigits {ds : List Char} (h : isDigits ds = true) (rest body : List Char) :
    ds ++ rest ≠ '"' :: body := by
  intro he
  obtain ⟨d, ds', rfl⟩ := List.exists_cons_of_ne_nil (ne_nil_of_isDigits h)
  obtain ⟨rfl, _⟩ := List.cons.inj he
  exact absurd (isDigit_of_isDigits h List.mem_cons_self) (by decide)

/-- A string is what stands between two quotes. -/
theorem kindOf_eq_string_iff {cs : List Char} :
    kindOf cs = .string ↔ ∃ body, cs = '"' :: (body ++ ['"']) := by
  rw [← isQuoted_iff]
  rcases kindOf_origin cs with h | h | h | h
  · simp [h.1, h.2]
  · simp [h.1, h.2.2]
  · simp [h.1, h.2.2]
  · simp [h.1, h.2.2.1]

/-- An integer is what denotes one. -/
theorem kindOf_eq_integer_iff {cs : List Char} : kindOf cs = .integer ↔ ∃ n, Numeral cs n := by
  constructor
  · intro h
    have hn : numeric? cs = some .integer := by
      rcases kindOf_origin cs with o | o | o | o
      · simp [o.2] at h
      · exact o.2.1
      · simp [o.2.2] at h
      · exact absurd h o.2.2.2.1
    rw [numeric?_eq_integer_iff, unsigned_eq_splitSign] at hn
    exact ⟨_, _, _, signed_splitSign cs, hn, rfl⟩
  · rintro ⟨n, minus, ds, hs, hd, -⟩
    have hu : unsigned cs = ds := by
      rw [unsigned_eq_splitSign,
        splitSign_of_signed hs (by simpa using no_sign_of_isDigits hd [])]
    refine kindOf_of_numeric (isQuoted_of_unsigned fun body => ?_)
      (numeric?_eq_integer_iff.2 (hu ▸ hd))
    rw [hu]
    simpa using ne_quote_of_isDigits hd [] body

/-- A float is what denotes a binary64 number. -/
theorem kindOf_eq_float_iff {cs : List Char} : kindOf cs = .float ↔ ∃ x, Decimal cs x := by
  constructor
  · intro h
    have hn : numeric? cs = some .float := by
      rcases kindOf_origin cs with o | o | o | o
      · simp [o.2] at h
      · simp [o.2.2] at h
      · exact o.2.1
      · exact absurd h o.2.2.2.2.1
    obtain ⟨whole, fraction, hu, hw, hf⟩ := numeric?_eq_float_iff.1 hn
    rw [unsigned_eq_splitSign] at hu
    exact exists_decimal (hu ▸ signed_splitSign cs) hw hf
  · rintro ⟨x, minus, whole, fraction, magnitude, hs, hw, hf, -⟩
    have hu : unsigned cs = whole ++ '.' :: fraction := by
      rw [unsigned_eq_splitSign, splitSign_of_signed hs (no_sign_of_isDigits hw _)]
    refine kindOf_of_numeric (isQuoted_of_unsigned fun body => ?_)
      (numeric?_eq_float_iff.2 ⟨whole, fraction, hu, hw, hf⟩)
    rw [hu]
    exact ne_quote_of_isDigits hw _ body

/-- Only the sign itself begins a directive. -/
theorem kindOf_eq_start_iff {cs : List Char} : kindOf cs = .start ↔ cs = ['@'] := by
  constructor
  · intro h
    rcases kindOf_origin cs with o | o | o | o
    · simp [o.2] at h
    · simp [o.2.2] at h
    · simp [o.2.2] at h
    · exact o.2.2.2.2.2 h
  · rintro rfl
    decide

end Classifier

end DocDirectives
