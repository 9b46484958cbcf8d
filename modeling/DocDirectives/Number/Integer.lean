/-! # Integers in decimal

    An integer literal is an optional sign and at least one decimal digit, and it has a value when
    that value is a signed 64-bit number. The written form has no plus sign and no leading zero;
    `ofText?_text` says that reading gives back what was written. -/

namespace DocDirectives.Number

/-- Whether a text is a non-empty run of decimal digits. -/
def isDigits (cs : List Char) : Bool := !cs.isEmpty && cs.all Char.isDigit

/-- The number written by a run of decimal digits. -/
def ofDigits (cs : List Char) : Nat := Nat.ofDigitChars 10 cs 0

/-- The decimal digits of a number. -/
def digits (n : Nat) : List Char := Nat.toDigits 10 n

/-- A leading sign (whether it is a minus) and what follows it. -/
def splitSign : List Char → Bool × List Char
  | '-' :: cs => (true, cs)
  | '+' :: cs => (false, cs)
  | cs => (false, cs)

namespace Integer

/-- The number as an `Int64`, when it is in range. -/
def inRange? (n : Int) : Option Int64 :=
  if Int64.minValue.toInt ≤ n ∧ n ≤ Int64.maxValue.toInt then some (Int64.ofInt n) else none

/-- The value of an integer literal. -/
def ofText? (cs : List Char) : Option Int64 :=
  let (minus, magnitude) := splitSign cs
  if isDigits magnitude then
    let n : Int := ofDigits magnitude
    inRange? (if minus then -n else n)
  else none

/-- The written form. -/
def text (i : Int) : List Char :=
  if i < 0 then '-' :: digits i.natAbs else digits i.natAbs

end Integer

/-! ### Laws -/

theorem ofDigits_digits (n : Nat) : ofDigits (digits n) = n :=
  Nat.ofDigitChars_toDigits (by decide) (by decide)

theorem isDigit_of_mem_digits {n : Nat} {c : Char} (h : c ∈ digits n) : c.isDigit = true :=
  Nat.isDigit_of_mem_toDigits (by decide) (by decide) h

theorem digits_ne_nil (n : Nat) : digits n ≠ [] := by
  intro h
  simp [digits] at h

theorem isDigits_digits (n : Nat) : isDigits (digits n) = true := by
  simp only [isDigits, Bool.and_eq_true, Bool.not_eq_true', List.all_eq_true]
  exact ⟨by simpa using digits_ne_nil n, fun c h => isDigit_of_mem_digits h⟩

theorem splitSign_digits (n : Nat) : splitSign (digits n) = (false, digits n) := by
  unfold splitSign
  split
  · rename_i h
    exact absurd (isDigit_of_mem_digits (h ▸ List.mem_cons_self)) (by decide)
  · rename_i h
    exact absurd (isDigit_of_mem_digits (h ▸ List.mem_cons_self)) (by decide)
  · rfl

namespace Integer

theorem inRange?_toInt (i : Int64) : inRange? i.toInt = some i := by
  rw [inRange?, if_pos ⟨i.minValue_le_toInt, i.toInt_le⟩, Int64.ofInt_toInt]

theorem ofText?_digits (n : Nat) : ofText? (digits n) = inRange? n := by
  simp [ofText?, splitSign_digits, isDigits_digits, ofDigits_digits]

theorem ofText?_minus_digits (n : Nat) : ofText? ('-' :: digits n) = inRange? (-n) := by
  simp [ofText?, splitSign, isDigits_digits, ofDigits_digits]

/-- Reading the written form of a 64-bit number gives it back. -/
theorem ofText?_text (i : Int64) : ofText? (text i.toInt) = some i := by
  unfold text
  split
  · rw [ofText?_minus_digits, show -((i.toInt.natAbs : Nat) : Int) = i.toInt by omega]
    exact inRange?_toInt i
  · rw [ofText?_digits, show ((i.toInt.natAbs : Nat) : Int) = i.toInt by omega]
    exact inRange?_toInt i

end Integer

end DocDirectives.Number
