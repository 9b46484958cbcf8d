import DocDirectives.Token.Lexeme
import Mathlib.Data.List.TakeWhile

/-! # How far names and numbers reach

    A name or a number is a mark, a body that must not be empty, and further groups of the two. Its
    length is bounded: no such lexeme reaches over a stop, a character that neither goes on with,
    and one that ends within a text is the same lexeme when a stop comes behind the text. White
    space, comment stars and quotes are stops. -/

namespace DocDirectives.Lexeme

open Text

/-! ### Separators and stops -/

/-- White space and comment stars, which stand between tokens. -/
def isSeparator (c : Char) : Bool := isBlank c || c == '*'

/-- A character that no name and no number goes on with. -/
def isStop (c : Char) : Bool :=
  !isNameChar c && c != ':' && c != '\\' && c != '.' && c != '+' && c != '-'

/-- A text is over, or goes on with a character of the class `p`. -/
def Breaks (p : Char → Bool) : List Char → Prop
  | [] => True
  | c :: _ => p c = true

theorem Breaks.imp {p q : Char → Bool} (h : ∀ c, p c = true → q c = true) :
    ∀ {cs : List Char}, Breaks p cs → Breaks q cs
  | [], _ => trivial
  | c :: _, hb => h c hb

theorem isNameChar_toNat {c : Char} (h : isNameChar c = true) : 48 ≤ c.toNat ∧ c.toNat ≤ 122 := by
  have hclass : (((c.isUpper || c.isLower) || c.isDigit) || c == '_') = true := h
  simp only [Bool.or_eq_true, beq_iff_eq] at hclass
  rcases hclass with ((hupper | hlower) | hdigit) | rfl
  · obtain ⟨h1, h2⟩ : 65 ≤ c.toNat ∧ c.toNat ≤ 90 := of_decide_eq_true hupper
    omega
  · obtain ⟨h1, h2⟩ := Bool.and_eq_true_iff.1 hlower
    have h1 : 97 ≤ c.toNat := of_decide_eq_true h1
    have h2 : c.toNat ≤ 122 := of_decide_eq_true h2
    omega
  · obtain ⟨h1, h2⟩ := Bool.and_eq_true_iff.1 hdigit
    have h1 : 48 ≤ c.toNat := of_decide_eq_true h1
    have h2 : c.toNat ≤ 57 := of_decide_eq_true h2
    omega
  · decide

theorem isNameChar_of_isBlank {c : Char} (h : isBlank c = true) : isNameChar c = false := by
  rw [Bool.eq_false_iff]
  intro hn
  have := isNameChar_toNat hn
  simp only [isBlank, Bool.or_eq_true, Bool.and_eq_true, decide_eq_true_eq, beq_iff_eq] at h
  omega

theorem isStop_of_isSeparator {c : Char} (h : isSeparator c = true) : isStop c = true := by
  rcases Bool.or_eq_true_iff.1 h with hb | hs
  · have hn := isNameChar_of_isBlank hb
    simp only [isStop, hn, Bool.not_false, Bool.true_and, Bool.and_eq_true, bne_iff_ne]
    refine ⟨⟨⟨⟨?_, ?_⟩, ?_⟩, ?_⟩, ?_⟩ <;> rintro rfl <;> revert hb <;> decide
  · rw [eq_of_beq hs]
    decide

theorem isNameChar_of_isStop {c : Char} (h : isStop c = true) : isNameChar c = false := by
  simp only [isStop, Bool.and_eq_true, Bool.not_eq_true'] at h
  exact h.1.1.1.1.1

/-- A run that ends within a text ends there before any break. -/
theorem takeWhile_append_of_le {p q : Char → Bool} (hp : ∀ c, q c = true → p c = false) :
    ∀ {v rest rest' : List Char}, ((v ++ rest).takeWhile p).length ≤ v.length → Breaks q rest' →
      (v ++ rest').takeWhile p = (v ++ rest).takeWhile p
  | [], rest, [], h, _ => (List.length_eq_zero_iff.1 (Nat.le_zero.1 h)).symm
  | [], rest, c :: rest', h, hb => by
    rw [List.nil_append, List.nil_append, List.takeWhile_cons_of_neg (by simp [hp c hb])]
    exact (List.length_eq_zero_iff.1 (Nat.le_zero.1 h)).symm
  | c :: v, rest, rest', h, hb => by
    rw [List.cons_append] at h
    rw [List.cons_append, List.cons_append, List.takeWhile_cons, List.takeWhile_cons]
    split
    · next hc =>
      rw [List.takeWhile_cons_of_pos hc, List.length_cons, List.length_cons] at h
      rw [takeWhile_append_of_le hp (Nat.le_of_succ_le_succ h) hb]
    · rfl

/-! ### Bounded lengths -/

/-- A length found within `v` is found there again when a stop comes behind `v`. -/
def Settles (f : List Char → Nat) (v : List Char) : Prop :=
  ∀ rest rest' : List Char, Breaks isStop rest' → f (v ++ rest) ≤ v.length →
    f (v ++ rest') = f (v ++ rest)

/-- A length function that looks at no more of a text than a stop leaves it. -/
structure Bounded (f : List Char → Nat) : Prop where
  le : ∀ cs, f cs ≤ cs.length
  settles : ∀ v, Settles f v

/-- A bounded lexeme ends in front of a stop. -/
theorem Bounded.append_le {f : List Char → Nat} (hf : Bounded f) (v : List Char) {rest : List Char}
    (hb : Breaks isStop rest) : f (v ++ rest) ≤ v.length := by
  have h : f (v ++ []) ≤ v.length := by
    rw [List.append_nil]
    exact hf.le v
  rw [hf.settles v [] rest hb h]
  exact h

theorem Bounded.notMem {f : List Char → Nat} (hf : Bounded f) {v rest : List Char}
    (h : f (v ++ rest) = v.length) {c : Char} (hc : isStop c = true) : c ∉ v := by
  intro hmem
  obtain ⟨as, bs, rfl⟩ := List.append_of_mem hmem
  have hle := hf.append_le as (show Breaks isStop (c :: bs ++ rest) from hc)
  rw [List.append_assoc] at h
  rw [h, List.length_append, List.length_cons] at hle
  omega

/-! ### Groups -/

/-- The length of one or two characters that stand in front of a body. Only the first colon of two
    can be cut off from the other. -/
structure IsMark (mark : List Char → Nat) : Prop where
  le : ∀ cs, mark cs ≤ cs.length
  append : ∀ v rest rest', Breaks isStop rest' →
    mark (v ++ rest') = if mark (v ++ rest) ≤ v.length then mark (v ++ rest) else 0
  beyond : ∀ v rest, v.length < mark (v ++ rest) → v = [] ∨ v = [':']

/-- The length of a run of characters of names. -/
structure IsBody (body : List Char → Nat) : Prop extends Bounded body where
  stops : ∀ c cs, isNameChar c = false → body (c :: cs) = 0

theorem IsBody.of_breaks {body : List Char → Nat} (h : IsBody body) :
    ∀ {rest : List Char}, Breaks isStop rest → body rest = 0
  | [], _ => Nat.le_zero.1 (h.le [])
  | _ :: _, hb => h.stops _ _ (isNameChar_of_isStop hb)

/-- A mark, a body that must not be empty, and what comes behind. -/
def marked (mark body tail : List Char → Nat) (cs : List Char) : Nat :=
  let k := mark cs
  let n := body (cs.drop k)
  if n = 0 then 0 else k + n + tail (cs.drop (k + n))

theorem marked_of_body {mark body tail : List Char → Nat} {cs : List Char}
    (h : body (cs.drop (mark cs)) = 0) : marked mark body tail cs = 0 := by
  simp only [marked, h, if_true]

section Groups

variable {mark body tail : List Char → Nat} (hm : IsMark mark) (hb : IsBody body)
include hm hb

/-- A group is not longer than the text. -/
theorem marked_le {cs : List Char} (ht : ∀ ds, ds.length < cs.length → tail ds ≤ ds.length) :
    marked mark body tail cs ≤ cs.length := by
  simp only [marked]
  split
  · exact Nat.zero_le _
  · next hn =>
    have hk := hm.le cs
    have hbody := hb.le (cs.drop (mark cs))
    have htail := ht (cs.drop (mark cs + body (cs.drop (mark cs))))
    simp only [List.length_drop] at hbody htail
    omega

omit hb in
/-- A mark is cut off where it reaches over `v`. -/
theorem mark_of_over {v rest rest' : List Char} (h : v.length < mark (v ++ rest))
    (hbreak : Breaks isStop rest') : mark (v ++ rest') = 0 := by
  rw [hm.append v rest rest' hbreak, if_neg (Nat.not_le.2 h)]

/-- A mark that was cut off has no body. -/
theorem marked_of_over {v rest rest' : List Char} (h : v.length < mark (v ++ rest))
    (hbreak : Breaks isStop rest') : marked mark body tail (v ++ rest') = 0 := by
  refine marked_of_body ?_
  rw [mark_of_over hm h hbreak, List.drop_zero]
  rcases hm.beyond v rest h with rfl | rfl
  · exact hb.of_breaks hbreak
  · exact hb.stops _ _ (by decide)

/-- A group settles when its parts do. -/
theorem marked_settles {v : List Char} (ht : ∀ u, u.length < v.length → Settles tail u) :
    Settles (marked mark body tail) v := by
  intro rest rest' hbreak h
  rcases Nat.lt_or_ge v.length (mark (v ++ rest)) with hk | hk
  · -- a body behind such a mark would end behind `v`
    rw [marked_of_over hm hb hk hbreak]
    simp only [marked] at h ⊢
    split at h
    · next hn => rw [if_pos hn]
    · omega
  · simp only [marked] at h ⊢
    rw [hm.append v rest rest' hbreak, if_pos hk, List.drop_append_of_le_length hk,
      List.drop_append_of_le_length hk]
    rw [List.drop_append_of_le_length hk] at h
    have hbody := hb.settles (v.drop (mark (v ++ rest))) rest rest' hbreak
    simp only [List.length_drop] at hbody
    split at h
    · next hn => rw [hbody (by omega), if_pos hn, if_pos hn]
    · next hn =>
      have hle : mark (v ++ rest) + body (v.drop (mark (v ++ rest)) ++ rest) ≤ v.length := by omega
      rw [List.drop_append_of_le_length hle] at h
      rw [hbody (by omega), if_neg hn, if_neg hn, List.drop_append_of_le_length hle,
        List.drop_append_of_le_length hle]
      rw [ht _ (by simp only [List.length_drop]; omega) rest rest' hbreak
        (by simp only [List.length_drop]; omega)]

theorem bounded_marked (ht : Bounded tail) : Bounded (marked mark body tail) :=
  ⟨fun _ => marked_le hm hb fun ds _ => ht.le ds,
    fun _ => marked_settles hm hb fun u _ => ht.settles u⟩

variable (eq : ∀ cs, tail cs = if mark cs = 0 then 0 else marked mark body tail cs)
include eq

/-- Groups one behind the other are not longer than the text. -/
theorem repeated_le (cs : List Char) : tail cs ≤ cs.length := by
  rw [eq]
  split
  · exact Nat.zero_le _
  · exact marked_le hm hb fun ds _ => repeated_le ds
termination_by cs.length

/-- Groups one behind the other settle one by one. -/
theorem repeated_settles (v : List Char) : Settles tail v := by
  intro rest rest' hbreak h
  -- the groups behind the first one stand in a shorter text
  have ht : ∀ u, u.length < v.length → Settles tail u := fun u _ => repeated_settles u
  have hmark := hm.append v rest rest' hbreak
  rw [eq] at h
  rw [eq, eq]
  by_cases hk : mark (v ++ rest) = 0
  · rw [if_pos hk, if_pos (by rw [hmark, hk]; simp)]
  · rw [if_neg hk] at h
    rw [if_neg hk, ← marked_settles hm hb ht rest rest' hbreak h]
    rcases Nat.lt_or_ge v.length (mark (v ++ rest)) with hover | hover
    · rw [if_pos (mark_of_over hm hover hbreak), marked_of_over hm hb hover hbreak]
    · rw [if_neg (by rw [hmark, if_pos hover]; exact hk)]
termination_by v.length

theorem bounded_repeated : Bounded tail := ⟨repeated_le hm hb eq, repeated_settles hm hb eq⟩

end Groups

/-! ### Names -/

theorem isBody_takeWhile {p : Char → Bool} (hp : ∀ c, p c = true → isNameChar c = true) :
    IsBody fun cs => (cs.takeWhile p).length := by
  have hn : ∀ c, isNameChar c = false → p c = false := fun c hc =>
    Bool.eq_false_iff.2 fun h => absurd (hp c h) (by simp [hc])
  refine ⟨⟨fun cs => (List.takeWhile_prefix p).length_le, fun v rest rest' hb h => ?_⟩,
    fun c cs hc => ?_⟩
  · exact congrArg List.length
      (takeWhile_append_of_le (fun c hc => hn c (isNameChar_of_isStop hc)) h hb)
  · rw [List.takeWhile_cons_of_neg (by simp [hn c hc]), List.length_nil]

theorem segmentLength_of_not_nameChar {c : Char} (hc : isNameChar c = false) (cs : List Char) :
    segmentLength (c :: cs) = 0 := by
  have hs : isNameStart c = false := Bool.eq_false_iff.2 fun h =>
    absurd (isNameChar_of_isNameStart h) (by simp [hc])
  simp only [segmentLength, hs, Bool.false_eq_true, if_false]

theorem isBody_segmentLength : IsBody segmentLength := by
  have run := isBody_takeWhile (p := isNameChar) fun _ h => h
  refine ⟨⟨fun cs => ?_, fun v rest rest' hb h => ?_⟩,
    fun c cs hc => segmentLength_of_not_nameChar hc cs⟩
  · unfold segmentLength
    split
    · split
      · exact run.le _
      · exact Nat.zero_le _
    · exact Nat.zero_le _
  · cases v with
    | nil =>
      rw [Nat.le_zero.1 h]
      cases rest' with
      | nil => rfl
      | cons c rest' => exact segmentLength_of_not_nameChar (isNameChar_of_isStop hb) rest'
    | cons c v =>
      simp only [List.cons_append, segmentLength] at h ⊢
      split
      · next hc =>
        rw [if_pos hc] at h
        exact run.settles (c :: v) rest rest' hb h
      · rfl

theorem isMark_separatorLength : IsMark separatorLength := by
  refine ⟨fun cs => ?_, fun v rest rest' hb => ?_, fun v rest h => ?_⟩
  · unfold separatorLength
    split <;> simp
  · unfold separatorLength
    rcases v with _ | ⟨c, _ | ⟨d, v⟩⟩ <;> grind [Breaks, isStop]
  · unfold separatorLength at h
    rcases v with _ | ⟨c, _ | ⟨d, v⟩⟩ <;> grind

theorem isMark_leadLength : IsMark leadLength := by
  refine ⟨fun cs => ?_, fun v rest rest' hb => ?_, fun v rest h => ?_⟩
  · unfold leadLength
    split <;> simp
  · unfold leadLength
    rcases v with _ | ⟨c, _ | ⟨d, v⟩⟩ <;> grind [Breaks, isStop]
  · unfold leadLength at h
    rcases v with _ | ⟨c, _ | ⟨d, v⟩⟩ <;> grind

theorem tailLength_eq (cs : List Char) : tailLength cs =
    if separatorLength cs = 0 then 0 else marked separatorLength segmentLength tailLength cs := by
  rw [tailLength]
  simp only [marked]
  by_cases hk : separatorLength cs = 0
  · rw [dif_pos (.inl hk), if_pos hk]
  · rw [if_neg hk]
    by_cases hn : segmentLength (cs.drop (separatorLength cs)) = 0
    · rw [dif_pos (.inr (.inl hn)), if_pos hn]
    · have hc : cs ≠ [] := by rintro rfl; exact hk rfl
      rw [dif_neg (by simp only [hk, hn, hc, or_self, not_false_eq_true]), if_neg hn]

theorem bounded_nameLength : Bounded nameLength :=
  bounded_marked isMark_leadLength isBody_segmentLength
    (bounded_repeated isMark_separatorLength isBody_segmentLength tailLength_eq)

/-! ### Numbers -/

/-- Length of the point that may begin a group of digits. -/
def pointLength : List Char → Nat
  | '.' :: _ => 1
  | _ => 0

theorem pointLength_of_ne {cs : List Char} (h : ∀ rest, cs ≠ '.' :: rest) : pointLength cs = 0 := by
  unfold pointLength
  split
  · next rest => exact absurd rfl (h rest)
  · rfl

theorem fractionLength_eq (cs : List Char) : fractionLength cs =
    if pointLength cs = 0 then 0 else marked pointLength digitsLength fractionLength cs := by
  rw [fractionLength.eq_def]
  split
  · next rest =>
    have hpoint : pointLength ('.' :: rest) = 1 := rfl
    simp only [marked, hpoint, Nat.one_ne_zero, if_false, List.drop_succ_cons, List.drop_zero,
      Nat.add_comm 1]
  · next h => rw [if_pos (pointLength_of_ne h)]

theorem isBody_digitsLength : IsBody digitsLength :=
  isBody_takeWhile fun c hc => by simp [isNameChar, Char.isAlphanum, hc]

theorem isMark_pointLength : IsMark pointLength := by
  refine ⟨fun cs => ?_, fun v rest rest' hb => ?_, fun v rest h => ?_⟩
  · unfold pointLength
    split <;> simp
  · unfold pointLength
    rcases v with _ | ⟨c, v⟩ <;> grind [Breaks, isStop]
  · unfold pointLength at h
    rcases v with _ | ⟨c, v⟩ <;> grind

theorem isMark_signLength : IsMark signLength := by
  refine ⟨fun cs => ?_, fun v rest rest' hb => ?_, fun v rest h => ?_⟩
  · unfold signLength
    split <;> simp
  · unfold signLength
    rcases v with _ | ⟨c, v⟩ <;> grind [Breaks, isStop]
  · unfold signLength at h
    rcases v with _ | ⟨c, v⟩ <;> grind

theorem bounded_numberLength : Bounded numberLength :=
  bounded_marked isMark_signLength isBody_digitsLength
    (bounded_repeated isMark_pointLength isBody_digitsLength fractionLength_eq)

end DocDirectives.Lexeme
