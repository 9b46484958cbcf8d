import DocDirectives.Grammar

/-! # Groups of parentheses

    A group runs from an opening parenthesis to the one that closes it: no earlier point of it has
    all its parentheses closed. What is skipped behind an ignored name is one group, whatever stands
    behind it; where no group begins there, for want of a parenthesis that closes it, all tokens are
    skipped. -/

namespace DocDirectives

/-- Whether a token is a parenthesis. -/
def Token.isParen (t : Token) : Bool := t.kind == .openParen || t.kind == .closeParen

namespace Grammar

/-- What a token adds to the number of open parentheses. -/
def weight (t : Token) : Int :=
  match t.kind with
  | .openParen => 1
  | .closeParen => -1
  | _ => 0

/-- How many more parentheses are opened than closed. -/
def surplus : List Token → Int
  | [] => 0
  | t :: ts => weight t + surplus ts

/-- A group of parentheses: all are closed at its end and not before. -/
structure Group (g : List Token) : Prop where
  opens : isNext .openParen g = true
  balanced : surplus g = 0
  inside : ∀ n < g.length, 0 < n → 0 < surplus (g.take n)

instance (g : List Token) : Decidable (Group g) :=
  decidable_of_iff (isNext .openParen g = true ∧ surplus g = 0 ∧
      ∀ n < g.length, 0 < n → 0 < surplus (g.take n))
    ⟨fun ⟨ho, hb, hi⟩ => ⟨ho, hb, hi⟩, fun ⟨ho, hb, hi⟩ => ⟨ho, hb, hi⟩⟩

variable {t : Token}

theorem weight_open (h : t.kind = .openParen) : weight t = 1 := by simp only [weight, h]

theorem weight_close (h : t.kind = .closeParen) : weight t = -1 := by simp only [weight, h]

theorem weight_other (h : t.isParen = false) : weight t = 0 := by
  simp only [Token.isParen, Bool.or_eq_false_iff, beq_eq_false_iff_ne] at h
  unfold weight
  split
  · next hk => exact absurd hk h.1
  · next hk => exact absurd hk h.2
  · rfl

/-! ### Steps of a skip -/

theorem closeGroup_open (h : t.kind = .openParen) (depth : Nat) (ts : List Token) :
    closeGroup depth (t :: ts) = closeGroup (depth + 1) ts := by
  simp only [closeGroup, h]

theorem closeGroup_close (h : t.kind = .closeParen) (depth : Nat) (ts : List Token) :
    closeGroup depth (t :: ts) = if depth ≤ 1 then ts else closeGroup (depth - 1) ts := by
  simp only [closeGroup, h]

theorem closeGroup_other (h : t.isParen = false) (depth : Nat) (ts : List Token) :
    closeGroup depth (t :: ts) = closeGroup depth ts := by
  simp only [Token.isParen, Bool.or_eq_false_iff, beq_eq_false_iff_ne] at h
  rw [closeGroup]
  split
  · next hk => exact absurd hk h.1
  · next hk => exact absurd hk h.2
  · rfl

theorem kind_cases (t : Token) :
    t.kind = .openParen ∨ t.kind = .closeParen ∨ t.isParen = false := by
  by_cases ho : t.kind = .openParen
  · exact .inl ho
  · by_cases hc : t.kind = .closeParen
    · exact .inr (.inl hc)
    · exact .inr (.inr (by simp [Token.isParen, ho, hc]))

/-! ### Skipping a group -/

/-- A skip that is `depth` deep ends where the parentheses behind it close that many. -/
theorem closeGroup_append {g : List Token} {depth : Nat} (hdepth : 0 < depth)
    (hend : depth + surplus g = 0)
    (hinside : ∀ n < g.length, 0 < depth + surplus (g.take n)) (rest : List Token) :
    closeGroup depth (g ++ rest) = rest := by
  induction g generalizing depth with
  | nil =>
    simp only [surplus] at hend
    omega
  | cons t g ih =>
    rw [surplus] at hend
    -- the condition behind `t`, and `t` itself when nothing is behind it
    have htail : ∀ n < g.length, 0 < depth + (weight t + surplus (g.take n)) := by
      intro n hn
      exact hinside (n + 1) (by simpa using hn)
    have hnext : g ≠ [] → 0 < depth + weight t := by
      intro hg
      have := htail 0 (List.length_pos_iff.2 hg)
      simpa [surplus] using this
    rw [List.cons_append]
    rcases kind_cases t with ho | hc | hn
    · rw [weight_open ho] at hend htail
      rw [closeGroup_open ho]
      refine ih (Nat.succ_pos depth) (by omega) ?_
      intro n hn
      have := htail n hn
      omega
    · rw [weight_close hc] at hend htail hnext
      rw [closeGroup_close hc]
      by_cases hd : depth ≤ 1
      · rcases Decidable.em (g = []) with hg | hg
        · rw [if_pos hd, hg, List.nil_append]
        · have := hnext hg
          omega
      · rw [if_neg hd]
        refine ih (by omega) (by omega) ?_
        intro n hn
        have := htail n hn
        omega
    · rw [weight_other hn] at hend htail
      rw [closeGroup_other hn]
      refine ih hdepth (by omega) ?_
      intro n hn
      have := htail n hn
      omega

theorem skipGroup_of_group {g : List Token} (h : Group g) (rest : List Token) :
    skipGroup (g ++ rest) = rest := by
  obtain ⟨hopens, hbalanced, hinside⟩ := h
  match g, hopens with
  | t :: g, hopens =>
    have ht : t.kind = .openParen := eq_of_beq hopens
    rw [surplus, weight_open ht] at hbalanced
    have hskip : skipGroup (t :: g ++ rest) = closeGroup 0 (t :: (g ++ rest)) := if_pos hopens
    rw [hskip, closeGroup_open ht]
    refine closeGroup_append Nat.one_pos (by omega) ?_ rest
    intro n hn
    have h := hinside (n + 1) (by simpa using hn) (Nat.succ_pos n)
    rw [List.take_succ_cons, surplus, weight_open ht] at h
    exact h

theorem skipGroup_of_not_next {ts : List Token} (h : isNext .openParen ts = false) :
    skipGroup ts = ts := by
  rw [skipGroup, if_neg (by simp [h])]

/-! ### Groups without inner parentheses -/

theorem surplus_append (us vs : List Token) : surplus (us ++ vs) = surplus us + surplus vs := by
  induction us with
  | nil => simp [surplus]
  | cons t us ih => simp only [List.cons_append, surplus, ih, Int.add_assoc]

theorem surplus_of_no_paren {ts : List Token} (h : ∀ t ∈ ts, t.isParen = false) :
    surplus ts = 0 := by
  induction ts with
  | nil => rfl
  | cons t ts ih =>
    rw [surplus, weight_other (h t List.mem_cons_self),
      ih fun u hu => h u (List.mem_cons_of_mem t hu), Int.add_zero]

/-- Two parentheses around tokens that are none make a group. -/
theorem group_of_no_paren {o c : Token} (inner : List Token) (ho : o.kind = .openParen)
    (hc : c.kind = .closeParen) (h : ∀ t ∈ inner, t.isParen = false) :
    Group (o :: (inner ++ [c])) := by
  refine ⟨by simp [isNext, ho], ?_, ?_⟩
  · rw [surplus, surplus_append, surplus_of_no_paren h, weight_open ho, surplus, weight_close hc,
      surplus]
    rfl
  · intro n hn hpos
    obtain ⟨m, rfl⟩ : ∃ m, n = m + 1 := ⟨n - 1, by omega⟩
    have hm : m ≤ inner.length := Nat.le_of_lt_succ (by simpa using hn)
    have htake : (inner ++ [c]).take m = inner.take m := List.take_append_of_le_length hm
    have hzero : surplus (inner.take m) = 0 :=
      surplus_of_no_paren fun t ht => h t (List.mem_of_mem_take ht)
    rw [List.take_succ_cons, surplus, weight_open ho, htake, hzero]
    decide

/-! ### Where a skip stops -/

/-- How many tokens are skipped when `depth` parentheses are open: as many as it takes until all
    parentheses are closed for the first time, or all tokens when that never happens. -/
inductive Stops (depth : Int) (ts : List Token) : Nat → Prop where
  | closed {n : Nat} (some : 0 < n) (within : n ≤ ts.length)
      (balanced : depth + surplus (ts.take n) = 0)
      (first : ∀ m < n, 0 < m → depth + surplus (ts.take m) ≠ 0) : Stops depth ts n
  | never (h : ∀ m ≤ ts.length, 0 < m → depth + surplus (ts.take m) ≠ 0) :
      Stops depth ts ts.length

theorem surplus_take_succ (t : Token) (ts : List Token) (m : Nat) :
    surplus ((t :: ts).take (m + 1)) = weight t + surplus (ts.take m) := rfl

namespace Stops

variable {depth : Int} {ts : List Token} {n : Nat}

theorem le_length (h : Stops depth ts n) : n ≤ ts.length := by
  cases h with
  | closed _ within => exact within
  | never => exact Nat.le_refl _

/-- A token behind which parentheses are open is skipped before the others. -/
theorem cons (ht : depth + weight t ≠ 0) (h : Stops (depth + weight t) ts n) :
    Stops depth (t :: ts) (n + 1) := by
  have hstep : ∀ m, (0 < m → depth + weight t + surplus (ts.take m) ≠ 0) →
      depth + surplus ((t :: ts).take (m + 1)) ≠ 0 := by
    intro m hm
    rw [surplus_take_succ, ← Int.add_assoc]
    rcases Nat.eq_zero_or_pos m with rfl | hpos
    · simpa [surplus] using ht
    · exact hm hpos
  cases h with
  | closed some within balanced first =>
    refine .closed (Nat.succ_pos n) (Nat.succ_le_succ within) ?_ ?_
    · rw [surplus_take_succ, ← Int.add_assoc, balanced]
    · rintro (_ | m) hm hpos
      · exact absurd hpos (Nat.lt_irrefl 0)
      · exact hstep m (first m (Nat.lt_of_succ_lt_succ hm))
  | never h =>
    refine .never ?_
    rintro (_ | m) hm hpos
    · exact absurd hpos (Nat.lt_irrefl 0)
    · exact hstep m (h m (Nat.le_of_succ_le_succ hm))

end Stops

theorem closeGroup_stops {depth : Nat} (hdepth : 0 < depth) (ts : List Token) :
    ∃ n, Stops depth ts n ∧ closeGroup depth ts = ts.drop n := by
  induction ts generalizing depth with
  | nil => exact ⟨0, .never fun m hm hpos => absurd hpos (Nat.not_lt.2 hm), rfl⟩
  | cons t ts ih =>
    -- a token that leaves `d` parentheses open, and the skip behind it
    have hopen : ∀ d : Nat, 0 < d → (depth : Int) + weight t = d →
        closeGroup depth (t :: ts) = closeGroup d ts →
        ∃ n, Stops depth (t :: ts) n ∧ closeGroup depth (t :: ts) = (t :: ts).drop n := by
      intro d hd hweight hclose
      obtain ⟨n, hn, hdrop⟩ := ih hd
      rw [← hweight] at hn
      exact ⟨n + 1, hn.cons (by omega), by rw [hclose, hdrop, List.drop_succ_cons]⟩
    rcases kind_cases t with ho | hc | hn
    · exact hopen (depth + 1) (Nat.succ_pos _) (by rw [weight_open ho]; rfl)
        (closeGroup_open ho depth ts)
    · by_cases hd : depth ≤ 1
      · refine ⟨1, .closed Nat.one_pos (Nat.succ_pos _) ?_ ?_, ?_⟩
        · rw [surplus_take_succ, weight_close hc, List.take_zero, surplus]
          omega
        · omega
        · rw [closeGroup_close hc, if_pos hd, List.drop_one, List.tail_cons]
      · exact hopen (depth - 1) (by omega) (by rw [weight_close hc]; omega)
          (by rw [closeGroup_close hc, if_neg hd])
    · exact hopen depth hdepth (by rw [weight_other hn, Int.add_zero])
        (closeGroup_other hn depth ts)

/-- A skip from an opening parenthesis on stops right behind the first tokens whose parentheses
    balance. -/
theorem skipGroup_stops {ts : List Token} (h : isNext .openParen ts = true) :
    ∃ n, Stops 0 ts n ∧ skipGroup ts = ts.drop n := by
  match ts, h with
  | t :: ts, h =>
    have ht : t.kind = .openParen := eq_of_beq h
    have hweight : (0 : Int) + weight t = (1 : Nat) := by rw [weight_open ht]; rfl
    obtain ⟨n, hn, hdrop⟩ := closeGroup_stops Nat.one_pos ts
    rw [← hweight] at hn
    refine ⟨n + 1, hn.cons (by omega), ?_⟩
    rw [skipGroup, if_pos h, closeGroup_open ht, hdrop, List.drop_succ_cons]

end Grammar

end DocDirectives
