import DocDirectives.Number.Binary64
import Mathlib.Data.Nat.Dist
import Mathlib.Order.Monotone.Basic
import Mathlib.Tactic.Ring
import Mathlib.Tactic.Set

/-! # Rounding to nearest

    Every finite magnitude is a whole number of units, a unit being the least positive one. So a
    magnitude is compared with a quotient by whole numbers: how far its units, `d` times over, are
    from the units of `n`. Rounding gives the magnitude that is nearest, and of two that are equally
    near the one with the even significand; the magnitude of infinity counts as the power of two
    behind the finite numbers.

        quotient ──▶ rounded in its own binade ──▶ nearest of all ──▶ cut at infinity -/

namespace DocDirectives.Number

variable {n d j : Nat}

/-! ### Quotients -/

theorem roundDiv_eq_or (n d : Nat) : roundDiv n d = n / d ∨ roundDiv n d = n / d + 1 := by
  unfold roundDiv
  dsimp only
  split
  · exact .inl rfl
  · split
    · exact .inr rfl
    · split
      · exact .inl rfl
      · exact .inr rfl

/-- A rounded quotient is off by half of the divisor at most, and is even when it is off by half. -/
theorem roundDiv_error (hd : 0 < d) (n : Nat) :
    2 * Nat.dist (roundDiv n d * d) n ≤ d ∧
      (2 * Nat.dist (roundDiv n d * d) n = d → roundDiv n d % 2 = 0) := by
  have hdivision := Nat.div_add_mod n d
  have hrest := Nat.mod_lt n hd
  have hsame : n / d * d = d * (n / d) := Nat.mul_comm _ _
  have hnext : (n / d + 1) * d = d * (n / d) + d := by rw [Nat.succ_mul, hsame]
  unfold roundDiv Nat.dist
  dsimp only
  split
  · rw [hsame]
    omega
  · split
    · rw [hnext]
      omega
    · split
      · rw [hsame]
        omega
      · rw [hnext]
        omega

/-- No multiple of the divisor is nearer than the rounded one, and another one is as near only when
    the rounded quotient is even. -/
theorem roundDiv_nearest (hd : 0 < d) (n j : Nat) :
    Nat.dist (roundDiv n d * d) n ≤ Nat.dist (j * d) n ∧
      (j ≠ roundDiv n d → Nat.dist (j * d) n = Nat.dist (roundDiv n d * d) n →
        roundDiv n d % 2 = 0) := by
  obtain ⟨hhalf, heven⟩ := roundDiv_error hd n
  generalize roundDiv n d = m at hhalf heven ⊢
  unfold Nat.dist at hhalf heven ⊢
  rcases Nat.lt_trichotomy j m with hj | rfl | hj
  · have hgap := Nat.mul_le_mul_right d (Nat.succ_le_of_lt hj)
    rw [Nat.succ_mul] at hgap
    exact ⟨by omega, fun _ htie => heven (by omega)⟩
  · exact ⟨Nat.le_refl _, fun hne => absurd rfl hne⟩
  · have hgap := Nat.mul_le_mul_right d (Nat.succ_le_of_lt hj)
    rw [Nat.succ_mul] at hgap
    exact ⟨by omega, fun _ htie => heven (by omega)⟩

theorem le_roundDiv (hd : 0 < d) (h : j * d ≤ n) : j ≤ roundDiv n d := by
  have hle := (Nat.le_div_iff_mul_le hd).2 h
  rcases roundDiv_eq_or n d with he | he <;> omega

theorem roundDiv_le (hd : 0 < d) (h : n ≤ j * d) : roundDiv n d ≤ j := by
  rcases Nat.lt_or_ge (n / d) j with hlt | hge
  · rcases roundDiv_eq_or n d with he | he <;> omega
  · obtain rfl : n = j * d := Nat.le_antisymm h ((Nat.le_div_iff_mul_le hd).1 hge)
    have hexact : roundDiv (j * d) d = j := by simp [roundDiv, hd]
    exact Nat.le_of_eq hexact

/-- Equal quotients are rounded alike. -/
theorem roundDiv_mul_right (n d : Nat) {c : Nat} (hc : 0 < c) :
    roundDiv (n * c) (d * c) = roundDiv n d := by
  have hless : 2 * (n % d * c) < d * c ↔ 2 * (n % d) < d := by
    rw [← Nat.mul_assoc, Nat.mul_lt_mul_right hc]
  have hmore : d * c < 2 * (n % d * c) ↔ d < 2 * (n % d) := by
    rw [← Nat.mul_assoc, Nat.mul_lt_mul_right hc]
  simp only [roundDiv, Nat.mul_div_mul_right n d hc, Nat.mul_mod_mul_right, hless, hmore]

namespace Binary64

variable {m k u v s t : Nat}

/-! ### Units -/

/-- A magnitude in units. -/
def units (m : Nat) : Nat :=
  if m / exponentUnit = 0 then m
  else (m % exponentUnit + exponentUnit) * 2 ^ (m / exponentUnit - 1)

/-- The number one in units. -/
def unitsOfOne : Nat := 2 ^ 1074

/-- How far a magnitude is from `n / d`, in parts of a unit of which there are `d`. -/
def distance (n d m : Nat) : Nat := Nat.dist (units m * d) (n * unitsOfOne)

/-- A magnitude that is nearest to `n / d`, and even if another one is as near. The lowest bit of a
    magnitude is that of its significand. -/
structure IsNearest (n d m : Nat) : Prop where
  le_infinite : m ≤ infinite
  nearest : ∀ k ≤ infinite, distance n d m ≤ distance n d k
  even : ∀ k ≤ infinite, k ≠ m → distance n d k = distance n d m → m % 2 = 0

theorem exponentUnit_pos : 0 < exponentUnit := Nat.pow_pos (by decide)

theorem exponentUnit_even : exponentUnit % 2 = 0 := by decide

/-- `s` is a significand with the exponent `u`. It may be one too large, and then it is carried. -/
structure Place (u s : Nat) : Prop where
  le : s ≤ 2 * exponentUnit
  normal : exponentUnit ≤ s ∨ u = 0

/-- The magnitude of a significand, also of one that is carried into the next binade. -/
theorem Place.units (h : Place u s) : units (u * exponentUnit + s) = s * 2 ^ u := by
  have hpos := exponentUnit_pos
  obtain ⟨hle, hnormal⟩ := h
  unfold Binary64.units
  generalize exponentUnit = e at hpos hle hnormal ⊢
  have hdiv : (u * e + s) / e = u + s / e := by
    rw [Nat.add_comm, Nat.add_mul_div_right s u hpos, Nat.add_comm]
  have hmod : (u * e + s) % e = s % e := by
    rw [Nat.add_comm, Nat.add_mul_mod_self_right]
  rw [hdiv, hmod]
  rcases Nat.lt_or_ge s e with hlow | hhigh
  · obtain rfl : u = 0 := hnormal.resolve_left (Nat.not_le.2 hlow)
    rw [Nat.div_eq_of_lt hlow, if_pos rfl, Nat.zero_mul, Nat.zero_add, Nat.pow_zero, Nat.mul_one]
  · obtain ⟨f, rfl⟩ := Nat.exists_eq_add_of_le' hhigh
    rw [Nat.add_div_right f hpos, Nat.add_mod_right, ← Nat.add_assoc u,
      if_neg (Nat.add_one_ne_zero _)]
    rcases Nat.lt_or_ge f e with hf | hf
    · rw [Nat.div_eq_of_lt hf, Nat.mod_eq_of_lt hf]
      rfl
    · obtain rfl : f = e := by omega
      rw [Nat.div_self hpos, Nat.mod_self]
      change (0 + f) * 2 ^ (u + 1) = (f + f) * 2 ^ u
      ring

/-- Every magnitude is a significand in its place. -/
theorem exists_place (m : Nat) :
    ∃ u s, m = u * exponentUnit + s ∧ s < 2 * exponentUnit ∧ Place u s := by
  have hpos := exponentUnit_pos
  have hdivision := Nat.div_add_mod m exponentUnit
  have hrest := Nat.mod_lt m hpos
  cases hq : m / exponentUnit with
  | zero =>
    rw [hq, Nat.mul_zero, Nat.zero_add] at hdivision
    exact ⟨0, m, by omega, by omega, by omega, .inr rfl⟩
  | succ u =>
    rw [hq, Nat.mul_succ, Nat.mul_comm] at hdivision
    exact ⟨u, m % exponentUnit + exponentUnit, by omega, by omega, by omega, .inl (by omega)⟩

theorem units_strictMono : StrictMono units := by
  refine strictMono_nat_of_lt_succ fun m => ?_
  obtain ⟨u, s, rfl, hs, hplace⟩ := exists_place m
  have hnext : Place u (s + 1) := ⟨hs, hplace.normal.imp_left fun h => Nat.le_succ_of_le h⟩
  rw [Nat.add_assoc, hplace.units, hnext.units]
  exact Nat.mul_lt_mul_of_pos_right (Nat.lt_succ_self s) (Nat.pow_pos (by decide))

/-- The units of a number are those of its significand. -/
theorem units_magnitude (x : Binary64) : ∃ e : Nat, x.significand.2 = (e : Int) - 1074 ∧
    units x.magnitude = x.significand.1 * 2 ^ e := by
  unfold significand units
  generalize x.magnitude = m
  dsimp only
  by_cases hzero : m / exponentUnit = 0
  · rw [if_pos hzero, if_pos hzero]
    have hmod := Nat.div_add_mod m exponentUnit
    rw [hzero, Nat.mul_zero, Nat.zero_add] at hmod
    exact ⟨0, rfl, by rw [hmod, Nat.pow_zero, Nat.mul_one]⟩
  · rw [if_neg hzero, if_neg hzero]
    refine ⟨m / exponentUnit - 1, ?_, rfl⟩
    generalize m / exponentUnit = e at hzero ⊢
    dsimp only
    omega

/-! ### Exponents -/

/-- Powers of two are moved from one side to the other. -/
theorem pow_le_of_le {i i' j j' : Nat} (h : d * 2 ^ i' ≤ n * 2 ^ j') (hij : i + j' ≤ i' + j) :
    d * 2 ^ i ≤ n * 2 ^ j := by
  refine Nat.le_of_mul_le_mul_right ?_ (Nat.pow_pos (by decide) : 0 < 2 ^ j')
  calc d * 2 ^ i * 2 ^ j' = d * 2 ^ (i + j') := by rw [Nat.mul_assoc, ← Nat.pow_add]
    _ ≤ d * 2 ^ (i' + j) := Nat.mul_le_mul_left d (Nat.pow_le_pow_right (by decide) hij)
    _ = d * 2 ^ i' * 2 ^ j := by rw [Nat.mul_assoc, ← Nat.pow_add]
    _ ≤ n * 2 ^ j' * 2 ^ j := Nat.mul_le_mul_right _ h
    _ = n * 2 ^ j * 2 ^ j' := by rw [Nat.mul_assoc, Nat.mul_assoc, Nat.mul_comm (2 ^ j')]

/-- The exponent of a quotient is that of the largest power of two that is not above it. -/
theorem le_quotientExponent_iff (hn : 0 < n) (hd : 0 < d) (i j : Nat) :
    (i : Int) - j ≤ quotientExponent n d ↔ d * 2 ^ i ≤ n * 2 ^ j := by
  have hnlow := Nat.log2_self_le hn.ne'
  have hnhigh := Nat.lt_log2_self (n := n)
  have hdlow := Nat.log2_self_le hd.ne'
  have hdhigh := Nat.lt_log2_self (n := d)
  unfold quotientExponent
  dsimp only
  generalize n.log2 = a at hnlow hnhigh ⊢
  generalize d.log2 = b at hdlow hdhigh ⊢
  -- one above the difference of the exponents is too much, one below it is not
  have hbelow : d * 2 ^ a ≤ n * 2 ^ (b + 1) := by
    rw [Nat.mul_comm n]
    exact Nat.mul_le_mul hdhigh.le hnlow
  have habove : n * 2 ^ b < d * 2 ^ (a + 1) := by
    rw [Nat.mul_comm d]
    calc n * 2 ^ b < 2 ^ (a + 1) * 2 ^ b :=
          Nat.mul_lt_mul_of_pos_right hnhigh (Nat.pow_pos (by decide))
      _ ≤ 2 ^ (a + 1) * d := Nat.mul_le_mul_left _ hdlow
  set e : Int := (a : Int) - b with he
  change _ ≤ (if n * 2 ^ (-e).toNat < d * 2 ^ e.toNat then e - 1 else e) ↔ _
  split
  · next hless =>
    constructor
    · intro hle
      exact pow_le_of_le hbelow (by omega)
    · intro hle
      by_contra hgt
      exact Nat.not_le.2 hless (pow_le_of_le hle (by omega))
  · next hless =>
    constructor
    · intro hle
      exact pow_le_of_le (Nat.not_lt.1 hless) (by omega)
    · intro hle
      by_contra hgt
      exact Nat.not_le.2 habove (pow_le_of_le hle (by omega))

/-! ### The nearest of all magnitudes -/

/-- A quotient lies in the binade of the exponent `u`, or below the first one. -/
structure Within (n d u : Nat) : Prop where
  low : exponentUnit * (d * 2 ^ u) ≤ n * unitsOfOne ∨ u = 0
  high : n * unitsOfOne ≤ 2 * exponentUnit * (d * 2 ^ u)

theorem Within.place (h : Within n d u) (hd : 0 < d) :
    Place u (roundDiv (n * unitsOfOne) (d * 2 ^ u)) := by
  have hpos : 0 < d * 2 ^ u := Nat.mul_pos hd (Nat.pow_pos (by decide))
  exact ⟨roundDiv_le hpos h.high, h.low.imp_left (le_roundDiv hpos)⟩

theorem Place.distance (h : Place u s) (n d : Nat) : distance n d (u * exponentUnit + s) =
    Nat.dist (s * (d * 2 ^ u)) (n * unitsOfOne) := by
  rw [Binary64.distance, h.units, Nat.mul_assoc, Nat.mul_comm (2 ^ u)]

/-- A quotient that is rounded in its binade is rounded to the nearest of all magnitudes. -/
theorem Within.nearest (h : Within n d u) (hd : 0 < d)
    (hs : s = roundDiv (n * unitsOfOne) (d * 2 ^ u)) (k : Nat) :
    distance n d (u * exponentUnit + s) ≤ distance n d k ∧
      (k ≠ u * exponentUnit + s → distance n d k = distance n d (u * exponentUnit + s) →
        s % 2 = 0) := by
  have hpos : 0 < d * 2 ^ u := Nat.mul_pos hd (Nat.pow_pos (by decide))
  have hplace : Place u s := hs ▸ h.place hd
  obtain ⟨v, t, rfl, ht, hk⟩ := exists_place k
  rw [hplace.distance, hk.distance]
  rcases Nat.lt_or_ge v u with hvu | huv
  · -- the magnitude lies below the binade of the quotient
    have hlow := h.low.resolve_right (Nat.ne_zero_of_lt hvu)
    have hdouble : 2 * (d * 2 ^ v) ≤ d * 2 ^ u := by
      rw [Nat.mul_left_comm, ← Nat.pow_succ']
      exact Nat.mul_le_mul_left d (Nat.pow_le_pow_right (by decide) hvu)
    have hbelow : t * (d * 2 ^ v) < exponentUnit * (d * 2 ^ u) :=
      calc t * (d * 2 ^ v) < 2 * exponentUnit * (d * 2 ^ v) :=
            Nat.mul_lt_mul_of_pos_right ht (Nat.mul_pos hd (Nat.pow_pos (by decide)))
        _ = exponentUnit * (2 * (d * 2 ^ v)) := by ring
        _ ≤ exponentUnit * (d * 2 ^ u) := Nat.mul_le_mul_left _ hdouble
    have hfirst := (roundDiv_nearest hpos (n * unitsOfOne) exponentUnit).1
    rw [← hs] at hfirst
    unfold Nat.dist at hfirst ⊢
    omega
  · -- the magnitude is a multiple of the last place of the quotient
    obtain ⟨i, rfl⟩ := Nat.exists_eq_add_of_le huv
    have hmultiple : t * (d * 2 ^ (u + i)) = t * 2 ^ i * (d * 2 ^ u) := by
      rw [Nat.pow_add]
      ring
    obtain ⟨hle, htie⟩ := roundDiv_nearest hpos (n * unitsOfOne) (t * 2 ^ i)
    rw [← hs] at hle htie
    rw [hmultiple]
    refine ⟨hle, fun hne => htie fun hsame => hne ?_⟩
    refine units_strictMono.injective ?_
    rw [hk.units, hplace.units, ← hsame, Nat.pow_add]
    ring

/-! ### The law -/

theorem infinite_even : infinite % 2 = 0 := by decide

/-- Beyond all magnitudes infinity is the nearest. -/
theorem distance_infinite_le (hd : 0 < d) (hm : infinite < m)
    (hnearest : distance n d m ≤ distance n d infinite) (hk : k ≤ infinite) :
    distance n d infinite ≤ distance n d k := by
  have hbehind := Nat.mul_le_mul_right d (units_strictMono.monotone hk)
  have hfront := Nat.mul_lt_mul_of_pos_right (units_strictMono hm) hd
  unfold distance Nat.dist at hnearest ⊢
  omega

/-- The exponent of a quotient is that of its binade. -/
theorem within_of_exponent (hn : 0 < n) (hd : 0 < d)
    (hu : max (-1074) (quotientExponent n d - 52) = (u : Int) - 1074) : Within n d u := by
  have hbound := le_quotientExponent_iff hn hd
  generalize quotientExponent n d = e at hbound hu
  have hunit : exponentUnit * (d * 2 ^ u) = d * 2 ^ (52 + u) := by
    rw [Nat.pow_add, Nat.mul_left_comm]
    rfl
  constructor
  · by_cases hzero : u = 0
    · exact .inr hzero
    · refine .inl ?_
      rw [hunit]
      exact (hbound (52 + u) 1074).1 (by omega)
  · have hdouble : 2 * exponentUnit * (d * 2 ^ u) = d * 2 ^ (53 + u) := by
      rw [Nat.mul_assoc, hunit, show 53 + u = 52 + u + 1 by omega, Nat.pow_succ']
      exact Nat.mul_left_comm _ _ _
    rw [hdouble]
    refine Nat.le_of_lt (Nat.lt_of_not_le fun hle => ?_)
    have hexponent := (hbound (53 + u) 1074).2 hle
    omega

/-- A quotient scaled by powers of two is rounded as it is in units. -/
theorem roundDiv_scaled {a b : Nat} (hsum : 1074 + b = a + u) (n d : Nat) :
    roundDiv (n * 2 ^ a) (d * 2 ^ b) = roundDiv (n * unitsOfOne) (d * 2 ^ u) := by
  have hscaled : n * unitsOfOne * 2 ^ b = n * 2 ^ a * 2 ^ u := by
    rw [unitsOfOne, Nat.mul_assoc, Nat.mul_assoc, ← Nat.pow_add, ← Nat.pow_add, hsum]
  rw [← roundDiv_mul_right (n * 2 ^ a) _ (Nat.pow_pos (by decide) : 0 < 2 ^ u),
    ← roundDiv_mul_right (n * unitsOfOne) _ (Nat.pow_pos (by decide) : 0 < 2 ^ b), hscaled,
    Nat.mul_right_comm d]

/-- Rounding takes place in the binade of the quotient. -/
theorem exists_within (hn : 0 < n) (hd : 0 < d) : ∃ u, Within n d u ∧
    nearest n d = min infinite
      (u * exponentUnit + roundDiv (n * unitsOfOne) (d * 2 ^ u)) := by
  obtain ⟨u, hu⟩ : ∃ u : Nat, max (-1074) (quotientExponent n d - 52) = (u : Int) - 1074 :=
    ⟨(max (-1074) (quotientExponent n d - 52) + 1074).toNat, by omega⟩
  refine ⟨u, within_of_exponent hn hd hu, ?_⟩
  unfold nearest
  rw [if_neg hn.ne']
  dsimp only
  rw [hu]
  have hsum : 1074 + ((u : Int) - 1074).toNat = (-((u : Int) - 1074)).toNat + u := by omega
  have hplace : ((u : Int) - 1074 + 1074).toNat = u := by omega
  rw [hplace, ← roundDiv_scaled hsum]
  rfl

theorem isNearest_nearest (n : Nat) (hd : 0 < d) : IsNearest n d (nearest n d) := by
  rcases Nat.eq_zero_or_pos n with rfl | hn
  · have hzero : nearest 0 d = 0 := by rw [nearest, if_pos rfl]
    have hdistance : distance 0 d 0 = 0 := by
      have hunits : units 0 = 0 := rfl
      rw [distance, hunits, Nat.zero_mul, Nat.zero_mul, Nat.dist_self]
    rw [hzero]
    exact ⟨Nat.zero_le _, fun k _ => hdistance.le.trans (Nat.zero_le _), fun _ _ _ _ => rfl⟩
  · obtain ⟨u, hwithin, hnearest⟩ := exists_within hn hd
    have hall := hwithin.nearest hd rfl
    rw [hnearest]
    generalize roundDiv (n * unitsOfOne) (d * 2 ^ u) = s at hall ⊢
    rcases Nat.lt_or_ge infinite (u * exponentUnit + s) with hlt | hle
    · rw [Nat.min_eq_left hlt.le]
      exact ⟨Nat.le_refl _, fun k hk => distance_infinite_le hd hlt (hall _).1 hk,
        fun _ _ _ _ => infinite_even⟩
    · rw [Nat.min_eq_right hle]
      refine ⟨hle, fun k _ => (hall k).1, fun k _ hne htie => ?_⟩
      have heven := (hall k).2 hne htie
      have hunit := exponentUnit_even
      rw [Nat.add_mod, Nat.mul_mod, hunit, heven]
      rfl

theorem IsNearest.not_lt (h : IsNearest n d m) (h' : IsNearest n d k) (hd : 0 < d) : ¬m < k := by
  intro hlt
  have htie := Nat.le_antisymm (h.nearest k h'.le_infinite) (h'.nearest m h.le_infinite)
  have hm := h.even k h'.le_infinite hlt.ne' htie.symm
  have hk := h'.even m h.le_infinite hlt.ne htie
  -- both are even, so there is one between them, and that is nearer
  have hbetween : m + 1 < k := by omega
  have hnearer := h.nearest (m + 1) (hbetween.le.trans h'.le_infinite)
  have hleft := Nat.mul_lt_mul_of_pos_right (units_strictMono (Nat.lt_add_one m)) hd
  have hright := Nat.mul_lt_mul_of_pos_right (units_strictMono hbetween) hd
  unfold distance Nat.dist at htie hnearer
  omega

/-- Rounding gives the nearest magnitude, and there is no other one. -/
theorem nearest_eq_iff (hd : 0 < d) : nearest n d = m ↔ IsNearest n d m := by
  constructor
  · rintro rfl
    exact isNearest_nearest n hd
  · intro h
    have hnearest := isNearest_nearest n hd
    have hlow := h.not_lt hnearest hd
    have hhigh := hnearest.not_lt h hd
    omega

/-- Between two numbers the even one is taken. -/
example : nearest 9007199254740993 1 = nearest 9007199254740992 1 ∧
    nearest 9007199254740995 1 = nearest 9007199254740996 1 := by decide +kernel

end Binary64

end DocDirectives.Number
