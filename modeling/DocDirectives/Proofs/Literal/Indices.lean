import DocDirectives.Proofs.Grammar.Derivation
import Mathlib.Data.List.Induction

/-! # Indices of entries without a key

    An entry without a key goes under the index behind the largest one of its map. That index is
    new until the largest 64-bit number is taken: nothing is behind that number, so the entry
    replaces the value under it. Until then every entry without a key adds an element, and its value
    stays in the map unless a later entry has the same index for its key. -/

namespace DocDirectives

namespace LiteralMap

/-- A maximum is bounded by whatever bounds its members. -/
theorem foldl_max_le_iff {xs : List Int} {a b : Int} :
    xs.foldl max a ≤ b ↔ a ≤ b ∧ ∀ x ∈ xs, x ≤ b := by
  induction xs generalizing a with
  | nil => simp
  | cons x xs ih => rw [List.foldl_cons, ih, Int.max_le, List.forall_mem_cons, and_assoc]

variable {m : LiteralMap} {k : Key}

/-- One past the largest index that is not negative, whether it fits 64 bits or not. -/
def ceiling (m : LiteralMap) : Int := (m.keys.map bound).foldl max 0

theorem ceiling_nonneg (m : LiteralMap) : 0 ≤ m.ceiling := (foldl_max_le_iff.1 (Int.le_refl _)).1

theorem bound_le_ceiling (h : k ∈ m.keys) : bound k ≤ m.ceiling :=
  (foldl_max_le_iff.1 (Int.le_refl _)).2 _ (List.mem_map_of_mem h)

theorem toInt_nextIndex (m : LiteralMap) :
    m.nextIndex.toInt = min Int64.maxValue.toInt m.ceiling := by
  have hceiling := m.ceiling_nonneg
  have hmax : Int64.maxValue.toInt = 2 ^ 63 - 1 := Int64.toInt_maxValue
  exact Int64.toInt_ofInt_of_le (n := min Int64.maxValue.toInt m.ceiling) (by omega) (by omega)

/-- The largest number has no index behind it and is taken again. -/
theorem nextIndex_of_full (h : .index Int64.maxValue ∈ m.keys) : m.nextIndex = Int64.maxValue := by
  have hbound := bound_le_ceiling h
  rw [bound] at hbound
  rw [← Int64.toInt_inj, toInt_nextIndex]
  omega

/-- The next index is new, unless the largest number is an index already. -/
theorem nextIndex_mem_iff : .index m.nextIndex ∈ m.keys ↔ .index Int64.maxValue ∈ m.keys := by
  constructor
  · intro h
    have hbound := bound_le_ceiling h
    rw [bound, toInt_nextIndex] at hbound
    have hmax : m.nextIndex = Int64.maxValue := by
      rw [← Int64.toInt_inj, toInt_nextIndex]
      omega
    rwa [hmax] at h
  · intro h
    rwa [nextIndex_of_full h]

/-- A map that has a value under the largest number, so that its next index is not new. -/
theorem nextIndex_not_always_new :
    ¬∀ es : List (Key × Literal), .index (ofList es).nextIndex ∉ (ofList es).keys := by
  intro h
  exact h [(.index Int64.maxValue, .bool true)] (by decide +kernel)

end LiteralMap

namespace Grammar

variable {es before behind : List (Option Key × Literal)} {key : Key}

/-- Key under which an entry is put behind the entries in front of it. -/
def keyBehind (before : List (Option Key × Literal)) (k : Option Key) : Key :=
  k.getD (.index (mapOf before).nextIndex)

theorem mapOf_concat (es : List (Option Key × Literal)) (k : Option Key) (v : Literal) :
    mapOf (es ++ [(k, v)]) = (mapOf es).insert (keyBehind es k) v := by
  rw [mapOf, List.foldl_append]
  rfl

/-- Later entries take no key away. -/
theorem mem_keys_mapOf_append (h : key ∈ (mapOf es).keys) (behind : List (Option Key × Literal)) :
    key ∈ (mapOf (es ++ behind)).keys := by
  induction behind using List.reverseRecOn with
  | nil => rwa [List.append_nil]
  | append_singleton behind e ih =>
    rw [← List.append_assoc, mapOf_concat, LiteralMap.keys_insert]
    split
    · exact ih
    · exact List.mem_append_left _ ih

theorem mem_keys_mapOf_concat (es : List (Option Key × Literal)) (k : Option Key) (v : Literal) :
    keyBehind es k ∈ (mapOf (es ++ [(k, v)])).keys := by
  rw [mapOf_concat, LiteralMap.keys_insert]
  split
  · assumption
  · exact List.mem_append_right _ (List.mem_singleton_self _)

/-- A value stays under its key until a later entry has the same key. -/
theorem get?_mapOf (before : List (Option Key × Literal)) (k : Option Key) (v : Literal)
    (behind : List (Option Key × Literal)) :
    (mapOf (before ++ (k, v) :: behind)).get? (keyBehind before k) = some v ∨
      ∃ mid k' w rest, behind = mid ++ (k', w) :: rest ∧
        keyBehind (before ++ (k, v) :: mid) k' = keyBehind before k := by
  induction behind using List.reverseRecOn with
  | nil => exact .inl (by rw [mapOf_concat, LiteralMap.get?_insert, if_pos rfl])
  | append_singleton behind e ih =>
    obtain ⟨k', w⟩ := e
    by_cases hkey : keyBehind (before ++ (k, v) :: behind) k' = keyBehind before k
    · exact .inr ⟨behind, k', w, [], rfl, hkey⟩
    · rcases ih with h | ⟨mid, k'', u, rest, rfl, h⟩
      · refine .inl ?_
        rwa [← List.cons_append, ← List.append_assoc, mapOf_concat, LiteralMap.get?_insert,
          if_neg hkey]
      · exact .inr ⟨mid, k'', u, rest ++ [(k', w)], by simp, h⟩

/-- What becomes of an entry without a key, given the entries in front of it and behind it: it adds
    an element as long as the largest number is no index, and afterwards replaces the value under
    that; its value stays in the map until an entry with its index as key replaces it, or with the
    largest number as index one without a key. -/
structure Unkeyed (before : List (Option Key × Literal)) (v : Literal)
    (behind : List (Option Key × Literal)) : Prop where
  adds : .index Int64.maxValue ∉ (mapOf before).keys →
    (mapOf (before ++ [(none, v)])).keys = (mapOf before).keys ++ [.index (mapOf before).nextIndex]
  replaces : .index Int64.maxValue ∈ (mapOf before).keys →
    (mapOf before).nextIndex = Int64.maxValue ∧
      (mapOf (before ++ [(none, v)])).keys = (mapOf before).keys
  stays : (mapOf (before ++ (none, v) :: behind)).get? (.index (mapOf before).nextIndex) = some v ∨
    ∃ mid k w rest, behind = mid ++ (k, w) :: rest ∧
      (k = some (.index (mapOf before).nextIndex) ∨
        k = none ∧ (mapOf before).nextIndex = Int64.maxValue)

theorem unkeyed (before : List (Option Key × Literal)) (v : Literal)
    (behind : List (Option Key × Literal)) : Unkeyed before v behind where
  adds h := by
    have hnew := LiteralMap.nextIndex_mem_iff.not.2 h
    rw [mapOf_concat, LiteralMap.keys_insert, keyBehind, Option.getD_none, if_neg hnew]
  replaces h := by
    have hold := LiteralMap.nextIndex_mem_iff.2 h
    rw [mapOf_concat, LiteralMap.keys_insert, keyBehind, Option.getD_none, if_pos hold]
    exact ⟨LiteralMap.nextIndex_of_full h, rfl⟩
  stays := by
    rcases get?_mapOf before none v behind with h | ⟨mid, k, w, rest, rfl, hkey⟩
    · exact .inl h
    · refine .inr ⟨mid, k, w, rest, rfl, ?_⟩
      cases k with
      | some k => exact .inl (congrArg some hkey)
      | none =>
        -- the same index twice: it was a key already, so it is the largest number
        have hmem := mem_keys_mapOf_append (mem_keys_mapOf_concat before none v) mid
        rw [List.append_assoc, List.singleton_append, ← hkey] at hmem
        have hfull := LiteralMap.nextIndex_of_full (LiteralMap.nextIndex_mem_iff.1 hmem)
        have hindex := Key.index.inj hkey
        exact .inr ⟨rfl, hindex.symm.trans hfull⟩

/-- An array, its entries, and the tokens behind it. -/
inductive ArrayAt : List Token → List (Option Key × Literal) → List Token → Prop
  | empty {o c : Token} {rest : List Token} : o.kind = .openBrace → c.kind = .closeBrace →
      ArrayAt (o :: c :: rest) [] rest
  | list {o : Token} {ts rest : List Token} {es : List (Option Key × Literal)} :
      o.kind = .openBrace → isNext .closeBrace ts = false → EntriesAt ts es rest →
      ArrayAt (o :: ts) es rest

theorem reads_map_iff {ts rest : List Token} {xs : List (Key × Literal)} :
    Reads (literal ts) (.map xs) rest ↔ ∃ es, ArrayAt ts es rest ∧ xs = (mapOf es).entries := by
  rw [reads_literal]
  constructor
  · intro h
    cases h with
    | atom ha => cases ha
    | empty ho hc => exact ⟨[], .empty ho hc, rfl⟩
    | array ho hn hes => exact ⟨_, .list ho hn hes, rfl⟩
  · rintro ⟨es, h, rfl⟩
    cases h with
    | empty ho hc => exact .empty ho hc
    | list ho hn hes => exact .array ho hn hes

/-- The next index of a map is new unless the largest 64-bit number is an index of the map. So what
    is read as a map is an array, and each of its entries without a key adds an element and keeps
    its value as `Unkeyed` says. -/
theorem unkeyed_entries (m : LiteralMap) (ts rest : List Token) (xs : List (Key × Literal)) :
    (.index m.nextIndex ∉ m.keys ↔ .index Int64.maxValue ∉ m.keys) ∧
    (Reads (literal ts) (.map xs) rest ↔
      ∃ es, ArrayAt ts es rest ∧ xs = (mapOf es).entries ∧
        ∀ before v behind, es = before ++ (none, v) :: behind → Unkeyed before v behind) := by
  refine ⟨LiteralMap.nextIndex_mem_iff.not, ?_⟩
  rw [reads_map_iff]
  constructor
  · rintro ⟨es, harray, hxs⟩
    exact ⟨es, harray, hxs, fun before v behind _ => unkeyed before v behind⟩
  · rintro ⟨es, harray, hxs, -⟩
    exact ⟨es, harray, hxs⟩

end Grammar

end DocDirectives
