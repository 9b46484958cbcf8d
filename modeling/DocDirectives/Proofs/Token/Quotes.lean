import DocDirectives.Token.Lexeme
import Mathlib.Data.List.Basic

/-! # Where strings close

    Inside a string a quote is written twice. The text between the opening and the closing quote is
    `Doubled`, and the closing quote is `Final`: the quotes behind it, if it is followed by one, are
    none that it could pair with. These two say where a string closes, and it closes somewhere when
    there is a quote at all. -/

namespace DocDirectives.Lexeme

/-- A text in which every quote has its partner behind it. -/
inductive Doubled : List Char → Prop
  | nil : Doubled []
  | char {c : Char} {cs : List Char} : c ≠ '"' → Doubled cs → Doubled (c :: cs)
  | pair {cs : List Char} : Doubled cs → Doubled ('"' :: '"' :: cs)

/-- What comes behind a closing quote: a quote there is the last of the text. -/
def Final (rest : List Char) : Prop := ∀ cs, rest = '"' :: cs → '"' ∉ cs

theorem Final.of_head {c : Char} {cs : List Char} (h : c ≠ '"') : Final (c :: cs) :=
  fun _ he => absurd (List.cons.inj he).1 h

theorem Doubled.count_mod_two {cs : List Char} (h : Doubled cs) : cs.count '"' % 2 = 0 := by
  induction h with
  | nil => rfl
  | char hc _ ih => rwa [List.count_cons_of_ne hc]
  | pair _ ih => rw [List.count_cons_self, List.count_cons_self]; omega

/-- No pair of quotes stands across another character. -/
theorem Doubled.divide {c : Char} (hc : c ≠ '"') {bs : List Char} :
    ∀ {as : List Char}, Doubled (as ++ c :: bs) → Doubled as ∧ Doubled bs
  | [], h => by
    cases h with
    | char _ h => exact ⟨.nil, h⟩
    | pair _ => exact absurd rfl hc
  | [a], h => by
    cases h with
    | char ha h =>
      have hs : Doubled [] ∧ Doubled bs := divide hc h
      exact ⟨.char ha hs.1, hs.2⟩
    | pair _ => exact absurd rfl hc
  | a :: b :: as, h => by
    cases h with
    | char ha h =>
      have hs : Doubled (b :: as) ∧ Doubled bs := divide hc h
      exact ⟨.char ha hs.1, hs.2⟩
    | pair h =>
      have hs : Doubled as ∧ Doubled bs := divide hc h
      exact ⟨.pair hs.1, hs.2⟩

/-! ### Closing quotes -/

theorem closing?_cons {c : Char} (hc : c ≠ '"') (cs : List Char) :
    closing? (c :: cs) = (closing? cs).map (· + 1) := by
  rw [closing?]
  · exact fun _ he => absurd he hc
  · exact hc

theorem closing?_pair (cs : List Char) : closing? ('"' :: '"' :: cs) =
    some ((closing? cs).elim 1 (· + 2)) := by
  rw [closing?]
  cases closing? cs <;> rfl

/-- A string closes when there is a quote. -/
theorem closing?_eq_none_iff {cs : List Char} : closing? cs = none ↔ '"' ∉ cs := by
  fun_induction closing? cs with
  | case1 => simp
  | case2 cs n _ _ => simp
  | case3 cs _ _ => simp
  | case4 cs _ => simp
  | case5 c cs _ hc ih =>
    have hne : '"' ≠ c := fun h => hc h.symm
    rw [Option.map_eq_none_iff, ih, List.mem_cons, not_or]
    exact ⟨fun h => ⟨hne, h⟩, fun h => h.2⟩

/-- A string closes where its quotes are doubled up to a final one. -/
theorem closing?_of_doubled {rest : List Char} (hf : Final rest) {inner : List Char}
    (h : Doubled inner) : closing? (inner ++ '"' :: rest) = some (inner.length + 1) := by
  induction h with
  | nil =>
    rcases rest with _ | ⟨c, rest⟩
    · rfl
    · by_cases hc : c = '"'
      · subst hc
        rw [List.nil_append, closing?_pair, closing?_eq_none_iff.2 (hf rest rfl)]
        rfl
      · rw [List.nil_append, closing?]
        · rfl
        · exact fun _ he => absurd (List.cons.inj he).1 hc
  | char hc _ ih => rw [List.cons_append, closing?_cons hc, ih]; rfl
  | pair _ ih => rw [List.cons_append, List.cons_append, closing?_pair, ih]; rfl

theorem doubled_of_closing? {cs : List Char} {n : Nat} (h : closing? cs = some n) :
    ∃ inner rest, cs = inner ++ '"' :: rest ∧ n = inner.length + 1 ∧ Doubled inner ∧
      Final rest := by
  fun_induction closing? cs generalizing n with
  | case1 => cases h
  | case2 cs m hm ih =>
    obtain ⟨inner, rest, rfl, rfl, hd, hf⟩ := ih hm
    exact ⟨'"' :: '"' :: inner, rest, rfl, (Option.some.inj h).symm, .pair hd, hf⟩
  | case3 cs hm _ =>
    refine ⟨[], '"' :: cs, rfl, (Option.some.inj h).symm, .nil, fun ds he => ?_⟩
    rw [← (List.cons.inj he).2]
    exact closing?_eq_none_iff.1 hm
  | case4 cs hcs =>
    exact ⟨[], cs, rfl, (Option.some.inj h).symm, .nil, fun ds he => absurd he (hcs ds)⟩
  | case5 c cs _ hc ih =>
    obtain ⟨m, hm, rfl⟩ := Option.map_eq_some_iff.1 h
    obtain ⟨inner, rest, rfl, rfl, hd, hf⟩ := ih hm
    exact ⟨c :: inner, rest, rfl, rfl, .char hc hd, hf⟩

end DocDirectives.Lexeme
