import DocDirectives.Proofs.Token.Extent
import DocDirectives.Token.Classifier

/-! # Cutting a text at matches

    What a pattern finds in a text are matches, one behind the other. A match may be empty and may
    depend on all of the text; all that is known is that none begins before the last one has ended.
    The text is cut at the matches in one pass, which keeps the fragments cut so far and the place
    up to which they reach. So nothing of the text is lost, and of the tokens neither. -/

namespace DocDirectives

open Lexeme

/-- Where a match stands: how many characters are in front of it, and how many up to its end. -/
structure Match where
  start : Nat
  stop : Nat

/-- Matches in a text of `size` characters, from left to right, none of them before `last` or over
    another. -/
inductive InOrder (size : Nat) : Nat → List Match → Prop
  | nil {last : Nat} : last ≤ size → InOrder size last []
  | cons {last : Nat} {m : Match} {ms : List Match} : last ≤ m.start → m.start ≤ m.stop →
      InOrder size m.stop ms → InOrder size last (m :: ms)

/-- How text is cut by a pattern that is searched for, and what the pieces are. -/
structure Splitter where
  /-- The matches in a text. -/
  find : List Char → List Match
  inOrder : ∀ cs, InOrder cs.length 0 (find cs)
  classify : List Char → Kind
  isNoise : List Char → Bool := fun fragment => fragment.all Text.isBlank

/-- The characters between two places of a text. -/
def slice (cs : List Char) (start stop : Nat) : List Char := (cs.take stop).drop start

/-- Fragments cut from the front of a text, and the place up to which they reach. -/
structure Cutting where
  fragments : List (List Char) := []
  last : Nat := 0

namespace Cutting

/-- Cut off what stands in front of a match, unless nothing does, and the match. -/
def step (cs : List Char) (c : Cutting) (m : Match) : Cutting :=
  let before := if c.last < m.start then [slice cs c.last m.start] else []
  ⟨c.fragments ++ before ++ [slice cs m.start m.stop], m.stop⟩

/-- The fragments with what stands behind the last match, unless nothing does. -/
def finish (cs : List Char) (c : Cutting) : List (List Char) :=
  c.fragments ++ if c.last < cs.length then [cs.drop c.last] else []

end Cutting

namespace Splitter

/-- The fragments of a text, in order. -/
def fragments (s : Splitter) (cs : List Char) : List (List Char) :=
  ((s.find cs).foldl (Cutting.step cs) {}).finish cs

/-- The tokens of a text. -/
def tokens (s : Splitter) (cs : List Char) : List Token :=
  ((s.fragments cs).filter fun f => !f.isEmpty && !s.isNoise f).map fun f =>
    ⟨s.classify f, String.ofList f⟩

end Splitter

/-! ### Fragments -/

/-- A text that begins at the place `n`, the matches in it, and its fragments: the matches and the
    text between them, where there is any. -/
inductive Cut : Nat → List Char → List Match → List (List Char) → Prop
  | rest {n : Nat} {run : List Char} : Cut n run [] (Classifier.gap run)
  | next {n : Nat} {run v rest : List Char} {ms : List Match} {fs : List (List Char)} :
      Cut (n + run.length + v.length) rest ms fs →
      Cut n (run ++ (v ++ rest)) (⟨n + run.length, n + run.length + v.length⟩ :: ms)
        (Classifier.gap run ++ v :: fs)

variable {n : Nat} {cs : List Char} {ms : List Match} {fs : List (List Char)}

theorem Cut.flatten (h : Cut n cs ms fs) : fs.flatten = cs := by
  induction h with
  | rest => exact Classifier.flatten_gap _
  | next _ ih => rw [List.flatten_append, List.flatten_cons, Classifier.flatten_gap, ih]

theorem Cut.inOrder (h : Cut n cs ms fs) : InOrder (n + cs.length) n ms := by
  induction h with
  | rest => exact .nil (Nat.le_add_right _ _)
  | @next n run v rest ms fs _ ih =>
    have hsize : n + (run ++ (v ++ rest)).length = n + run.length + v.length + rest.length := by
      simp only [List.length_append]
      omega
    rw [hsize]
    exact .cons (Nat.le_add_right _ _) (Nat.le_add_right _ _) ih

theorem InOrder.le {size last : Nat} (h : InOrder size last ms) : last ≤ size := by
  induction h with
  | nil h => exact h
  | cons hstart hstop _ ih => exact Nat.le_trans hstart (Nat.le_trans hstop ih)

theorem exists_append_of_le_length (cs : List Char) (k : Nat) (h : k ≤ cs.length) :
    ∃ run rest, cs = run ++ rest ∧ run.length = k :=
  ⟨cs.take k, cs.drop k, (List.take_append_drop k cs).symm, List.length_take_of_le h⟩

/-- A text can be cut at matches that are in order. -/
theorem exists_cut (h : InOrder (n + cs.length) n ms) : ∃ fs, Cut n cs ms fs := by
  generalize hsize : n + cs.length = size at h
  induction h generalizing cs with
  | nil => exact ⟨_, .rest⟩
  | @cons n m ms hstart hstop hms ih =>
    obtain ⟨start, stop⟩ := m
    have hle := hms.le
    dsimp only at hstart hstop hle
    obtain ⟨run, tail, rfl, hrun⟩ := exists_append_of_le_length cs (start - n) (by omega)
    rw [List.length_append] at hsize
    obtain ⟨v, rest, rfl, hv⟩ := exists_append_of_le_length tail (stop - start) (by omega)
    rw [List.length_append] at hsize
    obtain rfl : start = n + run.length := by omega
    obtain rfl : stop = n + run.length + v.length := by omega
    have hrest : n + run.length + v.length + rest.length = size := by omega
    obtain ⟨fs, hfs⟩ := ih hrest
    exact ⟨_, .next hfs⟩

/-! ### The pass over the matches -/

variable {c : Cutting}

theorem slice_of_drop {run rest : List Char} (h : cs.drop n = run ++ rest) :
    slice cs n (n + run.length) = run := by
  rw [slice, List.drop_take, h, Nat.add_sub_cancel_left, List.take_left]

theorem drop_of_drop {run rest : List Char} (h : cs.drop n = run ++ rest) :
    cs.drop (n + run.length) = rest := by
  rw [← List.drop_drop, h, List.drop_left]

/-- A match cuts off the text in front of it, as a gap, and itself. -/
theorem Cutting.step_of_drop {run v rest : List Char} (h : cs.drop c.last = run ++ (v ++ rest)) :
    c.step cs ⟨c.last + run.length, c.last + run.length + v.length⟩ =
      ⟨c.fragments ++ Classifier.gap run ++ [v], c.last + run.length + v.length⟩ := by
  have hbefore : (if c.last < c.last + run.length then [slice cs c.last (c.last + run.length)]
      else []) = Classifier.gap run := by
    rw [slice_of_drop h, Classifier.gap]
    cases run with
    | nil => simp
    | cons => simp
  rw [step, hbefore, slice_of_drop (drop_of_drop h)]

theorem Cutting.finish_of_drop {run : List Char} (h : cs.drop c.last = run) :
    c.finish cs = c.fragments ++ Classifier.gap run := by
  have hlength := congrArg List.length h
  rw [List.length_drop] at hlength
  rw [finish, h, Classifier.gap]
  cases run with
  | nil =>
    rw [List.length_nil] at hlength
    rw [if_neg (by omega)]
    rfl
  | cons =>
    rw [List.length_cons] at hlength
    rw [if_pos (by omega)]
    rfl

/-- The pass adds the fragments of the text that is left to those cut so far. -/
theorem Cut.foldl_step {rest : List Char} (h : Cut n rest ms fs) (hn : c.last = n)
    (hrest : cs.drop n = rest) :
    (ms.foldl (Cutting.step cs) c).finish cs = c.fragments ++ fs := by
  induction h generalizing c with
  | rest =>
    subst hn
    exact Cutting.finish_of_drop hrest
  | next _ ih =>
    subst hn
    have hbehind := drop_of_drop (drop_of_drop hrest)
    rw [List.foldl_cons, Cutting.step_of_drop hrest, ih rfl hbehind]
    simp only [List.append_assoc, List.singleton_append]

namespace Splitter

/-- The fragments are what the text is cut into at the matches. -/
theorem fragments_eq_iff (s : Splitter) : s.fragments cs = fs ↔ Cut 0 cs (s.find cs) fs := by
  have hcut : ∀ fs, Cut 0 cs (s.find cs) fs → s.fragments cs = fs := fun fs h =>
    h.foldl_step rfl List.drop_zero
  refine ⟨?_, hcut fs⟩
  rintro rfl
  have horder : InOrder (0 + cs.length) 0 (s.find cs) := by simpa using s.inOrder cs
  obtain ⟨fs, hfs⟩ := exists_cut horder
  rwa [hcut fs hfs]

end Splitter

/-! ### Tokens -/

/-- What is made of fragments: nothing of one that is empty or noise, and of any other one token. -/
inductive Classified (classify : List Char → Kind) (isNoise : List Char → Bool) :
    List (List Char) → List Token → Prop
  | nil : Classified classify isNoise [] []
  | dropped {f : List Char} {fs : List (List Char)} {ts : List Token} :
      f = [] ∨ isNoise f = true → Classified classify isNoise fs ts →
      Classified classify isNoise (f :: fs) ts
  | kept {f : List Char} {fs : List (List Char)} {ts : List Token} : f ≠ [] → isNoise f = false →
      Classified classify isNoise fs ts →
      Classified classify isNoise (f :: fs) (⟨classify f, String.ofList f⟩ :: ts)

variable {classify : List Char → Kind} {isNoise : List Char → Bool} {ts : List Token}

theorem classified_iff : Classified classify isNoise fs ts ↔
    (fs.filter fun f => !f.isEmpty && !isNoise f).map (fun f => ⟨classify f, String.ofList f⟩) =
      ts := by
  constructor
  · intro h
    induction h with
    | nil => rfl
    | dropped hf _ ih => rw [List.filter_cons_of_neg (by simpa [or_iff_not_imp_left] using hf), ih]
    | kept hf hn _ ih => rw [List.filter_cons_of_pos (by simp [hf, hn]), List.map_cons, ih]
  · rintro rfl
    induction fs with
    | nil => exact .nil
    | cons f fs ih =>
      by_cases hf : f = [] ∨ isNoise f = true
      · rw [List.filter_cons_of_neg (by simpa [or_iff_not_imp_left] using hf)]
        exact .dropped hf ih
      · obtain ⟨hne, hn⟩ := not_or.1 hf
        rw [Bool.not_eq_true] at hn
        rw [List.filter_cons_of_pos (by simp [hne, hn]), List.map_cons]
        exact .kept hne hn ih

/-- Where noise holds none of the characters that count, all that count are in the tokens. -/
theorem Classified.filter_eq {p : Char → Bool} (h : Classified classify isNoise fs ts)
    (hnoise : ∀ f, isNoise f = true → f.filter p = []) :
    (ts.flatMap fun t => t.text.toList).filter p = fs.flatten.filter p := by
  induction h with
  | nil => rfl
  | @dropped f _ _ hf _ ih =>
    have hnone : f.filter p = [] := by
      rcases hf with rfl | hf
      · rfl
      · exact hnoise f hf
    rw [List.flatten_cons, List.filter_append, hnone, List.nil_append, ih]
  | kept _ _ _ ih =>
    rw [List.flatMap_cons, List.flatten_cons, List.filter_append, List.filter_append, ih,
      String.toList_ofList]

/-! ### Lexemes as matches -/

namespace Classifier

/-- The lexemes of a text that begins at the place `n`, as matches. -/
def matchesFrom (c : Classifier) (n : Nat) (cs : List Char) : List Match :=
  match cs with
  | [] => []
  | x :: rest =>
    match c.lexemeLength (x :: rest) with
    | 0 => matchesFrom c (n + 1) rest
    | k + 1 =>
      let stop := n + (x :: rest.take k).length
      ⟨n, stop⟩ :: matchesFrom c stop (rest.drop k)
termination_by cs.length

/-- A scan cuts a text at its lexemes, `run` being the characters since the last of them. -/
theorem cut_fragmentsFrom (c : Classifier) (n : Nat) (run cs : List Char) :
    Cut n (run ++ cs) (c.matchesFrom (n + run.length) cs) (c.fragmentsFrom run cs) := by
  fun_induction fragmentsFrom c run cs generalizing n with
  | case1 run =>
    rw [matchesFrom, List.append_nil]
    exact .rest
  | case2 run x rest hl ih =>
    have h := ih n
    rw [List.length_append, List.append_assoc] at h
    rw [matchesFrom, hl]
    exact h
  | case3 run x rest k hl ih =>
    have h := ih (n + run.length + (x :: rest.take k).length)
    rw [matchesFrom, hl]
    have hsplit : x :: rest = (x :: rest.take k) ++ rest.drop k := by
      rw [List.cons_append, List.take_append_drop]
    rw [hsplit]
    exact .next h

/-- A classifier cuts a text at its lexemes. -/
def splitter (c : Classifier) : Splitter where
  find := c.matchesFrom 0
  inOrder cs := by
    have h := (c.cut_fragmentsFrom 0 [] cs).inOrder
    simpa using h
  classify := c.classify
  isNoise := c.isNoise

theorem fragments_splitter (c : Classifier) (cs : List Char) :
    c.splitter.fragments cs = c.fragments cs :=
  c.splitter.fragments_eq_iff.2 (c.cut_fragmentsFrom 0 [] cs)

theorem tokens_splitter (c : Classifier) (cs : List Char) :
    c.splitter.tokens cs = c.tokens cs := by
  rw [Splitter.tokens, fragments_splitter]
  rfl

theorem filter_of_isDecoration {f : List Char} (h : isDecoration f = true) :
    f.filter (fun c => !isSeparator c) = [] := by
  rw [List.filter_eq_nil_iff]
  intro c hc
  rcases Bool.or_eq_true_iff.1 h with hall | hall
  · simp [isSeparator, List.all_eq_true.1 hall c hc]
  · have hstar := List.all_eq_true.1 hall c hc
    simp_all [isSeparator]

end Classifier

/-- However a pattern finds its matches, as long as they are in order: the fragments of a text are
    the matches and the text between them, and put together they are the text; and the tokens are
    the fragments that are neither empty nor noise, in order, each classified once. A classifier
    cuts a text so at its lexemes. Of a comment nothing but white space and stars is lost. -/
theorem Splitter.fragments_and_tokens (s : Splitter) (cs : List Char) :
    (∀ fs, s.fragments cs = fs ↔ Cut 0 cs (s.find cs) fs) ∧
    (s.fragments cs).flatten = cs ∧
    (∀ ts, s.tokens cs = ts ↔ Classified s.classify s.isNoise (s.fragments cs) ts) ∧
    (∀ c : Classifier,
      c.splitter.fragments cs = c.fragments cs ∧ c.splitter.tokens cs = c.tokens cs) ∧
    ((Classifier.directives.tokens cs).flatMap fun t => t.text.toList).filter
        (fun c => !isSeparator c) =
      cs.filter fun c => !isSeparator c := by
  have hflatten := (s.fragments_eq_iff.1 (rfl : s.fragments cs = _)).flatten
  refine ⟨fun fs => s.fragments_eq_iff, hflatten, fun ts => classified_iff.symm,
    fun c => ⟨c.fragments_splitter cs, c.tokens_splitter cs⟩, ?_⟩
  have htokens : Classified Classifier.kindOf Classifier.isDecoration
      (Classifier.directives.fragments cs) (Classifier.directives.tokens cs) :=
    classified_iff.2 rfl
  have hfragments : (Classifier.directives.fragments cs).flatten = cs :=
    Classifier.flatten_fragmentsFrom _ [] cs
  rw [htokens.filter_eq fun f => Classifier.filter_of_isDecoration, hfragments]

end DocDirectives
