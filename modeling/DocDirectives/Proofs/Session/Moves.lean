import DocDirectives.Proofs.Session.Outcome

/-! # Moves of a cursor

    A cursor may be loaded, reset, rewound and advanced in any order. Where that leaves it is told
    by two things: the text that was loaded last, and how often it was advanced since the last
    move of another kind. The first advances read the tokens one by one; every later one answers
    that there is none and leaves no current token. -/

namespace DocDirectives.Cursor

/-- What can be done with a cursor. -/
inductive Move where
  | load (text : String)
  | reset
  | rewind
  | advance

/-- The cursor behind a move. -/
def move (c : Cursor) : Move → Cursor
  | .load text => c.load text
  | .reset => c.reset
  | .rewind => c.rewind
  | .advance => c.advance.2

/-- The cursor behind several moves. -/
def moveAll (c : Cursor) (moves : List Move) : Cursor := moves.foldl move c

/-- The cursor behind moves that begin without a text. -/
def run (classifier : Classifier) (moves : List Move) : Cursor :=
  moveAll { classifier := classifier } moves

namespace Move

/-- The text that a cursor reads behind a move, if it reads one. -/
def text (held : Option String) : Move → Option String
  | load text => some text
  | reset => none
  | rewind => held
  | advance => held

/-- How often a cursor has been advanced behind a move, without a move of another kind between. -/
def count (n : Nat) : Move → Nat
  | advance => n + 1
  | _ => 0

/-- The text loaded last; none behind a reset. -/
def lastText (moves : List Move) : Option String := moves.foldl text none

/-- How many advances stand at the end of the moves. -/
def advances (moves : List Move) : Nat := moves.foldl count 0

end Move

/-- The tokens of a text, if there is one. -/
def tokensOf (classifier : Classifier) (held : Option String) : List Token :=
  held.elim [] fun text => classifier.tokens text.toList

/-- A cursor that was put in front of the tokens `ts` and advanced `n` times. -/
structure Advanced (classifier : Classifier) (ts : List Token) (n : Nat) (c : Cursor) : Prop where
  classifier : c.classifier = classifier
  tokens : c.tokens = ts
  position : c.position = min n ts.length
  current : c.current = if 0 < n ∧ n ≤ ts.length then some (n - 1) else none

variable {classifier : Classifier} {ts : List Token} {n : Nat} {c : Cursor}

/-! ### One move -/

/-- An advance reads the token behind the tokens read, when there is one. -/
theorem Advanced.advance (h : Advanced classifier ts n c) :
    Advanced classifier ts (n + 1) c.advance.2 := by
  obtain ⟨hclassifier, htokens, hposition, -⟩ := h
  by_cases hn : n < ts.length
  · have hlt : c.position < c.tokens.length := by rw [htokens, hposition]; omega
    rw [Cursor.advance, if_pos hlt]
    refine ⟨hclassifier, htokens, ?_, ?_⟩
    · simp only [hposition]
      omega
    · have hle : n + 1 ≤ ts.length := hn
      have hmin : min n ts.length = n := by omega
      simp [hle, hposition, hmin]
  · have hge : ¬ c.position < c.tokens.length := by rw [htokens, hposition]; omega
    rw [Cursor.advance, if_neg hge]
    refine ⟨hclassifier, htokens, ?_, ?_⟩
    · simp only [hposition]
      omega
    · have hle : ¬ n + 1 ≤ ts.length := by omega
      simp [hle]

theorem Advanced.rewind (h : Advanced classifier ts n c) : Advanced classifier ts 0 c.rewind :=
  ⟨h.classifier, h.tokens, by simp [Cursor.rewind], by simp [Cursor.rewind]⟩

theorem Advanced.reset (h : Advanced classifier ts n c) : Advanced classifier [] 0 c.reset :=
  ⟨h.classifier, rfl, rfl, rfl⟩

theorem Advanced.load (h : Advanced classifier ts n c) (text : String) :
    Advanced classifier (classifier.tokens text.toList) 0 (c.load text) :=
  ⟨h.classifier, by rw [← h.classifier]; rfl, by simp [Cursor.load, Cursor.reset],
    by simp [Cursor.load, Cursor.reset]⟩

/-- What one move does to the two things that tell where a cursor is. -/
theorem Advanced.move {held : Option String}
    (h : Advanced classifier (tokensOf classifier held) n c) (m : Move) :
    Advanced classifier (tokensOf classifier (m.text held)) (m.count n) (c.move m) := by
  cases m with
  | load text => exact h.load text
  | reset => exact h.reset
  | rewind => exact h.rewind
  | advance => exact h.advance

/-! ### Any moves -/

/-- Behind any moves a cursor stands behind as many tokens of the text loaded last as it was
    advanced in the end. -/
theorem advanced_run (classifier : Classifier) (moves : List Move) :
    Advanced classifier (tokensOf classifier (Move.lastText moves)) (Move.advances moves)
      (run classifier moves) := by
  suffices h : ∀ (held : Option String) (n : Nat) (c : Cursor),
      Advanced classifier (tokensOf classifier held) n c →
      Advanced classifier (tokensOf classifier (moves.foldl Move.text held))
        (moves.foldl Move.count n) (c.moveAll moves) from
    h none 0 { classifier } ⟨rfl, rfl, by simp, by simp⟩
  induction moves with
  | nil =>
    intro held n c h
    exact h
  | cons m moves ih =>
    intro held n c h
    exact ih _ _ _ (h.move m)

/-- Advances behind each other. -/
theorem Advanced.moveAll_replicate (h : Advanced classifier ts n c) (k : Nat) :
    Advanced classifier ts (n + k) (c.moveAll (List.replicate k .advance)) := by
  induction k generalizing n c with
  | zero => exact h
  | succ k ih =>
    have hnext := ih h.advance
    rw [show n + 1 + k = n + (k + 1) by omega] at hnext
    exact hnext

/-! ### What an advanced cursor sees -/

theorem Advanced.position_le (h : Advanced classifier ts n c) : c.position ≤ c.tokens.length := by
  rw [h.tokens, h.position]
  omega

/-- The token in front of the position is current, or none is. -/
theorem Advanced.current_cases (h : Advanced classifier ts n c) :
    c.current = none ∧ c.currentToken = none ∨
      ∃ i t, c.position = i + 1 ∧ c.current = some i ∧ c.tokens[i]? = some t ∧
        c.currentToken = some t := by
  have hcurrent := h.current
  by_cases hn : 0 < n ∧ n ≤ ts.length
  · rw [if_pos hn] at hcurrent
    obtain ⟨hpos, hle⟩ := hn
    have hlt : n - 1 < c.tokens.length := by rw [h.tokens]; omega
    have hget : c.tokens[n - 1]? = some c.tokens[n - 1] := List.getElem?_eq_getElem hlt
    refine .inr ⟨n - 1, c.tokens[n - 1], ?_, hcurrent, hget, ?_⟩
    · rw [h.position]
      omega
    · rw [currentToken, hcurrent, Option.bind_some, hget]
  · rw [if_neg hn] at hcurrent
    exact .inl ⟨hcurrent, by rw [currentToken, hcurrent, Option.bind_none]⟩

theorem Advanced.lookahead_eq (h : Advanced classifier ts n c) : c.lookahead = ts[n]? := by
  rw [lookahead, h.tokens, h.position]
  rcases Nat.lt_or_ge n ts.length with hn | hn
  · rw [Nat.min_eq_left (Nat.le_of_lt hn)]
  · rw [Nat.min_eq_right hn, List.getElem?_eq_none hn, List.getElem?_eq_none (Nat.le_refl _)]

/-- An advance answers whether there is a lookahead. When there is one it becomes the current token,
    and the token behind it the lookahead. -/
theorem advance_cases (c : Cursor) :
    c.advance.1 = c.lookahead.isSome ∧ (c.lookahead.isSome = true →
      c.advance.2.currentToken = c.lookahead ∧ c.advance.2.lookahead = c.peek) := by
  rw [currentToken_advance, Cursor.lookahead_eq, Cursor.lookahead_eq, peek_eq, rest_advance]
  refine ⟨?_, fun _ => ⟨rfl, rfl⟩⟩
  cases hrest : c.rest with
  | nil => simp [advance_of_rest_nil hrest]
  | cons t rest => simp [advance_of_rest_cons hrest]

/-- The next advance answers whether there is a token left, and makes it current. -/
theorem Advanced.advance_eq (h : Advanced classifier ts n c) :
    c.advance.1 = decide (n < ts.length) ∧ c.advance.2.currentToken = ts[n]? := by
  have hlook := h.lookahead_eq
  rw [Cursor.lookahead_eq] at hlook
  refine ⟨?_, by rw [currentToken_advance, hlook]⟩
  rw [(advance_cases c).1, Bool.eq_iff_iff, isSome_lookahead_iff, decide_eq_true_iff, h.tokens,
    h.position]
  omega

/-! ### The law -/

theorem run_append (classifier : Classifier) (moves moves' : List Move) :
    run classifier (moves ++ moves') = (run classifier moves).moveAll moves' := by
  simp only [run, moveAll, List.foldl_append]

/-- Behind a load or a rewind, the advances read the tokens one by one. -/
theorem run_advances (classifier : Classifier) (moves : List Move) {m : Move}
    (hm : m = .rewind ∨ ∃ text, m = .load text) (k : Nat) :
    (run classifier (moves ++ m :: List.replicate k .advance)).advance.1 =
        decide (k < (run classifier (moves ++ [m])).tokens.length) ∧
      (run classifier (moves ++ m :: List.replicate (k + 1) .advance)).currentToken =
        (run classifier (moves ++ [m])).tokens[k]? := by
  have hcount : m.count (Move.advances moves) = 0 := by
    rcases hm with rfl | ⟨text, rfl⟩ <;> rfl
  have hstart := (advanced_run classifier moves).move m
  rw [hcount] at hstart
  have htokens : (run classifier (moves ++ [m])).tokens =
      tokensOf classifier (m.text (Move.lastText moves)) := by
    rw [run_append]
    exact hstart.tokens
  -- the last of the advances is the one that is asked
  have hfront : run classifier (moves ++ m :: List.replicate k .advance) =
      ((run classifier moves).move m).moveAll (List.replicate k .advance) := by
    rw [run_append]
    rfl
  have hlast : run classifier (moves ++ m :: List.replicate (k + 1) .advance) =
      (run classifier (moves ++ m :: List.replicate k .advance)).advance.2 := by
    rw [List.replicate_succ', ← List.cons_append, ← List.append_assoc, run_append]
    rfl
  obtain ⟨hanswer, hcurrent⟩ := (hstart.moveAll_replicate k).advance_eq
  rw [Nat.zero_add] at hanswer hcurrent
  rw [hlast, hfront, htokens]
  exact ⟨hanswer, hcurrent⟩

/-- Whatever was done with a cursor, it stands behind as many tokens of the text loaded last as it
    was advanced since, at most behind all of them, and its current token is the one in front of
    its place or none. Only loading and resetting change the tokens. An advance answers whether
    there is a lookahead, and then that becomes current and the token behind it the lookahead. So
    behind a load or a rewind the advances read the tokens in order, and all further ones answer
    that there is none and leave none current. -/
theorem run_reads_in_order (classifier : Classifier) (moves : List Move) :
    ((run classifier moves).position =
        min (Move.advances moves) (run classifier moves).tokens.length ∧
      (run classifier moves).position ≤ (run classifier moves).tokens.length) ∧
    ((run classifier moves).current = none ∧ (run classifier moves).currentToken = none ∨
      ∃ i t, (run classifier moves).position = i + 1 ∧
        (run classifier moves).current = some i ∧ (run classifier moves).tokens[i]? = some t ∧
        (run classifier moves).currentToken = some t) ∧
    ((run classifier moves).tokens = tokensOf classifier (Move.lastText moves) ∧
      (run classifier (moves ++ [.advance])).tokens = (run classifier moves).tokens ∧
      (run classifier (moves ++ [.rewind])).tokens = (run classifier moves).tokens) ∧
    ((run classifier moves).advance.1 = (run classifier moves).lookahead.isSome ∧
      ((run classifier moves).lookahead.isSome = true →
        (run classifier (moves ++ [.advance])).currentToken =
          (run classifier moves).lookahead ∧
        (run classifier (moves ++ [.advance])).lookahead = (run classifier moves).peek)) ∧
    ∀ m, (m = .rewind ∨ ∃ text, m = .load text) → ∀ k,
      (run classifier (moves ++ m :: List.replicate k .advance)).advance.1 =
        decide (k < (run classifier (moves ++ [m])).tokens.length) ∧
      (run classifier (moves ++ m :: List.replicate (k + 1) .advance)).currentToken =
        (run classifier (moves ++ [m])).tokens[k]? := by
  have h := advanced_run classifier moves
  have hcases := advance_cases (run classifier moves)
  refine ⟨⟨?_, h.position_le⟩, h.current_cases, ⟨h.tokens, ?_, ?_⟩, ⟨hcases.1, ?_⟩, ?_⟩
  · rw [h.position, h.tokens]
  · rw [run_append]
    exact h.advance.tokens.trans h.tokens.symm
  · rw [run_append]
    exact h.rewind.tokens.trans h.tokens.symm
  · rw [run_append]
    exact hcases.2
  · intro m hm k
    exact run_advances classifier moves hm k

end DocDirectives.Cursor
