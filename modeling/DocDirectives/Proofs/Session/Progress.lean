import Mathlib.Logic.Relation
import DocDirectives.Proofs.Session.Agreement

/-! # Progress of a reading

    A reading moves its cursor with `advance` and with nothing else, so it never goes back and never
    passes the last token. What it reads costs tokens: a literal one at least, a directive two. A
    turn of a loop reads a token, or it is the last turn. So a loop has at most one turn more than
    tokens are left, and a comment that does not fail is read to its end. -/

namespace DocDirectives

namespace Cursor

open Outcome

variable {ε ε' α β σ : Type} {c c' c'' : Cursor} {j k : Nat}

/-! ### Places that a cursor reaches -/

/-- `c'` is where the cursor `c` is after some calls of `advance`. -/
def Reaches : Cursor → Cursor → Prop := Relation.ReflTransGen fun c c' => c' = c.advance.2

theorem reaches_advance (c : Cursor) : Reaches c c.advance.2 := .single rfl

namespace Reaches

theorem onward (h : Reaches c c') : c.Onward c' := by
  induction h with
  | refl => exact .refl c
  | tail _ hstep ih =>
    subst hstep
    exact ih.trans (onward_advance _)

/-- No token is read behind the last. -/
theorem position_le (h : Reaches c c') (hc : c.position ≤ c.tokens.length) :
    c'.position ≤ c'.tokens.length := by
  induction h with
  | refl => exact hc
  | tail _ hstep ih =>
    subst hstep
    unfold advance
    split
    · assumption
    · exact ih

/-- A cursor that has moved has fewer tokens left. -/
theorem left_lt (h : Reaches c c') (hlt : c.position < c'.position) : c'.left < c.left := by
  induction h with
  | refl => exact absurd hlt (Nat.lt_irrefl _)
  | @tail c₁ _ h₁ hstep ih =>
    subst hstep
    by_cases hsome : c₁.lookahead.isSome
    · exact Nat.lt_of_lt_of_le (left_advance_lt hsome) (onward h₁).left_le
    · rw [advance, if_neg (isSome_lookahead_iff.not.1 hsome)] at hlt ⊢
      exact ih hlt

end Reaches

/-! ### Tokens that an action takes -/

/-- An action reaches the place where it leaves the cursor, and takes `k` tokens or more unless it
    fails. -/
structure Takes (k : Nat) (o : Outcome ε α c) : Prop where
  reaches : Reaches c o.cursor
  taken : ∀ v, o.result = .ok v → c.position + k ≤ o.cursor.position

namespace Takes

theorem weaken {o : Outcome ε α c} (h : Takes k o) (hj : j ≤ k) : Takes j o :=
  ⟨h.reaches, fun v hv => Nat.le_trans (Nat.add_le_add_left hj _) (h.taken v hv)⟩

theorem pure (v : α) (c : Cursor) : Takes 0 (pure v c : Outcome ε α c) :=
  ⟨.refl, fun _ _ => Nat.le_refl _⟩

theorem fail (k : Nat) (e : ε) (c : Cursor) : Takes k (fail e c : Outcome ε α c) :=
  ⟨.refl, fun _ hv => nomatch hv⟩

theorem ofExcept (r : Except ε α) (c : Cursor) : Takes 0 (ofExcept r c) :=
  ⟨.refl, fun _ _ => Nat.le_refl _⟩

/-- What is made of a value, or of a failure, takes no tokens. -/
theorem of_result {o : Outcome ε α c} {o' : Outcome ε' β c} (h : Takes k o)
    (hcursor : o'.cursor = o.cursor) (hok : ∀ v, o'.result = .ok v → ∃ w, o.result = .ok w) :
    Takes k o' := by
  refine ⟨hcursor ▸ h.reaches, fun v hv => ?_⟩
  obtain ⟨w, hw⟩ := hok v hv
  rw [hcursor]
  exact h.taken w hw

theorem map {o : Outcome ε α c} (h : Takes k o) (f : α → β) : Takes k (o.map f) :=
  h.of_result rfl fun v hv => by
    rw [Outcome.map] at hv
    cases hr : o.result with
    | error e => simp only [hr, Except.map, reduceCtorEq] at hv
    | ok w => exact ⟨w, rfl⟩

theorem mapError {o : Outcome ε α c} (h : Takes k o) (f : ε → ε') : Takes k (o.mapError f) :=
  h.of_result rfl fun v hv => by
    rw [Outcome.mapError] at hv
    cases hr : o.result with
    | error e => simp only [hr, Except.mapError, reduceCtorEq] at hv
    | ok w => exact ⟨w, rfl⟩

/-- Two actions take what both take. -/
theorem andThen {o : Outcome ε α c} (h : Takes k o)
    {f : α → (c' : Cursor) → c.Onward c' → Outcome ε β c'}
    (hf : ∀ v c' (hc : c.Onward c'), Takes j (f v c' hc)) : Takes (k + j) (o.andThen f) := by
  unfold Outcome.andThen
  cases hr : o.result with
  | error e => exact ⟨h.reaches, fun v hv => nomatch hv⟩
  | ok w =>
    have hnext := hf w o.cursor o.onward
    refine ⟨h.reaches.trans hnext.reaches, fun v hv => ?_⟩
    have hfirst := h.taken w hr
    have hsecond : o.cursor.position + j ≤ _ := hnext.taken v hv
    show c.position + (k + j) ≤ (f w o.cursor o.onward).cursor.position
    omega

/-- An action behind a token that is read takes that token too. -/
theorem behind_advance (hsome : c.lookahead.isSome) {o : Outcome ε α c.advance.2}
    (h : Takes k o) : Takes (k + 1) (o.behind (onward_advance c)) := by
  refine ⟨(reaches_advance c).trans h.reaches, fun v hv => ?_⟩
  have htaken : c.advance.2.position + k ≤ o.cursor.position := h.taken v hv
  have hposition : c.advance.2.position = c.position + 1 := by
    rw [advance, if_pos (isSome_lookahead_iff.1 hsome)]
  show c.position + (k + 1) ≤ o.cursor.position
  omega

/-- An action behind `advance`, whether or not that has read a token. -/
theorem behind {o : Outcome ε α c.advance.2} (h : Takes k o) :
    Takes k (o.behind (onward_advance c)) :=
  ⟨(reaches_advance c).trans h.reaches, fun v hv =>
    Nat.le_trans (Nat.add_le_add_right (onward_advance c).position k) (h.taken v hv)⟩

end Takes

/-! ### What literals and arguments take -/

theorem takes_expect (k : Kind) (construct : String) (c : Cursor) :
    Takes 1 (expect k construct c) := by
  unfold expect
  split
  · next h =>
    exact Takes.behind_advance (isSome_of_isNext h)
      (o := Outcome.pure c.advance.2.currentText c.advance.2) (Takes.pure _ _)
  · exact .fail 1 _ c

/-- Items with a token each take one together, since there is an item. -/
theorem takes_items {closer : Kind} {n : Nat}
    {item : α → (c : Cursor) → c.left < n → Outcome Mismatch α c}
    (hitem : ∀ a c h, Takes 1 (item a c h)) (a : α) (c : Cursor) (h : c.left < n) :
    Takes 1 (items closer n item a c h) := by
  rw [items]
  refine Takes.andThen (j := 0) (hitem a c h) fun a' c₁ h₁ => ?_
  split
  · next hc =>
    have hlt : c₁.advance.2.left < c.left :=
      Nat.lt_of_lt_of_le (left_advance_of_isNext hc) h₁.left_le
    refine Takes.behind ?_
    split
    · exact .pure a' _
    · exact (takes_items hitem a' c₁.advance.2 _).weaken (Nat.zero_le 1)
  · exact .pure a' c₁
termination_by c.left

/-- A list in brackets takes its opener and its closer. -/
theorem takes_bracketed (opener closer : Kind) (construct : String) (a : α) (c : Cursor)
    {list : (c' : Cursor) → c'.left < c.left → Outcome Mismatch α c'}
    (hlist : ∀ c' h, Takes 0 (list c' h)) :
    Takes 2 (bracketed opener closer construct a c list) := by
  unfold bracketed
  split
  · next h =>
    refine Takes.behind_advance (isSome_of_isNext h) (k := 1) ?_
    refine Takes.andThen (k := 0) ?_ fun a' c' _ => (takes_expect closer construct c').map _
    split
    · exact .pure a _
    · exact hlist _ _
  · exact .fail 2 _ c

theorem takes_scalar (c : Cursor) : Takes 1 (scalar c) := by
  unfold scalar
  split
  · exact .fail 1 _ c
  · split
    · exact (takes_expect _ _ c).andThen fun lexeme c' _ => .ofExcept _ c'
    · exact .fail 1 _ c

theorem takes_entryKey (m : LiteralMap) (c : Cursor) : Takes 0 (entryKey m c) := by
  unfold entryKey
  split
  · refine Takes.behind ?_
    unfold colonKey
    split
    · exact ((takes_expect _ _ _).map _).weaken (Nat.zero_le 1)
    · exact .fail 0 _ _
  · exact .pure _ c

/-- Read an entry into a map. -/
def entry (m : LiteralMap) (c : Cursor) : Outcome Mismatch LiteralMap c :=
  (entryKey m c).andThen fun k c' _ => (literal c').map fun v => m.insert k v

/-- An entry takes what its literal takes, since it may have no key. -/
theorem takes_entry_of (m : LiteralMap) (h : ∀ c', c.Onward c' → Takes 1 (literal c')) :
    Takes 1 (entry m c) :=
  Takes.andThen (j := 1) (takes_entryKey m c) fun _ c' hc => (h c' hc).map _

/-- A literal is one token, or a list of entries in braces. -/
theorem literal_eq (c : Cursor) :
    literal c =
      if c.isNext .openBrace then
        (bracketed .openBrace .closeBrace "array" .empty c fun c₁ h₁ =>
          items .closeBrace c.left (fun m c₂ _ => entry m c₂) .empty c₁ h₁).map
            LiteralMap.toLiteral
      else scalar c := by
  rw [literal]
  rfl

theorem takes_literal (c : Cursor) : Takes 1 (literal c) := by
  rw [literal_eq]
  split
  · refine Takes.map (Takes.weaken (takes_bracketed _ _ _ _ c fun c₁ h₁ => ?_) (Nat.le_succ 1)) _
    refine Takes.weaken (takes_items (fun m c₂ h₂ => ?_) _ c₁ h₁) (Nat.zero_le 1)
    refine takes_entry_of m fun c₃ h₃ => ?_
    -- the entry stands behind the opening brace, so fewer tokens are left
    have hlt : c₃.left < c.left := Nat.lt_of_le_of_lt h₃.left_le h₂
    exact takes_literal c₃
  · exact takes_scalar c
termination_by c.left

theorem takes_entry (m : LiteralMap) (c : Cursor) : Takes 1 (entry m c) :=
  takes_entry_of m fun c' _ => takes_literal c'

theorem takes_argument (a : Arguments) (c : Cursor) : Takes 1 (argument a c) := by
  unfold argument
  split
  · refine Takes.behind (Takes.weaken (k := 2) ?_ (Nat.le_succ 1))
    exact (takes_expect _ _ _).andThen fun _ c' _ => (takes_literal c').map _
  · exact (takes_literal c).map _

theorem takes_parenthesis (c : Cursor) : Takes 0 (parenthesis c) := by
  unfold parenthesis
  split
  · refine Takes.map (Takes.weaken (takes_bracketed _ _ _ _ c fun c₁ h₁ => ?_) (Nat.zero_le 2)) _
    exact (takes_items (fun a c₂ _ => takes_argument a c₂) _ c₁ h₁).weaken (Nat.zero_le 1)
  · exact .pure none c

/-! ### Loops -/

/-- How a turn of a loop ends: with another turn, or with the value of the loop. -/
inductive Turn (σ β : Type) where
  | again (s : σ)
  | leave (v : β)

/-- What a loop does behind a turn. -/
def Turn.next (loop : σ → (c : Cursor) → Outcome ε β c) :
    Turn σ β → (c : Cursor) → Outcome ε β c
  | .again s, c => loop s c
  | .leave v, c => .pure v c

/-- A loop from the state `s` and the cursor `c` on, turn by turn: how many turns it has, what it
    gives, and where it leaves the cursor. A turn fails, leaves the loop, or has read a token. -/
inductive Loops (turn : σ → (c : Cursor) → Outcome ε (Turn σ β) c) :
    σ → Cursor → Nat → Except ε β → Cursor → Prop where
  | fails {s : σ} {c : Cursor} {e : ε} (h : (turn s c).result = .error e) :
      Loops turn s c 1 (.error e) (turn s c).cursor
  | leaves {s : σ} {c : Cursor} {v : β} (h : (turn s c).result = .ok (.leave v)) :
      Loops turn s c 1 (.ok v) (turn s c).cursor
  | again {s s' : σ} {c c' : Cursor} {n : Nat} {r : Except ε β}
      (h : (turn s c).result = .ok (.again s'))
      (reads : c.position < (turn s c).cursor.position)
      (behind : Loops turn s' (turn s c).cursor n r c') : Loops turn s c (n + 1) r c'

/-- Every turn reaches the place where it leaves the cursor, and has read a token when another turn
    comes behind it. -/
structure Moves (turn : σ → (c : Cursor) → Outcome ε (Turn σ β) c) : Prop where
  reaches : ∀ s c, Reaches c (turn s c).cursor
  reads : ∀ s c s', (turn s c).result = .ok (.again s') → c.position < (turn s c).cursor.position

namespace Moves

variable {turn : σ → (c : Cursor) → Outcome ε (Turn σ β) c}
  {loop : σ → (c : Cursor) → Outcome ε β c}

theorem reaches_of_loops (h : Moves turn) {s : σ} {n : Nat} {r : Except ε β}
    (hloops : Loops turn s c n r c') : Reaches c c' := by
  induction hloops with
  | fails => exact h.reaches _ _
  | leaves => exact h.reaches _ _
  | again _ _ _ ih => exact (h.reaches _ _).trans ih

/-- A loop that does its turn and goes on as the turn says ends behind at most one turn more than
    tokens are left. -/
theorem loops (h : Moves turn)
    (hloop : ∀ s c, loop s c = (turn s c).andThen fun t c' _ => t.next loop c')
    (s : σ) (c : Cursor) :
    ∃ n ≤ c.left + 1, Loops turn s c n (loop s c).result (loop s c).cursor := by
  rw [hloop, andThen]
  cases hr : (turn s c).result with
  | error e => exact ⟨1, Nat.le_add_left 1 _, .fails hr⟩
  | ok t =>
    cases t with
    | leave v => exact ⟨1, Nat.le_add_left 1 _, .leaves hr⟩
    | again s' =>
      -- the token that the turn has read is what makes the rest of the loop shorter
      have hreads := h.reads s c s' hr
      have hlt := (h.reaches s c).left_lt hreads
      obtain ⟨n, hn, hbehind⟩ := h.loops hloop s' (turn s c).cursor
      exact ⟨n + 1, by omega, .again hr hreads hbehind⟩
termination_by c.left

end Moves

/-- A turn, or the end of the loop when no token is left. -/
def whileNext (turn : σ → (c : Cursor) → Outcome ε (Turn σ β) c) (done : σ → β) (s : σ)
    (c : Cursor) : Outcome ε (Turn σ β) c :=
  if c.lookahead.isSome then turn s c else .pure (.leave (done s)) c

theorem moves_whileNext {turn : σ → (c : Cursor) → Outcome ε (Turn σ β) c} {done : σ → β}
    (h : ∀ s c, c.lookahead.isSome → Takes 1 (turn s c)) : Moves (whileNext turn done) := by
  constructor
  · intro s c
    unfold whileNext
    split
    · next hsome => exact (h s c hsome).reaches
    · exact .refl
  · intro s c s' hr
    unfold whileNext at hr ⊢
    split at hr
    · next hsome =>
      rw [if_pos hsome]
      exact (h s c hsome).taken _ hr
    · cases hr

/-! ### Loops over items -/

/-- One turn over items: an item, and a comma when one is next. -/
def itemTurn (closer : Kind) (item : α → (c : Cursor) → Outcome Mismatch α c) (a : α)
    (c : Cursor) : Outcome Mismatch (Turn α α) c :=
  (item a c).andThen fun a' c₁ _ =>
    if c₁.isNext .comma then
      .behind (onward_advance c₁)
        (.pure (if c₁.advance.2.isNext closer then .leave a' else .again a') c₁.advance.2)
    else .pure (.leave a') c₁

/-- Read items, with no bound on the tokens left. -/
def itemLoop (closer : Kind) (item : α → (c : Cursor) → Outcome Mismatch α c) (a : α)
    (c : Cursor) : Outcome Mismatch α c :=
  items closer (c.left + 1) (fun a c _ => item a c) a c (Nat.lt_succ_self _)

section Items

variable {closer : Kind} {item : α → (c : Cursor) → Outcome Mismatch α c}

theorem items_eq_itemLoop {n : Nat} (a : α) (c : Cursor) (h : c.left < n) :
    items closer n (fun a c _ => item a c) a c h = itemLoop closer item a c := by
  rw [itemLoop, items, items]
  congr 1
  funext a' c₁ h₁
  split
  · next hc =>
    have hlt : c₁.advance.2.left < c.left :=
      Nat.lt_of_lt_of_le (left_advance_of_isNext hc) h₁.left_le
    dsimp only
    rw [items_eq_itemLoop a' c₁.advance.2, items_eq_itemLoop a' c₁.advance.2]
  · rfl
termination_by c.left

theorem itemLoop_turn (a : α) (c : Cursor) :
    itemLoop closer item a c =
      (itemTurn closer item a c).andThen fun t c' _ => t.next (itemLoop closer item) c' := by
  rw [itemLoop, items, itemTurn, andThen_assoc]
  congr 1
  funext a' c₁ h₁
  split
  · dsimp only
    rw [behind_andThen, pure_andThen, items_eq_itemLoop]
    split <;> rfl
  · rfl

theorem moves_itemTurn (hitem : ∀ a c, Takes 1 (item a c)) : Moves (itemTurn closer item) := by
  have htakes : ∀ a c, Takes 1 (itemTurn closer item a c) := fun a c => by
    refine Takes.andThen (j := 0) (hitem a c) fun a' c₁ _ => ?_
    split
    · exact Takes.behind (.pure _ _)
    · exact .pure _ c₁
  exact ⟨fun a c => (htakes a c).reaches, fun a c a' h => (htakes a c).taken _ h⟩

theorem loops_items (hitem : ∀ a c, Takes 1 (item a c)) {n : Nat} (a : α) (c : Cursor)
    (h : c.left < n) :
    ∃ k ≤ c.left + 1, Loops (itemTurn closer item) a c k
      (items closer n (fun a c _ => item a c) a c h).result
      (items closer n (fun a c _ => item a c) a c h).cursor := by
  rw [items_eq_itemLoop]
  exact (moves_itemTurn hitem).loops itemLoop_turn a c

end Items

/-! ### The loop over a group of parentheses -/

/-- What a token of a group does to its depth. -/
def nest (depth : Nat) : Option Kind → Turn Nat Unit
  | some .openParen => .again (depth + 1)
  | some .closeParen => if depth - 1 = 0 then .leave () else .again (depth - 1)
  | _ => .again depth

/-- One turn over a group: a token. -/
def groupTurn : Nat → (c : Cursor) → Outcome ε (Turn Nat Unit) c :=
  whileNext (fun depth c => .behind (onward_advance c) (.pure (nest depth c.nextKind) c.advance.2))
    fun _ => ()

theorem closing_turn (depth : Nat) (c : Cursor) :
    (closing depth c : Outcome ε Unit c) =
      (groupTurn depth c).andThen fun t c' _ => t.next closing c' := by
  rw [closing, groupTurn, whileNext]
  split
  · rw [behind_andThen, pure_andThen]
    dsimp only
    generalize c.nextKind = next
    split
    · rfl
    · rw [nest]
      split <;> rfl
    · next ho hc =>
      rw [nest]
      · rfl
      · exact ho
      · exact hc
  · rfl

theorem moves_groupTurn :
    Moves (groupTurn : Nat → (c : Cursor) → Outcome ε (Turn Nat Unit) c) :=
  moves_whileNext fun _ _ hsome => .behind_advance hsome (.pure _ _)

theorem takes_skip (c : Cursor) : Takes 0 (skip c : Outcome ε Unit c) := by
  unfold skip
  split
  · -- nothing but its turns says where the loop leaves the cursor
    obtain ⟨n, -, hloops⟩ := moves_groupTurn.loops closing_turn 0 c
    have hreaches := moves_groupTurn.reaches_of_loops hloops
    exact ⟨hreaches, fun _ _ => hreaches.onward.position⟩
  · exact .pure () c

/-! ### Directives and the loop over a comment -/

variable (site : Site) (ignored : IgnoredNames)

/-- Read a directive with its `@`. -/
def marked (c : Cursor) : Outcome Failure (Option Directive) c :=
  ((expect .start "directive" c).mapError site.failure).andThen fun _ c' _ =>
    directive site ignored c'

theorem marked_of_next (h : c.isNext .start = true) :
    marked site ignored c = (directive site ignored c.advance.2).behind (onward_advance c) := by
  rw [marked, expect, if_pos h]
  rfl

/-- A directive takes its name. -/
theorem takes_directive (c : Cursor) : Takes 1 (directive site ignored c) := by
  unfold directive
  by_cases hsome : c.lookahead.isSome
  · refine Takes.behind_advance hsome ?_
    split
    · exact .fail 0 _ _
    · split
      · exact (takes_skip _).map _
      · split
        · exact .fail 0 _ _
        · exact ((takes_parenthesis _).mapError _).map _
  · have hread : c.advance.1 = false := by
      rw [advance, if_neg (isSome_lookahead_iff.not.1 hsome)]
    refine Takes.behind ?_
    rw [if_pos (by rw [hread]; rfl)]
    exact .fail 1 _ _

theorem takes_marked (c : Cursor) : Takes 2 (marked site ignored c) :=
  ((takes_expect _ _ c).mapError _).andThen fun _ c' _ => takes_directive site ignored c'

/-- One turn over a comment: a directive, or a token that begins none. -/
def commentTurn : List Directive → (c : Cursor) →
    Outcome Failure (Turn (List Directive) (List Directive)) c :=
  whileNext (fun ds c =>
    if c.isNext .start then (marked site ignored c).map fun d => .again (ds ++ d.toList)
    else .behind (onward_advance c) (.pure (.again ds) c.advance.2)) id

theorem comment_turn (ds : List Directive) (c : Cursor) :
    comment site ignored ds c = (commentTurn site ignored ds c).andThen fun t c' _ =>
      t.next (comment site ignored) c' := by
  rw [comment, commentTurn, whileNext]
  split
  · dsimp only
    split
    · next hnext =>
      rw [marked_of_next site ignored hnext, map_andThen, behind_andThen]
      rfl
    · rw [behind_andThen, pure_andThen]
      rfl
  · rfl

theorem moves_commentTurn : Moves (commentTurn site ignored) :=
  moves_whileNext fun ds c hsome => by
    split
    · exact ((takes_marked site ignored c).map _).weaken (Nat.le_succ 1)
    · exact .behind_advance hsome (.pure _ _)

/-- What reading does from a cursor on, whatever its tokens are: a literal, an entry and an argument
    take a token, a directive takes two, and every turn of a loop but the last reads one. -/
structure Progress (c : Cursor) : Prop where
  literal : Takes 1 (literal c)
  entry : ∀ m, Takes 1 (entry m c)
  argument : ∀ a, Takes 1 (argument a c)
  directive : Takes 2 (marked site ignored c)
  entries : ∀ n m (h : c.left < n), ∃ k ≤ c.left + 1,
    Loops (itemTurn .closeBrace Cursor.entry) m c k
      (items .closeBrace n (fun m c _ => Cursor.entry m c) m c h).result
      (items .closeBrace n (fun m c _ => Cursor.entry m c) m c h).cursor
  arguments : ∀ n a (h : c.left < n), ∃ k ≤ c.left + 1,
    Loops (itemTurn .closeParen Cursor.argument) a c k
      (items .closeParen n (fun a c _ => Cursor.argument a c) a c h).result
      (items .closeParen n (fun a c _ => Cursor.argument a c) a c h).cursor
  group : ∀ depth, ∃ n ≤ c.left + 1, Loops (groupTurn (ε := Failure)) depth c n
    (closing depth c).result (closing depth c : Outcome Failure Unit c).cursor
  comment : ∀ ds, ∃ n ≤ c.left + 1, Loops (commentTurn site ignored) ds c n
    (comment site ignored ds c).result (comment site ignored ds c).cursor

theorem progress (c : Cursor) : Progress site ignored c where
  literal := takes_literal c
  entry m := takes_entry m c
  argument a := takes_argument a c
  directive := takes_marked site ignored c
  entries _ m h := loops_items takes_entry m c h
  arguments _ a h := loops_items takes_argument a c h
  group depth := moves_groupTurn.loops closing_turn depth c
  comment ds := (moves_commentTurn site ignored).loops (comment_turn site ignored) ds c

/-- A comment that does not fail leaves no token. -/
theorem rest_of_comment {site : Site} {ignored : IgnoredNames} {ds ds' : List Directive}
    (h : (comment site ignored ds c).result = .ok ds') :
    (comment site ignored ds c).cursor.rest = [] := by
  have hseen := seen_comment site ignored ds c
  cases hd : Parser.directives site ignored c.rest with
  | error e =>
    rw [hd, seen, h] at hseen
    cases hseen
  | ok rs =>
    rw [hd] at hseen
    exact rest_of_seen hseen

end Cursor

/-! ### Sessions -/

namespace Session

open Cursor

/-- How a session reads a comment: with its cursor going forward from the first token, in turns of
    which all but the last read a token, and to the end unless it fails. -/
structure Ends (s : Session) (site : Site) (text : String) : Prop where
  reaches : Reaches (s.cursor.load text) (s.parse site text).2.cursor
  within : (s.parse site text).2.cursor.position ≤ (s.cursor.load text).tokens.length
  turns : ∃ n ≤ (s.cursor.load text).tokens.length + 1,
    Loops (commentTurn site s.ignored) [] (s.cursor.load text) n (s.parse site text).1
      (s.parse site text).2.cursor
  whole : ∀ ds, (s.parse site text).1 = .ok ds →
    (s.parse site text).2.cursor.position = (s.cursor.load text).tokens.length

theorem ends (s : Session) (site : Site) (text : String) : s.Ends site text := by
  obtain ⟨n, hn, hloops⟩ := (progress site s.ignored (s.cursor.load text)).comment []
  have hreaches := (moves_commentTurn site s.ignored).reaches_of_loops hloops
  have htokens := hreaches.onward.tokens
  have hwithin := hreaches.position_le (Nat.zero_le _)
  rw [htokens] at hwithin
  refine ⟨hreaches, hwithin, ⟨n, hn, hloops⟩, fun ds h => Nat.le_antisymm hwithin ?_⟩
  have hrest := rest_of_comment h
  rwa [rest, List.drop_eq_nil_iff, htokens] at hrest

/-- Reading always ends, and only goes forward: the reading of any text with any classifier, and
    what each of its parts does from any cursor on. -/
theorem parse_progress (s : Session) (site : Site) (text : String) :
    s.Ends site text ∧ (∀ c, Progress site s.ignored c) ∧
      ∀ c c', Reaches c c' → c.Onward c' ∧
        (c.position ≤ c.tokens.length → c'.position ≤ c'.tokens.length) :=
  ⟨ends s site text, progress site s.ignored, fun _ _ h => ⟨h.onward, h.position_le⟩⟩

end Session

end DocDirectives
