import DocDirectives.Grammar
import DocDirectives.Token.Cursor

/-! # Moving a cursor

    An action on a cursor gives a value or a failure, and in both cases leaves the cursor somewhere:
    further on in the same tokens, or where it was. What an action does is seen in the tokens that
    are not read yet. -/

namespace DocDirectives

namespace Cursor

/-- The tokens not read yet. -/
def rest (c : Cursor) : List Token := c.tokens.drop c.position

/-- How many tokens are not read yet. -/
def left (c : Cursor) : Nat := c.tokens.length - c.position

/-- The kind of the lookahead. -/
def nextKind (c : Cursor) : Option Kind := c.lookahead.map Token.kind

/-- The kind of the token behind the lookahead. -/
def peekKind (c : Cursor) : Option Kind := c.peek.map Token.kind

/-- The text of the token read last, empty when there is none. -/
def currentText (c : Cursor) : String := (c.currentToken.map Token.text).getD ""

/-- `c'` is at or behind the place of `c` in the same tokens. -/
structure Onward (c c' : Cursor) : Prop where
  classifier : c'.classifier = c.classifier
  tokens : c'.tokens = c.tokens
  position : c.position ≤ c'.position

namespace Onward

variable {c c' c'' : Cursor}

theorem refl (c : Cursor) : Onward c c := ⟨rfl, rfl, Nat.le_refl _⟩

theorem trans (h : Onward c c') (h' : Onward c' c'') : Onward c c'' where
  classifier := h'.classifier.trans h.classifier
  tokens := h'.tokens.trans h.tokens
  position := Nat.le_trans h.position h'.position

theorem left_le (h : Onward c c') : c'.left ≤ c.left := by
  have := h.position
  rw [left, left, h.tokens]
  omega

end Onward

theorem onward_advance (c : Cursor) : Onward c c.advance.2 := by
  unfold advance
  split
  · exact ⟨rfl, rfl, Nat.le_succ _⟩
  · exact ⟨rfl, rfl, Nat.le_refl _⟩

theorem isSome_lookahead_iff {c : Cursor} :
    c.lookahead.isSome = true ↔ c.position < c.tokens.length := by simp [lookahead]

theorem left_advance_lt {c : Cursor} (h : c.lookahead.isSome) : c.advance.2.left < c.left := by
  have hlt := isSome_lookahead_iff.1 h
  rw [advance, if_pos hlt]
  simp only [left]
  omega

theorem isSome_of_isNext {c : Cursor} {k : Kind} (h : c.isNext k = true) :
    c.lookahead.isSome := by
  unfold isNext at h
  cases hl : c.lookahead with
  | none => simp [hl] at h
  | some t => rfl

theorem left_advance_of_isNext {c : Cursor} {k : Kind} (h : c.isNext k = true) :
    c.advance.2.left < c.left := left_advance_lt (isSome_of_isNext h)

/-! ### What a cursor sees -/

theorem length_rest (c : Cursor) : c.rest.length = c.left := List.length_drop

theorem lookahead_eq (c : Cursor) : c.lookahead = c.rest.head? := by
  rw [lookahead, rest, List.head?_drop]

theorem peek_eq (c : Cursor) : c.peek = c.rest.tail.head? := by
  rw [peek, rest, List.tail_drop, List.head?_drop]

theorem isSome_lookahead_of_rest {c : Cursor} {t : Token} {ts : List Token}
    (h : c.rest = t :: ts) : c.lookahead.isSome := by
  rw [lookahead_eq, h]
  rfl

theorem nextKind_of_rest {c : Cursor} {t : Token} {ts : List Token} (h : c.rest = t :: ts) :
    c.nextKind = some t.kind := by
  rw [nextKind, lookahead_eq, h]
  rfl

theorem isNext_eq (c : Cursor) (k : Kind) : c.isNext k = Grammar.isNext k c.rest := by
  rw [isNext, lookahead_eq]
  cases c.rest <;> simp [Grammar.isNext]

theorem advance_of_rest_nil {c : Cursor} (h : c.rest = []) :
    c.advance = (false, { c with current := none }) := by
  rw [rest, List.drop_eq_nil_iff] at h
  rw [advance, if_neg (by omega)]

theorem advance_of_rest_cons {c : Cursor} {t : Token} {ts : List Token} (h : c.rest = t :: ts) :
    c.advance = (true, { c with position := c.position + 1, current := some c.position }) := by
  have hlen := congrArg List.length h
  rw [rest, List.length_drop, List.length_cons] at hlen
  rw [advance, if_pos (by omega)]

theorem rest_advance (c : Cursor) : c.advance.2.rest = c.rest.tail := by
  cases h : c.rest with
  | nil =>
    rw [advance_of_rest_nil h]
    exact h
  | cons t ts =>
    rw [advance_of_rest_cons h, ← h]
    simp only [rest, List.tail_drop]

theorem rest_advance_of_rest {c : Cursor} {t : Token} {ts : List Token} (h : c.rest = t :: ts) :
    c.advance.2.rest = ts := by
  rw [rest_advance, h, List.tail_cons]

theorem currentToken_advance (c : Cursor) : c.advance.2.currentToken = c.rest.head? := by
  cases h : c.rest with
  | nil =>
    rw [advance_of_rest_nil h]
    rfl
  | cons t ts =>
    rw [advance_of_rest_cons h, ← h, ← lookahead_eq]
    rfl

theorem currentText_advance {c : Cursor} {t : Token} {ts : List Token} (h : c.rest = t :: ts) :
    c.advance.2.currentText = t.text := by
  rw [currentText, currentToken_advance, h]
  rfl

/-! ### Actions -/

/-- What an action gives, and where it leaves the cursor `c`. -/
structure Outcome (ε α : Type) (c : Cursor) where
  result : Except ε α
  cursor : Cursor
  onward : c.Onward cursor

namespace Outcome

variable {ε ε' α β γ : Type} {c c' : Cursor}

/-- Give a value and stay. -/
def pure (v : α) (c : Cursor) : Outcome ε α c := ⟨.ok v, c, .refl c⟩

/-- Fail and stay. -/
def fail (e : ε) (c : Cursor) : Outcome ε α c := ⟨.error e, c, .refl c⟩

/-- Give a value or fail, and stay. -/
def ofExcept (r : Except ε α) (c : Cursor) : Outcome ε α c := ⟨r, c, .refl c⟩

/-- The same action, seen from an earlier place. -/
def behind (h : c.Onward c') (o : Outcome ε α c') : Outcome ε α c :=
  ⟨o.result, o.cursor, h.trans o.onward⟩

def map (f : α → β) (o : Outcome ε α c) : Outcome ε β c := ⟨o.result.map f, o.cursor, o.onward⟩

def mapError (f : ε → ε') (o : Outcome ε α c) : Outcome ε' α c :=
  ⟨o.result.mapError f, o.cursor, o.onward⟩

/-- One action and, unless it fails, another from where it has left the cursor. -/
def andThen (o : Outcome ε α c) (f : α → (c' : Cursor) → c.Onward c' → Outcome ε β c') :
    Outcome ε β c :=
  match o.result with
  | .ok v => (f v o.cursor o.onward).behind o.onward
  | .error e => ⟨.error e, o.cursor, o.onward⟩

/-- What an action gives, and the tokens that it leaves. -/
def seen (o : Outcome ε α c) : Except ε (α × List Token) := o.result.map fun v => (v, o.cursor.rest)

theorem result_eq_seen (o : Outcome ε α c) : o.result = o.seen.map Prod.fst := by
  unfold seen
  cases o.result <;> rfl

theorem rest_of_seen {o : Outcome ε α c} {v : α} {ts : List Token} (h : o.seen = .ok (v, ts)) :
    o.cursor.rest = ts := by
  obtain ⟨r, c', h'⟩ := o
  cases r with
  | error e => cases h
  | ok w =>
    cases h
    rfl

theorem seen_pure (v : α) (c : Cursor) : (pure v c : Outcome ε α c).seen = .ok (v, c.rest) := rfl

theorem seen_ofExcept (r : Except ε α) (c : Cursor) :
    (ofExcept r c).seen = r.map fun v => (v, c.rest) := rfl

theorem seen_behind (h : c.Onward c') (o : Outcome ε α c') : (o.behind h).seen = o.seen := rfl

theorem seen_map (f : α → β) (o : Outcome ε α c) :
    (o.map f).seen = o.seen.map fun p => (f p.1, p.2) := by
  unfold seen map
  cases o.result <;> rfl

theorem seen_mapError (f : ε → ε') (o : Outcome ε α c) :
    (o.mapError f).seen = o.seen.mapError f := by
  unfold seen mapError
  cases o.result <;> rfl

/-- Two actions behind each other, when what the second does is seen in the tokens left. -/
theorem seen_andThen (o : Outcome ε α c) {f : α → (c' : Cursor) → c.Onward c' → Outcome ε β c'}
    {g : α → List Token → Except ε (β × List Token)}
    (h : ∀ v c' (hc : c.Onward c'), (f v c' hc).seen = g v c'.rest) :
    (o.andThen f).seen = o.seen.bind fun p => g p.1 p.2 := by
  unfold andThen seen
  cases hr : o.result with
  | error e => rfl
  | ok v => exact h v o.cursor o.onward

theorem behind_andThen (h : c.Onward c') (o : Outcome ε α c')
    (f : α → (c' : Cursor) → Outcome ε β c') :
    (o.behind h).andThen (fun v c' _ => f v c') = (o.andThen fun v c' _ => f v c').behind h := by
  obtain ⟨r, c'', h'⟩ := o
  cases r <;> rfl

theorem andThen_assoc (o : Outcome ε α c) (f : α → (c' : Cursor) → c.Onward c' → Outcome ε β c')
    (g : β → (c' : Cursor) → Outcome ε γ c') :
    (o.andThen f).andThen (fun v c' _ => g v c') =
      o.andThen fun v c' h => (f v c' h).andThen fun w c'' _ => g w c'' := by
  obtain ⟨r, c', h⟩ := o
  cases r with
  | error e => rfl
  | ok v => exact behind_andThen h (f v c' h) g

theorem map_andThen (o : Outcome ε α c) (f : α → γ) (g : γ → (c' : Cursor) → Outcome ε β c') :
    (o.map f).andThen (fun v c' _ => g v c') = o.andThen fun v c' _ => g (f v) c' := by
  obtain ⟨r, c', h⟩ := o
  cases r <;> rfl

theorem pure_andThen (v : α) (f : α → (c' : Cursor) → Outcome ε β c') :
    (pure v c).andThen (fun v c' _ => f v c') = f v c := rfl

end Outcome

end Cursor

end DocDirectives
