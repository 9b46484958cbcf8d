import DocDirectives.Proofs.Comment.Occurrence
import DocDirectives.Proofs.Grammar.Group
import DocDirectives.Proofs.Session.Reader

/-! # Reading with a cursor and reading a list

    The reader with a cursor and the reader of a token list give the same: at every cursor the same
    value with the same tokens left behind it, or the same failure. The lists of the two grammars
    differ. The cursor goes through a list in a loop and reads the closer behind it; the token list
    is read by recursion, item by item, closer included. Both go on in one way behind an item,
    `more`, and from that they agree. -/

namespace DocDirectives

namespace Grammar

variable {α : Type}

/-! ### Readers of a token list -/

/-- What a reader gives, and the tokens behind it. -/
def seen {ts : List Token} (r : Except Mismatch (Parsed α ts)) :
    Except Mismatch (α × List Token) := r.map fun p => (p.value, p.rest)

/-- The end of a list that gives `a`: its closer. -/
def close (closer : Kind) (construct : String) (a : α) (ts : List Token) :
    Except Mismatch (α × List Token) :=
  if isNext closer ts then .ok (a, ts.tail) else .error ⟨construct, closer.text⟩

/-- What is read behind an item: the end of the list, or a comma and the items that `next` reads. -/
def more (closer : Kind) (construct : String)
    (next : α → List Token → Except Mismatch (α × List Token)) (a : α) (ts : List Token) :
    Except Mismatch (α × List Token) :=
  if isNext .comma ts then
    if isNext closer ts.tail then .ok (a, ts.tail.tail) else next a ts.tail
  else close closer construct a ts

/-- One entry, read into a map. -/
def entry (m : LiteralMap) (ts : List Token) : Except Mismatch (LiteralMap × List Token) :=
  (seen (literal (entryKey m ts).2)).map fun p => (m.insert (entryKey m ts).1 p.1, p.2)

/-- One argument, read into a list. -/
def argument (a : Arguments) (ts : List Token) : Except Mismatch (Arguments × List Token) :=
  (seen (literal (argumentName ts).2)).map fun p => (addArgument a (argumentName ts).1 p.1, p.2)

/-- Behind an item a recursive reader does what `more` says. -/
theorem seen_tail {closer : Kind} {construct : String} {a : α} {ts us : List Token}
    (items : α → ∀ xs, Except Mismatch (Parsed α xs))
    {next : isNext .comma us = true → ¬isNext closer us.tail = true → Except Mismatch (Parsed α ts)}
    (hnext : ∀ hc hb, seen (next hc hb) = seen (items a us.tail))
    {h₁ : isNext .comma us = true → isNext closer us.tail = true → us.tail.tail.length < ts.length}
    {h₂ : isNext closer us = true → us.tail.length < ts.length} :
    seen (if hc : isNext .comma us = true then
        if hb : isNext closer us.tail = true then .ok ⟨a, us.tail.tail, h₁ hc hb⟩ else next hc hb
      else if hb : isNext closer us = true then .ok ⟨a, us.tail, h₂ hb⟩
      else .error ⟨construct, closer.text⟩) =
    more closer construct (fun a xs => seen (items a xs)) a us := by
  unfold more close
  by_cases hc : isNext .comma us = true
  · rw [dif_pos hc, if_pos hc]
    by_cases hb : isNext closer us.tail = true
    · rw [dif_pos hb, if_pos hb]
      rfl
    · rw [dif_neg hb, if_neg hb, hnext]
  · rw [dif_neg hc, if_neg hc]
    by_cases hb : isNext closer us = true
    · rw [dif_pos hb, if_pos hb]
      rfl
    · rw [dif_neg hb, if_neg hb]
      rfl

theorem seen_entries (m : LiteralMap) (ts : List Token) :
    seen (entries m ts) = (entry m ts).bind fun p =>
      more .closeBrace "array" (fun m ts => seen (entries m ts)) p.1 p.2 := by
  rw [entries, entry]
  cases literal (entryKey m ts).2 with
  | error e => rfl
  | ok p =>
    refine seen_tail entries fun _ _ => ?_
    cases entries (m.insert (entryKey m ts).1 p.value) p.rest.tail <;> rfl

theorem seen_arguments (a : Arguments) (ts : List Token) :
    seen (arguments a ts) = (argument a ts).bind fun p =>
      more .closeParen "parenthesis" (fun a ts => seen (arguments a ts)) p.1 p.2 := by
  rw [arguments, argument]
  cases literal (argumentName ts).2 with
  | error e => rfl
  | ok p =>
    refine seen_tail arguments fun _ _ => ?_
    cases arguments (addArgument a (argumentName ts).1 p.value) p.rest.tail <;> rfl

/-- What is read from an opener on: its closer, or items. -/
def opened (closer : Kind) (a : α) (items : List Token → Except Mismatch (α × List Token))
    (ts : List Token) : Except Mismatch (α × List Token) :=
  if isNext closer ts then .ok (a, ts.tail) else items ts

theorem seen_literal_of_brace {t : Token} (h : t.kind = .openBrace) (ts : List Token) :
    seen (literal (t :: ts)) =
      (opened .closeBrace .empty (fun us => seen (entries .empty us)) ts).map fun p =>
        (p.1.toLiteral, p.2) := by
  rw [literal, if_pos h, opened]
  by_cases hc : isNext .closeBrace ts = true
  · rw [dif_pos hc, if_pos hc]
    rfl
  · rw [dif_neg hc, if_neg hc, LiteralMap.empty]
    cases entries {} ts <;> rfl

theorem seen_literal_of_not_brace {t : Token} (h : t.kind ≠ .openBrace) (ts : List Token) :
    seen (literal (t :: ts)) = (atom t).map fun v => (v, ts) := by
  rw [literal, if_neg h]
  cases atom t <;> rfl

theorem seen_parenthesis {t : Token} (h : t.kind = .openParen) (ts : List Token) :
    seen (parenthesis (t :: ts)) =
      opened .closeParen {} (fun us => seen (arguments {} us)) ts := by
  rw [parenthesis, if_pos h, opened]
  by_cases hc : isNext .closeParen ts = true
  · rw [dif_pos hc, if_pos hc]
    rfl
  · rw [dif_neg hc, if_neg hc]
    cases arguments {} ts <;> rfl

end Grammar

namespace Parser

/-- What is read behind an `@`: a directive, or nothing for an ignored one, and the tokens left. -/
def behindMark (site : Site) (ignored : IgnoredNames) :
    List Token → Except Failure (Option Directive × List Token)
  | [] => .error (site.failure ⟨"directive", "annotation name"⟩)
  | name :: ts =>
    if ignored.contains name.text then .ok (none, Grammar.skipGroup ts)
    else
      match site.typeOf? name.text with
      | none => .error (.unresolved name.text site.context)
      | some typeName =>
        ((argumentsAfter ts).mapError site.failure).map fun p =>
          (some ⟨typeName, site.context, p.1⟩, p.2.val)

theorem directives_start (site : Site) (ignored : IgnoredNames) {t : Token}
    (ht : t.kind = .start) (ts : List Token) :
    directives site ignored (t :: ts) = (behindMark site ignored ts).bind fun p =>
      (directives site ignored p.2).map (p.1.toList ++ ·) := by
  cases ts with
  | nil =>
    rw [directives, if_pos ht]
    rfl
  | cons name ts =>
    rw [directives, if_pos ht, behindMark]
    by_cases hn : ignored.contains name.text = true
    · rw [if_pos hn, if_pos hn]
      simp only [Except.bind, Option.toList_none]
      cases directives site ignored (Grammar.skipGroup ts) <;> rfl
    · rw [if_neg hn, if_neg hn]
      cases site.typeOf? name.text with
      | none => rfl
      | some typeName =>
        cases argumentsAfter ts with
        | error e => rfl
        | ok p =>
          simp only [Except.mapError, Except.map, Except.bind]
          cases directives site ignored p.2.val <;> rfl

end Parser

namespace Cursor

open Outcome

variable {α : Type}

/-! ### Lists -/

theorem rest_of_isNext {c : Cursor} {k : Kind} (h : c.isNext k = true) :
    ∃ t, c.rest = t :: c.advance.2.rest ∧ t.kind = k := by
  rw [isNext_eq] at h
  rw [rest_advance]
  cases hc : c.rest with
  | nil => simp [hc, Grammar.isNext] at h
  | cons t ts => exact ⟨t, rfl, by simpa [hc, Grammar.isNext] using h⟩

/-- A token that is next is read. -/
theorem seen_expect {c : Cursor} {t : Token} {ts : List Token} (h : c.rest = t :: ts)
    (construct : String) : (expect t.kind construct c).seen = .ok (t.text, ts) := by
  have hnext : c.isNext t.kind = true := by simp [isNext_eq, h, Grammar.isNext]
  rw [expect, if_pos hnext, seen, ← currentText_advance h]
  simp only [Except.map, rest_advance, h, List.tail_cons]

/-- The closer of a list, read with a cursor. -/
theorem seen_expect_map (closer : Kind) (construct : String) (a : α) (c : Cursor) :
    ((expect closer construct c).map fun _ => a).seen =
      Grammar.close closer construct a c.rest := by
  rw [expect, Grammar.close, isNext_eq]
  split
  · simp only [seen, Outcome.map, Except.map, rest_advance]
  · rfl

/-- A loop over items and the closer behind it, against a recursion that goes on as the loop does
    behind every item. -/
theorem seen_items {closer : Kind} {construct : String} {n : Nat}
    {item : α → (c : Cursor) → c.left < n → Outcome Mismatch α c}
    {one many : α → List Token → Except Mismatch (α × List Token)}
    (hone : ∀ a c h, (item a c h).seen = one a c.rest)
    (hmany : ∀ a ts, many a ts =
      (one a ts).bind fun p => Grammar.more closer construct many p.1 p.2)
    (a : α) (c : Cursor) (h : c.left < n) :
    ((items closer n item a c h).andThen fun a' c' _ =>
      (expect closer construct c').map fun _ => a').seen = many a c.rest := by
  rw [items, andThen_assoc, hmany, ← hone a c h]
  refine seen_andThen _ fun a' c₁ h₁ => ?_
  unfold Grammar.more
  rw [← isNext_eq]
  by_cases hc : c₁.isNext .comma = true
  · have hlt : c₁.advance.2.left < c.left :=
      Nat.lt_of_lt_of_le (left_advance_of_isNext hc) h₁.left_le
    rw [dif_pos hc, if_pos hc, behind_andThen, seen_behind, ← rest_advance, ← isNext_eq]
    by_cases hb : c₁.advance.2.isNext closer = true
    · rw [if_pos hb, if_pos hb, pure_andThen, seen_expect_map, Grammar.close, ← isNext_eq,
        if_pos hb]
    · rw [if_neg hb, if_neg hb]
      -- the comma is read, so fewer tokens are left
      exact seen_items hone hmany a' c₁.advance.2 _
  · rw [dif_neg hc, if_neg hc, pure_andThen, seen_expect_map]
termination_by c.left

/-- A list in brackets is read as from the tokens, when its items and closer are. -/
theorem seen_bracketed {opener closer : Kind} {construct : String} {a : α} {c : Cursor}
    {list : (c' : Cursor) → c'.left < c.left → Outcome Mismatch α c'}
    {many : List Token → Except Mismatch (α × List Token)} (ho : c.isNext opener = true)
    (hlist : ∀ c' h, ((list c' h).andThen fun a' c'' _ =>
      (expect closer construct c'').map fun _ => a').seen = many c'.rest) :
    (bracketed opener closer construct a c list).seen =
      Grammar.opened closer a many c.rest.tail := by
  rw [bracketed, dif_pos ho, seen_behind, Grammar.opened, ← rest_advance, ← isNext_eq]
  by_cases hc : c.advance.2.isNext closer = true
  · rw [if_pos hc, if_pos hc, pure_andThen, seen_expect_map, Grammar.close, ← isNext_eq, if_pos hc]
  · rw [if_neg hc, if_neg hc]
    exact hlist _ _

/-! ### Literals -/

/-- A token that is no literal by itself has no value. -/
theorem atom_of_not_scalar {t : Token} (h : isScalar t.kind = false) :
    Grammar.atom t = .error ⟨"literal", "a literal value"⟩ := by
  unfold Grammar.atom
  cases hk : t.kind <;> simp [hk, isScalar] at h ⊢

theorem seen_scalar_of_rest {c : Cursor} {t : Token} {ts : List Token} (h : c.rest = t :: ts) :
    (scalar c).seen = (Grammar.atom t).map fun v => (v, ts) := by
  rw [scalar, nextKind_of_rest h]
  cases hs : isScalar t.kind with
  | false =>
    simp only [hs, atom_of_not_scalar hs]
    rfl
  | true =>
    simp only [hs, if_true]
    rw [seen_andThen _ (g := fun lexeme us => (Grammar.atom ⟨t.kind, lexeme⟩).map fun v => (v, us))
      fun lexeme c' _ => seen_ofExcept _ _, seen_expect h]
    rfl

theorem seen_entryKey (m : LiteralMap) (c : Cursor) :
    (entryKey m c).seen = .ok (Grammar.entryKey m c.rest) := by
  unfold entryKey
  rw [peekKind, peek_eq]
  match h : c.rest with
  | [] => simp [Grammar.entryKey, seen_pure, h]
  | [k] => simp [Grammar.entryKey, seen_pure, h]
  | k :: t :: ts =>
    simp only [Grammar.entryKey, List.tail_cons, List.head?_cons, Option.map_some,
      Option.some.injEq]
    by_cases ht : t.kind = .colon
    · have hrest : c.advance.2.rest = t :: ts := rest_advance_of_rest h
      have hcurrent : c.advance.2.currentToken = some k := by rw [currentToken_advance, h]; rfl
      rw [if_pos ht, if_pos ht, seen_behind, colonKey, hcurrent]
      simp only [seen_map, ← ht, seen_expect hrest]
      rfl
    · rw [if_neg ht, if_neg ht, seen_pure, h]

/-- An entry is read as from the tokens, when its literal is. -/
theorem seen_entry {c : Cursor} (m : LiteralMap)
    (ih : ∀ c', c.Onward c' → (literal c').seen = Grammar.seen (Grammar.literal c'.rest)) :
    ((entryKey m c).andThen fun k c' _ => (literal c').map fun v => m.insert k v).seen =
      Grammar.entry m c.rest := by
  rw [seen_andThen _ (g := fun k us => (Grammar.seen (Grammar.literal us)).map fun p =>
      (m.insert k p.1, p.2)) fun k c' hc => by rw [seen_map, ih c' hc], seen_entryKey]
  rfl

/-- A literal is read with a cursor as it is read from the tokens left. -/
theorem seen_literal (c : Cursor) : (literal c).seen = Grammar.seen (Grammar.literal c.rest) := by
  rw [literal]
  by_cases ho : c.isNext .openBrace = true
  · obtain ⟨t, hrest, ht⟩ := rest_of_isNext ho
    rw [if_pos ho, seen_map, hrest, Grammar.seen_literal_of_brace ht, rest_advance]
    congr 1
    -- an entry's literal stands behind the opening brace, so fewer tokens are left there
    refine seen_bracketed ho fun c₁ h₁ => seen_items (fun m c₂ h₂ => seen_entry m fun c₃ h₃ => ?_)
      Grammar.seen_entries _ _ h₁
    have hlt : c₃.left < c.left := Nat.lt_of_le_of_lt h₃.left_le h₂
    exact seen_literal c₃
  · rw [if_neg ho]
    rw [isNext_eq] at ho
    match h : c.rest with
    | [] =>
      rw [scalar, nextKind, lookahead_eq, h, Grammar.literal]
      rfl
    | t :: ts =>
      have ht : t.kind ≠ .openBrace := by simpa [h, Grammar.isNext] using ho
      rw [seen_scalar_of_rest h, Grammar.seen_literal_of_not_brace ht]
termination_by c.left

/-! ### Arguments -/

theorem seen_argument (a : Arguments) (c : Cursor) :
    (argument a c).seen = Grammar.argument a c.rest := by
  have hplain : ∀ us, c.rest = us → ((literal c).map fun v => a.push v).seen =
      (Grammar.seen (Grammar.literal us)).map fun p => (a.push p.1, p.2) := by
    rintro _ rfl
    rw [seen_map, seen_literal]
  rw [argument, peekKind, peek_eq, Grammar.argument]
  match h : c.rest with
  | [] => exact hplain [] h
  | [k] => exact hplain [k] h
  | k :: t :: ts =>
    by_cases ht : t.kind = .assign
    · have hrest : c.advance.2.rest = t :: ts := rest_advance_of_rest h
      rw [if_pos (by simpa using ht), seen_behind, seen_andThen _
        (g := fun _ us => (Grammar.seen (Grammar.literal us)).map fun p =>
          (a.set c.advance.2.currentText p.1, p.2))
        fun _ c' _ => by rw [seen_map, seen_literal], ← ht, seen_expect hrest,
        currentText_advance h, Grammar.argumentName, if_pos ht]
      rfl
    · rw [if_neg (by simpa using ht), hplain _ h, Grammar.argumentName, if_neg ht]
      rfl

theorem seen_parenthesis (c : Cursor) :
    (parenthesis c).seen =
      if Grammar.isNext .openParen c.rest then
        (Grammar.seen (Grammar.parenthesis c.rest)).map fun p => (some p.1, p.2)
      else .ok (none, c.rest) := by
  rw [parenthesis, ← isNext_eq]
  by_cases ho : c.isNext .openParen = true
  · obtain ⟨t, hrest, ht⟩ := rest_of_isNext ho
    rw [if_pos ho, if_pos ho, seen_map, hrest, Grammar.seen_parenthesis ht, rest_advance]
    congr 1
    exact seen_bracketed ho fun c₁ h₁ => seen_items (fun a c₂ _ => seen_argument a c₂)
      Grammar.seen_arguments _ _ h₁
  · rw [if_neg ho, if_neg ho, seen_pure]

/-! ### Directives -/

/-- A group is skipped to the same place; one that is not closed, to the end. -/
theorem seen_closing {ε : Type} (depth : Nat) (c : Cursor) :
    (closing depth c : Outcome ε Unit c).seen = .ok ((), Grammar.closeGroup depth c.rest) := by
  rw [closing]
  match h : c.rest with
  | [] => rw [dif_neg (by simp [lookahead_eq, h]), seen_pure, h, Grammar.closeGroup]
  | t :: ts =>
    have hsome := isSome_lookahead_of_rest h
    have hlt := left_advance_lt hsome
    have hrest : c.advance.2.rest = ts := rest_advance_of_rest h
    rw [dif_pos hsome, seen_behind, nextKind_of_rest h]
    rcases Grammar.kind_cases t with ho | hc | hother
    · rw [Grammar.closeGroup_open ho, ho, ← hrest]
      exact seen_closing (depth + 1) c.advance.2
    · rw [Grammar.closeGroup_close hc, hc, ← hrest]
      by_cases hd : depth ≤ 1
      · rw [if_pos hd]
        simp only [show depth - 1 = 0 by omega, if_true, seen_pure]
      · rw [if_neg hd]
        simp only [show depth - 1 ≠ 0 by omega, if_false]
        exact seen_closing (depth - 1) c.advance.2
    · rw [Grammar.closeGroup_other hother, ← hrest, ← seen_closing depth c.advance.2]
      simp only [Token.isParen, Bool.or_eq_false_iff, beq_eq_false_iff_ne] at hother
      split
      · next hk => exact absurd (Option.some.inj hk) hother.1
      · next hk => exact absurd (Option.some.inj hk) hother.2
      · rfl
termination_by c.left

theorem seen_skip {ε : Type} (c : Cursor) :
    (skip c : Outcome ε Unit c).seen = .ok ((), Grammar.skipGroup c.rest) := by
  rw [skip, Grammar.skipGroup, ← isNext_eq]
  by_cases ho : c.isNext .openParen = true
  · rw [if_pos ho, if_pos ho, seen_closing]
  · rw [if_neg ho, if_neg ho, seen_pure]

theorem seen_directive (site : Site) (ignored : IgnoredNames) (c : Cursor) :
    (directive site ignored c).seen = Parser.behindMark site ignored c.rest := by
  rw [directive, seen_behind]
  match h : c.rest with
  | [] =>
    rw [advance_of_rest_nil h]
    rfl
  | name :: ts =>
    have hrest : c.advance.2.rest = ts := rest_advance_of_rest h
    have hread : c.advance.1 = true := by rw [advance_of_rest_cons h]
    rw [Parser.behindMark, hread, currentText_advance h]
    simp only [Bool.not_true, Bool.false_eq_true, if_false]
    by_cases hn : ignored.contains name.text = true
    · rw [if_pos hn, if_pos hn, seen_map, seen_skip, hrest]
      rfl
    · rw [if_neg hn, if_neg hn]
      cases site.typeOf? name.text with
      | none => rfl
      | some typeName =>
        simp only [seen_map, seen_mapError, seen_parenthesis]
        rw [hrest, Parser.argumentsAfter]
        split
        · cases Grammar.parenthesis ts <;> rfl
        · rfl

/-- A comment is read to its end, and gives what its tokens give behind what was read before. -/
theorem seen_comment (site : Site) (ignored : IgnoredNames) (ds : List Directive) (c : Cursor) :
    (comment site ignored ds c).seen =
      (Parser.directives site ignored c.rest).map fun rs => (ds ++ rs, []) := by
  rw [comment]
  match h : c.rest with
  | [] =>
    rw [dif_neg (by simp [lookahead_eq, h]), seen_pure, h, Parser.directives]
    simp [Except.map]
  | t :: ts =>
    have hsome := isSome_lookahead_of_rest h
    have hlt := left_advance_lt hsome
    have hrest : c.advance.2.rest = ts := rest_advance_of_rest h
    have hnext : c.isNext .start = (t.kind == .start) := by rw [isNext_eq, h, Grammar.isNext]
    rw [dif_pos hsome, seen_behind, hnext]
    by_cases ht : t.kind = .start
    · rw [if_pos (by simpa using ht), Parser.directives_start site ignored ht, seen_andThen _
        (g := fun d us => (Parser.directives site ignored us).map fun rs =>
          (ds ++ d.toList ++ rs, [])) ?_, seen_directive, hrest]
      · cases Parser.behindMark site ignored ts with
        | error e => rfl
        | ok p =>
          simp only [Except.bind]
          cases Parser.directives site ignored p.2 <;> simp [Except.map]
      · intro d c' hc
        have hlt' : c'.left < c.left := Nat.lt_of_le_of_lt hc.left_le hlt
        exact seen_comment site ignored (ds ++ d.toList) c'
    · rw [if_neg (by simpa using ht), Parser.directives_cons site ignored ht, ← hrest]
      exact seen_comment site ignored ds c.advance.2
termination_by c.left

end Cursor

end DocDirectives
