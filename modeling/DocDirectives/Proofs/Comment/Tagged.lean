import DocDirectives.Proofs.Comment.Composition
import DocDirectives.Proofs.Comment.Faults
import DocDirectives.Proofs.Session.Progress

/-! # Comments with documentation tags only

    When every `@` of a comment has an ignored name behind it, nothing in the comment is resolved or
    parsed. Such a comment cannot fail, wherever it stands. It is read by passing over prose and
    skipping groups, and behind a group the `@`s that are left have ignored names behind them too,
    since what is left is the end of the same tokens. -/

namespace DocDirectives

open Grammar

/-! ### Tags in tokens -/

/-- Every `@` has an ignored name behind it. -/
def IgnoredNames.Tagged (ignored : IgnoredNames) (ts : List Token) : Prop :=
  ∀ i < ts.length, ts[i]?.any (·.kind == .start) = true →
    ts[i + 1]?.any (ignored.contains ·.text) = true

instance (ignored : IgnoredNames) (ts : List Token) : Decidable (ignored.Tagged ts) :=
  inferInstanceAs (Decidable (∀ i < ts.length, _ → _))

namespace IgnoredNames.Tagged

variable {ignored : IgnoredNames}

theorem suffix {ts us : List Token} (h : ignored.Tagged ts) (hus : us <:+ ts) :
    ignored.Tagged us := by
  obtain ⟨before, rfl⟩ := hus
  intro i hi hstart
  have hplace : ∀ j, (before ++ us)[before.length + j]? = us[j]? := fun j => by
    rw [List.getElem?_append_right (Nat.le_add_right _ j), Nat.add_sub_cancel_left]
  have hlt : before.length + i < (before ++ us).length := by
    rw [List.length_append]
    omega
  have hname := h (before.length + i) hlt (by rw [hplace]; exact hstart)
  rwa [Nat.add_assoc, hplace] at hname

/-- The name behind an `@` in front. -/
theorem name {mark : Token} {ts : List Token} (h : ignored.Tagged (mark :: ts))
    (hm : mark.kind = .start) :
    ∃ name behind, ts = name :: behind ∧ ignored.contains name.text = true := by
  have hname := h 0 (Nat.succ_pos _) (by simp [hm])
  match ts, hname with
  | name :: behind, hname => exact ⟨name, behind, rfl, by simpa using hname⟩

end IgnoredNames.Tagged

namespace Parser

/-- Nothing is read in a comment with tags only, and it is the same in every site. -/
theorem exists_comment_of_tagged {ignored : IgnoredNames} (ts : List Token)
    (h : ignored.Tagged ts) :
    ∃ os, (∀ site, Comment site ignored ts os) ∧ ∀ o ∈ os, o.result = none := by
  match ts with
  | [] => exact ⟨[], fun _ => .nil, fun _ ho => nomatch ho⟩
  | t :: ts =>
    by_cases ht : t.kind = .start
    · obtain ⟨name, behind, hts, hname⟩ := h.name ht
      have hleft : skipGroup behind <:+ ts :=
        hts ▸ (skipGroup_suffix behind).trans (List.suffix_cons name behind)
      have hshorter := hleft.length_le
      obtain ⟨os, hos, hnone⟩ := exists_comment_of_tagged (skipGroup behind)
        (h.suffix (hleft.trans (List.suffix_cons t ts)))
      rw [hts]
      exact ⟨⟨name.text, behind, none⟩ :: os, fun site => .directive (.skipped ht hname) (hos site),
        List.forall_mem_cons.2 ⟨rfl, hnone⟩⟩
    · obtain ⟨os, hos, hnone⟩ := exists_comment_of_tagged ts (h.suffix (List.suffix_cons t ts))
      exact ⟨os, fun site => .prose ht (hos site), hnone⟩
termination_by ts.length

theorem results_eq_nil {os : List Occurrence} (h : ∀ o ∈ os, o.result = none) : results os = [] :=
  List.filterMap_eq_nil_iff.2 h

end Parser

/-! ### Skipping with a cursor -/

namespace Cursor

/-- A skip moves the cursor by as many tokens as are skipped. -/
theorem position_skip {ε : Type} {c : Cursor} {n : Nat} (hc : c.position ≤ c.tokens.length)
    (hn : n ≤ c.rest.length) (hskip : skipGroup c.rest = c.rest.drop n) :
    (skip c : Outcome ε Unit c).cursor.position = c.position + n := by
  generalize ho : (skip c : Outcome ε Unit c) = o
  have hrest : o.cursor.rest = c.rest.drop n := by
    refine Outcome.rest_of_seen (v := ()) ?_
    rw [← ho, seen_skip, hskip]
  have hwithin : o.cursor.position ≤ o.cursor.tokens.length := by
    rw [← ho]
    exact (takes_skip c).reaches.position_le hc
  have hlength := congrArg List.length hrest
  rw [List.length_drop, length_rest, length_rest, left, left, o.onward.tokens] at hlength
  rw [length_rest, left] at hn
  rw [o.onward.tokens] at hwithin
  omega

end Cursor

/-! ### Whole comments -/

namespace Parser

/-- In a comment where every `@` has an ignored name behind it, nothing is read and nothing fails,
    for every declaration, symbol table and catalog. Behind each of its tags a parenthesis begins a
    group that is skipped to where its parentheses balance, or to the end. -/
theorem parse_of_tagged (p : Parser) (text : String)
    (h : p.ignored.Tagged (p.classifier.tokens text.toList)) :
    (∃ os, (∀ o ∈ os, o.result = none) ∧ ∀ site, p.parse site text = .ok [] ∧
      Comment site p.ignored (p.classifier.tokens text.toList) os) ∧
    ∀ before mark name behind,
      p.classifier.tokens text.toList = before ++ mark :: name :: behind → mark.kind = .start →
      isNext .openParen behind = true →
      ∃ n, Stops 0 behind n ∧ skipGroup behind = behind.drop n ∧
        ∀ c : Cursor, c.tokens = p.classifier.tokens text.toList →
          c.position = before.length + 2 →
          (c.skip : Cursor.Outcome Failure Unit c).cursor.position = before.length + 2 + n := by
  obtain ⟨os, hos, hnone⟩ := exists_comment_of_tagged _ h
  refine ⟨⟨os, hnone, fun site => ⟨?_, hos site⟩⟩, ?_⟩
  · rw [parse, (hos site).directives, results_eq_nil hnone]
  · intro before mark name behind hsplit hm hopen
    obtain ⟨n, hn, hskip⟩ := skipGroup_stops hopen
    refine ⟨n, hn, hskip, fun c htokens hposition => ?_⟩
    have hrest : c.rest = behind := by
      rw [Cursor.rest, htokens, hsplit, hposition, List.drop_append]
      simp
    have hwithin : c.position ≤ c.tokens.length := by
      rw [htokens, hsplit, hposition, List.length_append, List.length_cons, List.length_cons]
      omega
    rw [← hposition]
    exact Cursor.position_skip hwithin (hrest ▸ hn.le_length) (by rw [hrest, hskip])

/-- A group with a tag inside, a parenthesis and a brace that are stray, and a group that is never
    closed. -/
def tagged : String := "@param (a (b) @see) ) \x7b @todo (c @var"

/-- The tokens behind the last name of `tagged` that is read. -/
def taggedEnd : List Token :=
  [⟨.openParen, "("⟩, ⟨.other, "c"⟩, ⟨.start, "@"⟩, ⟨.other, "var"⟩]

/-- The tokens behind the first name of `tagged`. -/
def taggedBehind : List Token :=
  [⟨.openParen, "("⟩, ⟨.other, "a"⟩, ⟨.openParen, "("⟩, ⟨.other, "b"⟩, ⟨.closeParen, ")"⟩,
    ⟨.start, "@"⟩, ⟨.other, "see"⟩, ⟨.closeParen, ")"⟩, ⟨.closeParen, ")"⟩, ⟨.openBrace, "\x7b"⟩,
    ⟨.start, "@"⟩, ⟨.other, "todo"⟩] ++ taggedEnd

theorem parse_of_tagged_interleaved :
    IgnoredNames.standard.Tagged (Classifier.directives.tokens tagged.toList) ∧
      (∀ site, Parser.parse {} site tagged = .ok []) ∧
      Stops 0 taggedBehind 8 ∧ skipGroup taggedBehind = taggedBehind.drop 8 ∧
      Stops 0 taggedEnd 4 ∧ skipGroup taggedEnd = [] := by
  have htokens : Classifier.directives.tokens tagged.toList =
      ⟨.start, "@"⟩ :: ⟨.other, "param"⟩ :: taggedBehind := by decide +kernel
  have htagged : IgnoredNames.standard.Tagged (Classifier.directives.tokens tagged.toList) := by
    rw [htokens]
    decide +kernel
  obtain ⟨⟨os, -, hos⟩, hgroups⟩ := parse_of_tagged {} tagged htagged
  obtain ⟨n, hn, hskip, -⟩ := hgroups [] _ _ taggedBehind htokens rfl rfl
  obtain ⟨m, hm, hend, -⟩ := hgroups (_ :: _ :: taggedBehind.take 10) _ _ taggedEnd htokens rfl rfl
  -- what is left tells how many tokens are skipped
  obtain rfl : n = 8 := by
    have hlength : taggedBehind.length = 16 := rfl
    have hleft : taggedBehind.length - n = 8 := by
      rw [← List.length_drop, ← hskip]
      decide
    omega
  obtain rfl : m = 4 := by
    have hlength : taggedEnd.length = 4 := rfl
    have hleft : taggedEnd.length - m = 0 := by
      rw [← List.length_drop, ← hend]
      decide
    have hle := hm.le_length
    omega
  exact ⟨htagged, fun site => (hos site).1, hn, hskip, hm, hend⟩

end Parser

end DocDirectives
