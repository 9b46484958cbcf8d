import DocDirectives.Proofs.Comment.Failing
import DocDirectives.Proofs.Grammar.Failing
import DocDirectives.Proofs.Token.Fragments

/-! # Faults of literals

    A comment that cannot be read fails at a place in its tokens. Since the kinds of tokens agree
    with their characters, few faults are left there: no float is without a value, and an integer is
    only at fault when it does not fit 64 bits. -/

namespace DocDirectives

open Classifier Grammar Lexeme Number

namespace Grammar

/-! ### Tokens that are left -/

theorem closeGroup_suffix (depth : Nat) (ts : List Token) : closeGroup depth ts <:+ ts := by
  induction ts generalizing depth with
  | nil => exact List.suffix_refl _
  | cons t ts ih =>
    rw [closeGroup]
    split
    · exact (ih _).trans (List.suffix_cons t ts)
    · split
      · exact List.suffix_cons t ts
      · exact (ih _).trans (List.suffix_cons t ts)
    · exact (ih _).trans (List.suffix_cons t ts)

theorem skipGroup_suffix (ts : List Token) : skipGroup ts <:+ ts := by
  unfold skipGroup
  split
  · exact closeGroup_suffix 0 ts
  · exact List.suffix_refl ts

theorem Derives.suffix {ts rest : List Token} {a : Arguments} (h : Derives ts a rest) :
    rest <:+ ts := by
  cases h with
  | @empty o c _ _ _ => exact List.suffix_append [o, c] rest
  | list _ _ hvs =>
    obtain ⟨c, -, hspans⟩ := hvs.spans
    exact (List.suffix_cons c rest).trans (hspans.suffix.trans (List.suffix_cons _ _))

end Grammar

namespace Parser

variable {site : Site} {ignored : IgnoredNames}

theorem Occurs.suffix {ts us : List Token} {o : Occurrence} (h : Occurs site ignored ts o us) :
    us <:+ ts := by
  cases h with
  | @skipped mark name behind _ _ =>
    exact (skipGroup_suffix behind).trans (List.suffix_append [mark, name] behind)
  | @read mark name behind _ _ _ _ _ _ ha =>
    have hbehind : us <:+ behind := by
      cases ha with
      | list ha => exact ha.suffix
      | none => exact List.suffix_refl _
    exact hbehind.trans (List.suffix_append [mark, name] behind)

theorem Beginning.suffix {ts us : List Token} {os : List Occurrence}
    (h : Beginning site ignored ts os us) : us <:+ ts := by
  induction h with
  | nil => exact List.suffix_refl _
  | prose _ _ ih => exact ih.trans (List.suffix_cons _ _)
  | directive ho _ ih => exact ih.trans ho.suffix

/-- What is reported of a comment is a directive without a name, or an argument list behind one that
    fails. -/
theorem exists_listFails {ts : List Token} {context construct expected : String}
    (h : Parser.directives site ignored ts = .error (.unexpected context construct expected)) :
    (construct = "directive" ∧ expected = "annotation name") ∨
      ∃ behind us, behind <:+ ts ∧ ListFails behind ⟨construct, expected⟩ us := by
  obtain ⟨os, us, hbeginning, hfails⟩ := directives_eq_error_iff.1 h
  generalize he : Failure.unexpected context construct expected = e at hfails
  cases hfails with
  | nameless =>
    obtain ⟨-, rfl, rfl⟩ := Failure.unexpected.inj he
    exact .inl ⟨rfl, rfl⟩
  | untyped => cases he
  | @malformed mark name behind _ m _ _ _ ha =>
    obtain ⟨-, rfl, rfl⟩ := Failure.unexpected.inj he
    obtain ⟨ws, hlist⟩ := argumentsAfter_fails_iff.1 ha
    have hbehind : behind <:+ mark :: name :: behind := List.suffix_append [mark, name] behind
    exact .inr ⟨behind, ws, hbehind.trans hbeginning.suffix, hlist⟩

end Parser

/-! ### Kinds, characters and values -/

theorem exists_fragmentAt_of_mem_tokens {cs : List Char} {t : Token}
    (h : t ∈ directives.tokens cs) :
    ∃ v rest, FragmentAt cs v rest ∧ t.kind = kindOf v ∧ t.text.toList = v := by
  obtain ⟨v, hv, rfl⟩ := List.mem_map.1 h
  obtain ⟨rest, hv⟩ := mem_fragments_iff.1 (List.mem_filter.1 hv).1
  exact ⟨v, rest, hv, rfl, String.toList_ofList⟩

theorem mem_tokens_denotes {cs : List Char} {t : Token} (h : t ∈ directives.tokens cs) :
    (t.kind = .integer → ∃ n, Numeral t.text.toList n) ∧
      (t.kind = .float → ∃ x, Decimal t.text.toList x) := by
  obtain ⟨v, rest, hv, hkind, htext⟩ := exists_fragmentAt_of_mem_tokens h
  rw [hkind, htext]
  exact ⟨kindOf_eq_integer_iff.1, kindOf_eq_float_iff.1⟩

/-- A token of a text that is no literal is an integer out of range or nothing that begins one. -/
theorem Grammar.AtomFails.cases_of_mem {cs : List Char} {t : Token} {e : Mismatch}
    (h : AtomFails t e) (ht : t ∈ directives.tokens cs) :
    (e.expected = "an integer within the 64-bit signed range" ∧ t.kind = .integer ∧
      ∃ n, Numeral t.text.toList n ∧ ¬Fits n) ∨ e.expected = "a literal value" := by
  obtain ⟨hinteger, hfloat⟩ := mem_tokens_denotes ht
  cases h with
  | range hn =>
    obtain ⟨n, hnumeral⟩ := hinteger rfl
    exact .inl ⟨rfl, rfl, n, hnumeral, hn n hnumeral⟩
  | float hx =>
    obtain ⟨x, hdecimal⟩ := hfloat rfl
    exact absurd hdecimal (hx x)
  | other => exact .inr rfl

/-- What can be wrong at a place in the tokens of a text. -/
theorem Grammar.Wrong.cases_of_suffix {cs : List Char} {us : List Token} {e : Mismatch}
    (h : Wrong us e) (hus : us <:+ directives.tokens cs) :
    (e.expected = "an integer within the 64-bit signed range" ∧ ∃ t rest, us = t :: rest ∧
      t.kind = .integer ∧ ∃ n, Numeral t.text.toList n ∧ ¬Fits n) ∨
    e.expected ∈ ["a literal value", Kind.closeBrace.text, Kind.closeParen.text] := by
  cases h with
  | absent => exact .inr (by decide)
  | @atom t rest _ h =>
    rcases h.cases_of_mem (hus.subset List.mem_cons_self) with ⟨he, ht⟩ | he
    · exact .inl ⟨he, t, rest, rfl, ht⟩
    · exact .inr (he ▸ List.mem_cons_self)
  | unclosedArray => exact .inr (by decide)
  | unclosedList => exact .inr (by decide)

/-- How a text is cut, what its fragments are called and what they are worth agree.

    Its fragments are the places where it is cut; one is called a string when it was cut as a
    string, and dropped when it was cut as a run. A token is an integer, a float, a string or a
    mark just when it is written as one, and the quotes around a string are the ones that are
    taken off. So the reading never asks for a float, and where it asks for an integer in range it
    fails at one that is not. -/
theorem kinds_agree (text : String) :
    (∀ v, v ∈ directives.fragments text.toList ↔ ∃ rest, FragmentAt text.toList v rest) ∧
    (∀ v rest, FragmentAt text.toList v rest →
      (directives.classify v = .string ↔ stringLength (v ++ rest) = v.length) ∧
      (directives.isNoise v = true ↔ RunAt v rest)) ∧
    (∀ t ∈ directives.tokens text.toList,
      (t.kind = .integer ↔ ∃ minus ds, Signed t.text.toList minus ds ∧ isDigits ds = true) ∧
      (t.kind = .float ↔ ∃ minus whole fraction,
        Signed t.text.toList minus (whole ++ '.' :: fraction) ∧
          isDigits whole = true ∧ isDigits fraction = true) ∧
      (t.kind = .string ↔ ∃ inner, t.text.toList = '"' :: (inner ++ ['"']) ∧ Doubled inner) ∧
      (∀ m ∈ marks, t.kind = m.2 ↔ t.text.toList = [m.1]) ∧
      (t.kind = .string → t.text.toList = '"' :: ((unquote t.text).toList ++ ['"']))) ∧
    ∀ (ignored : IgnoredNames) (site : Site) (context construct expected : String),
      Parser.parse ⟨.directives, ignored⟩ site text =
          .error (.unexpected context construct expected) →
        expected ≠ "a float" ∧
        (expected = "an integer within the 64-bit signed range" →
          ∃ behind t rest, behind <:+ directives.tokens text.toList ∧
            ListFails behind ⟨construct, expected⟩ (t :: rest) ∧ t.kind = .integer ∧
              ∃ n, Numeral t.text.toList n ∧ ¬Fits n) := by
  refine ⟨fun v => mem_fragments_iff, fun v rest h => ⟨h.string_iff, h.isDecoration_iff⟩,
    fun t ht => ?_, fun ignored site context construct expected h => ?_⟩
  · obtain ⟨v, rest, hv, hkind, htext⟩ := exists_fragmentAt_of_mem_tokens ht
    rw [hkind, htext]
    refine ⟨kindOf_eq_integer_iff_signed, kindOf_eq_float_iff_signed, hv.exists_doubled_iff,
      fun m hm => kindOf_eq_mark_iff hm, fun hs => ?_⟩
    obtain ⟨body, hbody⟩ := kindOf_eq_string_iff.1 hs
    have hquotes : Quotes t.text (String.ofList body) :=
      .quoted (by rw [htext, hbody, String.toList_ofList])
    rw [unquote_of_quotes hquotes, String.toList_ofList, hbody]
  · rcases Parser.exists_listFails h with ⟨-, rfl⟩ | ⟨behind, us, hbehind, hlist⟩
    · exact ⟨by decide, fun he => absurd he (by decide)⟩
    · obtain ⟨hsuffix, hwrong⟩ := hlist.wrong
      rcases hwrong.cases_of_suffix (hsuffix.trans hbehind) with ⟨rfl, t, rest, rfl, ht⟩ | he
      · exact ⟨by decide, fun _ => ⟨behind, t, rest, hbehind, hlist, ht⟩⟩
      · simp only [List.mem_cons, List.not_mem_nil, or_false] at he
        rcases he with rfl | rfl | rfl <;> exact ⟨by decide, fun he => absurd he (by decide)⟩

example : (directives.tokens "+1 ** -1.5 1.2.3 1. \"a\"\"b\" \"".toList).map Token.kind =
    [.integer, .float, .other, .integer, .other, .string, .doubleQuote] := by decide +kernel

end DocDirectives
