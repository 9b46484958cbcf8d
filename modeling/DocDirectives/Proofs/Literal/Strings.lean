import DocDirectives.Proofs.Comment.Occurrence
import DocDirectives.Proofs.Token.Spelling

/-! # Quoted strings

    Any text can be written as a string: between two quotes, with every quote in it doubled. What is
    written so is one token, whatever it holds and whatever comes behind it but another quote, and
    that token denotes the text as it is written. -/

namespace DocDirectives

open Classifier Grammar Lexeme

/-! ### Doubled quotes -/

/-- A text with every quote doubled. -/
def doubled (s : List Char) : List Char := s.flatMap fun c => if c = '"' then ['"', '"'] else [c]

/-- A text written as a string. -/
def quotedText (s : String) : List Char := '"' :: (doubled s.toList ++ ['"'])

theorem doubled_cons_quote (s : List Char) : doubled ('"' :: s) = '"' :: '"' :: doubled s := rfl

theorem doubled_cons {c : Char} (hc : c ≠ '"') (s : List Char) :
    doubled (c :: s) = c :: doubled s := by
  rw [doubled, List.flatMap_cons, if_neg hc]
  rfl

theorem doubled_doubled : ∀ s : List Char, Doubled (doubled s)
  | [] => .nil
  | c :: s => by
    by_cases hc : c = '"'
    · subst hc
      exact .pair (doubled_doubled s)
    · rw [doubled_cons hc]
      exact .char hc (doubled_doubled s)

/-- A text with every pair of quotes made one. -/
def halved : List Char → List Char
  | '"' :: '"' :: cs => '"' :: halved cs
  | c :: cs => c :: halved cs
  | [] => []

theorem halved_cons {c : Char} (hc : c ≠ '"') (cs : List Char) :
    halved (c :: cs) = c :: halved cs := by
  rw [halved]
  rintro _ rfl
  exact absurd rfl hc

theorem halved_doubled : ∀ s : List Char, halved (doubled s) = s
  | [] => rfl
  | c :: s => by
    by_cases hc : c = '"'
    · subst hc
      rw [doubled_cons_quote, halved, halved_doubled s]
    · rw [doubled_cons hc, halved_cons hc, halved_doubled s]

theorem doubled_injective {s t : List Char} (h : doubled s = doubled t) : s = t := by
  rw [← halved_doubled s, h, halved_doubled]

/-! ### Text in front of a string -/

/-- A lexeme of a text without quotes is the same when a quote comes behind the text. -/
theorem Lexeme.Lexed.append_quote {v us rest : List Char} (hv : v ≠ []) (h : Lexed v us)
    (hquote : '"' ∉ v) : Lexed v (us ++ '"' :: rest) := by
  have hstop : Breaks isStop ('"' :: rest) := (by decide : isStop '"' = true)
  have hname := bounded_nameLength.settles (v ++ us) [] _ hstop
    ((List.append_nil (v ++ us)).symm ▸ bounded_nameLength.le _)
  have hnumber := bounded_numberLength.settles (v ++ us) [] _ hstop
    ((List.append_nil (v ++ us)).symm ▸ bounded_numberLength.le _)
  rw [List.append_nil, List.append_assoc] at hname hnumber
  have hstring : ∀ cs, stringLength (v ++ cs) = 0 := by
    obtain ⟨c, u, rfl⟩ := List.exists_cons_of_ne_nil hv
    exact fun cs => stringLength_of_ne (fun hc => hquote (hc ▸ List.mem_cons_self)) (u ++ cs)
  rcases h with h1 | ⟨h1, h2⟩ | ⟨h1, h2, h3⟩ | ⟨h1, h2, h3, h4⟩
  · exact .name (hname.trans h1)
  · exact .number (hname.trans h1) (hnumber.trans h2)
  · rw [hstring] at h3
    exact absurd (List.length_eq_zero_iff.1 h3.symm) hv
  · exact .single (hname.trans h1) (hnumber.trans h2) (hstring _) h4

/-- A quote ends whatever stands in front of it. -/
theorem tokens_append_quote {rest : List Char} : ∀ {front : List Char}, '"' ∉ front →
    directives.tokens (front ++ '"' :: rest) =
      directives.tokens front ++ directives.tokens ('"' :: rest)
  | [], _ => by rw [tokens_nil]; rfl
  | c :: cs, h => by
    cases hc : isSeparator c with
    | true =>
      rw [tokens_separator hc, List.cons_append, tokens_separator hc]
      exact tokens_append_quote fun hmem => h (List.mem_cons_of_mem c hmem)
    | false =>
      obtain ⟨u, us, rfl, hlexed⟩ := exists_lexed hc cs
      rw [← List.cons_append, List.mem_append, not_or] at h
      have hshorter : us.length < (c :: (u ++ us)).length := by
        rw [List.length_cons, List.length_append]
        omega
      have hlexed' : Lexed (c :: u) (us ++ '"' :: rest) :=
        hlexed.append_quote (List.cons_ne_nil c u) h.1
      rw [← List.cons_append, List.append_assoc, tokens_lexed hc hlexed', tokens_lexed hc hlexed,
        tokens_append_quote h.2]
      rfl
termination_by front => front.length

/-! ### Strings as tokens and as literals -/

/-- A text written as a string is one token, and nothing in it is anything else: the tokens behind
    are those of the rest, a literal that begins there is the text as it is written, and a comment
    that begins there gives what the rest gives. In front may stand whatever has no quotes.
    Different texts are different strings. -/
theorem tokens_quotedText (s : String) (rest : List Char) (hrest : rest.head? ≠ some '"') :
    directives.tokens (quotedText s ++ rest) =
      ⟨.string, String.ofList (quotedText s)⟩ :: directives.tokens rest ∧
    (∀ front : List Char, '"' ∉ front → directives.tokens (front ++ (quotedText s ++ rest)) =
      directives.tokens front ++
        ⟨.string, String.ofList (quotedText s)⟩ :: directives.tokens rest) ∧
    Reads (literal (directives.tokens (quotedText s ++ rest)))
      (.string (String.ofList (doubled s.toList))) (directives.tokens rest) ∧
    (∀ (ignored : IgnoredNames) (site : Site),
      Parser.parse ⟨.directives, ignored⟩ site (String.ofList (quotedText s ++ rest)) =
        Parser.parse ⟨.directives, ignored⟩ site (String.ofList rest)) ∧
    ∀ t : String, Literal.string (String.ofList (doubled s.toList)) =
      .string (String.ofList (doubled t.toList)) → s = t := by
  have hsplit : quotedText s ++ rest = '"' :: (doubled s.toList ++ '"' :: rest) := by
    simp [quotedText]
  have htokens := tokens_string (doubled_doubled s.toList) hrest
  refine ⟨hsplit ▸ htokens, fun front hfront => ?_, ?_, fun ignored site => ?_, fun t h => ?_⟩
  · rw [hsplit, tokens_append_quote hfront, htokens]
    rfl
  · rw [hsplit, htokens, reads_literal]
    exact .atom (.string (.quoted (by simp)))
  · simp only [Parser.parse, String.toList_ofList, hsplit, htokens]
    exact Parser.directives_cons site ignored (by simp) _
  · rw [← String.toList_inj]
    exact doubled_injective (String.ofList_injective (Literal.string.inj h))

theorem tokens_quotedText_marks :
    (", 1)".toList).head? ≠ some '"' ∧
      directives.tokens (quotedText "\" * @a(\n" ++ ", 1)".toList) =
        [⟨.string, "\"\"\" * @a(\n\""⟩, ⟨.comma, ","⟩, ⟨.integer, "1"⟩, ⟨.closeParen, ")"⟩] := by
  have hrest : (", 1)".toList).head? ≠ some '"' := by decide
  exact ⟨hrest, (tokens_quotedText _ _ hrest).1.trans (by decide +kernel)⟩

end DocDirectives
