import DocDirectives.Parser
import DocDirectives.Proofs.Token.Lexing

/-! # Decoration between tokens

    A text is decorated when white space and comment stars are put around its tokens in place of
    what stood there. Two tokens that touch each other would run together, so something stands
    between them. Then the tokens are those of the text, and so is all that is read from them. -/

namespace DocDirectives

open Lexeme Classifier

/-- `lead`, then each token with what comes behind it. -/
def decorate (lead : List Char) (parts : List (Token × List Char)) : List Char :=
  lead ++ parts.flatMap fun p => p.1.text.toList ++ p.2

/-- White space and comment stars only, and some of them between two tokens. -/
structure Spaced (lead : List Char) (parts : List (Token × List Char)) : Prop where
  lead : ∀ c ∈ lead, isSeparator c = true
  gaps : ∀ p ∈ parts, ∀ c ∈ p.2, isSeparator c = true
  between : ∀ p ∈ parts.dropLast, p.2 ≠ []

theorem spaced_iff (lead : List Char) (parts : List (Token × List Char)) :
    (lead.all isSeparator ∧ (parts.all fun p => p.2.all isSeparator) ∧
      parts.dropLast.all fun p => !p.2.isEmpty) ↔ Spaced lead parts := by
  simp only [List.all_eq_true, Bool.not_eq_true', List.isEmpty_eq_false_iff]
  exact ⟨fun ⟨hl, hg, hb⟩ => ⟨hl, hg, hb⟩, fun ⟨hl, hg, hb⟩ => ⟨hl, hg, hb⟩⟩

instance (lead : List Char) (parts : List (Token × List Char)) : Decidable (Spaced lead parts) :=
  decidable_of_iff _ (spaced_iff lead parts)

variable {lead : List Char} {parts : List (Token × List Char)}

theorem decorate_cons (lead : List Char) (p : Token × List Char)
    (parts : List (Token × List Char)) :
    decorate lead (p :: parts) = lead ++ (p.1.text.toList ++ decorate p.2 parts) := by
  simp only [decorate, List.flatMap_cons, List.append_assoc]

theorem Spaced.tail {p : Token × List Char} (h : Spaced lead (p :: parts)) : Spaced p.2 parts := by
  refine ⟨h.gaps p List.mem_cons_self, fun q hq => h.gaps q (List.mem_cons_of_mem _ hq),
    fun q hq => h.between q ?_⟩
  cases parts with
  | nil => cases hq
  | cons r rs => exact List.mem_cons_of_mem _ hq

/-- Behind a token stands a separator, if anything. -/
theorem Spaced.breaks {p : Token × List Char} (h : Spaced lead (p :: parts)) :
    Breaks isSeparator (decorate p.2 parts) := by
  obtain ⟨t, gap⟩ := p
  have hgap := h.gaps (t, gap) List.mem_cons_self
  cases gap with
  | cons c gap => exact hgap c List.mem_cons_self
  | nil =>
    cases parts with
    | nil => trivial
    | cons q parts => exact absurd rfl (h.between (t, []) List.mem_cons_self)

/-- A quote in a decorated text is one of a token. -/
theorem Spaced.quote_notMem (h : Spaced lead parts) {cs : List Char}
    (htokens : parts.map Prod.fst = directives.tokens cs) (hcs : '"' ∉ cs) :
    '"' ∉ decorate lead parts := by
  intro hmem
  rcases List.mem_append.1 hmem with hl | hp
  · exact ne_quote_of_isSeparator (h.lead _ hl) rfl
  · obtain ⟨p, hp, hmem⟩ := List.mem_flatMap.1 hp
    rcases List.mem_append.1 hmem with ht | hg
    · exact hcs (mem_of_mem_tokens (htokens ▸ List.mem_map_of_mem hp) ht)
    · exact ne_quote_of_isSeparator (h.gaps p hp _ hg) rfl

/-- A decorated text has the tokens of the text. -/
theorem tokens_decorate : ∀ {cs lead : List Char} {parts : List (Token × List Char)},
    parts.map Prod.fst = directives.tokens cs → Spaced lead parts →
      directives.tokens (decorate lead parts) = directives.tokens cs
  | [], lead, parts, htokens, hs => by
    rw [tokens_nil, List.map_eq_nil_iff] at htokens
    subst htokens
    exact tokens_separators [] hs.lead
  | c :: cs, lead, parts, htokens, hs => by
    cases hc : isSeparator c with
    | true =>
      rw [tokens_separator hc] at htokens ⊢
      exact tokens_decorate htokens hs
    | false =>
      obtain ⟨u, rest, rfl, hlexed⟩ := exists_lexed hc cs
      have hcs := tokens_lexed hc hlexed
      rw [List.cons_append] at hcs
      rw [hcs] at htokens ⊢
      obtain ⟨p, ps, rfl, hp, hps⟩ := List.map_eq_cons_iff.1 htokens
      -- the lexeme is the same in front of the separators that now follow it
      have hlexed' : Lexed (c :: u) (decorate p.2 ps) :=
        hlexed.before_separator (List.cons_ne_nil c u) hs.breaks fun _ => hs.tail.quote_notMem hps
      have hshorter : rest.length < (c :: (u ++ rest)).length := by
        rw [List.length_cons, List.length_append]
        omega
      have ih := tokens_decorate hps hs.tail
      rw [decorate_cons, tokens_separators _ hs.lead, hp, token, String.toList_ofList,
        tokens_lexed hc hlexed', ih]
      rfl
termination_by cs => cs.length

/-- Decoration changes neither the tokens of a comment nor its directives. -/
theorem parse_decorate (text : String) (lead : List Char) (parts : List (Token × List Char))
    (htokens : parts.map Prod.fst = directives.tokens text.toList) (hs : Spaced lead parts) :
    directives.tokens (decorate lead parts) = directives.tokens text.toList ∧
      ∀ (ignored : IgnoredNames) (site : Site),
        Parser.parse ⟨.directives, ignored⟩ site (String.ofList (decorate lead parts)) =
          Parser.parse ⟨.directives, ignored⟩ site text := by
  have h := tokens_decorate htokens hs
  refine ⟨h, fun ignored site => ?_⟩
  simp only [Parser.parse, String.toList_ofList, h]

/-- A directive over three comment lines. -/
def spread : List (Token × List Char) :=
  [(⟨.start, "@"⟩, [' ']), (⟨.other, "app::A"⟩, ['\n', '*']), (⟨.openParen, "("⟩, ['\t']),
    (⟨.float, "-1.5"⟩, [' ', '*']), (⟨.comma, ","⟩, ['\n', ' ', '*', ' ']),
    (⟨.string, "\"a\"\"b\""⟩, ['*']), (⟨.closeParen, ")"⟩, [])]

theorem parse_decorate_spread :
    spread.map Prod.fst = directives.tokens "@app::A(-1.5,\"a\"\"b\")".toList ∧
      Spaced ['*', ' '] spread ∧
      Parser.parse {} ⟨"type Fixture", [.plain "app::A"], .trusting⟩
          (String.ofList (decorate ['*', ' '] spread)) =
        Parser.parse {} ⟨"type Fixture", [.plain "app::A"], .trusting⟩
          "@app::A(-1.5,\"a\"\"b\")" := by
  have htokens : spread.map Prod.fst = directives.tokens "@app::A(-1.5,\"a\"\"b\")".toList := by
    decide +kernel
  have hspaced : Spaced ['*', ' '] spread := by decide +kernel
  exact ⟨htokens, hspaced, (parse_decorate _ _ _ htokens hspaced).2 .standard _⟩

end DocDirectives
