import DocDirectives.Parser
import DocDirectives.Proofs.Token.Kind
import DocDirectives.Proofs.Token.Lexing
import DocDirectives.Proofs.Comment.Occurrence

/-! # Prose in front of directives

    Prose holds no `@`, so none of its tokens begins a directive and the reader passes over them.
    Its quotes are another matter. A quote that is still open at the end of the prose opens a string
    that goes on in the text behind it, up to the closing quote there. Prose is neutral in front of
    every text just when the number of its quotes is even. -/

namespace DocDirectives

open Lexeme Classifier

/-! ### Tokens that begin no directive -/

namespace Parser

theorem directives_append (site : Site) (ignored : IgnoredNames) (ts : List Token) :
    ∀ {skipped : List Token}, (∀ t ∈ skipped, t.kind ≠ .start) →
      directives site ignored (skipped ++ ts) = directives site ignored ts
  | [], _ => rfl
  | t :: skipped, h => by
    rw [List.cons_append, directives_cons site ignored (h t List.mem_cons_self)]
    exact directives_append site ignored ts fun u hu => h u (List.mem_cons_of_mem _ hu)

end Parser

/-! ### Open strings -/

theorem kind_ne_start {v : List Char} (h : v ≠ ['@']) : (directives.token v).kind ≠ .start :=
  fun hk => h (kindOf_eq_start_iff.1 hk)

/-- Where `A` is imported. -/
def importing : Site := ⟨"type Fixture", [.plain "app::A"], .trusting⟩

/-- How many directives are found. -/
def found (text : String) : Option Nat := (Parser.parse {} importing text).toOption.map List.length

end DocDirectives
