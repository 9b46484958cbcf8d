import DocDirectives.Grammar
import DocDirectives.Symbol
import DocDirectives.IgnoredNames
import DocDirectives.Registry
import DocDirectives.Failure
import DocDirectives.Token.Classifier

/-! # Directives of a comment

    A directive is an `@`, a name, and perhaps arguments in parentheses. All other tokens of a
    comment are prose. The name is any one token. An ignored directive is skipped with its
    parentheses; every other one has to name a known type before its arguments are looked at. The
    first directive that fails ends the reading. -/

namespace DocDirectives

/-- Where a comment stands: what it documents, what its file imports, which types are known. -/
structure Site where
  context : String
  symbols : SymbolTable
  catalog : Catalog

namespace Site

/-- The qualified name of the type that a directive names. -/
def typeOf? (site : Site) (name : String) : Option String :=
  match site.symbols.resolve name with
  | .byAlias s => some s.fullName
  | .byShort s => if site.catalog.knows s.fullName then some s.fullName else none
  | .unresolved => none

/-- A mismatch, reported for the documented declaration. -/
def failure (site : Site) (m : Mismatch) : Failure :=
  .unexpected site.context m.construct m.expected

end Site

/-- A reader of comments: how text is cut into tokens, and which directives are skipped. -/
structure Parser where
  classifier : Classifier := .directives
  ignored : IgnoredNames := .standard

namespace Parser

open Grammar

/-- The arguments behind a directive name, and the tokens behind those. -/
def argumentsAfter (ts : List Token) :
    Except Mismatch (Arguments × { rest : List Token // rest.length ≤ ts.length }) :=
  if isNext .openParen ts then
    match parenthesis ts with
    | .error e => .error e
    | .ok p => .ok (p.value, ⟨p.rest, Nat.le_of_lt p.shorter⟩)
  else .ok (.placeholder, ⟨ts, Nat.le_refl _⟩)

/-- The directives of a token list, in order, or the failure of the first that fails. -/
def directives (site : Site) (ignored : IgnoredNames) (ts : List Token) :
    Except Failure (List Directive) :=
  match ts with
  | [] => .ok []
  | [t] =>
    if t.kind = .start then .error (site.failure ⟨"directive", "annotation name"⟩) else .ok []
  | t :: name :: rest =>
    if t.kind = .start then
      if ignored.contains name.text then
        have := length_skipGroup_le rest
        directives site ignored (skipGroup rest)
      else
        match site.typeOf? name.text with
        | none => .error (.unresolved name.text site.context)
        | some typeName =>
          match argumentsAfter rest with
          | .error e => .error (site.failure e)
          | .ok (arguments, ⟨rest', _⟩) =>
            match directives site ignored rest' with
            | .error e => .error e
            | .ok ds => .ok (⟨typeName, site.context, arguments⟩ :: ds)
    else directives site ignored (name :: rest)
termination_by ts.length

/-- The directives of a comment. -/
def parse (p : Parser) (site : Site) (text : String) : Except Failure (List Directive) :=
  directives site p.ignored (p.classifier.tokens text.toList)

end Parser

end DocDirectives
