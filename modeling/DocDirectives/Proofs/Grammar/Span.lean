import DocDirectives.Proofs.Grammar.Derivation
import DocDirectives.Proofs.Grammar.Group

/-! # What an argument list takes up

    An argument list is closed by its own last token, so nothing behind it has a say in how it is
    read. Of the tokens that it takes up, only its first, its last and its keys can be parentheses:
    where no key is one, the list is a group. -/

namespace DocDirectives.Grammar

/-! ### Tokens behind a reading -/

theorem length_of_literalAt {ts rest : List Token} {v : Literal} (h : LiteralAt ts v rest) :
    rest.length < ts.length :=
  shorter_of_reads ((reads_literal ts rest v).2 h)

theorem length_of_entriesAt {ts rest : List Token} {es : List (Option Key × Literal)}
    (h : EntriesAt ts es rest) : rest.length < ts.length :=
  shorter_of_reads ((reads_entries .empty _ ts rest).2 ⟨es, h, rfl⟩)

theorem isNext_append {ts : List Token} (h : ts ≠ []) (k : Kind) (more : List Token) :
    isNext k (ts ++ more) = isNext k ts := by
  cases ts with
  | nil => exact absurd rfl h
  | cons t ts => rfl

theorem Ends.append {closer : Kind} {ts rest : List Token} (h : Ends closer ts rest)
    (more : List Token) : Ends closer (ts ++ more) (rest ++ more) := by
  cases h with
  | here hc => exact .here hc
  | comma ha hc => exact .comma ha hc

theorem Ends.ne_nil {closer : Kind} {ts rest : List Token} (h : Ends closer ts rest) :
    ts ≠ [] := by
  cases h <;> exact List.cons_ne_nil _ _

theorem GoesOn.append {closer : Kind} {ts xs : List Token} (h : GoesOn closer ts xs)
    (hxs : xs ≠ []) (more : List Token) : GoesOn closer (ts ++ more) (xs ++ more) := by
  cases h with
  | comma ha hc => exact .comma ha ((isNext_append hxs closer more).trans hc)

theorem GoesOn.ne_nil {closer : Kind} {ts xs : List Token} (h : GoesOn closer ts xs) :
    ts ≠ [] := by
  cases h
  exact List.cons_ne_nil _ _

/-- The label of an item is found in its first two tokens. -/
theorem Labelled.append {α : Type} {mark : Kind} {Denotes : Token → α → Prop}
    {ts us ws : List Token} {a : Option α} {v : Literal} (h : Labelled mark Denotes ts a us)
    (hv : LiteralAt us v ws) (hws : ws ≠ []) (more : List Token) :
    Labelled mark Denotes (ts ++ more) a (us ++ more) := by
  cases h with
  | marked hc ha => exact .marked hc ha
  | plain hn =>
    refine .plain ?_
    have hlen := length_of_literalAt hv
    have hpos := List.length_pos_iff.2 hws
    match ts, hn, hlen with
    | t :: ts, hn, hlen =>
      have hts : ts ≠ [] := by
        rintro rfl
        simp only [List.length_cons, List.length_nil] at hlen
        omega
      exact (isNext_append hts mark more).trans hn

mutual

theorem LiteralAt.append {ts rest : List Token} {v : Literal} :
    LiteralAt ts v rest → ∀ more, LiteralAt (ts ++ more) v (rest ++ more)
  | .atom ha, _ => .atom ha
  | .empty ho hc, _ => .empty ho hc
  | .array ho hn hes, more => by
    have hts : _ ≠ [] := List.ne_nil_of_length_pos (Nat.zero_lt_of_lt (length_of_entriesAt hes))
    exact .array ho ((isNext_append hts _ more).trans hn) (hes.append more)

theorem EntriesAt.append {ts rest : List Token} {es : List (Option Key × Literal)} :
    EntriesAt ts es rest → ∀ more, EntriesAt (ts ++ more) es (rest ++ more)
  | .last hl hv hends, more => .last (hl.append hv hends.ne_nil more) (hv.append more)
      (hends.append more)
  | .more hl hv hgoes hes, more => by
    have hxs : _ ≠ [] := List.ne_nil_of_length_pos (Nat.zero_lt_of_lt (length_of_entriesAt hes))
    exact .more (hl.append hv hgoes.ne_nil more) (hv.append more) (hgoes.append hxs more)
      (hes.append more)

end

theorem ArgumentsAt.ne_nil {ts rest : List Token} {vs : List (Option String × Literal)}
    (h : ArgumentsAt ts vs rest) : ts ≠ [] := by
  have hpos : ∀ {us ws : List Token} {v : Literal} {n : Option String},
      Labelled .assign NameDenotes ts n us → LiteralAt us v ws → ts ≠ [] := by
    intro us ws v n hl hv
    have hle := length_of_labelled hl
    have hlt := length_of_literalAt hv
    exact List.ne_nil_of_length_pos (by omega)
  cases h with
  | last hl hv _ => exact hpos hl hv
  | more hl hv _ _ => exact hpos hl hv

theorem ArgumentsAt.append {ts rest : List Token} {vs : List (Option String × Literal)}
    (h : ArgumentsAt ts vs rest) (more : List Token) :
    ArgumentsAt (ts ++ more) vs (rest ++ more) := by
  induction h with
  | last hl hv hends =>
    exact .last (hl.append hv hends.ne_nil more) (hv.append more) (hends.append more)
  | more hl hv hgoes hvs ih =>
    exact .more (hl.append hv hgoes.ne_nil more) (hv.append more) (hgoes.append hvs.ne_nil more) ih

/-- An argument list is read the same whatever stands behind it. -/
theorem Derives.append {ts rest : List Token} {a : Arguments} (h : Derives ts a rest)
    (more : List Token) : Derives (ts ++ more) a (rest ++ more) := by
  cases h with
  | empty ho hc => exact .empty ho hc
  | list ho hn hvs => exact .list ho ((isNext_append hvs.ne_nil _ more).trans hn) (hvs.append more)

/-! ### Keys -/

mutual

/-- Where a key stands in a literal. A place is given by the tokens from there on. -/
inductive KeyOfLiteral : List Token → List Token → Prop
  | array {o : Token} {ts place : List Token} : o.kind = .openBrace →
      isNext .closeBrace ts = false → KeyOfItems .colon .closeBrace ts place →
      KeyOfLiteral (o :: ts) place

/-- Where a key stands in the items of a list, or in a value among them. What the labels denote
    plays no part. -/
inductive KeyOfItems : Kind → Kind → List Token → List Token → Prop
  | here {mark closer : Kind} {k c : Token} {rest : List Token} : c.kind = mark →
      KeyOfItems mark closer (k :: c :: rest) (k :: c :: rest)
  | within {mark closer : Kind} {α : Type} {Denotes : Token → α → Prop} {a : Option α}
      {ts us place : List Token} :
      Labelled mark Denotes ts a us → KeyOfLiteral us place → KeyOfItems mark closer ts place
  | behind {mark closer : Kind} {α : Type} {Denotes : Token → α → Prop} {a : Option α}
      {ts us ws xs place : List Token} {v : Literal} :
      Labelled mark Denotes ts a us → LiteralAt us v ws → GoesOn closer ws xs →
      KeyOfItems mark closer xs place → KeyOfItems mark closer ts place

end

/-- Where a key of an argument list stands, at whatever depth. -/
inductive KeyAt : List Token → List Token → Prop
  | list {o : Token} {ts place : List Token} : o.kind = .openParen →
      isNext .closeParen ts = false → KeyOfItems .assign .closeParen ts place →
      KeyAt (o :: ts) place

/-- A token that stands at one of the places. -/
def StandsAt (Place : List Token → Prop) (t : Token) : Prop := ∃ behind, Place (t :: behind)

/-- A token that an argument list uses as a key, at whatever depth. -/
def UsesKey (ts : List Token) (k : Token) : Prop := StandsAt (KeyAt ts) k

/-! ### Parentheses in an argument list -/

/-- `rest` is what is left of `ts` behind tokens whose parentheses all satisfy `P`. -/
def Spans (P : Token → Prop) (ts rest : List Token) : Prop :=
  ∃ used, ts = used ++ rest ∧ ∀ t ∈ used, t.isParen = true → P t

namespace Spans

variable {P Q : Token → Prop} {ts us rest : List Token}

theorem refl (P : Token → Prop) (ts : List Token) : Spans P ts ts := ⟨[], rfl, by simp⟩

theorem trans (h : Spans P ts us) (h' : Spans P us rest) : Spans P ts rest := by
  obtain ⟨used, rfl, hused⟩ := h
  obtain ⟨more, rfl, hmore⟩ := h'
  refine ⟨used ++ more, by rw [List.append_assoc], ?_⟩
  intro t ht
  rcases List.mem_append.1 ht with ht | ht
  · exact hused t ht
  · exact hmore t ht

theorem imp (h : Spans P ts rest) (hPQ : ∀ t, P t → Q t) : Spans Q ts rest := by
  obtain ⟨used, rfl, hused⟩ := h
  exact ⟨used, rfl, fun t ht hp => hPQ t (hused t ht hp)⟩

theorem cons {t : Token} (ht : t.isParen = true → P t) (h : Spans P ts rest) :
    Spans P (t :: ts) rest := by
  obtain ⟨used, rfl, hused⟩ := h
  refine ⟨t :: used, rfl, ?_⟩
  rintro u (_ | ⟨_, hu⟩)
  · exact ht
  · exact hused u hu

/-- Past a token that is no parenthesis. -/
theorem skip {t : Token} (ht : t.isParen = false) (h : Spans P ts rest) :
    Spans P (t :: ts) rest := h.cons fun hp => absurd hp (by simp [ht])

end Spans

section Spans

variable {α : Type} {mark closer : Kind} {Denotes : Token → α → Prop} {a : Option α}
variable {P : Token → Prop} {ts us ws xs rest : List Token} {v : Literal}

theorem not_paren {t : Token} {k : Kind} (h : t.kind = k)
    (hk : (k == .openParen || k == .closeParen) = false) : t.isParen = false := by
  rw [Token.isParen, h, hk]

theorem AtomDenotes.not_paren {t : Token} {v : Literal} (h : AtomDenotes t v) :
    t.isParen = false := by
  cases h <;> rfl

theorem Ends.spans (h : Ends closer ts rest)
    (hcloser : (closer == .openParen || closer == .closeParen) = false) : Spans P ts rest := by
  cases h with
  | here hc => exact .skip (not_paren hc hcloser) (.refl P _)
  | comma ha hc => exact .skip (not_paren ha rfl) (.skip (not_paren hc hcloser) (.refl P _))

theorem GoesOn.spans (h : GoesOn closer ts us) : Spans P ts us := by
  cases h with
  | comma ha _ => exact .skip (not_paren ha rfl) (.refl P _)

/-- The only parentheses in an item are its key and those in its value. -/
theorem Labelled.spans (hl : Labelled mark Denotes ts a us)
    (hmark : (mark == .openParen || mark == .closeParen) = false)
    (hvalue : Spans (StandsAt (KeyOfLiteral us)) us ws) :
    Spans (StandsAt (KeyOfItems mark closer ts)) ts ws := by
  have hwithin : Spans (StandsAt (KeyOfItems mark closer ts)) us ws :=
    hvalue.imp fun _ hk => hk.imp fun _ => .within hl
  cases hl with
  | @marked k c _ _ hc _ =>
    have hbehind := Spans.skip (not_paren hc hmark) hwithin
    exact hbehind.cons fun _ => ⟨c :: us, .here hc⟩
  | plain => exact hwithin

/-- The items behind the first have their keys where they stand. -/
theorem GoesOn.spans_items (hgoes : GoesOn closer ws xs) (hl : Labelled mark Denotes ts a us)
    (hv : LiteralAt us v ws) (hitems : Spans (StandsAt (KeyOfItems mark closer xs)) xs rest) :
    Spans (StandsAt (KeyOfItems mark closer ts)) ws rest := by
  have hbehind : Spans (StandsAt (KeyOfItems mark closer ts)) xs rest :=
    hitems.imp fun _ hk => hk.imp fun _ => .behind hl hv hgoes
  exact hgoes.spans.trans hbehind

mutual

/-- The only parentheses in a literal are keys. -/
theorem LiteralAt.spans {ts rest : List Token} {v : Literal} :
    LiteralAt ts v rest → Spans (StandsAt (KeyOfLiteral ts)) ts rest
  | .atom ha => .skip ha.not_paren (.refl _ _)
  | .empty ho hc => .skip (not_paren ho rfl) (.skip (not_paren hc rfl) (.refl _ _))
  | .array ho hn hes => .skip (not_paren ho rfl) (hes.spans.imp fun _ hk => hk.imp fun _ =>
      .array ho hn)

theorem EntriesAt.spans {ts rest : List Token} {es : List (Option Key × Literal)} :
    EntriesAt ts es rest → Spans (StandsAt (KeyOfItems .colon .closeBrace ts)) ts rest
  | .last hl hv hends => (hl.spans rfl hv.spans).trans (hends.spans rfl)
  | .more hl hv hgoes hes =>
    (hl.spans rfl hv.spans).trans (hgoes.spans_items hl hv hes.spans)

end

/-- What stands behind arguments is the closing parenthesis and the tokens behind that. -/
theorem Ends.divide (h : Ends closer ts rest) : ∃ c, c.kind = closer ∧ Spans P ts (c :: rest) := by
  cases h with
  | @here c _ hc => exact ⟨c, hc, .refl P _⟩
  | @comma a c _ ha hc => exact ⟨c, hc, .skip (not_paren ha rfl) (.refl P _)⟩

/-- The only parentheses in arguments are keys, and the one behind the last argument. -/
theorem ArgumentsAt.spans {vs : List (Option String × Literal)} (h : ArgumentsAt ts vs rest) :
    ∃ c, c.kind = .closeParen ∧
      Spans (StandsAt (KeyOfItems .assign .closeParen ts)) ts (c :: rest) := by
  induction h with
  | last hl hv hends =>
    obtain ⟨c, hc, hlast⟩ := hends.divide
    exact ⟨c, hc, (hl.spans rfl hv.spans).trans hlast⟩
  | more hl hv hgoes _ ih =>
    obtain ⟨c, hc, hrest⟩ := ih
    exact ⟨c, hc, (hl.spans rfl hv.spans).trans (hgoes.spans_items hl hv hrest)⟩

/-- An argument list that uses no parenthesis as a key is a group. -/
theorem Derives.group {a : Arguments} (h : Derives ts a rest)
    (hkeys : ∀ k, UsesKey ts k → k.isParen = false) : ∃ g, Group g ∧ ts = g ++ rest := by
  cases h with
  | @empty o c _ ho hc =>
    exact ⟨[o, c], group_of_no_paren [] ho hc (by simp), rfl⟩
  | @list o ts _ vs ho hn hvs =>
    obtain ⟨c, hc, inner, rfl, hinner⟩ := hvs.spans
    refine ⟨o :: (inner ++ [c]), group_of_no_paren inner ho hc ?_, by simp⟩
    intro t ht
    by_contra hp
    obtain ⟨behind, hkey⟩ := hinner t ht (by simpa using hp)
    exact hp (hkeys t ⟨behind, .list ho hn hkey⟩)

/-! ### Places of keys -/

theorem Spans.suffix (h : Spans P ts rest) : rest <:+ ts := by
  obtain ⟨used, rfl, -⟩ := h
  exact List.suffix_append used rest

theorem Labelled.suffix (h : Labelled mark Denotes ts a us) : us <:+ ts := by
  cases h with
  | @marked t c _ _ => exact List.suffix_append [t, c] us
  | plain => exact List.suffix_refl _

/-- At a place the first token stands in front of an equals sign or a colon. -/
inductive Marked : List Token → Prop
  | intro {k m : Token} {rest : List Token} : m.kind = .assign ∨ m.kind = .colon →
      Marked (k :: m :: rest)

mutual

theorem KeyOfLiteral.place {ts place : List Token} :
    KeyOfLiteral ts place → place <:+ ts ∧ Marked place
  | .array _ _ hk => (hk.place (.inr rfl)).imp_left (List.suffix_cons_iff.2 <| .inr ·)

theorem KeyOfItems.place {mark closer : Kind} {ts place : List Token}
    (hmark : mark = .assign ∨ mark = .colon) :
    KeyOfItems mark closer ts place → place <:+ ts ∧ Marked place
  | .here hc => ⟨List.suffix_refl _, .intro (hc ▸ hmark)⟩
  | .within hl hk => hk.place.imp_left (·.trans hl.suffix)
  | .behind hl hv hgoes hk => by
    have hlast := (hgoes.spans (P := fun _ => True)).suffix
    exact (hk.place hmark).imp_left (·.trans (hlast.trans (hv.spans.suffix.trans hl.suffix)))

end

theorem mem_zip_tail (before : List Token) (k m : Token) (rest : List Token) :
    (k, m) ∈ (before ++ k :: m :: rest).zip (before ++ k :: m :: rest).tail := by
  induction before with
  | nil => exact List.mem_cons_self
  | cons t before ih =>
    cases before with
    | nil => exact List.mem_cons_of_mem _ ih
    | cons u before => exact List.mem_cons_of_mem _ ih

/-- A key stands in front of its mark. -/
theorem UsesKey.marked {k : Token} (h : UsesKey ts k) :
    ∃ m, (m.kind = .assign ∨ m.kind = .colon) ∧ (k, m) ∈ ts.zip ts.tail := by
  obtain ⟨behind, @⟨o, _, _, _, _, hk⟩⟩ := h
  obtain ⟨⟨before, rfl⟩, @⟨_, m, rest, hm⟩⟩ := hk.place (.inl rfl)
  exact ⟨m, hm, mem_zip_tail (o :: before) k m rest⟩

end Spans

end DocDirectives.Grammar
