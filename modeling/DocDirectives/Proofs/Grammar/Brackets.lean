import DocDirectives.Proofs.Grammar.Span

/-! # Brackets of an argument list

    An argument list is closed by the parenthesis that matches its first one, and between them
    parentheses and braces pair up and nest. The exception are the keys: a key is whatever token
    stands in front of its mark, so it may be a bracket, which opens and closes nothing. Without
    such keys the tokens of a list are balanced. -/

namespace DocDirectives

/-- Whether a token is a parenthesis or a brace. -/
def Token.isBracket (t : Token) : Bool :=
  t.isParen || t.kind == .openBrace || t.kind == .closeBrace

namespace Grammar

/-- An opening bracket and the one that closes it. -/
inductive Pair : Kind → Kind → Prop
  | parentheses : Pair .openParen .closeParen
  | braces : Pair .openBrace .closeBrace

/-- Tokens whose brackets pair up and nest. -/
inductive Balanced : List Token → Prop
  | nil : Balanced []
  | other {t : Token} {ts : List Token} : t.isBracket = false → Balanced ts → Balanced (t :: ts)
  | group {o c : Token} {inner ts : List Token} : Pair o.kind c.kind → Balanced inner →
      Balanced ts → Balanced (o :: (inner ++ c :: ts))

/-- What stands at a place is a bracket. -/
def BracketAt (place : List Token) : Prop := ∃ t ∈ place.head?, t.isBracket = true

/-- `kept` is left of the tokens in front of `rest` without the brackets at the places. Each of them
    stands in front of an equals sign or a colon. -/
inductive Without (rest : List Token) : List (List Token) → List Token → List Token → Prop
  | nil : Without rest [] rest []
  | keep {places : List (List Token)} {ts kept : List Token} (t : Token) :
      Without rest places ts kept → Without rest places (t :: ts) (t :: kept)
  | drop {k m : Token} {places : List (List Token)} {ts kept : List Token} : k.isBracket = true →
      m.kind = .assign ∨ m.kind = .colon → Without rest places ts kept →
      Without rest ((k :: m :: ts) :: places) (k :: m :: ts) (m :: kept)

section Brackets

variable {α : Type} {mark closer : Kind} {Denotes : Token → α → Prop} {a : Option α}
variable {P Q : List Token → Prop} {places : List (List Token)}
variable {ts us ws xs rest kept place : List Token} {v : Literal}

theorem Balanced.append (h : Balanced ts) (h' : Balanced us) : Balanced (ts ++ us) := by
  induction h with
  | nil => exact h'
  | other ht _ ih => exact .other ht ih
  | group hpair hinner _ _ ih =>
    rw [List.cons_append, List.append_assoc, List.cons_append]
    exact .group hpair hinner ih

/-- Balanced tokens open and close as many parentheses. -/
theorem Balanced.surplus_eq_zero (h : Balanced ts) : surplus ts = 0 := by
  induction h with
  | nil => rfl
  | other ht _ ih =>
    simp only [Token.isBracket, Bool.or_eq_false_iff] at ht
    rw [surplus, weight_other ht.1.1, ih, Int.add_zero]
  | @group o c _ _ hpair _ _ hinner hts =>
    have hweights : weight o + weight c = 0 := by
      generalize ho : o.kind = ko at hpair
      generalize hc : c.kind = kc at hpair
      cases hpair with
      | parentheses => rw [weight_open ho, weight_close hc, Int.add_right_neg]
      | braces =>
        rw [weight_other (not_paren ho rfl), weight_other (not_paren hc rfl), Int.add_zero]
    rw [surplus, surplus_append, surplus, hinner, hts]
    omega

theorem Without.append {places' : List (List Token)} {kept' : List Token}
    (h : Without us places ts kept) (h' : Without rest places' us kept') :
    Without rest (places ++ places') ts (kept ++ kept') := by
  induction h with
  | nil => exact h'
  | keep t _ ih => exact .keep t ih
  | drop hk hm _ ih => exact .drop hk hm ih

theorem Without.suffix (h : Without rest places ts kept) : rest <:+ ts := by
  induction h with
  | nil => exact List.suffix_refl _
  | keep t _ ih => exact ih.trans (List.suffix_cons t _)
  | @drop k m _ ts _ _ _ _ ih => exact ih.trans (List.suffix_append [k, m] ts)

/-- Without places nothing is left out. -/
theorem Without.eq (h : Without rest places ts kept) (hplaces : places = []) :
    ts = kept ++ rest := by
  induction h with
  | nil => rfl
  | keep t _ ih => rw [ih hplaces, List.cons_append]
  | drop => cases hplaces

/-! ### Nested parts of a list -/

/-- `rest` is what is left of `ts` behind tokens that are balanced without the brackets at the
    places that satisfy `P`. -/
def Nests (P : List Token → Prop) (ts rest : List Token) : Prop :=
  ∃ places kept, (∀ place, place ∈ places ↔ P place ∧ BracketAt place) ∧
    Without rest places ts kept ∧ Balanced kept

namespace Nests

theorem refl (ts : List Token) : Nests (fun _ => False) ts ts :=
  ⟨[], [], by simp, .nil, .nil⟩

theorem trans (h : Nests P ts us) (h' : Nests Q us rest) :
    Nests (fun place => P place ∨ Q place) ts rest := by
  obtain ⟨places, kept, hplaces, hwithout, hbalanced⟩ := h
  obtain ⟨places', kept', hplaces', hwithout', hbalanced'⟩ := h'
  refine ⟨places ++ places', kept ++ kept', fun place => ?_, hwithout.append hwithout',
    hbalanced.append hbalanced'⟩
  rw [List.mem_append, hplaces, hplaces', or_and_right]

theorem congr (h : Nests P ts rest) (hPQ : ∀ place, Q place ↔ P place) : Nests Q ts rest := by
  obtain ⟨places, kept, hplaces, hwithout, hbalanced⟩ := h
  exact ⟨places, kept, fun place => by rw [hplaces, hPQ], hwithout, hbalanced⟩

/-- Past a token that is no bracket. -/
theorem skip {t : Token} (ht : t.isBracket = false) (h : Nests P ts rest) :
    Nests P (t :: ts) rest := by
  obtain ⟨places, kept, hplaces, hwithout, hbalanced⟩ := h
  exact ⟨places, t :: kept, hplaces, hwithout.keep t, .other ht hbalanced⟩

/-- Past a key and its mark. -/
theorem key {k m : Token} (hm : m.kind = .assign ∨ m.kind = .colon) (ts : List Token) :
    Nests (· = k :: m :: ts) (k :: m :: ts) ts := by
  have hmark : m.isBracket = false := by
    rcases hm with hm | hm <;> simp [Token.isBracket, Token.isParen, hm]
  cases hb : k.isBracket with
  | false =>
    refine ⟨[], [k, m], fun place => ?_, .keep k (.keep m .nil), .other hb (.other hmark .nil)⟩
    simp only [List.not_mem_nil, false_iff]
    rintro ⟨rfl, t, ht, hbracket⟩
    obtain rfl : k = t := Option.some.inj ht
    simp [hb] at hbracket
  | true =>
    refine ⟨[k :: m :: ts], [m], fun place => ?_, .drop hb hm .nil, .other hmark .nil⟩
    rw [List.mem_singleton, iff_self_and]
    rintro rfl
    exact ⟨k, rfl, hb⟩

/-- Past a group: an opening bracket, what is nested in it, and the one that closes it. -/
theorem group {o c : Token} (hpair : Pair o.kind c.kind) (h : Nests P ts (c :: rest)) :
    Nests P (o :: ts) rest := by
  obtain ⟨places, kept, hplaces, hwithout, hbalanced⟩ := h
  refine ⟨places, o :: (kept ++ [c]), hplaces, ?_, .group hpair hbalanced .nil⟩
  have hclosed := hwithout.append (.keep c .nil)
  rw [List.append_nil] at hclosed
  exact hclosed.keep o

end Nests

/-! ### Keys of an item and of the items behind it -/

theorem Labelled.unique {β : Type} {Denotes' : Token → β → Prop} {b : Option β}
    (h : Labelled mark Denotes ts a us) (h' : Labelled mark Denotes' ts b ws) : us = ws := by
  cases h with
  | marked hc =>
    cases h' with
    | marked => rfl
    | plain hn => simp [isNext, hc] at hn
  | plain hn =>
    cases h' with
    | marked hc => simp [isNext, hc] at hn
    | plain => rfl

theorem LiteralAt.unique {w : Literal} (h : LiteralAt ts v us) (h' : LiteralAt ts w ws) :
    us = ws :=
  (reads_unique ((reads_literal ts us v).2 h) ((reads_literal ts ws w).2 h')).2

theorem GoesOn.unique (h : GoesOn closer ts us) (h' : GoesOn closer ts ws) : us = ws := by
  cases h
  cases h'
  rfl

theorem Ends.not_goesOn (hcloser : closer ≠ .comma) (h : Ends closer ts rest) :
    ¬GoesOn closer ts us := by
  rintro ⟨ha, hn⟩
  cases h with
  | here hc => exact hcloser (hc.symm.trans ha)
  | comma _ hc => simp [isNext, hc] at hn

theorem keyOfArray_iff {o : Token} (ho : o.kind = .openBrace)
    (hn : isNext .closeBrace ts = false) :
    KeyOfLiteral (o :: ts) place ↔ KeyOfItems .colon .closeBrace ts place :=
  ⟨fun | .array _ _ hk => hk, .array ho hn⟩

/-- A key of some items is that of the first, or stands in its value or in the items behind it. -/
theorem keyOfItems_iff (hl : Labelled mark Denotes ts a us) (hv : LiteralAt us v ws) :
    KeyOfItems mark closer ts place ↔ (a.isSome = true ∧ place = ts) ∨ KeyOfLiteral us place ∨
      ∃ xs, GoesOn closer ws xs ∧ KeyOfItems mark closer xs place := by
  constructor
  · intro h
    cases h with
    | here hc =>
      cases hl with
      | marked => exact .inl ⟨rfl, rfl⟩
      | plain hn => simp [isNext, hc] at hn
    | within hl' hk =>
      obtain rfl := hl.unique hl'
      exact .inr (.inl hk)
    | behind hl' hv' hgoes hk =>
      obtain rfl := hl.unique hl'
      obtain rfl := hv.unique hv'
      exact .inr (.inr ⟨_, hgoes, hk⟩)
  · rintro (⟨ha, rfl⟩ | hk | ⟨xs, hgoes, hk⟩)
    · cases hl with
      | marked hc => exact .here hc
      | plain => cases ha
    · exact .within hl hk
    · exact .behind hl hv hgoes hk

/-! ### The grammar -/

theorem AtomDenotes.not_bracket {t : Token} {v : Literal} (h : AtomDenotes t v) :
    t.isBracket = false := by
  cases h <;> rfl

theorem not_bracket_of_comma {t : Token} (h : t.kind = .comma) : t.isBracket = false := by
  simp [Token.isBracket, Token.isParen, h]

theorem Labelled.nests (h : Labelled mark Denotes ts a us)
    (hmark : mark = .assign ∨ mark = .colon) :
    Nests (fun place => a.isSome = true ∧ place = ts) ts us := by
  cases h with
  | marked hc => exact (Nests.key (hc ▸ hmark) us).congr fun place => by simp
  | plain => exact (Nests.refl ts).congr fun place => by simp

/-- What stands behind the last item is the closer and the tokens behind that. -/
theorem Ends.nests (h : Ends closer ts rest) :
    ∃ c, c.kind = closer ∧ Nests (fun _ => False) ts (c :: rest) := by
  cases h with
  | @here c _ hc => exact ⟨c, hc, .refl _⟩
  | @comma a c _ ha hc => exact ⟨c, hc, .skip (not_bracket_of_comma ha) (.refl _)⟩

/-- The last item of a list. -/
theorem nests_last (hl : Labelled mark Denotes ts a us) (hmark : mark = .assign ∨ mark = .colon)
    (hv : LiteralAt us v ws) (hvalue : Nests (KeyOfLiteral us) us ws) (hcloser : closer ≠ .comma)
    (hends : Ends closer ws rest) :
    ∃ c, c.kind = closer ∧ Nests (KeyOfItems mark closer ts) ts (c :: rest) := by
  obtain ⟨c, hc, hlast⟩ := hends.nests
  refine ⟨c, hc, ((hl.nests hmark).trans (hvalue.trans hlast)).congr fun place => ?_⟩
  simp only [keyOfItems_iff hl hv, hends.not_goesOn hcloser, false_and, exists_false]

/-- An item in front of others. -/
theorem nests_more {c : Token} (hl : Labelled mark Denotes ts a us)
    (hmark : mark = .assign ∨ mark = .colon) (hv : LiteralAt us v ws)
    (hvalue : Nests (KeyOfLiteral us) us ws) (hgoes : GoesOn closer ws xs)
    (hitems : Nests (KeyOfItems mark closer xs) xs (c :: rest)) :
    Nests (KeyOfItems mark closer ts) ts (c :: rest) := by
  have hcomma : Nests (KeyOfItems mark closer xs) ws (c :: rest) := by
    cases hgoes with
    | comma ha => exact .skip (not_bracket_of_comma ha) hitems
  refine ((hl.nests hmark).trans (hvalue.trans hcomma)).congr fun place => ?_
  rw [keyOfItems_iff hl hv]
  refine or_congr_right (or_congr_right ⟨?_, fun hk => ⟨xs, hgoes, hk⟩⟩)
  rintro ⟨xs', hgoes', hk⟩
  exact hgoes.unique hgoes' ▸ hk

mutual

/-- A literal is balanced without its keys that are brackets. -/
theorem LiteralAt.nests {ts rest : List Token} {v : Literal} :
    LiteralAt ts v rest → Nests (KeyOfLiteral ts) ts rest
  | .atom ha => by
    refine (Nests.skip ha.not_bracket (.refl _)).congr fun place => iff_of_false ?_ id
    rintro ⟨ho, -⟩
    exact absurd ha.not_bracket (by simp [Token.isBracket, ho])
  | .empty ho hc => by
    refine ((Nests.refl _).group (ho ▸ hc ▸ .braces)).congr fun place => iff_of_false ?_ id
    rintro ⟨-, hn, -⟩
    simp [isNext, hc] at hn
  | .array ho hn hes => by
    obtain ⟨c, hc, h⟩ := hes.nests
    exact (h.group (ho ▸ hc ▸ .braces)).congr fun place => keyOfArray_iff ho hn

/-- So are the entries of an array, up to the brace that closes it. -/
theorem EntriesAt.nests {ts rest : List Token} {es : List (Option Key × Literal)} :
    EntriesAt ts es rest →
      ∃ c, c.kind = .closeBrace ∧ Nests (KeyOfItems .colon .closeBrace ts) ts (c :: rest)
  | .last hl hv hends => nests_last hl (.inr rfl) hv hv.nests (by decide) hends
  | .more hl hv hgoes hes => by
    obtain ⟨c, hc, hrest⟩ := hes.nests
    exact ⟨c, hc, nests_more hl (.inr rfl) hv hv.nests hgoes hrest⟩

end

theorem ArgumentsAt.nests {vs : List (Option String × Literal)} (h : ArgumentsAt ts vs rest) :
    ∃ c, c.kind = .closeParen ∧ Nests (KeyOfItems .assign .closeParen ts) ts (c :: rest) := by
  induction h with
  | last hl hv hends => exact nests_last hl (.inl rfl) hv hv.nests (by decide) hends
  | more hl hv hgoes _ ih =>
    obtain ⟨c, hc, hrest⟩ := ih
    exact ⟨c, hc, nests_more hl (.inl rfl) hv hv.nests hgoes hrest⟩

/-! ### Argument lists -/

/-- What an argument list takes up begins with a parenthesis and ends with the one closing it. -/
theorem Derives.nests {a : Arguments} (h : Derives ts a rest) :
    ∃ o us c, ts = o :: us ∧ o.kind = .openParen ∧ c.kind = .closeParen ∧
      Nests (KeyAt ts) us (c :: rest) := by
  cases h with
  | @empty o c _ ho hc =>
    refine ⟨o, _, c, rfl, ho, hc, (Nests.refl _).congr fun place => iff_of_false ?_ id⟩
    rintro ⟨_, hn, -⟩
    simp [isNext, hc] at hn
  | @list o us _ vs ho hn hvs =>
    obtain ⟨c, hc, hnests⟩ := hvs.nests
    exact ⟨o, us, c, rfl, ho, hc, hnests.congr fun place => ⟨fun | .list _ _ hk => hk, .list ho hn⟩⟩

/-- The tokens that are read as an argument list are a parenthesis, what stands between, and the
    parenthesis that closes it. What stands between is balanced without the brackets among the keys
    of the list, all of which are left out and nothing else; so it is balanced as it stands when no
    key is a bracket. -/
theorem parenthesis_balanced {p : Parsed Arguments ts} (h : parenthesis ts = .ok p) :
    ∃ o inner c places kept, ts = o :: (inner ++ c :: p.rest) ∧ o.kind = .openParen ∧
      c.kind = .closeParen ∧ (∀ place, place ∈ places ↔ KeyAt ts place ∧ BracketAt place) ∧
      Without (c :: p.rest) places (inner ++ c :: p.rest) kept ∧ Balanced kept ∧
      ((∀ k, UsesKey ts k → k.isBracket = false) → Balanced inner) := by
  have hderives : Derives ts p.value p.rest :=
    (reads_parenthesis ts p.rest p.value).1 ⟨p, h, rfl, rfl⟩
  obtain ⟨o, us, c, hts, ho, hc, places, kept, hplaces, hwithout, hbalanced⟩ := hderives.nests
  obtain ⟨inner, rfl⟩ := hwithout.suffix
  refine ⟨o, inner, c, places, kept, hts, ho, hc, hplaces, hwithout, hbalanced, fun hkeys => ?_⟩
  have hnone : places = [] := by
    refine List.eq_nil_iff_forall_not_mem.2 fun place hplace => ?_
    obtain ⟨hkey, k, hk, hbracket⟩ := (hplaces place).1 hplace
    obtain ⟨behind, rfl⟩ := List.head?_eq_some_iff.1 hk
    exact absurd hbracket (by simp [hkeys k ⟨behind, hkey⟩])
  rwa [List.append_cancel_right (hwithout.eq hnone)]

end Brackets

/-- An array in which a closing parenthesis is a key, as an argument. -/
def bracketKeyed : List Token :=
  [⟨.openParen, "("⟩, ⟨.openBrace, "\x7b"⟩, ⟨.closeParen, ")"⟩, ⟨.colon, ":"⟩, ⟨.openBrace, "\x7b"⟩,
    ⟨.yes, "true"⟩, ⟨.closeBrace, "\x7d"⟩, ⟨.closeBrace, "\x7d"⟩, ⟨.closeParen, ")"⟩]

theorem parenthesis_balanced_bracketKeyed :
    ∃ p, parenthesis bracketKeyed = .ok p ∧ p.rest = [] ∧
      ∃ o inner c places kept, bracketKeyed = o :: (inner ++ c :: p.rest) ∧
        o.kind = .openParen ∧ c.kind = .closeParen ∧
        (∀ place, place ∈ places ↔ KeyAt bracketKeyed place ∧ BracketAt place) ∧
        Without (c :: p.rest) places (inner ++ c :: p.rest) kept ∧ Balanced kept := by
  have hinner : EntriesAt (bracketKeyed.drop 5) [(none, .bool true)] (bracketKeyed.drop 7) :=
    .last (.plain rfl) (.atom .yes) (.here rfl)
  have houter : EntriesAt (bracketKeyed.drop 2) [(some (.name ")"), .map (mapOf _).entries)]
      (bracketKeyed.drop 8) :=
    .last (.marked rfl (.word (by decide) (by decide))) (.array rfl rfl hinner) (.here rfl)
  have hlist : Derives bracketKeyed _ [] :=
    .list rfl rfl (.last (.plain rfl) (.array rfl rfl houter) (.here rfl))
  obtain ⟨p, hp, -, hrest⟩ := (reads_parenthesis _ _ _).2 hlist
  obtain ⟨o, inner, c, places, kept, hts, ho, hc, hplaces, hwithout, hbalanced, -⟩ :=
    parenthesis_balanced hp
  exact ⟨p, hp, hrest, o, inner, c, places, kept, hts, ho, hc, hplaces, hwithout, hbalanced⟩

/-- An opening parenthesis is taken for the name of an argument. -/
theorem parenthesis_not_always_balanced :
    ¬∀ (ts : List Token) (p : Parsed Arguments ts), parenthesis ts = .ok p →
      ∃ used, ts = used ++ p.rest ∧ Balanced used := by
  intro h
  have hlist : Derives [⟨.openParen, "("⟩, ⟨.openParen, "("⟩, ⟨.assign, "="⟩, ⟨.yes, "true"⟩,
      ⟨.closeParen, ")"⟩] (argumentsOf [(some "(", .bool true)]) [] :=
    .list rfl rfl (.last (.marked rfl rfl) (.atom .yes) (.here rfl))
  obtain ⟨p, hp, -, hrest⟩ := (reads_parenthesis _ _ _).2 hlist
  obtain ⟨used, hused, hbalanced⟩ := h _ p hp
  rw [hrest, List.append_nil] at hused
  have hsurplus := hbalanced.surplus_eq_zero
  rw [← hused] at hsurplus
  exact absurd hsurplus (by decide)

end Grammar

end DocDirectives
