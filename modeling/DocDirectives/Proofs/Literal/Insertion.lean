import DocDirectives.Proofs.Comment.Composition
import DocDirectives.Proofs.Literal.Keys
import Mathlib.Data.List.Basic
import Mathlib.Data.List.Induction

/-! # Sequences of insertions

    What a map holds can be told from the sequence of insertions that made it: each key once, in the
    order in which the keys came first, and under each the value that came last. An insertion hands
    back the value that it replaces, and leaves all other entries where they are. The named
    arguments of a directive are inserted in the order in which they are written. -/

namespace DocDirectives

namespace LiteralMap

variable {k : Key} {v w : Literal} {es before behind es' : List (Key × Literal)}
  {old : Option Literal} {m : LiteralMap}

/-! ### One insertion -/

/-- Set the value of a key in one pass: look for the key, and put the value in the place of the one
    that is handed back, or else at the end. -/
def exchange (m : LiteralMap) (k : Key) (v : Literal) : Option Literal × LiteralMap :=
  match m.entries.findIdx? fun e => e.1 == k with
  | some i => (m.entries[i]?.map Prod.snd, ⟨m.entries.set i (k, v)⟩)
  | none => (none, ⟨m.entries ++ [(k, v)]⟩)

/-- What an insertion does to the entries: it replaces the value under a key that is there, and adds
    a key that is not. -/
inductive Inserts (k : Key) (v : Literal) :
    List (Key × Literal) → Option Literal → List (Key × Literal) → Prop
  | replaced {before behind : List (Key × Literal)} {w : Literal} : k ∉ before.map Prod.fst →
      Inserts k v (before ++ (k, w) :: behind) (some w) (before ++ (k, v) :: behind)
  | added {es : List (Key × Literal)} : k ∉ es.map Prod.fst → Inserts k v es none (es ++ [(k, v)])

theorem put_append (h : k ∉ before.map Prod.fst) (v : Literal) (es : List (Key × Literal)) :
    put k v (before ++ es) = before ++ put k v es := by
  induction before with
  | nil => rfl
  | cons e before ih =>
    obtain ⟨hne, h⟩ := List.ne_and_not_mem_of_not_mem_cons h
    rw [List.cons_append, put, if_neg (Ne.symm hne), ih h, List.cons_append]

theorem find?_append (h : k ∉ before.map Prod.fst) (es : List (Key × Literal)) :
    find? k (before ++ es) = find? k es := by
  induction before with
  | nil => rfl
  | cons e before ih =>
    obtain ⟨hne, h⟩ := List.ne_and_not_mem_of_not_mem_cons h
    rw [List.cons_append, find?, if_neg (Ne.symm hne), ih h]

theorem findIdx?_append_of_notMem (h : k ∉ before.map Prod.fst) (es : List (Key × Literal)) :
    (before ++ es).findIdx? (fun e => e.1 == k) =
      (es.findIdx? fun e => e.1 == k).map (· + before.length) := by
  have hnone : before.findIdx? (fun e => e.1 == k) = none := by
    rw [List.findIdx?_eq_none_iff]
    intro e he
    rw [beq_eq_false_iff_ne]
    rintro rfl
    exact h (List.mem_map_of_mem he)
  rw [List.findIdx?_append, hnone, Option.none_or]

theorem Inserts.exchange (h : Inserts k v es old es') :
    LiteralMap.exchange ⟨es⟩ k v = (old, ⟨es'⟩) := by
  rw [LiteralMap.exchange]
  cases h with
  | @replaced before behind w hk =>
    have hplace : (before ++ (k, w) :: behind).findIdx? (fun e => e.1 == k) =
        some before.length := by
      rw [findIdx?_append_of_notMem hk, List.findIdx?_cons, beq_self_eq_true, if_pos rfl,
        Option.map_some, Nat.zero_add]
    simp only [hplace, List.getElem?_append_right (Nat.le_refl _), Nat.sub_self,
      List.getElem?_cons_zero, Option.map_some, List.set_append_right _ _ (Nat.le_refl _),
      List.set_cons_zero]
  | added hk =>
    have hplace := findIdx?_append_of_notMem hk []
    rw [List.append_nil, List.findIdx?_nil, Option.map_none] at hplace
    simp only [hplace]

theorem Inserts.find?_put (h : Inserts k v es old es') : find? k es = old ∧ put k v es = es' := by
  cases h with
  | replaced hk =>
    rw [find?_append hk, put_append hk, find?, if_pos rfl, put, if_pos rfl]
    exact ⟨rfl, rfl⟩
  | added hk =>
    have hfind := find?_append hk []
    have hput := put_append hk v []
    rw [List.append_nil] at hfind hput
    exact ⟨hfind, hput⟩

/-- A key is there or it is not. -/
theorem exists_inserts (k : Key) (v : Literal) (es : List (Key × Literal)) :
    ∃ old es', Inserts k v es old es' := by
  by_cases hk : k ∈ es.map Prod.fst
  · obtain ⟨keys, _, hkeys, hnew⟩ := List.eq_append_cons_of_mem hk
    obtain ⟨before, tail, rfl, rfl, htail⟩ := List.map_eq_append_iff.1 hkeys
    obtain ⟨⟨k', w⟩, behind, rfl, rfl, -⟩ := List.map_eq_cons_iff.1 htail
    exact ⟨_, _, .replaced hnew⟩
  · exact ⟨_, _, .added hk⟩

/-- The pass gives the value that was there, and the map with the new one. -/
theorem exchange_eq (m : LiteralMap) (k : Key) (v : Literal) :
    m.exchange k v = (m.get? k, m.insert k v) := by
  obtain ⟨es⟩ := m
  obtain ⟨old, es', h⟩ := exists_inserts k v es
  obtain ⟨rfl, rfl⟩ := h.find?_put
  exact h.exchange

theorem exchange_eq_iff {m' : LiteralMap} :
    m.exchange k v = (old, m') ↔ Inserts k v m.entries old m'.entries := by
  refine ⟨fun h => ?_, fun h => h.exchange⟩
  obtain ⟨_, _, hinserts⟩ := exists_inserts k v m.entries
  cases hinserts.exchange.symm.trans h
  exact hinserts

/-! ### Names -/

/-- An index is not found by a name, even by one that is written like it. -/
theorem getNamed?_insert_index (m : LiteralMap) (i : Int64) (v : Literal) (n : String) :
    (m.insert (.index i) v).getNamed? n = m.getNamed? n := by
  rw [getNamed?, LiteralMap.get?_insert, if_neg Key.noConfusion, getNamed?]

/-! ### Sequences -/

theorem mem_entries_iff (h : m.keys.Nodup) : (k, v) ∈ m.entries ↔ m.get? k = some v := by
  obtain ⟨es⟩ := m
  simp only [keys, get?] at h ⊢
  induction es with
  | nil => simp [find?]
  | cons e es ih =>
    obtain ⟨k', w⟩ := e
    obtain ⟨hnew, h⟩ := List.nodup_cons.1 h
    rw [find?, List.mem_cons]
    by_cases hk : k' = k
    · subst hk
      have hnone : (k', v) ∉ es := fun hmem => hnew (List.mem_map.2 ⟨_, hmem, rfl⟩)
      simp [hnone, eq_comm]
    · simp [hk, Ne.symm hk, ih h]

/-- `v` is the last value that is inserted under `k`. -/
def LastUnder (k : Key) (v : Literal) (es : List (Key × Literal)) : Prop :=
  ∃ before behind, es = before ++ (k, v) :: behind ∧ k ∉ behind.map Prod.fst

theorem lastUnder_concat {k' : Key} : LastUnder k v (es ++ [(k', w)]) ↔
    if k' = k then w = v else LastUnder k v es := by
  constructor
  · rintro ⟨before, behind, hes, hk⟩
    induction behind using List.reverseRecOn with
    | nil =>
      obtain ⟨rfl, he⟩ := List.append_inj' hes rfl
      cases he
      rw [if_pos rfl]
    | append_singleton behind e _ =>
      rw [← List.cons_append, ← List.append_assoc] at hes
      obtain ⟨rfl, he⟩ := List.append_inj' hes rfl
      cases he
      rw [List.map_append, List.mem_append, not_or] at hk
      rw [if_neg fun h => hk.2 (by simp [h])]
      exact ⟨before, behind, rfl, hk.1⟩
  · intro h
    split at h
    · next hk =>
      subst hk h
      exact ⟨es, [], rfl, List.not_mem_nil⟩
    · next hk =>
      obtain ⟨before, behind, rfl, hnew⟩ := h
      refine ⟨before, behind ++ [(k', w)], by simp, ?_⟩
      rw [List.map_append, List.mem_append]
      rintro (hmem | hmem)
      · exact hnew hmem
      · exact hk (List.mem_singleton.1 hmem).symm

/-- What a map holds after a sequence of insertions: every key once and in the order in which the
    keys came first, each with the value that came last. -/
structure Holds (es : List (Key × Literal)) (m : LiteralMap) : Prop where
  distinct : m.keys.Nodup
  keys : ∀ k, k ∈ m.keys ↔ k ∈ es.map Prod.fst
  order : m.keys.Pairwise fun k k' => (es.map Prod.fst).idxOf k < (es.map Prod.fst).idxOf k'
  values : ∀ k v, (k, v) ∈ m.entries ↔ LastUnder k v es

/-- A key that is inserted again keeps its place, and a new one comes behind all others. -/
theorem Holds.order_concat (h : Holds es m) (k : Key) (v : Literal) :
    (m.insert k v).keys.Pairwise fun k₁ k₂ =>
      (es.map Prod.fst ++ [k]).idxOf k₁ < (es.map Prod.fst ++ [k]).idxOf k₂ := by
  have hplace : ∀ {k'}, k' ∈ m.keys →
      (es.map Prod.fst ++ [k]).idxOf k' = (es.map Prod.fst).idxOf k' := fun hk' =>
    List.idxOf_append_of_mem ((h.keys _).1 hk')
  have hold : m.keys.Pairwise fun k₁ k₂ =>
      (es.map Prod.fst ++ [k]).idxOf k₁ < (es.map Prod.fst ++ [k]).idxOf k₂ :=
    h.order.imp_of_mem fun hk₁ hk₂ hlt => by rwa [hplace hk₁, hplace hk₂]
  rw [keys_insert]
  split
  · exact hold
  · next hk =>
    refine List.pairwise_append.2 ⟨hold, List.pairwise_singleton _ k, fun k' hk' l hl => ?_⟩
    obtain rfl := List.mem_singleton.1 hl
    rw [hplace hk', List.idxOf_append_of_notMem ((h.keys _).not.1 hk)]
    exact Nat.lt_add_right _ (List.idxOf_lt_length_of_mem ((h.keys _).1 hk'))

/-- One more insertion. -/
theorem Holds.concat (h : Holds es m) (k : Key) (v : Literal) :
    Holds (es ++ [(k, v)]) (m.insert k v) where
  distinct := nodup_keys_insert h.distinct k v
  keys k' := by
    rw [keys_insert, List.map_append, List.mem_append, ← h.keys]
    split
    · next hk =>
      refine ⟨.inl, fun h => h.elim id fun h => ?_⟩
      rwa [List.mem_singleton.1 h]
    · rw [List.mem_append]
      rfl
  order := by
    rw [List.map_append]
    exact h.order_concat k v
  values k' w := by
    rw [mem_entries_iff (nodup_keys_insert h.distinct k v), get?_insert, lastUnder_concat,
      ← h.values, mem_entries_iff h.distinct]
    split
    · rw [Option.some.injEq]
    · rfl

theorem holds_ofList (es : List (Key × Literal)) : Holds es (.ofList es) := by
  induction es using List.reverseRecOn with
  | nil =>
    refine ⟨List.nodup_nil, fun _ => Iff.rfl, .nil, fun k v => ⟨fun h => (nomatch h), ?_⟩⟩
    rintro ⟨before, behind, hes, -⟩
    exact absurd hes (by simp)
  | append_singleton es e ih =>
    rw [ofList, List.foldl_append]
    exact ih.concat e.1 e.2

end LiteralMap

namespace Parser

open Grammar Literal LiteralMap

variable {site : Site} {ignored : IgnoredNames}

/-! ### Named arguments -/

/-- The arguments that are written behind a directive name, each with its name if it has one. -/
inductive Written : List Token → List (Option String × Literal) → Prop
  | none {ts : List Token} : isNext .openParen ts = false → Written ts []
  | empty {o c : Token} {rest : List Token} : o.kind = .openParen → c.kind = .closeParen →
      Written (o :: c :: rest) []
  | list {o : Token} {ts rest : List Token} {vs : List (Option String × Literal)} :
      o.kind = .openParen → isNext .closeParen ts = false → ArgumentsAt ts vs rest →
      Written (o :: ts) vs

theorem ArgumentsBehind.written {ts rest : List Token} {a : Arguments}
    (h : ArgumentsBehind ts a rest) : ∃ vs, Written ts vs ∧ a.named = .ofList (namedOf vs) := by
  cases h with
  | none h => exact ⟨[], .none h, rfl⟩
  | list h =>
    cases h with
    | empty ho hc => exact ⟨[], .empty ho hc, rfl⟩
    | list ho hn hvs => exact ⟨_, .list ho hn hvs, rfl⟩

theorem exists_name_of_mem {vs : List (Option String × Literal)} {k : Key}
    (h : k ∈ (namedOf vs).map Prod.fst) : ∃ n, k = .name n := by
  obtain ⟨⟨k, v⟩, he, rfl⟩ := List.mem_map.1 h
  obtain ⟨⟨n, w⟩, -, hw⟩ := List.mem_filterMap.1 he
  obtain ⟨n, -, hkey⟩ := Option.map_eq_some_iff.1 hw
  exact ⟨n, (congrArg Prod.fst hkey).symm⟩

/-- Whatever is inserted into an empty map, the map holds each key once, in the order in which the
    keys came first, with the value that came last. One more insertion hands back the value under
    its key, which is there just when the key is, and leaves all other entries alone, and a name is
    found by itself and not by an index that is written like it. So in what a comment gives all maps
    have distinct keys, at every depth; and the named arguments of a directive are under names only,
    each name once, in the order in which the names are first written, with the last value. -/
theorem parse_holds (p : Parser) (site : Site) (text : String) (ds : List Directive)
    (h : p.parse site text = .ok ds) :
    (∀ es, Holds es (.ofList es)) ∧
    (∀ (m m' : LiteralMap) (k : Key) (v : Literal) (old : Option Literal),
      m.exchange k v = (m.get? k, m.insert k v) ∧
      (m.exchange k v = (old, m') ↔ Inserts k v m.entries old m'.entries)) ∧
    (∀ n : String,
      (∀ es v, (LiteralMap.ofList es).getNamed? n = some v ↔ LastUnder (.name n) v es) ∧
      ∀ (m : LiteralMap) (i : Int64) (v : Literal),
        (m.insert (.index i) v).getNamed? n = m.getNamed? n) ∧
    ∃ os, Comment site p.ignored (p.classifier.tokens text.toList) os ∧ ds = results os ∧
      ∀ o ∈ os, ∀ d, o.result = some d →
        DistinctArguments d.arguments ∧
        (∀ k ∈ d.arguments.named.keys, ∃ n, k = .name n) ∧
        ∃ vs, Written o.behind vs ∧ Holds (namedOf vs) d.arguments.named := by
  refine ⟨holds_ofList, fun m m' k v old => ⟨exchange_eq m k v, exchange_eq_iff⟩,
    fun n => ⟨fun es v => ?_, fun m i v => getNamed?_insert_index m i v n⟩, ?_⟩
  · rw [← (holds_ofList es).values, mem_entries_iff (holds_ofList es).distinct, getNamed?]
  · obtain ⟨os, hos, rfl⟩ := directives_eq_ok_iff.1 h
    refine ⟨os, hos, rfl, fun o ho d hd => ?_⟩
    obtain ⟨rest, ha⟩ := hos.argumentsBehind ho hd
    obtain ⟨vs, hvs, hnamed⟩ := ha.written
    have hholds : Holds (namedOf vs) d.arguments.named := hnamed ▸ holds_ofList _
    have hmem : d ∈ results os := List.mem_filterMap.2 ⟨o, ho, hd⟩
    exact ⟨distinctArguments_of_parse h hmem,
      fun k hk => exists_name_of_mem ((hholds.keys k).1 hk), vs, hvs, hholds⟩

/-- A name written twice, another one between, and an index written twice in an array. -/
def repeated : String := "@A(k=true, \x7b1: true, 1: false\x7d, j=true, k=false)"

/-- The tokens behind the name in `repeated`. -/
def repeatedList : List Token :=
  [⟨.openParen, "("⟩, ⟨.other, "k"⟩, ⟨.assign, "="⟩, ⟨.yes, "true"⟩, ⟨.comma, ","⟩,
    ⟨.openBrace, "\x7b"⟩, ⟨.integer, "1"⟩, ⟨.colon, ":"⟩, ⟨.yes, "true"⟩, ⟨.comma, ","⟩,
    ⟨.integer, "1"⟩, ⟨.colon, ":"⟩, ⟨.no, "false"⟩, ⟨.closeBrace, "\x7d"⟩, ⟨.comma, ","⟩,
    ⟨.other, "j"⟩, ⟨.assign, "="⟩, ⟨.yes, "true"⟩, ⟨.comma, ","⟩, ⟨.other, "k"⟩, ⟨.assign, "="⟩,
    ⟨.no, "false"⟩, ⟨.closeParen, ")"⟩]

def repeatedArguments : Arguments where
  positional := [.map [(.index 1, .bool false)]]
  named := ⟨[(.name "k", .bool false), (.name "j", .bool true)]⟩

theorem derives_repeated : Derives repeatedList repeatedArguments [] := by
  have hkey : KeyDenotes ⟨.integer, "1"⟩ (.index 1) := by
    have hkey : keyOf ⟨.integer, "1"⟩ = .index 1 := by decide +kernel
    exact hkey ▸ keyDenotes_keyOf _
  have hentries : EntriesAt (repeatedList.drop 6)
      [(some (.index 1), .bool true), (some (.index 1), .bool false)] (repeatedList.drop 14) :=
    .more (.marked rfl hkey) (.atom .yes) (.comma rfl rfl)
      (.last (.marked rfl hkey) (.atom .no) (.here rfl))
  have hlast : ArgumentsAt (repeatedList.drop 15)
      [(some "j", .bool true), (some "k", .bool false)] [] :=
    .more (.marked rfl rfl) (.atom .yes) (.comma rfl rfl)
      (.last (.marked rfl rfl) (.atom .no) (.here rfl))
  exact .list rfl rfl (.more (.marked rfl rfl) (.atom .yes) (.comma rfl rfl)
    (.more (.plain rfl) (.array rfl rfl hentries) (.comma rfl rfl) hlast))

theorem comment_repeated :
    Comment fixture .standard (Classifier.directives.tokens repeated.toList)
      [⟨"A", repeatedList, some ⟨"app::A", "type Fixture", repeatedArguments⟩⟩] := by
  have htokens : Classifier.directives.tokens repeated.toList =
      ⟨.start, "@"⟩ :: ⟨.other, "A"⟩ :: repeatedList := by decide +kernel
  have hA : Occurs fixture .standard (⟨.start, "@"⟩ :: ⟨.other, "A"⟩ :: repeatedList)
      ⟨"A", repeatedList, some ⟨"app::A", "type Fixture", repeatedArguments⟩⟩ [] :=
    .read rfl (by decide +kernel) (by decide +kernel) (.list derives_repeated)
  rw [htokens]
  exact .directive hA .nil

theorem parse_holds_repeated :
    Parser.parse {} fixture repeated =
        .ok [⟨"app::A", "type Fixture", repeatedArguments⟩] ∧
      DistinctArguments repeatedArguments ∧
      repeatedArguments.named.keys = [.name "k", .name "j"] ∧
      repeatedArguments.named.getNamed? "k" = some (.bool false) ∧
      ∃ vs, Written repeatedList vs ∧ Holds (namedOf vs) repeatedArguments.named := by
  have hparse : Parser.parse {} fixture repeated =
      .ok [⟨"app::A", "type Fixture", repeatedArguments⟩] := comment_repeated.directives
  obtain ⟨-, -, -, os, hos, -, hholds⟩ := parse_holds {} fixture repeated _ hparse
  obtain rfl := hos.unique comment_repeated
  obtain ⟨hdistinct, -, hnamed⟩ := hholds _ (List.mem_singleton_self _) _ rfl
  exact ⟨hparse, hdistinct, rfl, rfl, hnamed⟩

end Parser

end DocDirectives
