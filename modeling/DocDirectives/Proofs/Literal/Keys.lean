import DocDirectives.Proofs.Comment.Occurrence

/-! # Keys of the maps in a literal

    A literal may hold maps at every depth. Inserting keeps the keys of a map apart, and whatever a
    map holds was inserted into it; so the keys of every map are pairwise distinct that stands
    anywhere in what a comment gives. The named arguments of a directive are such a map. -/

namespace DocDirectives

namespace Literal

/-- `w` stands in a literal: it is that literal, or stands in a value of the map that it is. -/
inductive Within (w : Literal) : Literal → Prop
  | self : Within w w
  | entry {k : Key} {u : Literal} {es : List (Key × Literal)} : (k, u) ∈ es → Within w u →
      Within w (.map es)

/-- The keys of every map that stands in a literal are pairwise distinct. -/
def DistinctKeys (v : Literal) : Prop :=
  ∀ es, Within (.map es) v → (es.map Prod.fst).Nodup

theorem distinctKeys_of_ne_map {v : Literal} (h : ∀ es, v ≠ .map es) : v.DistinctKeys := by
  intro es hes
  cases hes with
  | self => exact absurd rfl (h es)
  | entry => exact absurd rfl (h _)

end Literal

namespace LiteralMap

open Literal (DistinctKeys Within)

/-- The keys of a map are pairwise distinct, and so are those of every map in its values. -/
structure Distinct (m : LiteralMap) : Prop where
  keys : m.keys.Nodup
  values : ∀ e ∈ m.entries, DistinctKeys e.2

variable {m : LiteralMap} {v : Literal} {e : Key × Literal}

theorem Distinct.toLiteral (h : m.Distinct) : m.toLiteral.DistinctKeys := by
  intro es hes
  cases hes with
  | self => exact h.keys
  | entry hmem hes => exact h.values _ hmem es hes

theorem distinct_empty : empty.Distinct :=
  ⟨List.nodup_nil, fun _ h => absurd h List.not_mem_nil⟩

/-- The values of a map are those that were inserted. -/
theorem mem_insert {k : Key} (h : e ∈ (m.insert k v).entries) : e ∈ m.entries ∨ e.2 = v := by
  obtain ⟨es⟩ := m
  simp only [insert] at h ⊢
  induction es with
  | nil => exact .inr (congrArg Prod.snd (List.mem_singleton.1 h))
  | cons e' es ih =>
    obtain ⟨k', v'⟩ := e'
    rw [put] at h
    split at h
    · rcases List.mem_cons.1 h with rfl | h
      · exact .inr rfl
      · exact .inl (List.mem_cons_of_mem _ h)
    · rcases List.mem_cons.1 h with rfl | h
      · exact .inl List.mem_cons_self
      · exact (ih h).imp (List.mem_cons_of_mem _) id

theorem nodup_keys_insert (h : m.keys.Nodup) (k : Key) (v : Literal) :
    (m.insert k v).keys.Nodup := by
  rw [keys_insert]
  split
  · exact h
  · next hk =>
    refine List.nodup_append.2 ⟨h, List.pairwise_singleton _ k, fun k' hk' l hl => ?_⟩
    rintro rfl
    exact hk (List.mem_singleton.1 hl ▸ hk')

theorem Distinct.insert (h : m.Distinct) (k : Key) (hv : v.DistinctKeys) :
    (m.insert k v).Distinct where
  keys := nodup_keys_insert h.keys k v
  values e he := by
    rcases mem_insert he with he | he
    · exact h.values e he
    · rwa [he]

/-- A map has distinct keys when it is built from values that have, whatever keys they get. -/
theorem distinct_foldl {α : Type} (key : LiteralMap → α → Key) (value : α → Literal) {xs : List α}
    (hxs : ∀ x ∈ xs, (value x).DistinctKeys) :
    (xs.foldl (fun m x => m.insert (key m x) (value x)) empty).Distinct := by
  suffices h : ∀ m : LiteralMap, m.Distinct →
      (xs.foldl (fun m x => m.insert (key m x) (value x)) m).Distinct from h _ distinct_empty
  induction xs with
  | nil => exact fun _ hm => hm
  | cons x xs ih =>
    obtain ⟨hx, hxs⟩ := List.forall_mem_cons.1 hxs
    exact fun m hm => ih hxs _ (hm.insert _ hx)

end LiteralMap

namespace Grammar

open Literal (DistinctKeys)

/-! ### Literals and arguments -/

theorem AtomDenotes.ne_map {t : Token} {v : Literal} (h : AtomDenotes t v) :
    ∀ es, v ≠ .map es := by
  cases h <;> exact fun _ => by simp

mutual

/-- What is read as a literal has distinct keys. -/
theorem LiteralAt.distinctKeys {ts rest : List Token} {v : Literal} :
    LiteralAt ts v rest → v.DistinctKeys
  | .atom ha => Literal.distinctKeys_of_ne_map ha.ne_map
  | .empty _ _ => LiteralMap.distinct_empty.toLiteral
  | .array _ _ hes => (LiteralMap.distinct_foldl _ Prod.snd hes.distinctKeys).toLiteral

theorem EntriesAt.distinctKeys {ts rest : List Token} {es : List (Option Key × Literal)} :
    EntriesAt ts es rest → ∀ e ∈ es, e.2.DistinctKeys
  | .last _ hv _ => List.forall_mem_singleton.2 hv.distinctKeys
  | .more _ hv _ hes => List.forall_mem_cons.2 ⟨hv.distinctKeys, hes.distinctKeys⟩

end

theorem ArgumentsAt.distinctKeys {ts rest : List Token} {vs : List (Option String × Literal)}
    (h : ArgumentsAt ts vs rest) : ∀ e ∈ vs, e.2.DistinctKeys := by
  induction h with
  | last _ hv _ => exact List.forall_mem_singleton.2 hv.distinctKeys
  | more _ hv _ _ ih => exact List.forall_mem_cons.2 ⟨hv.distinctKeys, ih⟩

/-- The values of arguments, and the map of their named ones, have distinct keys. -/
structure DistinctArguments (a : Arguments) : Prop where
  positional : ∀ v ∈ a.positional, v.DistinctKeys
  named : a.named.toLiteral.DistinctKeys

theorem distinctArguments_of_empty {a : Arguments} (h : ∀ v ∈ a.positional, v.DistinctKeys)
    (hnamed : a.named = {}) : DistinctArguments a :=
  ⟨h, by rw [hnamed]; exact LiteralMap.distinct_empty.toLiteral⟩

theorem Derives.distinctArguments {ts rest : List Token} {a : Arguments} (h : Derives ts a rest) :
    DistinctArguments a := by
  cases h with
  | empty => exact distinctArguments_of_empty (fun _ h => absurd h List.not_mem_nil) rfl
  | @list _ _ _ vs _ _ hvs =>
    have hvalues := hvs.distinctKeys
    refine ⟨fun v hv => ?_, (LiteralMap.distinct_foldl _ Prod.snd fun e he => ?_).toLiteral⟩
    · obtain ⟨⟨n, w⟩, hmem, hw⟩ := List.mem_filterMap.1 hv
      obtain rfl := Option.some.inj (Option.ite_none_left_eq_some.1 hw).2
      exact hvalues _ hmem
    · obtain ⟨⟨n, w⟩, hmem, hw⟩ := List.mem_filterMap.1 he
      obtain ⟨n', -, rfl⟩ := Option.map_eq_some_iff.1 hw
      exact hvalues _ hmem

end Grammar

namespace Parser

open Grammar

variable {site : Site} {ignored : IgnoredNames}

/-- What a directive of a comment gives was read behind its name. -/
theorem Comment.argumentsBehind {ts : List Token} {os : List Occurrence}
    (h : Comment site ignored ts os) {o : Occurrence} (ho : o ∈ os) {d : Directive}
    (hd : o.result = some d) : ∃ rest, ArgumentsBehind o.behind d.arguments rest := by
  induction h with
  | nil => cases ho
  | prose _ _ ih => exact ih ho
  | directive hfirst _ ih =>
    rcases List.mem_cons.1 ho with rfl | ho
    · cases hfirst with
      | skipped => cases hd
      | read _ _ _ ha =>
        cases hd
        exact ⟨_, ha⟩
    · exact ih ho

/-- In what a comment gives the keys of all maps are pairwise distinct, at every depth. -/
theorem distinctArguments_of_parse {p : Parser} {text : String} {ds : List Directive}
    (h : p.parse site text = .ok ds) {d : Directive} (hd : d ∈ ds) :
    DistinctArguments d.arguments := by
  obtain ⟨os, hos, rfl⟩ := directives_eq_ok_iff.1 h
  obtain ⟨o, ho, hd⟩ := List.mem_filterMap.1 hd
  obtain ⟨rest, ha⟩ := hos.argumentsBehind ho hd
  generalize d.arguments = a at ha ⊢
  cases ha with
  | list ha => exact ha.distinctArguments
  | none =>
    refine distinctArguments_of_empty (fun v hv => ?_) rfl
    obtain rfl := List.mem_singleton.1 hv
    exact Literal.distinctKeys_of_ne_map (by simp)

end Parser

end DocDirectives
