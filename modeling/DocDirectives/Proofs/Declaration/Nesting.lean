import DocDirectives.Declaration.Braces
import Mathlib.Data.List.Induction

/-! # Where open blocks come from

    The nesting is followed through events: a line announces a block, and braces and semicolons come
    one by one. An announcement waits for its brace until a semicolon takes it back or another one
    takes its place. So every open block of interest has been announced, its brace is the first one
    behind the announcement, and what came since leaves that brace open; how deep the block is
    says how many braces are open inside it. One event keeps this, and so do all by induction. -/

namespace DocDirectives

/-- What moves the nesting: the announcement of a block, or a brace or semicolon. -/
inductive Event where
  | announce (kind : ScopeKind)
  | mark (c : Char)
  deriving DecidableEq

namespace Nesting

def occur (n : Nesting) : Event → Nesting
  | .announce kind => { n with announced := some kind }
  | .mark c => n.follow c

theorem follow_open (n : Nesting) :
    n.follow '{' =
      { depth := n.depth + 1
        scopes := (n.announced.map fun kind => ⟨n.depth + 1, kind⟩).toList ++ n.scopes
        announced := none } := by
  cases n with
  | mk depth scopes announced => cases announced <;> rfl

theorem follow_close (n : Nesting) :
    n.follow '}' =
      { n with
        depth := n.depth - 1
        scopes := n.scopes.dropWhile fun s => n.depth - 1 < s.depth } := rfl

theorem follow_semicolon (n : Nesting) : n.follow ';' = { n with announced := none } := rfl

theorem follow_other {c : Char} (hopen : c ≠ '{') (hclose : c ≠ '}') (hend : c ≠ ';')
    (n : Nesting) : n.follow c = n := by
  rw [follow, if_neg hopen, if_neg hclose, if_neg hend]

end Nesting

/-! ### Events behind an announcement -/

/-- Whether an announcement still waits for its brace behind an event. -/
def Event.Passes : Event → Prop
  | announce _ => False
  | mark c => c ≠ '{' ∧ c ≠ ';'

/-- Events behind an opening brace that leave it open, with `k` braces open inside. -/
structure Inside (es : List Event) (k : Nat) : Prop where
  kept : ∀ front, front <+: es → front.count (.mark '}') ≤ front.count (.mark '{')
  count : es.count (.mark '{') = es.count (.mark '}') + k

/-- Events behind an announcement: its brace opens the block and is still open, with `k` braces open
    inside. -/
def Opens (es : List Event) (k : Nat) : Prop :=
  ∃ before inside, es = before ++ .mark '{' :: inside ∧ (∀ e ∈ before, e.Passes) ∧ Inside inside k

/-- A block that was announced and is still open, with `k` braces open inside. -/
def Opened (es : List Event) (kind : ScopeKind) (k : Nat) : Prop :=
  ∃ front behind, es = front ++ .announce kind :: behind ∧ Opens behind k

/-- A block that was announced and whose brace is still to come. -/
def Waiting (es : List Event) (kind : ScopeKind) : Prop :=
  ∃ front behind, es = front ++ .announce kind :: behind ∧ ∀ e ∈ behind, e.Passes

variable {es : List Event} {e : Event} {k k' : Nat} {kind : ScopeKind}

theorem inside_nil : Inside [] 0 :=
  ⟨fun front h => by rw [List.prefix_nil.1 h]; exact Nat.le_refl 0, rfl⟩

/-- One more event opens a brace inside, closes one, or neither. -/
theorem Inside.concat (h : Inside es k)
    (hk : [e].count (.mark '}') + k' = k + [e].count (.mark '{')) : Inside (es ++ [e]) k' := by
  have hcount : (es ++ [e]).count (.mark '{') = (es ++ [e]).count (.mark '}') + k' := by
    have := h.count
    rw [List.count_append, List.count_append]
    omega
  refine ⟨fun front hfront => ?_, hcount⟩
  rcases List.prefix_concat_iff.1 hfront with rfl | hfront
  · omega
  · exact h.kept front hfront

theorem Opened.concat (h : Opened es kind k)
    (hk : [e].count (.mark '}') + k' = k + [e].count (.mark '{')) :
    Opened (es ++ [e]) kind k' := by
  obtain ⟨front, _, rfl, before, inside, rfl, hbefore, h⟩ := h
  exact ⟨front, before ++ .mark '{' :: (inside ++ [e]), by simp, before, inside ++ [e], rfl,
    hbefore, h.concat hk⟩

theorem Opened.opens (h : Opened es kind k) : Opened (es ++ [.mark '{']) kind (k + 1) :=
  h.concat (Nat.zero_add _)

theorem Opened.closes (h : Opened es kind (k + 1)) : Opened (es ++ [.mark '}']) kind k :=
  h.concat (Nat.add_comm 1 k)

theorem Opened.stays (h : Opened es kind k) (hopen : e ≠ .mark '{') (hclose : e ≠ .mark '}') :
    Opened (es ++ [e]) kind k := by
  refine h.concat ?_
  rw [List.count_singleton, List.count_singleton]
  simp [hopen, hclose]

theorem Waiting.concat (h : Waiting es kind) (he : e.Passes) : Waiting (es ++ [e]) kind := by
  obtain ⟨front, behind, rfl, hbehind⟩ := h
  refine ⟨front, behind ++ [e], by simp, fun e' he' => ?_⟩
  rcases List.mem_append.1 he' with he' | he'
  · exact hbehind e' he'
  · exact List.mem_singleton.1 he' ▸ he

theorem waiting_announce (es : List Event) (kind : ScopeKind) :
    Waiting (es ++ [.announce kind]) kind := ⟨es, [], rfl, fun _ h => absurd h List.not_mem_nil⟩

/-- The first brace behind an announcement opens its block. -/
theorem Waiting.opened (h : Waiting es kind) : Opened (es ++ [.mark '{']) kind 0 := by
  obtain ⟨front, behind, rfl, hbehind⟩ := h
  exact ⟨front, behind ++ [.mark '{'], by simp, behind, [], rfl, hbehind, inside_nil⟩

/-! ### Events one after another -/

/-- A nesting is what events have left: the open blocks lie inside one another, and each of them, as
    well as the announcement, has its origin in the events. -/
structure Traced (es : List Event) (n : Nesting) : Prop where
  inner : n.scopes.Pairwise fun s t => t.depth < s.depth
  depth : ∀ s ∈ n.scopes, 1 ≤ s.depth ∧ s.depth ≤ n.depth
  opened : ∀ s ∈ n.scopes, Opened es s.kind (n.depth - s.depth)
  waiting : ∀ kind, n.announced = some kind → Waiting es kind

variable {n : Nesting}

/-- Blocks that a closing brace leaves open are no deeper than what remains. -/
theorem depth_le_of_mem_dropWhile {scopes : List Scope} {d : Nat}
    (h : scopes.Pairwise fun s t => t.depth < s.depth) :
    ∀ s ∈ scopes.dropWhile (fun s => d < s.depth), s.depth ≤ d := by
  induction scopes with
  | nil => exact fun s hs => absurd hs List.not_mem_nil
  | cons t scopes ih =>
    obtain ⟨ht, h⟩ := List.pairwise_cons.1 h
    by_cases hd : d < t.depth
    · rw [List.dropWhile_cons_of_pos (by simpa using hd)]
      exact ih h
    · rw [List.dropWhile_cons_of_neg (by simpa using hd)]
      intro s hs
      rcases List.mem_cons.1 hs with rfl | hs
      · omega
      · have := ht s hs
        omega

namespace Traced

theorem announce (h : Traced es n) (kind : ScopeKind) :
    Traced (es ++ [.announce kind]) (n.occur (.announce kind)) where
  inner := h.inner
  depth := h.depth
  opened s hs := (h.opened s hs).stays (by simp) (by simp)
  waiting kind' hkind' := by
    obtain rfl : kind = kind' := Option.some.inj hkind'
    exact waiting_announce es kind

theorem open_brace (h : Traced es n) : Traced (es ++ [.mark '{']) (n.occur (.mark '{')) := by
  have hdeeper : ∀ s ∈ n.scopes, Opened (es ++ [.mark '{']) s.kind (n.depth + 1 - s.depth) := by
    intro s hs
    have := (h.depth s hs).2
    rw [Nat.succ_sub this]
    exact (h.opened s hs).opens
  rw [Nesting.occur, Nesting.follow_open]
  cases hannounced : n.announced with
  | none =>
    exact ⟨h.inner, fun s hs => ⟨(h.depth s hs).1, Nat.le_succ_of_le (h.depth s hs).2⟩, hdeeper,
      fun _ hkind => by cases hkind⟩
  | some kind =>
    refine ⟨List.pairwise_cons.2 ⟨fun s hs => Nat.lt_succ_of_le (h.depth s hs).2, h.inner⟩,
      List.forall_mem_cons.2 ⟨⟨Nat.succ_pos _, Nat.le_refl _⟩, fun s hs =>
        ⟨(h.depth s hs).1, Nat.le_succ_of_le (h.depth s hs).2⟩⟩,
      List.forall_mem_cons.2 ⟨?_, hdeeper⟩, fun _ hkind => by cases hkind⟩
    simpa using (h.waiting kind hannounced).opened

theorem close_brace (h : Traced es n) : Traced (es ++ [.mark '}']) (n.occur (.mark '}')) := by
  rw [Nesting.occur, Nesting.follow_close]
  have hsub := List.dropWhile_sublist (l := n.scopes) fun s => decide (n.depth - 1 < s.depth)
  refine ⟨h.inner.sublist hsub, fun s hs => ?_, fun s hs => ?_, fun kind hkind => ?_⟩
  · exact ⟨(h.depth s (hsub.mem hs)).1, depth_le_of_mem_dropWhile h.inner s hs⟩
  · -- what remains open was opened above zero, so the brace closes another one inside it
    have hle := depth_le_of_mem_dropWhile h.inner s hs
    have hpos := (h.depth s (hsub.mem hs)).1
    have hopened := h.opened s (hsub.mem hs)
    rw [show n.depth - s.depth = n.depth - 1 - s.depth + 1 by omega] at hopened
    exact hopened.closes
  · exact (h.waiting kind hkind).concat ⟨by decide, by decide⟩

theorem semicolon (h : Traced es n) : Traced (es ++ [.mark ';']) (n.occur (.mark ';')) := by
  rw [Nesting.occur, Nesting.follow_semicolon]
  exact ⟨h.inner, h.depth, fun s hs => (h.opened s hs).stays (by decide) (by decide),
    fun _ hkind => by cases hkind⟩

theorem other {c : Char} (h : Traced es n) (hopen : c ≠ '{') (hclose : c ≠ '}') (hend : c ≠ ';') :
    Traced (es ++ [.mark c]) (n.occur (.mark c)) := by
  rw [Nesting.occur, Nesting.follow_other hopen hclose hend]
  exact ⟨h.inner, h.depth, fun s hs => (h.opened s hs).stays (by simpa using hopen)
    (by simpa using hclose), fun kind hkind => (h.waiting kind hkind).concat ⟨hopen, hend⟩⟩

/-- One event. -/
theorem occur (h : Traced es n) (e : Event) : Traced (es ++ [e]) (n.occur e) := by
  cases e with
  | announce kind => exact h.announce kind
  | mark c =>
    by_cases hopen : c = '{'
    · exact hopen ▸ h.open_brace
    · by_cases hclose : c = '}'
      · exact hclose ▸ h.close_brace
      · by_cases hend : c = ';'
        · exact hend ▸ h.semicolon
        · exact h.other hopen hclose hend

end Traced

theorem traced_nil : Traced [] {} :=
  ⟨.nil, fun _ h => absurd h List.not_mem_nil, fun _ h => absurd h List.not_mem_nil,
    fun _ h => by cases h⟩

/-- All events. -/
theorem traced_foldl (es : List Event) : Traced es (es.foldl Nesting.occur {}) := by
  induction es using List.reverseRecOn with
  | nil => exact traced_nil
  | append_singleton es e ih =>
    rw [List.foldl_append, List.foldl_cons, List.foldl_nil]
    exact ih.occur e

/-- What a line is a member of is an open block, and nothing is open inside it. -/
theorem Traced.opened_of_current {name : List Char} {fields : Bool} (h : Traced es n)
    (hcurrent : n.current = some (.owner name fields)) : Opened es (.owner name fields) 0 := by
  unfold Nesting.current at hcurrent
  split at hcurrent
  · cases hcurrent
  · split at hcurrent
    · next s scopes hscopes =>
      obtain ⟨hdepth, hkind⟩ := Option.ite_none_right_eq_some.1 hcurrent
      have hopened := h.opened s (hscopes ▸ List.mem_cons_self)
      rw [Option.some.inj hkind, hdepth, Nat.sub_self] at hopened
      exact hopened
    · cases hcurrent

end DocDirectives
