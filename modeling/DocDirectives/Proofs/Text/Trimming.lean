import DocDirectives.Text.Blank
import DocDirectives.Text.Slice
import Mathlib.Data.List.TakeWhile

/-! # White space around a text, and the first place of a mark

    Trimming a text takes the white space around it away and nothing else: a text that begins and
    ends with other characters stays whole. A cut at a mark passes over everything that lacks the
    first character of the mark. -/

namespace DocDirectives.Text

/-- White space only. -/
def Blank (g : List Char) : Prop := ∀ c ∈ g, isBlank c = true

instance (g : List Char) : Decidable (Blank g) :=
  decidable_of_iff (g.all isBlank = true) List.all_eq_true

/-- No white space at either end. -/
structure Tight (cs : List Char) : Prop where
  front : startsBlank cs = false
  back : startsBlank cs.reverse = false

variable {c : Char} {cs ds g g' : List Char}

/-! ### Runs of white space -/

theorem blank_nil : Blank [] := fun _ hc => absurd hc List.not_mem_nil

theorem blank_cons : Blank (c :: g) ↔ isBlank c = true ∧ Blank g := List.forall_mem_cons

theorem blank_append : Blank (g ++ g') ↔ Blank g ∧ Blank g' := List.forall_mem_append

theorem Blank.reverse (h : Blank g) : Blank g.reverse := fun c hc => h c (List.mem_reverse.1 hc)

theorem Blank.tail (h : Blank (c :: g)) : Blank g := (blank_cons.1 h).2

/-- A character that is not white space does not stand in white space. -/
theorem Blank.notMem (h : Blank g) (hc : isBlank c = false) : c ∉ g :=
  fun hmem => absurd (h c hmem) (by simp [hc])

theorem Blank.eq_nil (hg : Blank g) (h : startsBlank (g ++ cs) = false) : g = [] := by
  cases g with
  | nil => rfl
  | cons b g => exact absurd (hg b List.mem_cons_self) (by simpa [startsBlank] using h)

/-- A text that ends in white space has everything up to another character in front of it. -/
theorem Blank.append_cases {p t : List Char} {q : Char} (hg : Blank g) (hq : isBlank q = false)
    (h : p ++ q :: t = cs ++ g) : ∃ cs', cs = p ++ q :: cs' ∧ t = cs' ++ g := by
  rcases List.append_eq_append_iff.1 h with ⟨cs', rfl, hrest⟩ | ⟨p', rfl, hrest⟩
  · cases cs' with
    | nil =>
      obtain rfl : q :: t = g := hrest
      exact absurd (hg q List.mem_cons_self) (by simp [hq])
    | cons d cs' =>
      obtain ⟨rfl, rfl⟩ := List.cons.inj hrest
      exact ⟨cs', rfl, rfl⟩
  · exact absurd (hg q (hrest ▸ List.mem_append_right p' List.mem_cons_self)) (by simp [hq])

/-! ### Trimming -/

theorem startsBlank_append (h : cs ≠ []) : startsBlank (cs ++ ds) = startsBlank cs := by
  cases cs with
  | nil => exact absurd rfl h
  | cons c cs => rfl

theorem trimStart_eq_self (h : startsBlank cs = false) : trimStart cs = cs := by
  cases cs with
  | nil => rfl
  | cons c cs => exact List.dropWhile_cons_of_neg (by simpa [startsBlank] using h)

theorem trimStart_append (hg : Blank g) (cs : List Char) : trimStart (g ++ cs) = trimStart cs :=
  List.dropWhile_append_of_pos hg

theorem trimEnd_append (cs : List Char) (hg : Blank g) : trimEnd (cs ++ g) = trimEnd cs := by
  unfold trimEnd dropEndWhile
  rw [List.reverse_append]
  exact congrArg List.reverse (trimStart_append hg.reverse cs.reverse)

/-- What is trimmed behind a text is white space. -/
theorem exists_trimEnd (cs : List Char) : ∃ g, Blank g ∧ cs = trimEnd cs ++ g := by
  refine ⟨(cs.reverse.takeWhile isBlank).reverse, fun c hc => ?_, ?_⟩
  · exact List.mem_takeWhile_imp (List.mem_reverse.1 hc)
  · rw [trimEnd, dropEndWhile, ← List.reverse_append, List.takeWhile_append_dropWhile,
      List.reverse_reverse]

theorem trimEnd_eq_self (h : startsBlank cs.reverse = false) : trimEnd cs = cs := by
  have hrev : (cs.reverse.dropWhile isBlank) = cs.reverse := trimStart_eq_self h
  rw [trimEnd, dropEndWhile, hrev, List.reverse_reverse]

theorem trimEnd_eq_nil (hg : Blank g) : trimEnd g = [] := trimEnd_append [] hg

theorem trim_eq_nil (hg : Blank g) : trim g = [] := by
  have hstart : trimStart g = [] := by simpa using trimStart_append hg []
  rw [trim, hstart]
  rfl

theorem Tight.trim (h : Tight cs) : trim cs = cs := by
  rw [Text.trim, trimStart_eq_self h.front, trimEnd_eq_self h.back]

/-- White space at the end of a text is trimmed. -/
theorem trim_append (cs : List Char) (hg : Blank g) : trim (cs ++ g) = trim cs := by
  by_cases h : Blank cs
  · rw [trim_eq_nil h, trim_eq_nil (blank_append.2 ⟨h, hg⟩)]
  · have hstart : trimStart (cs ++ g) = trimStart cs ++ g := by
      unfold trimStart
      rw [List.dropWhile_append, if_neg]
      rwa [List.isEmpty_iff, List.dropWhile_eq_nil_iff]
    rw [trim, hstart, trimEnd_append _ hg, trim]

theorem trim_append_left (hg : Blank g) (cs : List Char) : trim (g ++ cs) = trim cs := by
  rw [trim, trimStart_append hg, trim]

/-- White space around a text is trimmed. -/
theorem Tight.trim_between (h : Tight cs) (hg : Blank g) (hg' : Blank g') :
    Text.trim (g ++ cs ++ g') = cs := by
  rw [trim_append _ hg', trim_append_left hg, h.trim]

theorem Tight.append (hc : Tight cs) (hd : Tight ds) (hcs : cs ≠ []) (hds : ds ≠ [])
    (between : List Char) : Tight (cs ++ between ++ ds) := by
  refine ⟨?_, ?_⟩
  · rw [List.append_assoc, startsBlank_append hcs]
    exact hc.front
  · rw [List.reverse_append, startsBlank_append (by simpa using hds)]
    exact hd.back

theorem tight_of_not_blank (h : ∀ c ∈ cs, isBlank c = false) : Tight cs := by
  have hfront : ∀ ds : List Char, (∀ c ∈ ds, isBlank c = false) → startsBlank ds = false := by
    intro ds hds
    cases ds with
    | nil => rfl
    | cons d ds => exact hds d List.mem_cons_self
  exact ⟨hfront cs h, hfront _ fun c hc => h c (List.mem_reverse.1 hc)⟩

/-- White space in front of a text that ends otherwise is not trimmed at the end. -/
theorem trimEnd_cons (h : trimEnd cs ≠ []) (c : Char) : trimEnd (c :: cs) = c :: trimEnd cs := by
  simp only [trimEnd, dropEndWhile, ne_eq, List.reverse_eq_nil_iff] at h ⊢
  rw [List.reverse_cons, List.dropWhile_append, if_neg (by simpa using h), List.reverse_append]
  rfl

theorem trimEnd_cons_of_not_blank (h : isBlank c = false) (cs : List Char) :
    trimEnd (c :: cs) = c :: trimEnd cs := by
  by_cases hcs : trimEnd cs = []
  · simp only [trimEnd, dropEndWhile, List.reverse_eq_nil_iff] at hcs ⊢
    rw [List.reverse_cons, List.dropWhile_append, if_pos (by simpa using hcs)]
    simp [h, hcs]
  · exact trimEnd_cons hcs c

theorem trimEnd_append_of_ne_nil (cs : List Char) (h : trimEnd ds ≠ []) :
    trimEnd (cs ++ ds) = cs ++ trimEnd ds := by
  induction cs with
  | nil => rfl
  | cons c cs ih =>
    have hne : trimEnd (cs ++ ds) ≠ [] := by simp [ih, h]
    rw [List.cons_append, trimEnd_cons hne, ih, List.cons_append]

theorem trimEnd_append_of_not_blank (h : ∀ c ∈ cs, isBlank c = false) (ds : List Char) :
    trimEnd (cs ++ ds) = cs ++ trimEnd ds := by
  induction cs with
  | nil => rfl
  | cons c cs ih =>
    have hcs := ih fun d hd => h d (List.mem_cons_of_mem c hd)
    rw [List.cons_append, trimEnd_cons_of_not_blank (h c List.mem_cons_self), hcs,
      List.cons_append]

theorem trimEnd_append_cons (hc : isBlank c = false) (cs ds : List Char) :
    trimEnd (cs ++ c :: ds) = cs ++ c :: trimEnd ds := by
  have hne : trimEnd (c :: ds) ≠ [] := trimEnd_cons_of_not_blank hc ds ▸ List.cons_ne_nil _ _
  rw [trimEnd_append_of_ne_nil _ hne, trimEnd_cons_of_not_blank hc]

theorem trimStart_subset (cs : List Char) : trimStart cs ⊆ cs :=
  (List.dropWhile_sublist isBlank).subset

theorem trimEnd_subset (cs : List Char) : trimEnd cs ⊆ cs := fun _ hc =>
  List.mem_reverse.1 (trimStart_subset cs.reverse (List.mem_reverse.1 hc))

theorem trim_subset (cs : List Char) : trim cs ⊆ cs := fun _ hc =>
  trimStart_subset cs (trimEnd_subset _ hc)

/-- Trimming takes no other character than white space. -/
theorem count_trim (hc : isBlank c = false) (cs : List Char) : (trim cs).count c = cs.count c := by
  obtain ⟨g, hg, hend⟩ := exists_trimEnd (trimStart cs)
  have hfront : c ∉ cs.takeWhile isBlank := fun hmem =>
    absurd (List.mem_takeWhile_imp hmem) (by simp [hc])
  have hcs := congrArg (List.count c) (takeWhile_append_trimStart cs)
  have htrim := congrArg (List.count c) hend
  rw [List.count_append, List.count_eq_zero.2 hfront, Nat.zero_add] at hcs
  rw [List.count_append, List.count_eq_zero.2 (hg.notMem hc), Nat.add_zero] at htrim
  exact htrim.symm.trans hcs

theorem startsBlank_trimStart (cs : List Char) : startsBlank (trimStart cs) = false := by
  induction cs with
  | nil => rfl
  | cons c cs ih =>
    by_cases hc : isBlank c = true
    · rw [trimStart, List.dropWhile_cons_of_pos hc]
      exact ih
    · rw [trimStart, List.dropWhile_cons_of_neg hc]
      simpa [startsBlank] using hc

theorem trimStart_append_of_ne_nil (h : trimStart cs ≠ []) (ds : List Char) :
    trimStart (cs ++ ds) = trimStart cs ++ ds := by
  have hempty : (cs.dropWhile isBlank).isEmpty = false := by
    rw [← Bool.not_eq_true, List.isEmpty_iff]
    exact h
  rw [trimStart, List.dropWhile_append, hempty]
  rfl

theorem trimStart_append_cons (hc : isBlank c = false) (cs ds : List Char) :
    trimStart (cs ++ c :: ds) = trimStart cs ++ c :: ds := by
  have hstop : (c :: ds).dropWhile isBlank = c :: ds := List.dropWhile_cons_of_neg (by simp [hc])
  rw [trimStart, List.dropWhile_append, hstop]
  split
  · next h => rw [trimStart, List.isEmpty_iff.1 h, List.nil_append]
  · rfl

/-! ### Marks -/

/-- Nothing is cut before the first character of the mark. -/
theorem cut?_append {m : Char} {mark : List Char} (h : m ∉ cs) (ds : List Char) :
    cut? (m :: mark) (cs ++ ds) = (cut? (m :: mark) ds).map fun p => (cs ++ p.1, p.2) := by
  induction cs with
  | nil => simp
  | cons c cs ih =>
    obtain ⟨hc, hcs⟩ : m ≠ c ∧ m ∉ cs := by simpa using h
    rw [List.cons_append, cut?, after?, if_neg hc, ih hcs, Option.map_map]
    rfl

theorem cut?_eq_none {m : Char} {mark : List Char} (h : m ∉ cs) : cut? (m :: mark) cs = none := by
  have happend : cut? (m :: mark) (cs ++ []) = _ := cut?_append h []
  simpa [cut?] using happend

theorem cut?_char (h : c ∉ cs) (ds : List Char) : cut? [c] (cs ++ c :: ds) = some (cs, ds) := by
  rw [cut?_append h]
  simp [cut?, after?]

theorem cut?_char_iff : cut? [c] cs = some (ds, g) ↔ c ∉ ds ∧ cs = ds ++ c :: g := by
  constructor
  · intro h
    by_cases hc : c ∈ cs
    · obtain ⟨front, behind, rfl, hfront⟩ := List.eq_append_cons_of_mem hc
      rw [cut?_char hfront] at h
      cases h
      exact ⟨hfront, rfl⟩
    · rw [cut?_eq_none hc] at h
      cases h
  · rintro ⟨hds, rfl⟩
    exact cut?_char hds g

theorem before_char (h : c ∉ cs) (ds : List Char) : before [c] (cs ++ c :: ds) = cs := by
  rw [before, cut?_char h]

theorem before_eq_self (h : c ∉ cs) : before [c] cs = cs := by
  rw [before, cut?_eq_none h]

theorem after?_append (lead cs : List Char) : after? lead (lead ++ cs) = some cs :=
  after?_eq_some.2 rfl

theorem startsWith_eq_true_iff {lead cs : List Char} :
    startsWith lead cs = true ↔ ∃ rest, cs = lead ++ rest := by
  rw [startsWith, List.isPrefixOf_iff_prefix]
  exact ⟨fun ⟨rest, h⟩ => ⟨rest, h.symm⟩, fun ⟨rest, h⟩ => ⟨rest, h.symm⟩⟩

theorem startsWith_eq_false_iff {lead cs : List Char} :
    startsWith lead cs = false ↔ after? lead cs = none := by
  constructor
  · intro h
    rw [Option.eq_none_iff_forall_ne_some]
    intro rest hrest
    have htrue := startsWith_eq_true_iff.2 ⟨rest, (after?_eq_some.1 hrest).symm⟩
    exact absurd (htrue.symm.trans h) (by decide)
  · intro h
    rw [← Bool.not_eq_true, startsWith_eq_true_iff]
    rintro ⟨rest, rfl⟩
    simp [after?_append] at h

/-- A mark in front of a character that is not in it is found as without that character. -/
theorem after?_append_cons {mark : List Char} (h : c ∉ mark) (ds : List Char) :
    after? mark (cs ++ c :: ds) = (after? mark cs).map (· ++ c :: ds) := by
  induction mark generalizing cs with
  | nil => rfl
  | cons m mark ih =>
    obtain ⟨hm, hmark⟩ : c ≠ m ∧ c ∉ mark := by simpa using h
    cases cs with
    | nil => simp [after?, Ne.symm hm]
    | cons d cs =>
      rw [List.cons_append, after?, after?]
      split
      · exact ih hmark
      · rfl

/-- A mark is cut at where it occurs, and only there. -/
theorem cut?_eq_none_iff {mark : List Char} : cut? mark cs = none ↔ ¬mark <:+: cs := by
  induction cs with
  | nil => cases mark <;> simp [cut?]
  | cons c cs ih =>
    rw [cut?, List.infix_cons_iff]
    cases hafter : after? mark (c :: cs) with
    | some rest =>
      have hahead : mark <+: c :: cs := ⟨rest, after?_eq_some.1 hafter⟩
      simp [hahead]
    | none =>
      have hahead : ¬mark <+: c :: cs := by
        rintro ⟨rest, hrest⟩
        rw [after?_eq_some.2 hrest] at hafter
        cases hafter
      simp [hahead, ih]

/-- The cut is at the first place. -/
theorem cut?_of_first {mark front rest : List Char}
    (h : ∀ f r, front ++ (mark ++ rest) = f ++ (mark ++ r) → front.length ≤ f.length) :
    cut? mark (front ++ (mark ++ rest)) = some (front, rest) := by
  induction front with
  | nil =>
    rw [List.nil_append]
    cases hcs : mark ++ rest with
    | nil =>
      obtain ⟨rfl, rfl⟩ := List.append_eq_nil_iff.1 hcs
      rfl
    | cons c cs => rw [cut?, after?_eq_some.2 hcs]
  | cons c front ih =>
    have hnone : after? mark (c :: (front ++ (mark ++ rest))) = none := by
      rw [Option.eq_none_iff_forall_ne_some]
      intro r hr
      have hlength := h [] r (after?_eq_some.1 hr).symm
      exact absurd hlength (by simp)
    have hfront := ih fun f r hf => by simpa using h (c :: f) r (congrArg (c :: ·) hf)
    rw [List.cons_append, cut?, hnone, hfront]
    rfl

/-- A mark whose first character stands nowhere else in it does not overlap itself, so a text is cut
    at the mark behind it when it has none in it. -/
theorem cut?_mark {m : Char} {mark : List Char} (hm : m ∉ mark) (h : ¬(m :: mark) <:+: cs)
    (ds : List Char) : cut? (m :: mark) (cs ++ ((m :: mark) ++ ds)) = some (cs, ds) := by
  refine cut?_of_first fun f r hf => ?_
  by_contra hshort
  rcases List.append_eq_append_iff.1 hf with ⟨x, rfl, hx⟩ | ⟨x, rfl, hx⟩
  · simp at hshort
  · cases x with
    | nil => simp at hshort
    | cons d x =>
      obtain ⟨rfl, hbehind⟩ := List.cons.inj hx
      rcases List.append_eq_append_iff.1 hbehind with ⟨y, rfl, -⟩ | ⟨y, rfl, hy⟩
      · exact h ⟨f, y, by simp⟩
      · cases y with
        | nil => exact h ⟨f, [], by simp⟩
        | cons e y =>
          obtain ⟨rfl, -⟩ := List.cons.inj hy
          simp at hm

/-- A word between spaces is cut at where a text has it for the first time; the space in front of it
    may be the one behind the word before. -/
theorem cut?_word {w : List Char} (hw : ' ' ∉ w) (h : ¬(' ' :: (w ++ [' '])) <:+: cs ++ [' '])
    (ds : List Char) :
    cut? (' ' :: (w ++ [' '])) (cs ++ (' ' :: (w ++ [' ']) ++ ds)) = some (cs, ds) := by
  refine cut?_of_first fun f r hf => ?_
  by_contra hshort
  rcases List.append_eq_append_iff.1 hf with ⟨x, rfl, hx⟩ | ⟨x, rfl, hx⟩
  · simp at hshort
  · cases x with
    | nil => simp at hshort
    | cons d x =>
      obtain ⟨rfl, hbehind⟩ := List.cons.inj hx
      have hspace : w ++ ' ' :: r = x ++ ' ' :: (w ++ ' ' :: ds) := by simpa using hbehind
      -- What stands between the two places is the word, or begins with it and a space.
      rcases List.append_eq_append_iff.1 hspace with ⟨y, rfl, hy⟩ | ⟨y, rfl, hy⟩
      · cases y with
        | nil => exact h ⟨f, [], by simp⟩
        | cons e y =>
          obtain ⟨rfl, -⟩ := List.cons.inj hy
          exact h ⟨f, y ++ [' '], by simp⟩
      · cases y with
        | nil => exact h ⟨f, [], by simp⟩
        | cons e y =>
          obtain ⟨rfl, -⟩ := List.cons.inj hy
          simp at hw

/-- Of several spaces in front of the word the last one belongs to the mark. -/
theorem cut?_spaced {w : List Char} (hw : ' ' ∉ w) (hne : g ≠ []) (hg : ∀ c ∈ g, c = ' ')
    (h : ¬(' ' :: (w ++ [' '])) <:+: cs ++ g) (ds : List Char) :
    ∃ g', Blank g' ∧ cut? (' ' :: (w ++ [' '])) (cs ++ (g ++ (w ++ ' ' :: ds))) =
      some (cs ++ g', ds) := by
  obtain ⟨g', c, rfl⟩ : ∃ g' c, g = g' ++ [c] :=
    (List.eq_nil_or_concat g).resolve_left hne |>.imp fun _ => .imp fun _ => (·.trans (by simp))
  obtain rfl : c = ' ' := hg c (by simp)
  have hblank : Blank g' := fun c hc => by
    rw [hg c (List.mem_append_left _ hc)]
    decide
  rw [← List.append_assoc] at h
  refine ⟨g', hblank, ?_⟩
  simpa using cut?_word hw h ds

/-- Behind a character that is not in the mark the search begins anew. -/
theorem cut?_append_cons {mark : List Char} (hne : mark ≠ []) (hc : c ∉ mark) (h : ¬mark <:+: cs)
    (ds : List Char) :
    cut? mark (cs ++ c :: ds) = (cut? mark ds).map fun p => (cs ++ c :: p.1, p.2) := by
  have hnone : ∀ {front : List Char}, ¬mark <+: front → after? mark (front ++ c :: ds) = none := by
    intro front hfront
    rw [after?_append_cons hc, Option.map_eq_none_iff, Option.eq_none_iff_forall_ne_some]
    exact fun rest hrest => hfront ⟨rest, after?_eq_some.1 hrest⟩
  induction cs with
  | nil =>
    have hmark : ¬mark <+: [] := by simpa using hne
    have hstart := hnone hmark
    rw [List.nil_append] at hstart ⊢
    rw [cut?, hstart]
    rfl
  | cons d cs ih =>
    have hmark : ¬mark <+: d :: cs := fun hahead => h hahead.isInfix
    have hstart := hnone hmark
    rw [List.cons_append] at hstart ⊢
    rw [cut?, hstart, ih fun hwithin => h (List.infix_cons hwithin), Option.map_map]
    rfl

theorem before_append {m : Char} {mark : List Char} (h : m ∉ cs) (ds : List Char) :
    before (m :: mark) (cs ++ ds) = cs ++ before (m :: mark) ds := by
  rw [before, before, cut?_append h]
  cases cut? (m :: mark) ds <;> rfl

theorem before_append_cons {mark : List Char} (hne : mark ≠ []) (hc : c ∉ mark) (h : ¬mark <:+: cs)
    (ds : List Char) : before mark (cs ++ c :: ds) = cs ++ c :: before mark ds := by
  rw [before, before, cut?_append_cons hne hc h]
  cases cut? mark ds <;> rfl

theorem startsWith_eq_isSome (mark cs : List Char) :
    startsWith mark cs = (after? mark cs).isSome := by
  cases h : after? mark cs with
  | none => exact startsWith_eq_false_iff.2 h
  | some rest => exact startsWith_eq_true_iff.2 ⟨rest, (after?_eq_some.1 h).symm⟩

theorem startsWith_append_cons {mark : List Char} (h : c ∉ mark) (ds : List Char) :
    startsWith mark (cs ++ c :: ds) = startsWith mark cs := by
  rw [startsWith_eq_isSome, startsWith_eq_isSome, after?_append_cons h, Option.isSome_map]

end DocDirectives.Text
