import DocDirectives.Declaration.Head
import DocDirectives.Proofs.Imports.Flattening

/-! # Headers of `impl` blocks

    A header names the type to which its block adds methods. The list of generic parameters is
    passed over by counting angle brackets, and the name is the last segment of the first word
    behind it, behind the trait and behind the ampersands. So it is the name of the type when the
    type has no qualifiers but ampersands, and the list no arrow. The bracket of an arrow is counted
    like any other: it ends the list too early, and the rest of the list is read for a type.

        header ──▶ ['unsafe '] 'impl' ['<' generics '>'] ' ' [trait ' for '] type [' where ' …] ' {'
        type   ──▶ qualifiers path ['<' arguments '>'] -/

namespace DocDirectives.Head

open Text UseTree

variable {n m d d' : Nat} {c : Char} {g q word cs rest : List Char}

/-! ### Angle brackets -/

/-- How many angle brackets a text leaves open, `n` being open in front of it, or nothing if it
    closes one that is not open. The bracket of an arrow neither opens nor closes. -/
def openAngles (n : Nat) : List Char → Option Nat
  | [] => some n
  | '-' :: '>' :: cs => openAngles n cs
  | '<' :: cs => openAngles (n + 1) cs
  | '>' :: cs => if n = 0 then none else openAngles (n - 1) cs
  | _ :: cs => openAngles n cs

/-- The angle brackets of a text balance, arrows aside. -/
def Angled (cs : List Char) : Prop := openAngles 0 cs = some 0

instance (cs : List Char) : Decidable (Angled cs) := inferInstanceAs (Decidable (_ = some 0))

def arrow : List Char := ['-', '>']

theorem afterAngles_open (d : Nat) (cs : List Char) :
    afterAngles d ('<' :: cs) = afterAngles (d + 1) cs := by
  rw [afterAngles, if_pos rfl]

theorem afterAngles_last (hd : d ≤ 1) (cs : List Char) : afterAngles d ('>' :: cs) = cs := by
  rw [afterAngles, if_neg (by decide), if_pos rfl, if_pos hd]

theorem afterAngles_close (hd : 1 < d) (cs : List Char) :
    afterAngles d ('>' :: cs) = afterAngles (d - 1) cs := by
  rw [afterAngles, if_neg (by decide), if_pos rfl, if_neg (Nat.not_le.2 hd)]

theorem afterAngles_other (hopen : c ≠ '<') (hclose : c ≠ '>') (d : Nat) (cs : List Char) :
    afterAngles d (c :: cs) = afterAngles d cs := by
  rw [afterAngles, if_neg hopen, if_neg hclose]

/-- Without arrows the brackets are counted as they are. -/
theorem afterAngles_append (harrow : ¬arrow <:+: g) (h : openAngles n g = some m)
    (rest : List Char) : afterAngles (n + 1) (g ++ rest) = afterAngles (m + 1) rest := by
  have htail : ∀ {c : Char} {cs : List Char}, ¬arrow <:+: c :: cs → ¬arrow <:+: cs :=
    fun hcons hmem => hcons (List.infix_cons hmem)
  fun_induction openAngles n g with
  | case1 n =>
    cases h
    rfl
  | case2 n cs => exact absurd ⟨[], cs, rfl⟩ harrow
  | case3 n cs ih =>
    rw [List.cons_append, afterAngles_open]
    exact ih (htail harrow) h
  | case4 => cases h
  | case5 n cs hn ih =>
    rw [List.cons_append, afterAngles_close (by omega), show n + 1 - 1 = n - 1 + 1 by omega]
    exact ih (htail harrow) h
  | case6 n c cs hdash hopen hclose ih =>
    rw [List.cons_append, afterAngles_other hopen hclose]
    exact ih (htail harrow) h

/-- Read with `d` brackets open, a list of parameters ends inside the text. -/
def EndsInside (d : Nat) (g : List Char) : Prop :=
  ∃ front behind, g = front ++ '>' :: behind ∧ ∀ rest, afterAngles d (g ++ rest) = behind ++ rest

theorem endsInside_last (hd : d ≤ 1) (cs : List Char) : EndsInside d ('>' :: cs) :=
  ⟨[], cs, rfl, fun rest => afterAngles_last hd (cs ++ rest)⟩

theorem EndsInside.cons (h : EndsInside d' cs)
    (hstep : ∀ rest, afterAngles d (c :: rest) = afterAngles d' rest) : EndsInside d (c :: cs) := by
  obtain ⟨front, behind, rfl, hrest⟩ := h
  exact ⟨c :: front, behind, rfl, fun rest => (hstep _).trans (hrest rest)⟩

/-- A count that has fallen behind comes to its end too early. -/
theorem endsInside_of_le (h : openAngles n g = some 0) (hd : 0 < d) (hdn : d ≤ n) :
    EndsInside d g := by
  fun_induction openAngles n g generalizing d with
  | case1 n =>
    cases h
    omega
  | case2 n cs ih =>
    refine .cons ?_ (afterAngles_other (by decide) (by decide) d)
    by_cases hone : d ≤ 1
    · exact endsInside_last hone cs
    · exact (ih h (by omega) (by omega)).cons (afterAngles_close (by omega))
  | case3 n cs ih => exact (ih h (Nat.succ_pos d) (by omega)).cons (afterAngles_open d)
  | case4 => cases h
  | case5 n cs hn ih =>
    by_cases hone : d ≤ 1
    · exact endsInside_last hone cs
    · exact (ih h (by omega) (by omega)).cons (afterAngles_close (by omega))
  | case6 n c cs hdash hopen hclose ih =>
    exact (ih h hd hdn).cons (afterAngles_other hopen hclose d)

/-- An arrow makes the count fall behind. -/
theorem endsInside_of_arrow (harrow : arrow <:+: g) (h : openAngles n g = some 0) :
    EndsInside (n + 1) g := by
  have htail : ∀ {c : Char} {cs : List Char}, arrow <:+: c :: cs →
      (∀ behind, c = '-' → cs = '>' :: behind → False) → arrow <:+: cs := by
    intro c cs hcons hother
    rcases List.infix_cons_iff.1 hcons with ⟨behind, hahead⟩ | hmem
    · obtain ⟨rfl, hcs⟩ := List.cons.inj hahead
      exact absurd hcs.symm (hother behind rfl)
    · exact hmem
  fun_induction openAngles n g with
  | case1 => exact absurd (List.infix_nil.1 harrow) (by decide)
  | case2 n cs ih =>
    refine .cons ?_ (afterAngles_other (by decide) (by decide) (n + 1))
    by_cases hn : n = 0
    · exact endsInside_last (by omega) cs
    · exact (endsInside_of_le h (by omega) (Nat.le_refl n)).cons (afterAngles_close (by omega))
  | case3 n cs ih => exact (ih (htail harrow (by simp)) h).cons (afterAngles_open (n + 1))
  | case4 => cases h
  | case5 n cs hn ih =>
    have hcs := ih (htail harrow (by simp)) h
    rw [show n - 1 + 1 = n + 1 - 1 by omega] at hcs
    exact hcs.cons (afterAngles_close (by omega))
  | case6 n c cs hdash hopen hclose ih =>
    exact (ih (htail harrow hdash) h).cons (afterAngles_other hopen hclose (n + 1))

/-! ### Headers -/

/-- A name in the path of a type, as far as a header can tell. -/
structure Name (n : List Char) : Prop extends Identifier n where
  angle : '<' ∉ n
  ampersand : '&' ∉ n

instance (n : List Char) : Decidable (Name n) :=
  decidable_of_iff (Identifier n ∧ '<' ∉ n ∧ '&' ∉ n)
    ⟨fun ⟨h1, h2, h3⟩ => ⟨h1, h2, h3⟩, fun h => ⟨h.toIdentifier, h.angle, h.ampersand⟩⟩

/-- A qualifier of a type that is a word. -/
inductive WordQualifier : List Char → Prop
  | mutable : WordQualifier "mut".toList
  | lifetime {n : List Char} : Name n → WordQualifier ('\'' :: n)

/-- A run of qualifiers. Only an ampersand can follow a word directly. -/
inductive Qualifiers : List Char → Prop
  | nil : Qualifiers []
  | ampersand {g rest : List Char} : Blank g → Qualifiers rest → Qualifiers ('&' :: (g ++ rest))
  | word {q g rest : List Char} : WordQualifier q → Blank g → (g = [] → rest.head? = some '&') →
      Qualifiers rest → Qualifiers (q ++ (g ++ rest))

/-- What reads as one word: a text without white space that does not begin with an ampersand. -/
structure Joined (word : List Char) : Prop where
  ne_nil : word ≠ []
  head : word.head? ≠ some '&'
  solid : ∀ c ∈ word, isBlank c = false

/-- The parts of a header. -/
structure ImplParts where
  isUnsafe : Bool := false
  /-- Between the angle brackets behind `impl`. -/
  generics : Option (List Char) := none
  trait : Option (List Char) := none
  /-- In front of the path of the type. -/
  qualifiers : List Char := []
  /-- The path of the type in front of its last segment. -/
  above : List (List Char) := []
  name : List Char
  /-- Between the angle brackets behind the type. -/
  arguments : Option (List Char) := none
  /-- Behind `where`. -/
  condition : Option (List Char) := none
  /-- Behind the opening brace. -/
  behind : List Char := []

namespace ImplParts

variable (p : ImplParts)

/-- The type without its arguments. -/
def typeText : List Char := p.qualifiers ++ (leadText [':', ':'] p.above ++ p.name)

def argumentText : List Char := p.arguments.elim [] fun a => '<' :: (a ++ ['>'])

/-- The trait and the type, and the blank in front of them. -/
def implemented : List Char :=
  ' ' :: (p.trait.elim [] (· ++ " for ".toList) ++ (p.typeText ++ p.argumentText))

/-- What stands behind the generic parameters. -/
def tail : List Char :=
  p.implemented ++ (p.condition.elim [] (" where ".toList ++ ·) ++ (' ' :: '{' :: p.behind))

def text : List Char :=
  (if p.isUnsafe then "unsafe ".toList else []) ++
    ("impl".toList ++ (p.generics.elim [] (fun g => '<' :: (g ++ ['>'])) ++ p.tail))

end ImplParts

/-- A header. Its angle brackets balance, and ` where `, ` for ` and the brace stand in it only
    where they divide its parts. -/
structure ImplHeader extends ImplParts where
  generics_angled : ∀ g ∈ generics, Angled g
  arguments_angled : ∀ a ∈ arguments, Angled a
  qualifiers_run : Qualifiers qualifiers
  above_names : ∀ n ∈ above, Name n
  name_name : Name name
  brace_notMem : '{' ∉ toImplParts.implemented
  no_where : ¬" where ".toList <:+: toImplParts.implemented ++ [' ']
  one_for : ∀ i < toImplParts.implemented.length,
    " for ".toList <+: (toImplParts.implemented ++ [' ']).drop i →
      some (toImplParts.implemented.take i) = trait.map (' ' :: ·)

/-! ### Reading a header -/

/-- What stands in front of white space and angle brackets. -/
def firstWord (cs : List Char) : List Char := cs.takeWhile fun c => c ≠ '<' ∧ !isBlank c

/-- The last segment of a word, if there is one. -/
def named (word : List Char) : Option (List Char) :=
  if (lastSegment word).isEmpty then none else some (lastSegment word)

/-- The name of a type: of its first word, behind its ampersands. -/
def owner? (target : List Char) : Option (List Char) :=
  named (firstWord (dropLeads ['&'] (trim target)))

/-- What stands in front of the condition and the brace. -/
def header (rest : List Char) : List Char := before " where ".toList (before ['{'] rest)

/-- What stands behind the trait in it. -/
def target (rest : List Char) : List Char :=
  match cut? " for ".toList (header rest) with
  | some (_, behind) => behind
  | none => header rest

theorem implTarget?_eq (line : List Char) :
    implTarget? line =
      (after? "impl".toList (trimStart (dropLeads "unsafe".toList line))).bind fun rest =>
        owner? (target (if startsWith ['<'] rest then afterAngles 0 rest else rest)) := by
  unfold implTarget?
  cases after? "impl".toList (trimStart (dropLeads "unsafe".toList line)) <;> rfl

/-- A text that ends a word. -/
def EndsWord (cs : List Char) : Prop := ∀ c ∈ cs.head?, c = '<' ∨ isBlank c = true

theorem firstWord_eq_nil (h : EndsWord cs) : firstWord cs = [] := by
  cases cs with
  | nil => rfl
  | cons c cs =>
    have hc := h c rfl
    refine List.takeWhile_cons_of_neg ?_
    rcases hc with rfl | hc <;> simp_all

theorem firstWord_append (h : EndsWord rest) (cs : List Char) :
    firstWord (cs ++ rest) = firstWord cs := by
  induction cs with
  | nil => exact firstWord_eq_nil h
  | cons c cs ih =>
    simp only [firstWord] at ih ⊢
    rw [List.cons_append, List.takeWhile_cons, List.takeWhile_cons, ih]

/-- A word without blanks and angle brackets is read whole. -/
theorem firstWord_eq_self (h : ∀ c ∈ cs, c ≠ '<' ∧ isBlank c = false) : firstWord cs = cs :=
  List.takeWhile_eq_self_iff.2 fun c hc => by simpa using h c hc

/-- What ends the word has no part in it. -/
theorem firstWord_dropLeads_append (h : EndsWord rest) (cs : List Char) :
    firstWord (dropLeads ['&'] (cs ++ rest)) = firstWord (dropLeads ['&'] cs) := by
  rw [dropLeads_char, dropLeads_char, List.dropWhile_append]
  split
  · next hempty =>
    have hrest : rest.dropWhile (· == '&') = rest := by
      cases rest with
      | nil => rfl
      | cons c rest =>
        refine List.dropWhile_cons_of_neg ?_
        have hc := h c rfl
        rintro hamp
        obtain rfl : c = '&' := by simpa using hamp
        exact absurd hc (by decide)
    rw [hrest, firstWord_eq_nil h, List.isEmpty_iff.1 hempty]
    rfl
  · exact firstWord_append h _

theorem endsWord_blank (hg : Blank g) : EndsWord g := by
  intro c hc
  exact .inr (hg c (List.mem_of_head? hc))

/-- White space behind a type and in front of it makes no difference. -/
theorem owner?_eq (cs : List Char) :
    owner? cs = named (firstWord (dropLeads ['&'] (trimStart cs))) := by
  obtain ⟨g, hg, hcs⟩ := exists_trimEnd (trimStart cs)
  have hword := firstWord_dropLeads_append (endsWord_blank hg) (trimEnd (trimStart cs))
  rw [← hcs] at hword
  rw [owner?, trim, hword]

/-- What follows the first word is not read. -/
theorem owner?_append (hne : trimStart cs ≠ []) (h : EndsWord rest) :
    owner? (cs ++ rest) = owner? cs := by
  rw [owner?_eq, owner?_eq, trimStart_append_of_ne_nil hne, firstWord_dropLeads_append h]

theorem owner?_blank (hg : Blank g) (cs : List Char) : owner? (g ++ cs) = owner? cs := by
  rw [owner?_eq, owner?_eq, trimStart_append hg]

/-! ### The type -/

/-- A name behind the beginning of a segment is found. -/
theorem named_append {front name : List Char} (hfront : EndsSegment front)
    (hchars : ∀ c ∈ name, isSegmentChar c = true) (hne : name ≠ []) :
    named (front ++ name) = some name := by
  have hlast := lastSegment_written hfront (solid_of_isSegmentChar hchars)
  rw [named, hlast, if_neg (by simpa using hne)]

theorem Name.not_ends (h : Name word) : ∀ c ∈ word, c ≠ '<' ∧ isBlank c = false := fun c hc =>
  ⟨fun hangle => h.angle (hangle ▸ hc), h.toIdentifier.isBlank c hc⟩

theorem Name.segment (h : Name word) : ∀ c ∈ word, c ≠ '<' ∧ isSegmentChar c = true :=
  fun c hc => ⟨(h.not_ends c hc).1, h.chars c hc⟩

theorem WordQualifier.segment (h : WordQualifier q) :
    ∀ c ∈ q, c ≠ '<' ∧ isSegmentChar c = true := by
  cases h with
  | mutable => exact (by decide : Name "mut".toList).segment
  | lifetime hn => exact List.forall_mem_cons.2 ⟨by decide, hn.segment⟩

/-- Qualifiers are white space, ampersands and characters of a segment. -/
theorem Qualifiers.segment (h : Qualifiers q) :
    ∀ c ∈ q, isBlank c = false → c ≠ '<' ∧ isSegmentChar c = true := by
  induction h with
  | nil => simp
  | ampersand hg _ ih =>
    refine List.forall_mem_cons.2 ⟨fun _ => by decide, ?_⟩
    exact List.forall_mem_append.2 ⟨fun c hc hsolid => by simp [hg c hc] at hsolid, ih⟩
  | word hword hg _ _ ih =>
    refine List.forall_mem_append.2 ⟨fun c hc _ => hword.segment c hc, ?_⟩
    exact List.forall_mem_append.2 ⟨fun c hc hsolid => by simp [hg c hc] at hsolid, ih⟩

theorem Qualifiers.startsBlank (h : Qualifiers q) (hstart : Text.startsBlank rest = false) :
    Text.startsBlank (q ++ rest) = false := by
  cases h with
  | nil => exact hstart
  | ampersand => rfl
  | word hword => cases hword <;> rfl

namespace ImplHeader

variable (h : ImplHeader)

/-- The path of the type. -/
def path : List Char := leadText [':', ':'] h.above ++ h.name

theorem typeText_eq : h.typeText = h.qualifiers ++ h.path := rfl

theorem not_ends_path : ∀ c ∈ h.path, c ≠ '<' ∧ isBlank c = false := by
  have hcolons : ∀ c ∈ [':', ':'], c ≠ '<' ∧ isBlank c = false := by
    simp [show isBlank ':' = false from rfl]
  refine List.forall_mem_append.2 ⟨fun c hc => ?_, h.name_name.not_ends⟩
  obtain ⟨n, hn, hc⟩ := List.mem_flatMap.1 hc
  exact (List.mem_append.1 hc).elim ((h.above_names n hn).not_ends c) (hcolons c)

theorem ampersand_notMem_path : '&' ∉ h.path := by
  simp only [path, List.mem_append, leadText, List.mem_flatMap, not_or, not_exists, not_and]
  exact ⟨fun n hn => ⟨(h.above_names n hn).ampersand, by decide⟩, h.name_name.ampersand⟩

theorem path_ne_nil : h.path ≠ [] := fun hnil =>
  h.name_name.ne_nil (List.append_eq_nil_iff.1 hnil).2

theorem startsBlank_typeText : startsBlank h.typeText = false :=
  h.qualifiers_run.startsBlank (tight_of_not_blank fun c hc => (h.not_ends_path c hc).2).front

theorem typeText_ne_nil : h.typeText ≠ [] := fun hnil =>
  h.path_ne_nil (List.append_eq_nil_iff.1 hnil).2

theorem owner?_typeText :
    owner? h.typeText = named (firstWord (dropLeads ['&'] h.typeText)) := by
  rw [owner?_eq, trimStart_eq_self h.startsBlank_typeText]

theorem dropLeads_replicate (i : Nat) (cs : List Char) :
    dropLeads ['&'] (List.replicate i '&' ++ cs) = cs.dropWhile (· == '&') := by
  rw [dropLeads_char, List.dropWhile_append_of_pos]
  intro c hc
  simp [List.eq_of_mem_replicate hc]

/-- The word behind the ampersands is read for the type. -/
theorem owner?_of_joined {i : Nat} (hword : Joined word) (hangle : '<' ∉ word)
    (hend : EndsWord rest) (htext : h.typeText = List.replicate i '&' ++ (word ++ rest)) :
    owner? h.typeText = named word := by
  have hhead : (word ++ rest).dropWhile (· == '&') = word ++ rest := by
    obtain ⟨c, cs, rfl⟩ := List.exists_cons_of_ne_nil hword.ne_nil
    refine List.dropWhile_cons_of_neg ?_
    simpa using hword.head
  have hsolid : ∀ c ∈ word, c ≠ '<' ∧ isBlank c = false := fun c hc =>
    ⟨fun hc' => hangle (hc' ▸ hc), hword.solid c hc⟩
  rw [owner?_typeText, htext, dropLeads_replicate, hhead, firstWord_append hend,
    firstWord_eq_self hsolid]

theorem joined_path : Joined h.path where
  ne_nil := h.path_ne_nil
  head := fun hamp => h.ampersand_notMem_path (List.mem_of_head? hamp)
  solid := fun c hc => (h.not_ends_path c hc).2

theorem angle_notMem_path : '<' ∉ h.path := fun hc => (h.not_ends_path '<' hc).1 rfl

/-- Behind ampersands the type is known by its last segment. -/
theorem owner?_of_ampersands {i : Nat} (hq : h.qualifiers = List.replicate i '&') :
    owner? h.typeText = some h.name := by
  have htext : h.typeText = List.replicate i '&' ++ (h.path ++ []) := by
    rw [typeText_eq, hq, List.append_nil]
  rw [h.owner?_of_joined h.joined_path h.angle_notMem_path (by simp [EndsWord]) htext]
  exact named_append (endsSegment_leadText .colons h.above) h.name_name.chars h.name_name.ne_nil

/-- A word in front of white space is taken for the type. -/
theorem owner?_of_word {i : Nat} {b : Char} (hword : Joined word) (hb : isBlank b = true)
    (hq : h.qualifiers = List.replicate i '&' ++ (word ++ b :: rest)) :
    owner? h.typeText = some word := by
  have hend : EndsWord (b :: (rest ++ h.path)) := by
    intro c hc
    cases hc
    exact .inr hb
  have htext : h.typeText = List.replicate i '&' ++ (word ++ b :: (rest ++ h.path)) := by
    rw [typeText_eq, hq]
    simp
  have hsegment : ∀ c ∈ word, c ≠ '<' ∧ isSegmentChar c = true := fun c hc =>
    h.qualifiers_run.segment c (by simp [hq, hc]) (hword.solid c hc)
  have hangle : '<' ∉ word := fun hc => (hsegment '<' hc).1 rfl
  rw [h.owner?_of_joined hword hangle hend htext]
  exact named_append (.inl rfl) (fun c hc => (hsegment c hc).2) hword.ne_nil

/-- A word directly in front of the path is read as a part of its first segment. -/
theorem owner?_of_adjacent {i : Nat} (hword : Joined word)
    (hq : h.qualifiers = List.replicate i '&' ++ word) :
    owner? h.typeText = some (if h.above = [] then word ++ h.name else h.name) := by
  have htext : h.typeText = List.replicate i '&' ++ (word ++ h.path ++ []) := by
    rw [typeText_eq, hq]
    simp
  have hsegment : ∀ c ∈ word, c ≠ '<' ∧ isSegmentChar c = true := fun c hc =>
    h.qualifiers_run.segment c (by simp [hq, hc]) (hword.solid c hc)
  have hjoined : Joined (word ++ h.path) := by
    refine ⟨by simp [hword.ne_nil], ?_, List.forall_mem_append.2 ⟨hword.solid, h.joined_path.solid⟩⟩
    rw [List.head?_append_of_ne_nil _ hword.ne_nil]
    exact hword.head
  have hangle : '<' ∉ word ++ h.path :=
    List.not_mem_append (fun hc => (hsegment '<' hc).1 rfl) h.angle_notMem_path
  rw [h.owner?_of_joined hjoined hangle (by simp [EndsWord]) htext]
  split
  · next habove =>
    have hchars : ∀ c ∈ word ++ h.name, isSegmentChar c = true :=
      List.forall_mem_append.2 ⟨fun c hc => (hsegment c hc).2, h.name_name.chars⟩
    rw [path, habove]
    exact named_append (.inl rfl) hchars (by simp [hword.ne_nil])
  · next habove =>
    have hends : EndsSegment (word ++ leadText [':', ':'] h.above) := by
      rw [leadText_eq habove, ← List.append_assoc]
      exact endsSegment_separator IsSeparator.colons.mem_separators _
    rw [path, ← List.append_assoc]
    exact named_append hends h.name_name.chars h.name_name.ne_nil

/-- Where white space follows the ampersands no type is found. -/
theorem owner?_of_blank {i : Nat} {b : Char} (hb : isBlank b = true)
    (hq : h.qualifiers = List.replicate i '&' ++ b :: rest) : owner? h.typeText = none := by
  have hend : EndsWord (b :: (rest ++ h.path)) := by
    intro c hc
    cases hc
    exact .inr hb
  have htext : h.typeText = List.replicate i '&' ++ b :: (rest ++ h.path) := by
    rw [typeText_eq, hq]
    simp
  have hne : b ≠ '&' := by
    rintro rfl
    exact absurd hb (by decide)
  rw [owner?_typeText, htext, dropLeads_replicate, List.dropWhile_cons_of_neg (by simpa using hne),
    firstWord_eq_nil hend]
  rfl

/-! ### Behind the generic parameters -/

theorem header_tail : ∃ g, (g = [] ∨ g = [' ']) ∧ header h.tail = h.implemented ++ g := by
  have hwhere : " where ".toList = ' ' :: ("where".toList ++ [' ']) := rfl
  cases hcondition : h.condition with
  | none =>
    have htail : h.tail = h.implemented ++ [' '] ++ '{' :: h.behind := by
      simp [ImplParts.tail, hcondition]
    have hbrace : '{' ∉ h.implemented ++ [' '] := List.not_mem_append h.brace_notMem (by decide)
    refine ⟨[' '], .inr rfl, ?_⟩
    rw [header, htail, before_char hbrace, before, cut?_eq_none_iff.2 h.no_where]
  | some w =>
    have htail : h.tail = h.implemented ++ (" where ".toList ++ (w ++ ' ' :: '{' :: h.behind)) := by
      simp [ImplParts.tail, hcondition]
    have hcut := cut?_word (w := "where".toList) (by decide) h.no_where
      (before ['{'] (w ++ ' ' :: '{' :: h.behind))
    refine ⟨[], .inl rfl, ?_⟩
    rw [header, htail, before_append h.brace_notMem, before_append (by decide), before, hwhere,
      hcut, List.append_nil]

/-- ` for ` stands behind the trait only. -/
theorem for_place {front behind : List Char} (hg : g = [] ∨ g = [' '])
    (hfor : h.implemented ++ g = front ++ (" for ".toList ++ behind)) :
    some front = h.trait.map (' ' :: ·) := by
  obtain ⟨behind', hspace⟩ : ∃ behind', h.implemented ++ [' '] =
      front ++ (" for ".toList ++ behind') := by
    rcases hg with rfl | rfl
    · rw [List.append_nil] at hfor
      exact ⟨behind ++ [' '], by rw [hfor]; simp⟩
    · exact ⟨behind, hfor⟩
  have hlength := congrArg List.length hspace
  simp only [List.length_append, List.length_singleton, show " for ".toList.length = 5 from rfl]
    at hlength
  have hle : front.length ≤ h.implemented.length := by omega
  have hdrop : " for ".toList <+: (h.implemented ++ [' ']).drop front.length := by
    rw [hspace, List.drop_left]
    exact List.prefix_append _ _
  have htake : h.implemented.take front.length = front := by
    have hspaced := congrArg (List.take front.length) hspace
    rwa [List.take_append_of_le_length hle, List.take_left] at hspaced
  rw [← htake]
  simpa [htake] using h.one_for front.length (by omega) hdrop

theorem cut?_for (hg : g = [] ∨ g = [' ']) : cut? " for ".toList (h.implemented ++ g) =
    h.trait.map fun t => (' ' :: t, h.typeText ++ (h.argumentText ++ g)) := by
  cases htrait : h.trait with
  | none =>
    refine cut?_eq_none_iff.2 ?_
    rintro ⟨front, behind, hfor⟩
    rw [List.append_assoc] at hfor
    have hplace := h.for_place hg hfor.symm
    rw [htrait] at hplace
    cases hplace
  | some t =>
    have himplemented : h.implemented ++ g = ' ' :: t ++
        (" for ".toList ++ (h.typeText ++ (h.argumentText ++ g))) := by
      simp [ImplParts.implemented, htrait]
    rw [himplemented]
    refine cut?_of_first fun f r hf => ?_
    have hplace := h.for_place hg (himplemented.trans hf)
    rw [htrait] at hplace
    cases hplace
    exact Nat.le_refl _

theorem endsWord_argumentText (hg : g = [] ∨ g = [' ']) : EndsWord (h.argumentText ++ g) := by
  intro c hc
  cases harguments : h.arguments with
  | some a =>
    left
    simpa [ImplParts.argumentText, harguments, eq_comm] using hc
  | none =>
    right
    rcases hg with rfl | rfl
    · simp [ImplParts.argumentText, harguments] at hc
    · obtain rfl : ' ' = c := by simpa [ImplParts.argumentText, harguments] using hc
      decide

/-- Behind the generic parameters the type is found. -/
theorem owner?_target : owner? (target h.tail) = owner? h.typeText := by
  obtain ⟨g, hg, hheader⟩ := h.header_tail
  have hne : trimStart h.typeText ≠ [] := by
    rw [trimStart_eq_self h.startsBlank_typeText]
    exact h.typeText_ne_nil
  have hargument := owner?_append hne (h.endsWord_argumentText hg)
  rw [target, hheader, h.cut?_for hg]
  cases htrait : h.trait with
  | some t => exact hargument
  | none =>
    have himplemented : h.implemented ++ g = [' '] ++ (h.typeText ++ (h.argumentText ++ g)) := by
      simp [ImplParts.implemented, htrait]
    have hspace : Blank [' '] := by decide
    rw [Option.map_none, himplemented, ← hargument, owner?_blank hspace]

/-! ### The list of generic parameters -/

/-- What stands behind the generic parameters is read for the type. -/
theorem implTarget?_text : implTarget? h.text =
    owner? (target (h.generics.elim h.tail fun g => afterAngles 1 (g ++ '>' :: h.tail))) := by
  have hspace : ∀ cs, after? "unsafe".toList (' ' :: cs) = none := fun _ => rfl
  have himpl : ∀ cs, after? "unsafe".toList ("impl".toList ++ cs) = none := fun _ => rfl
  have hhead : ∀ rest, trimStart (dropLeads "unsafe".toList
      ((if h.isUnsafe then "unsafe ".toList else []) ++ ("impl".toList ++ rest))) =
        "impl".toList ++ rest := by
    intro rest
    cases h.isUnsafe with
    | false =>
      exact congrArg trimStart (dropLeads_eq_self (himpl rest))
    | true =>
      have hne : "unsafe".toList ≠ [] := by decide
      have hdrop := dropLeads_append hne (' ' :: ("impl".toList ++ rest))
      exact congrArg trimStart (hdrop.trans (dropLeads_eq_self (hspace _)))
  rw [implTarget?_eq, ImplParts.text, hhead, after?_append, Option.bind_some]
  cases h.generics with
  | none => rfl
  | some g =>
    have hopen := afterAngles_open 0 (g ++ '>' :: h.tail)
    simp only [Option.elim_some, List.cons_append, List.append_assoc, List.nil_append]
    exact congrArg (fun rest => owner? (target rest)) hopen

/-- An arrow in the list ends it too early. -/
theorem implTarget?_arrow {g : List Char} (hg : g ∈ h.generics) (harrow : arrow <:+: g) :
    ∃ front behind, g = front ++ '>' :: behind ∧
      implTarget? h.text = owner? (target (behind ++ '>' :: h.tail)) := by
  obtain ⟨front, behind, hends, hrest⟩ := endsInside_of_arrow harrow (h.generics_angled g hg)
  refine ⟨front, behind, hends, ?_⟩
  rw [implTarget?_text, Option.mem_def.1 hg, Option.elim_some, hrest]

end ImplHeader

/-- A text without the marks that divide a header. -/
structure Unmarked (cs : List Char) : Prop where
  brace : '{' ∉ cs
  no_where : ¬" where ".toList <:+: cs
  no_for : ¬" for ".toList <:+: cs

instance (cs : List Char) : Decidable (Unmarked cs) :=
  decidable_of_iff
    ('{' ∉ cs ∧ cut? " where ".toList cs = none ∧ cut? " for ".toList cs = none)
    ⟨fun ⟨h1, h2, h3⟩ => ⟨h1, cut?_eq_none_iff.1 h2, cut?_eq_none_iff.1 h3⟩,
      fun h => ⟨h.brace, cut?_eq_none_iff.2 h.no_where, cut?_eq_none_iff.2 h.no_for⟩⟩

theorem Unmarked.behind {front behind : List Char} (hg : Unmarked (front ++ '>' :: behind)) :
    Unmarked behind := by
  have hwithin : behind <:+: front ++ '>' :: behind := ⟨front ++ ['>'], [], by simp⟩
  exact ⟨fun hmem => hg.brace (hwithin.subset hmem), fun hmem => hg.no_where (hmem.trans hwithin),
    fun hmem => hg.no_for (hmem.trans hwithin)⟩

theorem header_append_cons (hcs : Unmarked cs) (rest : List Char) :
    header (cs ++ '>' :: rest) = cs ++ '>' :: header rest := by
  have hbrace := before_append_cons (by decide) (by decide : '>' ∉ ['{'])
    (fun hmem => hcs.brace (hmem.subset List.mem_cons_self)) rest
  rw [header, hbrace, before_append_cons (by decide) (by decide) hcs.no_where, header]

theorem target_append_cons (hcs : Unmarked cs) (rest : List Char) :
    target (cs ++ '>' :: rest) =
      if (cut? " for ".toList (header rest)).isSome then target rest
      else cs ++ '>' :: header rest := by
  rw [target, header_append_cons hcs, cut?_append_cons (by decide) (by decide) hcs.no_for, target]
  cases cut? " for ".toList (header rest) <;> rfl

namespace ImplHeader

variable (h : ImplHeader)

/-- The mark behind the trait is found all the same. -/
theorem target_of_trait (htrait : h.trait.isSome = true) (hcs : Unmarked cs) :
    target (cs ++ '>' :: h.tail) = target h.tail := by
  obtain ⟨g, hg, hheader⟩ := h.header_tail
  have hcut : (cut? " for ".toList (header h.tail)).isSome = true := by
    rw [hheader, h.cut?_for hg, Option.isSome_map, htrait]
  rw [target_append_cons hcs, if_pos hcut]

/-- Without a trait the type is read from the rest of the list. -/
theorem owner?_of_no_trait (htrait : h.trait = none) (hcs : Unmarked cs) :
    owner? (target (cs ++ '>' :: h.tail)) = owner? (cs ++ ['>']) := by
  obtain ⟨g, hg, hheader⟩ := h.header_tail
  have hcut : ¬(cut? " for ".toList (header h.tail)).isSome = true := by
    rw [hheader, h.cut?_for hg, Option.isSome_map, htrait]
    decide
  have himplemented : cs ++ '>' :: (h.implemented ++ g) =
      cs ++ ['>'] ++ ' ' :: (h.typeText ++ (h.argumentText ++ g)) := by
    simp [ImplParts.implemented, htrait]
  have hne : trimStart (cs ++ ['>']) ≠ [] := by
    rw [trimStart_append_cons (by decide)]
    simp
  have hend : EndsWord (' ' :: (h.typeText ++ (h.argumentText ++ g))) := by
    intro c hc
    cases hc
    exact .inr rfl
  rw [target_append_cons hcs, if_neg hcut, hheader, himplemented, owner?_append hne hend]

/-- The type is found when the arrow is not in the way. -/
theorem implTarget?_typeText
    (hgenerics : ∀ g ∈ h.generics, arrow <:+: g → h.trait.isSome = true ∧ Unmarked g) :
    implTarget? h.text = owner? h.typeText := by
  cases hlist : h.generics with
  | none => rw [implTarget?_text, hlist, Option.elim_none, owner?_target]
  | some g =>
    by_cases harrow : arrow <:+: g
    · obtain ⟨htrait, hunmarked⟩ := hgenerics g hlist harrow
      obtain ⟨front, behind, rfl, htext⟩ := h.implTarget?_arrow hlist harrow
      rw [htext, h.target_of_trait htrait hunmarked.behind, owner?_target]
    · have hskip := afterAngles_append harrow (h.generics_angled g hlist) ('>' :: h.tail)
      rw [implTarget?_text, hlist, Option.elim_some, hskip, afterAngles_last (by decide),
        owner?_target]

/-- A block belongs to the last segment of its type when the type has no qualifiers but ampersands
    and no arrow stands in the list of generic parameters. Behind the ampersands a word of
    qualifiers, which may hold ampersands between them, is taken for the type itself when white
    space follows it, and for the front of the first segment when the path does. Where white space
    follows the ampersands there is no owner at all. An arrow ends the list too early: then the type
    is read from the rest of the list and what follows it, which still leads to the type behind a
    trait. -/
theorem implTarget?_header :
    ((∀ g ∈ h.generics, arrow <:+: g → h.trait.isSome = true ∧ Unmarked g) →
      (∀ i, h.qualifiers = List.replicate i '&' → implTarget? h.text = some h.name) ∧
      (∀ i word b rest, h.qualifiers = List.replicate i '&' ++ (word ++ b :: rest) →
        Joined word → isBlank b = true → implTarget? h.text = some word) ∧
      (∀ i word, h.qualifiers = List.replicate i '&' ++ word → Joined word →
        implTarget? h.text = some (if h.above = [] then word ++ h.name else h.name)) ∧
      (∀ i b rest, h.qualifiers = List.replicate i '&' ++ b :: rest → isBlank b = true →
        implTarget? h.text = none)) ∧
    ∀ g ∈ h.generics, arrow <:+: g → ∃ front behind, g = front ++ '>' :: behind ∧
      implTarget? h.text = owner? (target (behind ++ '>' :: h.tail)) ∧
      (h.trait = none → Unmarked g → implTarget? h.text = owner? (behind ++ ['>'])) := by
  constructor
  · intro hgenerics
    rw [h.implTarget?_typeText hgenerics]
    exact ⟨fun i hq => h.owner?_of_ampersands hq,
      fun i word b rest hq hword hb => h.owner?_of_word hword hb hq,
      fun i word hq hword => h.owner?_of_adjacent hword hq,
      fun i b rest hq hb => h.owner?_of_blank hb hq⟩
  · intro g hg harrow
    obtain ⟨front, behind, rfl, htext⟩ := h.implTarget?_arrow hg harrow
    refine ⟨front, behind, rfl, htext, fun htrait hunmarked => ?_⟩
    rw [htext, h.owner?_of_no_trait htrait hunmarked.behind]

example : implTarget? "impl Run for &'a&'b Job \x7b".toList = some "'a&'b".toList := by
  decide +kernel

/-- A trait with an arrow in its arguments, for a reference to a type with arguments. -/
def referenceHeader : ImplHeader where
  isUnsafe := true
  generics := some "T: Into<Vec<T>>".toList
  trait := some "Run<fn(T) -> u8>".toList
  qualifiers := ['&']
  above := ["pool".toList]
  name := "Job".toList
  arguments := some "fn()".toList
  condition := some "T: Copy".toList
  generics_angled := by decide
  arguments_angled := by decide
  qualifiers_run := .ampersand blank_nil .nil
  above_names := by decide
  name_name := by decide
  brace_notMem := by decide
  no_where := by decide +kernel
  one_for := by decide +kernel

/-- A type with a parameter for a function. -/
def closureHeader : ImplHeader where
  generics := some "F: Fn() -> u8".toList
  name := "Call".toList
  arguments := some ['F']
  generics_angled := by decide
  arguments_angled := by decide
  qualifiers_run := .nil
  above_names := by decide
  name_name := by decide
  brace_notMem := by decide
  no_where := by decide +kernel
  one_for := by decide +kernel

theorem implTarget?_header_reference :
    referenceHeader.text = ("unsafe impl<T: Into<Vec<T>>> Run<fn(T) -> u8> " ++
      "for &pool::Job<fn()> where T: Copy \x7b").toList ∧
    implTarget? referenceHeader.text = some "Job".toList :=
  ⟨by decide +kernel, (referenceHeader.implTarget?_header.1 (by decide +kernel)).1 1 rfl⟩

/-- The type is not always found: here it is read from behind the arrow. -/
theorem implTarget?_header_not_always_name :
    ¬∀ h : ImplHeader, implTarget? h.text = some h.name := by
  intro hname
  have hclosure := hname closureHeader
  revert hclosure
  decide +kernel

end ImplHeader

end DocDirectives.Head
