import DocDirectives.Proofs.Literal.Keys
import Mathlib.Data.List.Nodup

/-! # Names of JSON members

    The members of a JSON object have the written keys of a map for names. An index and the name
    that spells it are different keys with one text; all other keys have texts of their own, and a
    text written between quotes can be read back. So the members of an object have pairwise distinct
    names just where the map has no such two keys, and an entry is found under its name when no
    other key of the map is written like its own. -/

namespace DocDirectives

open Number (Integer.text Integer.ofText?_text)

namespace Json

/-! ### Quoted texts -/

def hexValue (c : Char) : Nat := if c.isDigit then c.toNat - '0'.toNat else c.toNat - 'a'.toNat + 10

/-- The character that a letter behind a backslash stands for. -/
def unescapeLetter (c : Char) : Char :=
  if c = 'n' then '\n'
  else if c = 'r' then '\r'
  else if c = 't' then '\t'
  else if c = 'b' then '\x08'
  else if c = 'f' then '\x0c'
  else c

/-- What stands between the quotes of a string, read back. -/
def unescape : List Char → List Char
  | '\\' :: 'u' :: '0' :: '0' :: a :: b :: cs =>
    Char.ofNat (16 * hexValue a + hexValue b) :: unescape cs
  | '\\' :: c :: cs => unescapeLetter c :: unescape cs
  | c :: cs => c :: unescape cs
  | [] => []

theorem hexValue_digitChar {n : Nat} (h : n < 16) : hexValue (Nat.digitChar n) = n := by
  revert n
  decide

theorem unescape_hexPair {n : Nat} (h : n < 256) (cs : List Char) :
    unescape ('\\' :: 'u' :: '0' :: '0' :: (hexPair n ++ cs)) = Char.ofNat n :: unescape cs := by
  have hvalue : 16 * hexValue (Nat.digitChar (n / 16)) + hexValue (Nat.digitChar (n % 16)) = n := by
    rw [hexValue_digitChar (by omega), hexValue_digitChar (by omega)]
    omega
  rw [hexPair, List.cons_append, List.singleton_append, unescape, hvalue]

theorem unescape_cons {c : Char} (h : c ≠ '\\') (cs : List Char) :
    unescape (c :: cs) = c :: unescape cs := by
  rw [unescape]
  · rintro _ _ _ rfl
    exact absurd rfl h
  · rintro _ _ rfl
    exact absurd rfl h

theorem unescape_escapeChar (c : Char) (cs : List Char) :
    unescape (escapeChar c ++ cs) = c :: unescape cs := by
  unfold escapeChar
  split
  case h_8 =>
    next hbackslash _ _ _ _ _ =>
    split
    · next hcontrol =>
      rw [List.append_assoc]
      exact (unescape_hexPair (by omega) cs).trans (by rw [Char.ofNat_toNat])
    · exact unescape_cons hbackslash cs
  all_goals rfl

theorem unescape_flatMap (cs : List Char) : unescape (cs.flatMap escapeChar) = cs := by
  induction cs with
  | nil => rfl
  | cons c cs ih => rw [List.flatMap_cons, unescape_escapeChar, ih]

/-- Different texts are different between quotes too. -/
theorem quote_inj {s t : String} : quote s = quote t ↔ s = t := by
  refine ⟨fun h => ?_, congrArg quote⟩
  have hinside : s.toList.flatMap escapeChar = t.toList.flatMap escapeChar := by
    simpa [quote] using h
  rw [← String.toList_inj, ← unescape_flatMap s.toList, hinside, unescape_flatMap]

/-- The names of the members of an object, as they are written. -/
def memberNames : Json → List (List Char)
  | object members => members.map fun m => quote m.1
  | _ => []

end Json

/-! ### Texts of keys -/

/-- An index and the name that spells it in decimal, in either order. -/
inductive Homograph : Key → Key → Prop
  | index (i : Int64) : Homograph (.index i) (.name (Key.index i).text)
  | name (i : Int64) : Homograph (.name (Key.index i).text) (.index i)

namespace Key

variable {k k' : Key}

theorem text_name (s : String) : (name s).text = s := String.ofList_toList

theorem index_of_text_eq {i j : Int64} (h : (index i).text = (index j).text) : i = j := by
  have hdigits : Integer.text i.toInt = Integer.text j.toInt := String.ofList_injective h
  have hread := Integer.ofText?_text i
  rw [hdigits, Integer.ofText?_text j] at hread
  exact (Option.some.inj hread).symm

/-- Two keys are written alike when they are one key or a homograph. -/
theorem text_eq_iff : k.text = k'.text ↔ k = k' ∨ Homograph k k' := by
  constructor
  · intro h
    cases k with
    | index i =>
      cases k' with
      | index j => exact .inl (congrArg index (index_of_text_eq h))
      | name t =>
        obtain rfl := h.trans (text_name t)
        exact .inr (.index i)
    | name s =>
      cases k' with
      | index j =>
        obtain rfl := (text_name s).symm.trans h
        exact .inr (.name j)
      | name t => exact .inl (congrArg name ((text_name s).symm.trans (h.trans (text_name t))))
  · rintro (rfl | ⟨i | i⟩)
    · rfl
    · exact (text_name _).symm
    · exact text_name _

end Key

theorem Homograph.ne {k k' : Key} (h : Homograph k k') : k ≠ k' := by
  cases h <;> simp

/-! ### Members of an object -/

namespace Literal

variable {es : List (Key × Literal)}

theorem entriesJson_eq_map (es : List (Key × Literal)) :
    entriesJson es = es.map fun e => (e.1.text, e.2.toJson) := by
  induction es with
  | nil => rfl
  | cons e es ih => rw [entriesJson, ih, List.map_cons]

theorem memberNames_map (es : List (Key × Literal)) :
    (map es).toJson.memberNames = (es.map Prod.fst).map fun k => Json.quote k.text := by
  rw [toJson, Json.memberNames, entriesJson_eq_map, List.map_map, List.map_map]
  rfl

/-- The object of a map, and how its members are told apart: their names are pairwise distinct just
    where no two keys are a homograph, and an entry whose key is in none is the only member under
    its name. -/
structure Members (es : List (Key × Literal)) : Prop where
  keys : (es.map Prod.fst).Nodup
  names : (map es).toJson.memberNames.Nodup ↔
    ∀ k ∈ es.map Prod.fst, ∀ k' ∈ es.map Prod.fst, ¬Homograph k k'
  found : ∀ e ∈ es, (∀ k ∈ es.map Prod.fst, ¬Homograph e.1 k) →
    (e.1.text, e.2.toJson) ∈ entriesJson es ∧
      ∀ m ∈ entriesJson es, m.1 = e.1.text → m = (e.1.text, e.2.toJson)

theorem members (h : (es.map Prod.fst).Nodup) : Members es where
  keys := h
  names := by
    rw [memberNames_map, List.nodup_map_iff_inj_on h]
    constructor
    · intro hinj k hk k' hk' hhomograph
      have htexts : k.text = k'.text := Key.text_eq_iff.2 (.inr hhomograph)
      exact hhomograph.ne (hinj k hk k' hk' (congrArg Json.quote htexts))
    · intro hnone k hk k' hk' htext
      exact (Key.text_eq_iff.1 (Json.quote_inj.1 htext)).resolve_right (hnone k hk k' hk')
  found e he hnone := by
    rw [entriesJson_eq_map]
    refine ⟨List.mem_map_of_mem he, fun m hm htext => ?_⟩
    obtain ⟨e', he', rfl⟩ := List.mem_map.1 hm
    have hkey : e.1 = e'.1 :=
      (Key.text_eq_iff.1 htext.symm).resolve_right (hnone _ (List.mem_map_of_mem he'))
    rw [List.inj_on_of_nodup_map h he he' hkey]

end Literal

namespace Parser

open Grammar Literal

/-- In what a comment gives every map becomes an object whose members have pairwise distinct names,
    at every depth, unless it has an index and the name that spells it for keys. -/
theorem parse_members {p : Parser} {site : Site} {text : String} {ds : List Directive}
    (h : p.parse site text = .ok ds) :
    ∀ d ∈ ds, ∀ v, v ∈ d.arguments.positional ∨ v = d.arguments.named.toLiteral →
      ∀ es, Within (.map es) v → Members es := by
  intro d hd v hv es hes
  obtain ⟨hpositional, hnamed⟩ := distinctArguments_of_parse h hd
  rcases hv with hv | rfl
  · exact members (hpositional v hv es hes)
  · exact members (hnamed es hes)

/-- A map with an index, the name that spells it, and another name. -/
def homographs : String := "@A(\x7b1: true, \"1\": false, x: true\x7d)"

def homographEntries : List (Key × Literal) :=
  [(.index 1, .bool true), (.name "1", .bool false), (.name "x", .bool true)]

/-- Where `A` is imported. -/
def oneImport : Site := ⟨"type Fixture", [.plain "app::A"], .trusting⟩

/-- The tokens behind the name in `homographs`. -/
def homographList : List Token :=
  [⟨.openParen, "("⟩, ⟨.openBrace, "\x7b"⟩, ⟨.integer, "1"⟩, ⟨.colon, ":"⟩, ⟨.yes, "true"⟩,
    ⟨.comma, ","⟩, ⟨.string, "\"1\""⟩, ⟨.colon, ":"⟩, ⟨.no, "false"⟩, ⟨.comma, ","⟩, ⟨.other, "x"⟩,
    ⟨.colon, ":"⟩, ⟨.yes, "true"⟩, ⟨.closeBrace, "\x7d"⟩, ⟨.closeParen, ")"⟩]

theorem derives_homographs :
    Derives homographList { positional := [.map homographEntries] } [] := by
  have hindex : KeyDenotes ⟨.integer, "1"⟩ (.index 1) := by
    have hkey : keyOf ⟨.integer, "1"⟩ = .index 1 := by decide +kernel
    exact hkey ▸ keyDenotes_keyOf _
  have hname : KeyDenotes ⟨.string, "\"1\""⟩ (.name "1") := by
    have hkey : keyOf ⟨.string, "\"1\""⟩ = .name "1" := by decide +kernel
    exact hkey ▸ keyDenotes_keyOf _
  have hx : EntriesAt (homographList.drop 10) [(some (.name "x"), .bool true)]
      (homographList.drop 14) :=
    .last (.marked rfl (.word (by decide) (by decide))) (.atom .yes) (.here rfl)
  have hone : EntriesAt (homographList.drop 6)
      [(some (.name "1"), .bool false), (some (.name "x"), .bool true)] (homographList.drop 14) :=
    .more (.marked rfl hname) (.atom .no) (.comma rfl rfl) hx
  have hentries : EntriesAt (homographList.drop 2) [(some (.index 1), .bool true),
      (some (.name "1"), .bool false), (some (.name "x"), .bool true)] (homographList.drop 14) :=
    .more (.marked rfl hindex) (.atom .yes) (.comma rfl rfl) hone
  exact .list rfl rfl (.last (.plain rfl) (.array rfl rfl hentries) (.here rfl))

theorem parse_homographs : Parser.parse {} oneImport homographs =
    .ok [⟨"app::A", "type Fixture", { positional := [.map homographEntries] }⟩] := by
  have htokens : Classifier.directives.tokens homographs.toList =
      ⟨.start, "@"⟩ :: ⟨.other, "A"⟩ :: homographList := by decide +kernel
  have hA : Occurs oneImport .standard (⟨.start, "@"⟩ :: ⟨.other, "A"⟩ :: homographList)
      ⟨"A", homographList,
        some ⟨"app::A", "type Fixture", { positional := [.map homographEntries] }⟩⟩ [] :=
    .read rfl (by decide +kernel) (by decide +kernel) (.list derives_homographs)
  rw [parse, htokens]
  exact (Comment.directive hA .nil).directives

theorem parse_members_homographs :
    ∃ ds, Parser.parse {} oneImport homographs = .ok ds ∧
      ∃ d ∈ ds, .map homographEntries ∈ d.arguments.positional ∧
        ¬(map homographEntries).toJson.memberNames.Nodup ∧
        ∀ m ∈ entriesJson homographEntries, m.1 = "x" → m = ("x", .bool true) := by
  have hmembers : Members homographEntries :=
    parse_members parse_homographs _ (List.mem_singleton_self _) _
      (.inl (List.mem_singleton_self _)) homographEntries .self
  have hspelled : (Key.index 1).text = "1" := by decide +kernel
  have hx : ∀ k ∈ homographEntries.map Prod.fst, ¬Homograph (.name "x") k := by
    have htexts : ∀ k ∈ homographEntries.map Prod.fst, (Key.name "x").text = k.text →
        .name "x" = k := by decide +kernel
    exact fun k hk h => h.ne (htexts k hk (Key.text_eq_iff.2 (.inr h)))
  refine ⟨_, parse_homographs, _, List.mem_singleton_self _, List.mem_singleton_self _, ?_,
    (hmembers.found (.name "x", .bool true) (by simp [homographEntries]) hx).2⟩
  rw [hmembers.names]
  intro hnone
  exact hnone (.index 1) (by decide) (.name "1") (by decide) (hspelled ▸ Homograph.index 1)

/-- An index and the name that spells it become two members with one name. -/
theorem memberNames_not_always_distinct :
    ¬∀ (p : Parser) (site : Site) (text : String) (ds : List Directive),
      p.parse site text = .ok ds → ∀ d ∈ ds, ∀ v ∈ d.arguments.positional,
        ∀ es, Within (.map es) v → (map es).toJson.memberNames.Nodup := by
  intro h
  have hnames := h {} oneImport homographs _ parse_homographs _ (List.mem_singleton_self _) _
    (List.mem_singleton_self _) homographEntries .self
  revert hnames
  decide +kernel

end Parser

end DocDirectives
