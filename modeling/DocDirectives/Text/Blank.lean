/-! # Blank characters

    White space is the Unicode property `White_Space`, twenty-five characters. Documentation is
    cut into lines and words by it, so the tab, the no-break space and the ideographic space all
    count. `trim` removes a run of it at both ends of a text. -/

namespace DocDirectives.Text

/-- Unicode `White_Space`. -/
def isBlank (c : Char) : Bool :=
  let n := c.toNat
  (9 ≤ n && n ≤ 13) || n == 0x20 || n == 0x85 || n == 0xA0 || n == 0x1680 ||
    (0x2000 ≤ n && n ≤ 0x200A) || n == 0x2028 || n == 0x2029 || n == 0x202F || n == 0x205F ||
    n == 0x3000

/-- Drop the longest run of characters satisfying `p` at the end of a text. -/
def dropEndWhile (p : Char → Bool) (cs : List Char) : List Char :=
  (cs.reverse.dropWhile p).reverse

def trimStart (cs : List Char) : List Char := cs.dropWhile isBlank

def trimEnd (cs : List Char) : List Char := dropEndWhile isBlank cs

def trim (cs : List Char) : List Char := trimEnd (trimStart cs)

/-- Whether a text begins with white space. -/
def startsBlank : List Char → Bool
  | c :: _ => isBlank c
  | [] => false

/-- White space in front of a text, in bytes of its UTF-8 form. -/
def indentation : List Char → Nat
  | c :: cs => if isBlank c then c.utf8Size + indentation cs else 0
  | [] => 0

/-! ### Laws -/

@[simp] theorem trimStart_nil : trimStart [] = [] := rfl

@[simp] theorem trim_nil : trim [] = [] := rfl

/-- What is trimmed in front is blank, and nothing else is lost. -/
theorem takeWhile_append_trimStart (cs : List Char) :
    cs.takeWhile isBlank ++ trimStart cs = cs := List.takeWhile_append_dropWhile

end DocDirectives.Text
