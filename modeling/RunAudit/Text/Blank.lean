/-!
# Blank characters

The characters with the Unicode property White_Space, and cutting texts at them.

* `isBlank`: the property; wider than the blanks of ASCII.
* `trimStart`, `trimEnd`, `trim`: a text without the blanks around it.
* `word`: the first word of a text and what follows it.
* `isBlank_of_isWhitespace`: the blanks of ASCII are among them.
-/

namespace RunAudit.Text

/-- The code points with the property White_Space, in ascending order. -/
def blankCodes : List Nat :=
  [0x09, 0x0A, 0x0B, 0x0C, 0x0D, 0x20, 0x85, 0xA0, 0x1680,
   0x2000, 0x2001, 0x2002, 0x2003, 0x2004, 0x2005, 0x2006, 0x2007, 0x2008, 0x2009, 0x200A,
   0x2028, 0x2029, 0x202F, 0x205F, 0x3000]

/-- Whether a character has the property White_Space. -/
def isBlank (c : Char) : Bool := blankCodes.contains c.toNat

/-- A text without the blanks that start it. -/
def trimStart (s : List Char) : List Char := s.dropWhile isBlank

/-- A text without the blanks that end it. -/
def trimEnd (s : List Char) : List Char := (trimStart s.reverse).reverse

/-- A text without the blanks around it. -/
def trim (s : List Char) : List Char := trimEnd (trimStart s)

/-- `trim` on strings. -/
def trimmed (s : String) : String := .ofList (trim s.toList)

/-- The first word of a text and the rest, which starts with the blank that ended the word; none
if the text is blank. -/
def word (s : List Char) : Option (List Char × List Char) :=
  match trimStart s with
  | [] => none
  | t => some (t.takeWhile (! isBlank ·), t.dropWhile (! isBlank ·))

/-- The blanks of ASCII are blank. -/
theorem isBlank_of_isWhitespace {c : Char} (h : c.isWhitespace) : isBlank c := by
  simp only [Char.isWhitespace, Bool.or_eq_true, decide_eq_true_eq] at h
  rcases h with ((rfl | rfl) | rfl) | rfl <;> decide

end RunAudit.Text
