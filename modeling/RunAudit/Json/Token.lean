import RunAudit.Json.Number

/-!
# Tokens of JSON

* `tokens?`: the tokens of a text; none if some part of it belongs to no token.
* `unescape?`: a text token with its escapes resolved; none if half of a surrogate pair is missing.

A text token is kept as it is written, for whether its escapes make sense is asked only where the
text matters.
-/

namespace RunAudit.Json

/-- A token. -/
inductive Token where
  | leftBrace
  | rightBrace
  | leftBracket
  | rightBracket
  | colon
  | comma
  | null
  | bool (b : Bool)
  | number (n : Numeral)
  /-- What stands between the quotation marks, escapes unresolved. -/
  | text (raw : List Char)
  deriving DecidableEq, Repr

/-- What the reader of tokens is in the middle of, and the characters of it so far. -/
inductive Lexing where
  | between
  | word (letters : List Char)
  | number (chars : List Char)
  | text (raw : List Char)
  /-- Behind a backslash. -/
  | escape (raw : List Char)
  /-- Before a number of hexadecimal digits. -/
  | hex (raw : List Char) (missing : Nat)

/-- Blanks between tokens. -/
def isSpace (c : Char) : Bool := c == ' ' || c == '\t' || c == '\n' || c == '\r'

/-- The characters that a number is written with. -/
def isNumberChar (c : Char) : Bool :=
  c.isDigit || c == '-' || c == '+' || c == '.' || c == 'e' || c == 'E'

/-- A hexadecimal digit in either case. -/
def isHexDigit (c : Char) : Bool := c.isDigit || ('a' ≤ c && c ≤ 'f') || ('A' ≤ c && c ≤ 'F')

/-- The token that is one character. -/
def punctuation? : Char → Option Token
  | '\x7b' => some .leftBrace
  | '\x7d' => some .rightBrace
  | '[' => some .leftBracket
  | ']' => some .rightBracket
  | ':' => some .colon
  | ',' => some .comma
  | _ => none

/-- The token that is a word. -/
def word? (letters : List Char) : Option Token :=
  if letters = "null".toList then some .null
  else if letters = "true".toList then some (.bool true)
  else if letters = "false".toList then some (.bool false)
  else none

/-- What a character outside of any token starts: the token that it already is, and what the reader
is in the middle of behind it. -/
def start? (c : Char) : Option (List Token × Lexing) :=
  if isSpace c then some ([], .between)
  else if c = '"' then some ([], .text [])
  else if c.isDigit ∨ c = '-' then some ([], .number [c])
  else if c.isAlpha then some ([], .word [c])
  else (punctuation? c).map fun t => ([t], .between)

/-- One character: the tokens that it completes, and what the reader is in the middle of then. -/
def lex? : Lexing → Char → Option (List Token × Lexing)
  | .between, c => start? c
  | .word letters, c =>
    if c.isAlpha then some ([], .word (letters ++ [c]))
    else do
      let (ts, next) ← start? c
      return ((← word? letters) :: ts, next)
  | .number chars, c =>
    if isNumberChar c then some ([], .number (chars ++ [c]))
    else do
      let (ts, next) ← start? c
      return (.number (← Numeral.read? chars) :: ts, next)
  | .text raw, c =>
    if c = '"' then some ([.text raw], .between)
    else if c = '\\' then some ([], .escape (raw ++ [c]))
    else if c < ' ' then none
    else some ([], .text (raw ++ [c]))
  | .escape raw, c =>
    if c = 'u' then some ([], .hex (raw ++ [c]) 4)
    else if "\"\\/bfnrt".toList.contains c then some ([], .text (raw ++ [c]))
    else none
  | .hex raw missing, c =>
    if isHexDigit c then
      some ([], if missing ≤ 1 then .text (raw ++ [c]) else .hex (raw ++ [c]) (missing - 1))
    else none

/-- The tokens of a text that starts in the middle of something. -/
def tokensFrom : Lexing → List Char → Option (List Token)
  | .between, [] => some []
  | .word letters, [] => do return [← word? letters]
  | .number chars, [] => do return [.number (← Numeral.read? chars)]
  | _, [] => none
  | state, c :: rest => do
    let (ts, next) ← lex? state c
    return ts ++ (← tokensFrom next rest)

/-- The tokens of a text. -/
def tokens? (s : List Char) : Option (List Token) := tokensFrom .between s

/-- The value of a hexadecimal digit. -/
def hexValue (c : Char) : Nat :=
  if c.isDigit then c.toNat - '0'.toNat
  else if c < 'a' then c.toNat - 'A'.toNat + 10
  else c.toNat - 'a'.toNat + 10

/-- The number that four hexadecimal digits spell. -/
def hexUnit (a b c d : Char) : Nat :=
  ((hexValue a * 16 + hexValue b) * 16 + hexValue c) * 16 + hexValue d

/-- The character that a one-letter escape stands for. -/
def simpleEscape : Char → Char
  | 'b' => '\x08'
  | 'f' => '\x0c'
  | 'n' => '\n'
  | 'r' => '\r'
  | 't' => '\t'
  | c => c

/-- A text token with its escapes resolved. An escape for the first half of a surrogate pair must
be followed by one for the second, and the second stands nowhere else. -/
def unescape? : List Char → Option (List Char)
  | [] => some []
  | '\\' :: 'u' :: a :: b :: c :: d :: '\\' :: 'u' :: e :: f :: g :: h :: rest =>
    let high := hexUnit a b c d
    let low := hexUnit e f g h
    if 0xD800 ≤ high ∧ high < 0xDC00 then
      if 0xDC00 ≤ low ∧ low < 0xE000 then
        (unescape? rest).map (.ofNat (0x10000 + (high - 0xD800) * 0x400 + (low - 0xDC00)) :: ·)
      else none
    else if 0xDC00 ≤ high ∧ high < 0xE000 then none
    else (unescape? ('\\' :: 'u' :: e :: f :: g :: h :: rest)).map (.ofNat high :: ·)
  | '\\' :: 'u' :: a :: b :: c :: d :: rest =>
    let unit := hexUnit a b c d
    if 0xD800 ≤ unit ∧ unit < 0xE000 then none
    else (unescape? rest).map (.ofNat unit :: ·)
  | '\\' :: c :: rest => (unescape? rest).map (simpleEscape c :: ·)
  | c :: rest => (unescape? rest).map (c :: ·)

end RunAudit.Json
