/-!
# Bytes in base 64

* `base64`: three bytes become four characters; a rest of one or two becomes two or three, and
  nothing fills it up.
-/

namespace RunAudit.Text

/-- The characters that stand for six bits, in ascending order. -/
def base64Alphabet : List Char :=
  "ABCDEFGHIJKLMNOPQRSTUVWXYZabcdefghijklmnopqrstuvwxyz0123456789+/".toList

/-- The character for the six bits of a number above the lowest `shift`. -/
def sextet (n shift : Nat) : Char := base64Alphabet.getD ((n >>> shift) % 64) 'A'

/-- Bytes in base 64 without padding. -/
def base64 : List UInt8 → List Char
  | a :: b :: c :: rest =>
    let n := (a.toNat * 256 + b.toNat) * 256 + c.toNat
    sextet n 18 :: sextet n 12 :: sextet n 6 :: sextet n 0 :: base64 rest
  | [a, b] =>
    let n := (a.toNat * 256 + b.toNat) * 256
    [sextet n 18, sextet n 12, sextet n 6]
  | [a] => [sextet (a.toNat * 65536) 18, sextet (a.toNat * 65536) 12]
  | [] => []

end RunAudit.Text
