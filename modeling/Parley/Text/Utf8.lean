/-!
Texts and the bytes they are sent as. `encode` and `decode?` are the two directions of strict
UTF-8; `decodeLossy` reads any bytes at all and marks what it cannot read.

Main statement: `decode?_encode`, a text is read back from its own bytes.
-/

/-- A sequence of octets, as a transport or a broker carries it. -/
abbrev Parley.Bytes := List UInt8

namespace Parley.Text.Utf8

def encode (s : String) : Bytes := s.toByteArray.data.toList

def decode? (b : Bytes) : Option String := String.fromUTF8? ⟨b.toArray⟩

theorem decode?_encode (s : String) : decode? (encode s) = some s := by
  simp only [decode?, encode, String.fromUTF8?, Array.toArray_toList]
  exact dif_pos s.isValidUTF8

/-! ### Reading anything -/

/-- Whether `b` can follow the first byte `a` of a character of more than one byte. -/
def follows (a b : UInt8) : Bool :=
  if a == 0xE0 then 0xA0 ≤ b && b ≤ 0xBF
  else if a == 0xED then 0x80 ≤ b && b ≤ 0x9F
  else if a == 0xF0 then 0x90 ≤ b && b ≤ 0xBF
  else if a == 0xF4 then 0x80 ≤ b && b ≤ 0x8F
  else 0x80 ≤ b && b ≤ 0xBF

/-- How many bytes a character has that begins with `a`; zero where none does. -/
def width (a : UInt8) : Nat :=
  if a < 0x80 then 1 else if a < 0xC2 then 0 else if a < 0xE0 then 2 else if a < 0xF0 then 3
  else if a < 0xF5 then 4 else 0

/-- The length of the longest well-formed beginning of a character at the head of the bytes,
and whether it is a whole character. -/
def reach : Bytes → Nat × Bool
  | [] => (0, false)
  | a :: rest =>
    match width a, rest with
    | 0, _ => (1, false)
    | 1, _ => (1, true)
    | n, b :: more =>
      if !follows a b then (1, false)
      else
        let tails := (more.take (n - 2)).takeWhile fun c => 0x80 ≤ c && c ≤ 0xBF
        (2 + tails.length, tails.length == n - 2)
    | _, [] => (1, false)

/-- The text of any bytes: each longest beginning of a character that does not go on to a whole
one becomes one replacement character. -/
def decodeLossy (b : Bytes) : String :=
  match b with
  | [] => ""
  | a :: rest =>
    let (n, whole) := reach (a :: rest)
    let here := if whole then (decode? ((a :: rest).take n)).getD "\ufffd" else "\ufffd"
    here ++ decodeLossy (rest.drop (n - 1))
termination_by b.length
decreasing_by simp only [List.length_cons, List.length_drop]; omega

end Parley.Text.Utf8
