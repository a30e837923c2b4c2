import Parley.Text.Utf8

/-!
The query of a request: names with values, joined by ampersands. Plus signs stand for blanks, and
bytes may be written as two digits of base sixteen after a percent sign.
-/

namespace Parley.Http.Query

def hexValue? (b : UInt8) : Option UInt8 :=
  if 0x30 ≤ b && b ≤ 0x39 then some (b - 0x30)
  else if 0x41 ≤ b && b ≤ 0x46 then some (b - 0x37)
  else if 0x61 ≤ b && b ≤ 0x66 then some (b - 0x57)
  else none

/-- Puts the bytes in place of what was written for them; a percent sign that no two digits follow
stands for itself. -/
def percentDecode : Bytes → Bytes
  | [] => []
  | 0x25 :: a :: b :: rest =>
    match hexValue? a, hexValue? b with
    | some x, some y => (x * 16 + y) :: percentDecode rest
    | _, _ => 0x25 :: percentDecode (a :: b :: rest)
  | b :: rest => b :: percentDecode rest

def decode (s : Bytes) : String :=
  Text.Utf8.decodeLossy (percentDecode (s.map fun b => if b == 0x2B then 0x20 else b))

def pair (part : Bytes) : String × String :=
  (decode (part.takeWhile (· != 0x3D)), decode ((part.dropWhile (· != 0x3D)).drop 1))

abbrev Pairs := List (String × String)

/-- The names and values of a query; empty parts do not count. -/
def pairs (query : String) : Pairs :=
  (((Text.Utf8.encode query).splitOnP (· == 0x26)).filter (!·.isEmpty)).map pair

def once (names : List String) (ps : Pairs) : Bool :=
  names.all fun n => ps.countP (·.1 == n) ≤ 1

def int64? (s : String) : Option Int :=
  let (negative, digits) := match s.toList with
    | '-' :: ds => (true, ds)
    | '+' :: ds => (false, ds)
    | ds => (false, ds)
  if digits.isEmpty || !digits.all (fun c => '0' ≤ c && c ≤ '9') then none
  else
    let n : Nat := digits.foldl (fun n c => n * 10 + (c.toNat - 48)) 0
    let v : Int := if negative then -n else n
    if -(Nat.pow 2 63 : Nat) ≤ v && v < (Nat.pow 2 63 : Nat) then some v else none

end Parley.Http.Query
