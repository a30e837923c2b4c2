import Parley.Json.Value
import Parley.Number.Shortest

/-!
The text of a JSON value: no blanks, the members of an object in the order in which they are held,
and in strings only quotes, backslashes and control characters escaped.
-/

namespace Parley.Json

/-! ### Strings -/

def hexDigit (n : Nat) : Char :=
  if n < 10 then Char.ofNat (48 + n) else Char.ofNat (87 + n)

def escape (c : Char) : List Char :=
  if c = '"' then ['\\', '"']
  else if c = '\\' then ['\\', '\\']
  else if c.toNat = 8 then ['\\', 'b']
  else if c.toNat = 9 then ['\\', 't']
  else if c.toNat = 10 then ['\\', 'n']
  else if c.toNat = 12 then ['\\', 'f']
  else if c.toNat = 13 then ['\\', 'r']
  else if c.toNat < 32 then ['\\', 'u', '0', '0', hexDigit (c.toNat / 16), hexDigit (c.toNat % 16)]
  else [c]

def quote (s : String) : String := "\"" ++ String.ofList (s.toList.flatMap escape) ++ "\""

/-! ### Numbers -/

/-- How floating-point numbers are written: positional when the decimal exponent of the first digit
is from `least` to `greatest`, always with a fraction, and otherwise with a signed exponent. -/
structure RealFormat where
  least : Int
  greatest : Int

/-- Positional notation from `0.00001` to below `10000000000000000`. -/
def realFormat : RealFormat := ⟨-5, 15⟩

/-- A floating-point number in the shortest digits that read back. -/
def realText (x : Parley.Number.Binary64) : String :=
  let d := x.magnitude.shortest
  let digits := toString d.digits
  let point : Int := digits.length + d.exponent
  let body :=
    if d.digits = 0 then "0.0"
    else if realFormat.least ≤ point - 1 && point - 1 ≤ realFormat.greatest then
      if 0 ≤ d.exponent then digits ++ String.ofList (List.replicate d.exponent.toNat '0') ++ ".0"
      else if 0 < point then
        String.ofList (digits.toList.take point.toNat) ++ "." ++ String.ofList (digits.toList.drop point.toNat)
      else "0." ++ String.ofList (List.replicate (-point).toNat '0') ++ digits
    else
      let tail := if digits.length = 1 then "" else "." ++ String.ofList (digits.toList.drop 1)
      let sign := if point - 1 < 0 then "-" else "+"
      String.ofList (digits.toList.take 1) ++ tail ++ "e" ++ sign ++ toString (point - 1).natAbs
  if x.negative then "-" ++ body else body

def Number.text : Number → String
  | .int n => toString n
  | .real x => realText x

/-! ### Values -/

mutual

def print : Json → String
  | .null => "null"
  | .bool true => "true"
  | .bool false => "false"
  | .number n => n.text
  | .string s => quote s
  | .array items => "[" ++ printItems items ++ "]"
  | .object members => "\x7b" ++ printMembers members ++ "\x7d"

def printItems : List Json → String
  | [] => ""
  | [v] => print v
  | v :: rest => print v ++ "," ++ printItems rest

def printMembers : List (String × Json) → String
  | [] => ""
  | [(n, v)] => quote n ++ ":" ++ print v
  | (n, v) :: rest => quote n ++ ":" ++ print v ++ "," ++ printMembers rest

end

end Parley.Json
