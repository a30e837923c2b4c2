import Parley.Text.CaseTable

/-!
Lower case for whole texts. Each character is mapped on its own, with two exceptions: a capital I
with a dot becomes two characters, and a capital sigma that ends a word becomes the final form.
-/

namespace Parley.Text

open CaseTable

/-- Whether a code point lies in one of the ranges. -/
def inRanges (table : List (Nat × Nat)) (n : Nat) : Bool :=
  table.any fun (lo, hi) => lo ≤ n && n ≤ hi

/-- The code points of `shift`, one every `stride`. -/
def CaseTable.Shift.covers (shift : Shift) (n : Nat) : Bool :=
  shift.first ≤ n && n ≤ shift.last && (n - shift.first) % shift.stride == 0

/-- The small letter of a character, or the character itself. -/
def lowerChar (c : Char) : Char :=
  if c.toNat < 0x80 then c.toLower
  else match shifts.find? (·.covers c.toNat) with
    | some shift => Char.ofNat (c.toNat + shift.offset).toNat
    | none => c

/-- Whether the first character that is not passed over has case. -/
def meetsCased (cs : List Char) : Bool :=
  match cs.dropWhile fun c => inRanges ignorable c.toNat with
  | c :: _ => inRanges cased c.toNat
  | [] => false

/-- A sigma ends a word when a letter comes before it and none after. -/
def endsWord (before after : List Char) : Bool := meetsCased before && !meetsCased after

/-- The lower case of `cs`, where `before` holds what came before, the nearest first. -/
def lowerFrom (before : List Char) : List Char → List Char
  | [] => []
  | c :: rest =>
    let here :=
      if c == '\u0130' then ['i', '\u0307']
      else if c == '\u03a3' then [if endsWord before rest then '\u03c2' else '\u03c3']
      else [lowerChar c]
    here ++ lowerFrom (c :: before) rest

def lowercase (s : String) : String := String.ofList (lowerFrom [] s.toList)

end Parley.Text
