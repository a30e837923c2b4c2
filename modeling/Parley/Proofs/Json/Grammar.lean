import Parley.Json.Reader

/-!
# How JSON is written

The grammar of JSON texts over bytes, apart from any reader: `Written d v s` says that the bytes `s` are a value `v`
in which arrays and objects stand at most `d` deep inside one another, and `Document d v s` that they are that value
with blanks around it. Strings are UTF-8 once their escapes are replaced (`Quoted`); a number has the shape of one,
and its magnitude is not beyond the floating-point numbers (`Numeral`). Which number it is follows from its parts
(`evaluate`).
-/

namespace Parley.Json

open Reader

/-! ### Blanks -/

def Blanks (s : Bytes) : Prop := ∀ b ∈ s, isBlank b = true

def AfterBlanks (P : Bytes → Prop) (s : Bytes) : Prop := ∃ a t, s = a ++ t ∧ Blanks a ∧ P t

/-! ### Strings -/

/-- One character of a string as it is written, and the bytes that it stands for: itself, unless it is a control
character, a quote or a backslash; one of the short escapes; or a code point in base sixteen, in two halves if it is
beyond four digits. -/
inductive Piece : Bytes → Bytes → Prop
  | plain (b : UInt8) (hcontrol : 0x20 ≤ b) (hquote : b ≠ 0x22) (hslash : b ≠ 0x5C) : Piece [b] [b]
  | short (e c : UInt8) (h : simpleEscape? e = some c) : Piece [0x5C, e] [c]
  | point (a b c d : UInt8) (n : Nat) (h : hex4? a b c d = some n) (hlead : isLead n = false)
      (htrail : isTrail n = false) :
      Piece [0x5C, 0x75, a, b, c, d] (Text.Utf8.encode (Char.ofNat n).toString)
  | halves (a b c d a' b' c' d' : UInt8) (n m : Nat) (h : hex4? a b c d = some n) (hlead : isLead n = true)
      (h' : hex4? a' b' c' d' = some m) (htrail : isTrail m = true) :
      Piece [0x5C, 0x75, a, b, c, d, 0x5C, 0x75, a', b', c', d']
        (Text.Utf8.encode (Char.ofNat (0x10000 + (n - 0xD800) * 1024 + (m - 0xDC00))).toString)

inductive Pieces : Bytes → Bytes → Prop
  | nil : Pieces [] []
  | cons {u c v d : Bytes} (head : Piece u c) (tail : Pieces v d) : Pieces (u ++ v) (c ++ d)

def Quoted (x : String) (s : Bytes) : Prop := ∃ body, s = 0x22 :: (body ++ [0x22]) ∧ Pieces body (Text.Utf8.encode x)

/-! ### Numbers -/

def Digits (s : Bytes) : Prop := ∀ b ∈ s, isDigit b = true

/-- The digits before the point: no zero before others. -/
def Whole (s : Bytes) : Prop := Digits s ∧ s ≠ [] ∧ (s.head? = some 0x30 → s = [0x30])

/-- A fraction, or nothing. -/
def Fraction (s : Bytes) : Prop := s = [] ∨ ∃ ds, s = 0x2E :: ds ∧ Digits ds ∧ ds ≠ []

/-- The digits of an exponent, with a sign or without. -/
def Power (s : Bytes) : Prop :=
  ∃ sign ds, s = sign ++ ds ∧ (sign = [] ∨ sign = [0x2B] ∨ sign = [0x2D]) ∧ Digits ds ∧ ds ≠ []

/-- An exponent, or nothing. -/
def Exponent (s : Bytes) : Prop := s = [] ∨ ∃ mark t, s = mark :: t ∧ isExponentMark mark = true ∧ Power t

def Unsigned (s : Bytes) : Prop := ∃ w f e, s = w ++ f ++ e ∧ Whole w ∧ Fraction f ∧ Exponent e

/-! ### What number it is -/

/-- Digits after others that make `n`, as far as 64 bits have room for them, and the digits that are left. -/
def absorb (n : Nat) : Bytes → Nat × Bytes
  | [] => (n, [])
  | b :: ds => if maxSignificand < n * 10 + digit b then (n, b :: ds) else absorb (n * 10 + digit b) ds

/-- Digits after others that make `n`. -/
def digitsValue (n : Nat) (ds : Bytes) : Nat := ds.foldl (fun n b => n * 10 + digit b) n

/-- The floating-point number `n * 10 ^ e`, if there is one. -/
def scaled (negative : Bool) (n : Nat) (e : Int) : Option Number :=
  ((Parley.Number.Magnitude.ofNat? n).bind fun x => scale x e 5).map fun m => .real ⟨negative, m⟩

/-- The integer of a sign and its digits, where 64 bits have room for it. -/
def signed (negative : Bool) (n : Nat) : Option Number :=
  if !negative then some (.int n)
  else if n = 0 || Nat.pow 2 63 < n then scaled true n 0
  else some (.int (-n))

/-- `n * 10 ^ e`, with an exponent `k` up or down: one beyond all numbers makes nothing of a number, and of zero a
zero. -/
def powered (negative : Bool) (n : Nat) (e : Int) (up : Bool) (k : Nat) : Option Number :=
  if maxExponent < k then if n ≠ 0 && up then none else some (.real ⟨negative, .zero⟩)
  else scaled negative n (if up then e + k else e - k)

/-- `n * 10 ^ e`, with what is written behind it for an exponent. -/
def raised (negative : Bool) (n : Nat) (e : Int) : Bytes → Option Number
  | [] => scaled negative n e
  | _ :: t => powered negative n e (t.head? != some 0x2D) (digitsValue 0 (t.filter isDigit))

/-- `n * 10 ^ e`, with what is written behind it for a fraction and an exponent: each digit of the fraction for
which there is room counts a power of ten less. -/
def continued (negative : Bool) (n : Nat) (e : Int) (fraction power : Bytes) : Option Number :=
  let ds := fraction.filter isDigit
  let (m, rest) := absorb n ds
  raised negative m (e - (ds.length - rest.length)) power

/-- The number of its digits before the point and of what is written behind them; `n` holds digits before those. -/
def evaluate (negative : Bool) (n : Nat) (digits fraction power : Bytes) : Option Number :=
  let (m, rest) := absorb n digits
  if rest = [] ∧ fraction = [] ∧ power = [] then signed negative m else continued negative m rest.length fraction power

/-- A number, as it is written and which it is: none is too large. -/
def Numeral (x : Number) (s : Bytes) : Prop :=
  ∃ negative w f e, s = (if negative then [0x2D] else []) ++ (w ++ f ++ e) ∧ Whole w ∧ Fraction f ∧ Exponent e ∧
    evaluate negative 0 w f e = some x

/-! ### Values -/

/-- A member of an object, given how its value is written. -/
def Member (name : String) (P : Bytes → Prop) (s : Bytes) : Prop :=
  ∃ q a t, s = q ++ a ++ 0x3A :: t ∧ Quoted name q ∧ Blanks a ∧ AfterBlanks P t

mutual

/-- A value, with so many levels left for arrays and objects. -/
def Written : Nat → Json → Bytes → Prop
  | _, .null, s => s = [0x6E, 0x75, 0x6C, 0x6C]
  | _, .bool true, s => s = [0x74, 0x72, 0x75, 0x65]
  | _, .bool false, s => s = [0x66, 0x61, 0x6C, 0x73, 0x65]
  | _, .number x, s => Numeral x s
  | _, .string x, s => Quoted x s
  | 0, .array _, _ => False
  | _ + 1, .array [], s => ∃ a, s = 0x5B :: (a ++ [0x5D]) ∧ Blanks a
  | d + 1, .array (v :: vs), s =>
    ∃ t u, s = 0x5B :: (t ++ u ++ [0x5D]) ∧ AfterBlanks (Written d v) t ∧ MoreItems d vs u
  | 0, .object _, _ => False
  | _ + 1, .object [], s => ∃ a, s = 0x7B :: (a ++ [0x7D]) ∧ Blanks a
  | d + 1, .object ((n, v) :: ms), s =>
    ∃ t u, s = 0x7B :: (t ++ u ++ [0x7D]) ∧ AfterBlanks (Member n (Written d v)) t ∧ MoreMembers d ms u

/-- The items of an array that follow another, each behind a comma. -/
def MoreItems : Nat → List Json → Bytes → Prop
  | _, [], s => Blanks s
  | d, v :: vs, s => ∃ a t u, s = a ++ 0x2C :: (t ++ u) ∧ Blanks a ∧ AfterBlanks (Written d v) t ∧ MoreItems d vs u

/-- The members of an object that follow another, each behind a comma. -/
def MoreMembers : Nat → List (String × Json) → Bytes → Prop
  | _, [], s => Blanks s
  | d, (n, v) :: ms, s =>
    ∃ a t u, s = a ++ 0x2C :: (t ++ u) ∧ Blanks a ∧ AfterBlanks (Member n (Written d v)) t ∧ MoreMembers d ms u

end

/-- A value with blanks around it, and nothing else. -/
def Document (d : Nat) (v : Json) (s : Bytes) : Prop := ∃ t b, s = t ++ b ∧ AfterBlanks (Written d v) t ∧ Blanks b

end Parley.Json
