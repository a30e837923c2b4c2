import Parley.Json.Value
import Parley.Text.Utf8

/-!
Reading JSON from bytes. The reader goes from left to right and stops at the first problem, which is
of one of three kinds. Numbers are read digit by digit into 64 bits and then scaled by a power of
ten, so the last digit of a long fraction may differ from the nearest number; texts are checked to
be UTF-8 when their closing quote is met; values nest at most `maxDepth` deep.

Main definitions: `Reader.value` reads one value and leaves the rest, `parse` a whole text.
-/

namespace Parley.Json

inductive Fault where
  /-- The text stops where more is needed. -/
  | ended
  /-- The text is not JSON. -/
  | malformed
  /-- The text is JSON of a shape that was not asked for. -/
  | mismatched
deriving DecidableEq, Repr, Inhabited

/-- What is read from the front of the bytes, and what is left. -/
abbrev Read (α : Type) := Except Fault (α × Bytes)

/-- The same bytes read as something else. -/
def Read.to {α β : Type} (f : α → β) : Read α → Read β
  | .ok (a, s) => .ok (f a, s)
  | .error e => .error e

/-- How deep arrays and objects may stand inside one another. -/
def maxDepth : Nat := 127

namespace Reader

/-! ### Blanks, digits, words -/

def isBlank (b : UInt8) : Bool := b == 0x20 || b == 0x09 || b == 0x0A || b == 0x0D

/-- The bytes from the first that is not blank. -/
def skip : Bytes → Bytes
  | [] => []
  | b :: s => if isBlank b then skip s else b :: s

theorem length_skip_le (s : Bytes) : (skip s).length ≤ s.length := by
  induction s with
  | nil => simp [skip]
  | cons b s ih => rw [skip]; split <;> simp_all; omega

def isDigit (b : UInt8) : Bool := 0x30 ≤ b && b ≤ 0x39

def digit (b : UInt8) : Nat := b.toNat - 0x30

/-- The rest after the remaining bytes of a word. -/
def word : Bytes → Bytes → Read Unit
  | [], s => .ok ((), s)
  | _ :: _, [] => .error .ended
  | w :: ws, b :: s => if b == w then word ws s else .error .malformed

/-! ### Numbers -/

/-- The greatest significand that is kept exactly. -/
def maxSignificand : Nat := Nat.pow 2 64 - 1

/-- The greatest exponent that is read. -/
def maxExponent : Nat := Nat.pow 2 31 - 1

/-- `x * 10 ^ e`, each step rounded; nothing when it is too large. -/
def scale (x : Parley.Number.Magnitude) (e : Int) : Nat → Option Parley.Number.Magnitude
  | 0 => some x
  | tries + 1 =>
    if e.natAbs ≤ 308 then do
      let p ← Parley.Number.Magnitude.tenPow? e.natAbs
      if 0 ≤ e then x.mul? p else x.div? p
    else if x.mantissa = 0 then some x
    else if 0 ≤ e then none
    else do
      let p ← Parley.Number.Magnitude.tenPow? 308
      let y ← x.div? p
      scale y (e + 308) tries

/-- The floating-point number of a significand and an exponent. -/
def real (negative : Bool) (significand : Nat) (e : Int) (s : Bytes) : Read Number :=
  match (Parley.Number.Magnitude.ofNat? significand).bind fun x => scale x e 5 with
  | some m => .ok (.real ⟨negative, m⟩, s)
  | none => .error .malformed

def skipDigits : Bytes → Bytes
  | [] => []
  | b :: s => if isDigit b then skipDigits s else b :: s

/-- The digits of an exponent, after the first; `e` holds those read so far, and `start` what the
significand already carries. -/
def exponentDigits (negative : Bool) (significand : Nat) (start : Int) (up : Bool) (e : Nat) : Bytes → Read Number
  | [] => real negative significand (if up then start + e else start - e) []
  | b :: s =>
    if isDigit b then
      if maxExponent < e * 10 + digit b then
        if significand ≠ 0 && up then .error .malformed
        else .ok (.real ⟨negative, .zero⟩, skipDigits s)
      else exponentDigits negative significand start up (e * 10 + digit b) s
    else real negative significand (if up then start + e else start - e) (b :: s)

def exponent (negative : Bool) (significand : Nat) (start : Int) (s : Bytes) : Read Number :=
  let (up, s) := match s with
    | b :: r => if b == 0x2B then (true, r) else if b == 0x2D then (false, r) else (true, s)
    | [] => (true, [])
  match s with
  | [] => .error .ended
  | b :: s =>
    if isDigit b then exponentDigits negative significand start up (digit b) s else .error .malformed

def isExponentMark (b : UInt8) : Bool := b == 0x65 || b == 0x45

/-- What may follow a fraction: an exponent, or the end of the number. -/
def afterFraction (negative : Bool) (significand : Nat) (e : Int) : Bytes → Read Number
  | [] => real negative significand e []
  | b :: s =>
    if isExponentMark b then exponent negative significand e s else real negative significand e (b :: s)

/-- The digits after the point; `some` tells whether there was one already. Digits beyond the
greatest significand are passed over. -/
def fractionDigits (negative : Bool) (significand : Nat) (e : Int) (seen : Bool) : Bytes → Read Number
  | [] => if seen then real negative significand e [] else .error .ended
  | b :: s =>
    if isDigit b then
      if maxSignificand < significand * 10 + digit b then
        afterFraction negative significand e (skipDigits s)
      else fractionDigits negative (significand * 10 + digit b) (e - 1) true s
    else if seen then afterFraction negative significand e (b :: s)
    else .error .malformed

/-- The digits of an integer that is too long for its significand: each counts one power of ten. -/
def longDigits (negative : Bool) (significand : Nat) (e : Nat) : Bytes → Read Number
  | [] => real negative significand e []
  | b :: s =>
    if isDigit b then longDigits negative significand (e + 1) s
    else if b == 0x2E then fractionDigits negative significand e false s
    else if isExponentMark b then exponent negative significand e s
    else real negative significand e (b :: s)

/-- The number of digits alone: an integer where 64 bits hold it, the sign included. -/
def whole (negative : Bool) (significand : Nat) (s : Bytes) : Read Number :=
  if !negative then .ok (.int significand, s)
  else if significand = 0 || Nat.pow 2 63 < significand then real true significand 0 s
  else .ok (.int (-significand), s)

def integerDigits (negative : Bool) (significand : Nat) : Bytes → Read Number
  | [] => whole negative significand []
  | b :: s =>
    if isDigit b then
      if maxSignificand < significand * 10 + digit b then longDigits negative significand 1 s
      else integerDigits negative (significand * 10 + digit b) s
    else if b == 0x2E then fractionDigits negative significand 0 false s
    else if isExponentMark b then exponent negative significand 0 s
    else whole negative significand (b :: s)

def number (negative : Bool) : Bytes → Read Number
  | [] => .error .ended
  | b :: s =>
    if b == 0x30 then
      match s with
      | d :: _ => if isDigit d then .error .malformed else integerDigits negative 0 s
      | [] => integerDigits negative 0 []
    else if isDigit b then integerDigits negative (digit b) s
    else .error .malformed

/-! ### Strings -/

def hexDigit? (b : UInt8) : Option Nat :=
  if isDigit b then some (digit b)
  else if 0x61 ≤ b && b ≤ 0x66 then some (b.toNat - 0x57)
  else if 0x41 ≤ b && b ≤ 0x46 then some (b.toNat - 0x37)
  else none

def hex4? (a b c d : UInt8) : Option Nat := do
  return 4096 * (← hexDigit? a) + 256 * (← hexDigit? b) + 16 * (← hexDigit? c) + (← hexDigit? d)

/-- The first half of a pair that stands for one character. -/
def isLead (n : Nat) : Bool := 0xD800 ≤ n && n < 0xDC00

/-- The second half. -/
def isTrail (n : Nat) : Bool := 0xDC00 ≤ n && n < 0xE000

/-- The bytes of the character with this code point, the last byte first. -/
def charBytes (n : Nat) : Bytes := (Text.Utf8.encode (Char.ofNat n).toString).reverse

/-- The byte that a backslash and `b` stand for. -/
def simpleEscape? (b : UInt8) : Option UInt8 :=
  if b == 0x22 || b == 0x5C || b == 0x2F then some b
  else if b == 0x62 then some 0x08
  else if b == 0x66 then some 0x0C
  else if b == 0x6E then some 0x0A
  else if b == 0x72 then some 0x0D
  else if b == 0x74 then some 0x09
  else none

/-- A string after its opening quote; `acc` holds the bytes read so far, the last one first. -/
def stringRest (acc : Bytes) : Bytes → Read String
  | [] => .error .ended
  | b :: s =>
    if b == 0x22 then
      match Text.Utf8.decode? acc.reverse with
      | some text => .ok (text, s)
      | none => .error .malformed
    else if b == 0x5C then
      match s with
      | [] => .error .ended
      | e :: s =>
        if e == 0x75 then
          match s with
          | h1 :: h2 :: h3 :: h4 :: s =>
            match hex4? h1 h2 h3 h4 with
            | none => .error .malformed
            | some n =>
              if isTrail n then .error .malformed
              else if isLead n then
                match s with
                | [] => .error .ended
                | c1 :: s =>
                  if c1 != 0x5C then .error .malformed
                  else match s with
                    | [] => .error .ended
                    | c2 :: s =>
                      if c2 != 0x75 then .error .malformed
                      else match s with
                        | g1 :: g2 :: g3 :: g4 :: s =>
                          match hex4? g1 g2 g3 g4 with
                          | none => .error .malformed
                          | some m =>
                            if isTrail m then
                              stringRest (charBytes (0x10000 + (n - 0xD800) * 1024 + (m - 0xDC00)) ++ acc) s
                            else .error .malformed
                        | _ => .error .ended
              else stringRest (charBytes n ++ acc) s
          | _ => .error .ended
        else match simpleEscape? e with
          | some c => stringRest (c :: acc) s
          | none => .error .malformed
    else if b < 0x20 then .error .malformed
    else stringRest (b :: acc) s

/-! ### Values -/

/-- The fault of a place where a string, a word or an array was asked for and something else stands.
A scalar is read to its end first, so its own faults win; an array or an object is refused where it
opens. -/
def refusal (s : Bytes) : Fault :=
  let after {α : Type} : Read α → Fault
    | .ok _ => .mismatched
    | .error e => e
  match skip s with
  | [] => .ended
  | b :: s =>
    if b == 0x6E then after (word [0x75, 0x6C, 0x6C] s)
    else if b == 0x74 then after (word [0x72, 0x75, 0x65] s)
    else if b == 0x66 then after (word [0x61, 0x6C, 0x73, 0x65] s)
    else if b == 0x2D then after (number true s)
    else if isDigit b then after (number false (b :: s))
    else if b == 0x22 then after (stringRest [] s)
    else if b == 0x5B || b == 0x7B then .mismatched
    else .malformed

def text (s : Bytes) : Read String :=
  match skip s with
  | [] => .error .ended
  | b :: r => if b == 0x22 then stringRest [] r else .error (refusal (b :: r))

/-- What stands between two items of an array or two members of an object. -/
inductive Mark where
  /-- Nothing yet: before the first. -/
  | first
  /-- One has been read. -/
  | later
deriving DecidableEq

/-- Whether another item or member follows, and what is left from there on. -/
inductive Next where
  | close (rest : Bytes)
  | more (rest : Bytes)

/-- Where the next item of an array begins, or what follows the closing bracket. -/
def nextItem (mark : Mark) (s : Bytes) : Except Fault Next :=
  match skip s with
  | [] => .error .ended
  | b :: s =>
    if b == 0x5D then .ok (.close s)
    else if mark = .first then .ok (.more (b :: s))
    else if b == 0x2C then
      match skip s with
      | [] => .error .ended
      | c :: s => if c == 0x5D then .error .malformed else .ok (.more (c :: s))
    else .error .malformed

/-- Where the name of the next member of an object begins, after its quote, or what follows the
closing brace. -/
def nextName (mark : Mark) (s : Bytes) : Except Fault Next :=
  match skip s with
  | [] => .error .ended
  | b :: s =>
    if b == 0x7D then .ok (.close s)
    else if mark = .first then if b == 0x22 then .ok (.more s) else .error .malformed
    else if b == 0x2C then
      match skip s with
      | [] => .error .ended
      | c :: s => if c == 0x22 then .ok (.more s) else .error .malformed
    else .error .malformed

/-- The rest after the colon between a name and its value. -/
def colon (s : Bytes) : Except Fault Bytes :=
  match skip s with
  | [] => .error .ended
  | b :: s => if b == 0x3A then .ok s else .error .malformed

mutual

/-- One value from the front of the bytes, with `depth` levels left for it. -/
def value (fuel depth : Nat) (s : Bytes) : Read Json :=
  match fuel with
  | 0 => .error .malformed
  | fuel + 1 =>
    match skip s with
    | [] => .error .ended
    | b :: s =>
      if b == 0x6E then (word [0x75, 0x6C, 0x6C] s).to fun _ => .null
      else if b == 0x74 then (word [0x72, 0x75, 0x65] s).to fun _ => .bool true
      else if b == 0x66 then (word [0x61, 0x6C, 0x73, 0x65] s).to fun _ => .bool false
      else if b == 0x2D then (number true s).to .number
      else if isDigit b then (number false (b :: s)).to .number
      else if b == 0x22 then (stringRest [] s).to .string
      else if b == 0x5B then
        match depth with
        | 0 => .error .malformed
        | depth + 1 => (elements fuel depth .first [] s).to .array
      else if b == 0x7B then
        match depth with
        | 0 => .error .malformed
        | depth + 1 => (members fuel depth .first [] s).to .object
      else .error .malformed

/-- The items of an array up to its closing bracket; `acc` holds those read, the last one first. -/
def elements (fuel depth : Nat) (mark : Mark) (acc : List Json) (s : Bytes) : Read (List Json) :=
  match fuel with
  | 0 => .error .malformed
  | fuel + 1 =>
    match nextItem mark s with
    | .error e => .error e
    | .ok (.close s) => .ok (acc.reverse, s)
    | .ok (.more s) =>
      match value fuel depth s with
      | .error e => .error e
      | .ok (v, s) => elements fuel depth .later (v :: acc) s

/-- The members of an object up to its closing brace; `acc` holds those read, the last one first. -/
def members (fuel depth : Nat) (mark : Mark) (acc : List (String × Json)) (s : Bytes) :
    Read (List (String × Json)) :=
  match fuel with
  | 0 => .error .malformed
  | fuel + 1 =>
    match nextName mark s with
    | .error e => .error e
    | .ok (.close s) => .ok (acc.reverse, s)
    | .ok (.more s) =>
      match stringRest [] s with
      | .error e => .error e
      | .ok (name, s) =>
        match colon s with
        | .error e => .error e
        | .ok s =>
          match value fuel depth s with
          | .error e => .error e
          | .ok (v, s) => members fuel depth .later ((name, v) :: acc) s

end

/-- More steps than reading the bytes can take. -/
def fuelFor (s : Bytes) : Nat := 2 * s.length + 2

/-- Nothing but blanks may follow. -/
def finish {α : Type} (a : α) (s : Bytes) : Except Fault α :=
  if (skip s).isEmpty then .ok a else .error .malformed

end Reader

/-- The value of a whole text, its members as written. -/
def parse (s : Bytes) : Except Fault Json :=
  match Reader.value (Reader.fuelFor s) maxDepth s with
  | .error e => .error e
  | .ok (v, s) => Reader.finish v s

/-- The value of a whole text, its objects as maps. -/
def parseText (s : String) : Except Fault Json := (parse (Text.Utf8.encode s)).map canonical

end Parley.Json
