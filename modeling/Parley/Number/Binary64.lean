/-!
Floating-point numbers of 53 binary digits, as exact data. A magnitude is `mantissa * 2 ^ exponent`
with fewer than 53 digits only at the smallest exponent, so each number has one form; arithmetic is
done on ratios of natural numbers and rounded to the nearest, a tie going to the even mantissa.
-/

namespace Parley.Number

/-- A magnitude that is not infinite. -/
structure Magnitude where
  mantissa : Nat
  exponent : Int
deriving DecidableEq, Repr, Inhabited

namespace Magnitude

/-- The least exponent; only here may the mantissa be short. -/
def minExponent : Int := -1074

def maxExponent : Int := 971

/-- The least mantissa of 53 digits. -/
def leastFull : Nat := Nat.pow 2 52

def zero : Magnitude := ⟨0, minExponent⟩

def num (x : Magnitude) : Nat := x.mantissa * Nat.pow 2 x.exponent.toNat

/-- The denominator of the value under `num`. -/
def den (x : Magnitude) : Nat := Nat.pow 2 (-x.exponent).toNat

/-- The quotient rounded to the nearest, a tie to the even neighbour. -/
def divNearest (n d : Nat) : Nat :=
  let q := n / d
  let twice := 2 * (n % d)
  if twice < d then q else if d < twice then q + 1 else q + q % 2

/-- The ratio `n / d` counted in units of `2 ^ e`: a numerator and a denominator. -/
def scaled (n d : Nat) (e : Int) : Nat × Nat := (n * Nat.pow 2 (-e).toNat, d * Nat.pow 2 e.toNat)

/-- The exponent at which the ratio has 53 digits, or the least one. -/
def exponentOf (n d : Nat) : Int :=
  let guess := (n.log2 : Int) - d.log2 - 53
  let e := if (scaled n d guess).1 / (scaled n d guess).2 < Nat.pow 2 53 then guess else guess + 1
  max e minExponent

/-- The ratio `n / d` rounded, or nothing when it is too large. -/
def ofRatio? (n d : Nat) : Option Magnitude :=
  if n = 0 then some zero
  else
    let e := exponentOf n d
    let (a, b) := scaled n d e
    let m := divNearest a b
    let r : Magnitude := if m = Nat.pow 2 53 then ⟨leastFull, e + 1⟩ else ⟨m, e⟩
    if maxExponent < r.exponent then none else some r

def ofNat? (n : Nat) : Option Magnitude := ofRatio? n 1

def mul? (x y : Magnitude) : Option Magnitude := ofRatio? (x.num * y.num) (x.den * y.den)

def div? (x y : Magnitude) : Option Magnitude := ofRatio? (x.num * y.den) (x.den * y.num)

def tenPow? (k : Nat) : Option Magnitude := ofNat? (Nat.pow 10 k)

end Magnitude

structure Binary64 where
  negative : Bool
  magnitude : Magnitude
deriving DecidableEq, Repr, Inhabited

end Parley.Number
