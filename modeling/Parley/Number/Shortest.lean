import Parley.Number.Binary64

/-!
The shortest decimal of a floating-point number: of all decimals that lie nearer to it than to any
other such number, those with the fewest digits, and of these the nearest.
-/

namespace Parley.Number

structure Decimal where
  digits : Nat
  exponent : Int
deriving DecidableEq, Repr

namespace Shortest

/-- The numbers that round to a magnitude lie between `low / unit` and `high / unit`, the ends
included when `closed`; the magnitude itself is `mid / unit`. -/
structure Window where
  low : Nat
  mid : Nat
  high : Nat
  unit : Nat
  closed : Bool

/-- The window of a magnitude. Below a power of two the next number is only half as far. -/
def window (x : Magnitude) : Window :=
  let up := Nat.pow 2 x.exponent.toNat
  let narrow := x.mantissa == Magnitude.leastFull && Magnitude.minExponent < x.exponent
  { low := (4 * x.mantissa - if narrow then 1 else 2) * up
    mid := 4 * x.mantissa * up
    high := (4 * x.mantissa + 2) * up
    unit := 4 * x.den
    closed := x.mantissa % 2 == 0 }

def Window.holds (w : Window) (n d : Nat) : Bool :=
  if w.closed then w.low * d ≤ n * w.unit && n * w.unit ≤ w.high * d
  else w.low * d < n * w.unit && n * w.unit < w.high * d

/-- The ratio `n / d` is at least `10 ^ k`. -/
def reachesTen (n d : Nat) (k : Int) : Bool := d * Nat.pow 10 k.toNat ≤ n * Nat.pow 10 (-k).toNat

/-- The number of digits before the point of `n / d`: the `k` with `10 ^ (k - 1) ≤ n / d < 10 ^ k`. -/
def pointPlace (n d : Nat) : Int :=
  let guess := ((n.log2 : Int) - d.log2) * 30103 / 100000
  if reachesTen n d (guess + 1) then guess + 2
  else if reachesTen n d guess then guess + 1
  else guess

/-- The neighbours of the magnitude on the grid of `10 ^ k`: the one in the window, or the nearer of
the two, or the even one of two as near. -/
def onGrid (w : Window) (k : Int) : Option Nat :=
  let n := w.mid * Nat.pow 10 (-k).toNat
  let d := w.unit * Nat.pow 10 k.toNat
  let below := n / d
  let inside (j : Nat) : Bool := w.holds (j * Nat.pow 10 k.toNat) (Nat.pow 10 (-k).toNat)
  match inside below, inside (below + 1) with
  | true, true =>
    let twice := 2 * (n % d)
    some (if twice < d then below else if d < twice then below + 1 else below + below % 2)
  | true, false => some below
  | false, true => some (below + 1)
  | false, false => none

/-- The first grid, from coarse to fine, that has a point in the window. -/
def search (w : Window) (k : Int) : Nat → Decimal
  | 0 => ⟨w.mid, 0⟩
  | tries + 1 =>
    match onGrid w k with
    | some digits => ⟨digits, k⟩
    | none => search w (k - 1) tries

def strip : Nat → Decimal → Decimal
  | 0, x => x
  | fuel + 1, x =>
    if x.digits != 0 && x.digits % 10 == 0 then strip fuel ⟨x.digits / 10, x.exponent + 1⟩ else x

end Shortest

/-- The shortest decimal of a magnitude; seventeen digits always suffice. -/
def Magnitude.shortest (x : Magnitude) : Decimal :=
  if x.mantissa = 0 then ⟨0, 0⟩
  else
    let w := Shortest.window x
    Shortest.strip 20 (Shortest.search w (Shortest.pointPlace w.mid w.unit - 1) 20)

end Parley.Number
