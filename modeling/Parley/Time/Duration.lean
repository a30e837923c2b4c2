/-!
Lengths of time in whole nanoseconds, up to a greatest one. Multiplication stops there; addition
may have no answer.
-/

namespace Parley

/-- The greatest length of time: 64 bits of seconds and a fraction. -/
def Duration.maxNanos : Nat := Nat.pow 2 64 * 1000000000 - 1

structure Duration where
  nanos : Nat
  le_max : nanos ≤ Duration.maxNanos
deriving DecidableEq, Repr

namespace Duration

/-- The length of so many nanoseconds, or the greatest. -/
def ofNanos (n : Nat) : Duration := ⟨min n maxNanos, Nat.min_le_right ..⟩

def ofMillis (n : Nat) : Duration := ofNanos (n * 1000000)

def ofSecs (n : Nat) : Duration := ofNanos (n * 1000000000)

def zero : Duration := ⟨0, Nat.zero_le _⟩

instance : Inhabited Duration := ⟨zero⟩

def max : Duration := ⟨maxNanos, Nat.le_refl _⟩

def secs (d : Duration) : Nat := d.nanos / 1000000000

def millis (d : Duration) : Nat := d.nanos / 1000000

/-- `k` times as long, or the greatest length. -/
def mul (d : Duration) (k : Nat) : Duration := ofNanos (d.nanos * k)

/-- Both lengths together, if that is a length. -/
def add? (a b : Duration) : Option Duration :=
  if h : a.nanos + b.nanos ≤ maxNanos then some ⟨a.nanos + b.nanos, h⟩ else none

def min (a b : Duration) : Duration := if a.nanos ≤ b.nanos then a else b

/-- A number of units and the thousandth, millionth, … parts given by `digits` digits, without
trailing zeros. -/
def decimal (units fraction digits : Nat) : String :=
  let text := toString fraction
  let padded := List.replicate (digits - text.length) '0' ++ text.toList
  let kept := (padded.reverse.dropWhile (· == '0')).reverse
  if kept.isEmpty then toString units else toString units ++ "." ++ String.ofList kept

/-- The length in the largest unit of which it holds at least one. -/
def text (d : Duration) : String :=
  if 1000000000 ≤ d.nanos then decimal (d.nanos / 1000000000) (d.nanos % 1000000000) 9 ++ "s"
  else if 1000000 ≤ d.nanos then decimal (d.nanos / 1000000) (d.nanos % 1000000) 6 ++ "ms"
  else if 1000 ≤ d.nanos then decimal (d.nanos / 1000) (d.nanos % 1000) 3 ++ "µs"
  else toString d.nanos ++ "ns"

end Duration

end Parley
