import Parley.Broker.Error
import Parley.Time.Duration

/-!
How often and when a publish is tried again. The delay doubles with each failed attempt, sixteen
times at most, and a random part is added to it.
-/

namespace Parley

/-- How many attempts there are, and how long to wait between them. -/
structure RetryPolicy where
  maxAttempts : UInt32
  /-- The delay after the first failed attempt. -/
  baseDelay : Duration
  /-- The greatest random part. -/
  maxJitter : Duration
deriving DecidableEq, Repr

namespace RetryPolicy

def default : RetryPolicy := ⟨5, .ofMillis 100, .ofMillis 200⟩

instance : Inhabited RetryPolicy := ⟨default⟩

def maxDoublings : Nat := 16

/-- How often the delay has doubled after attempt `attempt`, the first being number one. -/
def doublings (attempt : UInt32) : Nat := min (attempt.toNat - 1) maxDoublings

/-- The delay after failed attempt `attempt`, without the random part. -/
def backoff (p : RetryPolicy) (attempt : UInt32) : Duration := p.baseDelay.mul (Nat.pow 2 (doublings attempt))

/-- The greatest random part in whole milliseconds, kept to 64 bits. -/
def jitterMillis (p : RetryPolicy) : Nat := p.maxJitter.millis % Nat.pow 2 64

/-- The random part that a drawn number gives: whole milliseconds up to the greatest. -/
def jitter (p : RetryPolicy) (draw : Nat) : Duration := .ofMillis (draw % (p.jitterMillis + 1))

/-- How a publish stands after an attempt. -/
inductive Next where
  | done
  /-- Attempt number `attempt` comes next. -/
  | attempting (attempt : UInt32)
  /-- No attempt is left; the last one failed so. -/
  | fallback (error : Broker.Error)
deriving DecidableEq, Repr

/-- What follows attempt `attempt` with its outcome. -/
def next (p : RetryPolicy) (attempt : UInt32) (outcome : Except Broker.Error Unit) : Next :=
  match outcome with
  | .ok () => .done
  | .error e => if p.maxAttempts ≤ attempt then .fallback e else .attempting (attempt + 1)

end RetryPolicy

/-- Why a publish did not reach the broker. -/
inductive PublishError where
  /-- The event has no text. -/
  | unwritable (reason : String)
  /-- Every attempt failed; the event went to local connections only. -/
  | exhausted (attempts : UInt32) (last : Broker.Error)
  /-- The delay before the next attempt is longer than any length of time. -/
  | unending
deriving DecidableEq, Repr

def PublishError.message : PublishError → String
  | .unwritable reason => "failed to serialize event: " ++ reason
  | .exhausted n last => "broker publish failed after " ++ toString n.toNat ++ " attempts: " ++ last.message
  | .unending => "overflow when adding durations"

end Parley
