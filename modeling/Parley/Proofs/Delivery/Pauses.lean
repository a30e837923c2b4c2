import Parley.Proofs.Delivery.Retries

/-!
# How long a publish pauses

The pause after a failed attempt is the delay of the policy and a random part. The delay is cut off at the greatest
length of time; the sum of the two is not, and a publish whose pause would be longer than that can neither pause nor
go on.

* `RetryPolicy.overflows_iff` says after which attempts that may happen, and `RetryPolicy.Bounded` is a policy for which
  it happens after none.
* `OnTime` is what every turn of a publish keeps under such a policy (`onTime_run`); under any other, `exists_unending`
  runs a publish until there is no length for its pause.
* `delays` puts it together. `pause_overflows` is a policy under which the first failure is enough.
-/

namespace Parley

/-! ### Lengths of time -/

namespace Duration

variable {a b d : Duration}

theorem add?_eq_none_iff : a.add? b = none ↔ maxNanos < a.nanos + b.nanos := by simp [add?]

theorem nanos_of_add? (h : a.add? b = some d) : d.nanos = a.nanos + b.nanos := by
  unfold add? at h
  split at h
  · cases h
    rfl
  · cases h

end Duration

theorem nanos_ofNanos (n : ℕ) : (Duration.ofNanos n).nanos = min n Duration.maxNanos := rfl

namespace RetryPolicy

variable {p : RetryPolicy} {m n : UInt32}

/-! ### The delay -/

/-- The delay doubles with each attempt, sixteen times at most, up to the greatest length of time. -/
theorem nanos_backoff (p : RetryPolicy) (n : UInt32) :
    (p.backoff n).nanos = min (p.baseDelay.nanos * 2 ^ min (max n.toNat 1 - 1) 16) Duration.maxNanos := by
  have hdoublings : doublings n = min (max n.toNat 1 - 1) 16 := by
    unfold doublings maxDoublings
    omega
  rw [backoff, Duration.mul, nanos_ofNanos, Nat.pow_eq, hdoublings]

theorem nanos_backoff_mono (p : RetryPolicy) (h : m ≤ n) : (p.backoff m).nanos ≤ (p.backoff n).nanos := by
  have hle := UInt32.le_iff_toNat_le.mp h
  have hpow : 2 ^ min (max m.toNat 1 - 1) 16 ≤ 2 ^ min (max n.toNat 1 - 1) 16 :=
    Nat.pow_le_pow_right (by decide) (by omega)
  have hmul := Nat.mul_le_mul_left p.baseDelay.nanos hpow
  rw [nanos_backoff, nanos_backoff]
  omega

/-! ### The random part -/

/-- The greatest random part that can be drawn: whole milliseconds. -/
def greatestJitter (p : RetryPolicy) : ℕ := p.jitterMillis * 1000000

theorem greatestJitter_le (p : RetryPolicy) : p.greatestJitter ≤ p.maxJitter.nanos := by
  have hmillis : p.jitterMillis ≤ p.maxJitter.nanos / 1000000 := Nat.mod_le _ _
  unfold greatestJitter
  omega

theorem nanos_jitter (p : RetryPolicy) (draw : ℕ) : (p.jitter draw).nanos = draw % (p.jitterMillis + 1) * 1000000 := by
  have hdraw : draw % (p.jitterMillis + 1) ≤ p.jitterMillis := Nat.le_of_lt_succ (Nat.mod_lt _ (Nat.succ_pos _))
  have hle : draw % (p.jitterMillis + 1) * 1000000 ≤ Duration.maxNanos :=
    calc draw % (p.jitterMillis + 1) * 1000000 ≤ p.greatestJitter := Nat.mul_le_mul_right _ hdraw
      _ ≤ p.maxJitter.nanos := p.greatestJitter_le
      _ ≤ Duration.maxNanos := p.maxJitter.le_max
  rw [jitter, Duration.ofMillis, nanos_ofNanos, Nat.min_eq_left hle]

theorem nanos_jitter_le (p : RetryPolicy) (draw : ℕ) : (p.jitter draw).nanos ≤ p.greatestJitter := by
  have hdraw : draw % (p.jitterMillis + 1) < p.jitterMillis + 1 := Nat.mod_lt _ (Nat.succ_pos _)
  rw [nanos_jitter, greatestJitter]
  omega

theorem nanos_jitter_greatest (p : RetryPolicy) : (p.jitter p.jitterMillis).nanos = p.greatestJitter := by
  rw [nanos_jitter, Nat.mod_eq_of_lt (Nat.lt_succ_self _), greatestJitter]

/-! ### The sum of both -/

/-- With some random part the pause after attempt `n` is longer than any length of time. -/
def Overflows (p : RetryPolicy) (n : UInt32) : Prop := ∃ draw, (p.backoff n).add? (p.jitter draw) = none

theorem overflows_iff : p.Overflows n ↔ Duration.maxNanos < (p.backoff n).nanos + p.greatestJitter := by
  constructor
  · rintro ⟨draw, hnone⟩
    have hlt := Duration.add?_eq_none_iff.mp hnone
    have hle := p.nanos_jitter_le draw
    omega
  · intro hlt
    refine ⟨p.jitterMillis, Duration.add?_eq_none_iff.mpr ?_⟩
    rwa [nanos_jitter_greatest]

theorem Overflows.mono (h : p.Overflows m) (hmn : m ≤ n) : p.Overflows n := by
  have hle := p.nanos_backoff_mono hmn
  rw [overflows_iff] at h ⊢
  omega

/-- Every pause between two attempts is a length of time: the last of them is, which is the longest. -/
def Bounded (p : RetryPolicy) : Prop := 2 ≤ p.maxAttempts.toNat → ¬ p.Overflows (p.maxAttempts - 1)

theorem toNat_maxAttempts_sub_one (h : 2 ≤ p.maxAttempts.toNat) :
    (p.maxAttempts - 1).toNat = p.maxAttempts.toNat - 1 := by
  have hone : (1 : UInt32) ≤ p.maxAttempts := by
    rw [UInt32.le_iff_toNat_le, UInt32.toNat_one]
    omega
  rw [UInt32.toNat_sub_of_le _ _ hone, UInt32.toNat_one]

/-- After no attempt but the last is there a pause that is too long. -/
theorem Bounded.not_overflows (h : p.Bounded) (hone : 1 ≤ n.toNat) (hn : ¬ p.maxAttempts ≤ n) : ¬ p.Overflows n := by
  have hlt : n.toNat < p.maxAttempts.toNat := Nat.lt_of_not_le fun hle => hn (UInt32.le_iff_toNat_le.mpr hle)
  have htwo : 2 ≤ p.maxAttempts.toNat := by omega
  refine fun hover => h htwo (hover.mono ?_)
  rw [UInt32.le_iff_toNat_le, toNat_maxAttempts_sub_one htwo]
  omega

theorem toNat_of_next {outcome : Except Broker.Error Unit} (h : p.next n outcome = .attempting m) :
    m.toNat = n.toNat + 1 := by
  cases outcome with
  | ok u => cases h
  | error e =>
    rw [Hub.next_error] at h
    split at h
    · cases h
    · rename_i hn
      cases h
      exact toNat_succ hn

end RetryPolicy

namespace Hub.Activity

variable {w : Surroundings} {p : RetryPolicy} {s t : Service} {choice : Choice} {a b : Activity} {post : Post}

/-! ### Policies under which every pause can be kept -/

/-- No pause was too long, and none will be by the number of the next attempt. -/
def OnTime : Activity → Prop
  | .recording .. => True
  | .attempting _ n | .pausing _ n _ => 1 ≤ n.toNat
  | .delivering _ r | .finished r => r ≠ .error .unending

theorem OnTime.step (hp : s.policy.Bounded) (ha : a.OnTime) (h : a.step s choice = some (b, t)) : b.OnTime := by
  cases a with
  | recording q user status =>
    cases step_spec h with
    | record => exact Nat.le_refl 1
    | unrecorded => exact nofun
  | attempting q n =>
    cases hl : s.line with
    | none =>
      cases step_spec h <;> simp_all [OnTime]
    | some l =>
      cases he : q.event with
      | error reason =>
        cases step_spec h <;> simp_all [OnTime]
      | ok text =>
        obtain ⟨-, ⟨-, rfl⟩ | ⟨e, -, ⟨-, rfl⟩ | ⟨hn, ⟨instant, rfl⟩ | ⟨hnone, -⟩⟩⟩⟩ := step_attempting hl he h
        · exact nofun
        · exact nofun
        · show 1 ≤ (n + 1).toNat
          rw [RetryPolicy.toNat_succ hn]
          exact Nat.le_add_left 1 _
        · -- the one way to an end that is not on time, and the policy excludes it
          exact absurd ⟨choice.draw, hnone⟩ (hp.not_overflows ha hn)
  | pausing q n instant =>
    cases step_spec h with
    | resume => exact ha
  | delivering f r =>
    cases step_spec h with
    | deliver => exact ha
    | delivered => exact ha
  | finished r => cases h

/-- **Every turn** of a publish. -/
theorem onTime_run (hp : p.Bounded) (hw : w.Lasting p) (post : Post) (k : ℕ) :
    (run w (.attempting post 1) k).1.OnTime := by
  induction k with
  | zero => exact Nat.le_refl 1
  | succ k ih =>
    rw [run_succ]
    cases hstep : (run w (.attempting post 1) k).1.step (w.service k) (w.choice k) with
    | none =>
      rw [turn_of_none hstep]
      exact ih
    | some x =>
      rw [turn_of_step hstep]
      refine ih.step ?_ hstep
      rw [hw.policy]
      exact hp

/-! ### Policies under which some pause cannot -/

/-- A broker that cannot be reached, the greatest random part every time, and so much time between two turns. -/
def forsaken (p : RetryPolicy) (span : ℕ) : Surroundings where
  service k := { policy := p, now := k * span, line := some (lineFor (.error Broker.unavailable)) }
  choice _ := { draw := p.jitterMillis }

theorem lasting_forsaken (p : RetryPolicy) {span : ℕ} (hspan : 1 ≤ span) : (forsaken p span).Lasting p where
  policy _ := rfl
  passes k instant := by
    refine ⟨max k instant, Nat.le_max_left _ _, ?_⟩
    calc instant ≤ max k instant * 1 := by rw [Nat.mul_one]; exact Nat.le_max_right _ _
      _ ≤ max k instant * span := Nat.mul_le_mul_left _ hspan

section Left

variable {n : UInt32} (hn : ¬ s.policy.maxAttempts ≤ n) (post : Post) (draw : ℕ) (e : Broker.Error)
include hn

/-- After a failed attempt that is not the last comes a pause, -/
theorem afterAttempt_of_some {delay : Duration} (h : (s.policy.backoff n).add? (s.policy.jitter draw) = some delay) :
    afterAttempt s post n draw (.error e) = .pausing post (n + 1) (s.now + delay.nanos) := by
  unfold afterAttempt
  rw [next_error, if_neg hn, h]

/-- or the end, if there is no such length of time. -/
theorem afterAttempt_of_none (h : (s.policy.backoff n).add? (s.policy.jitter draw) = none) :
    afterAttempt s post n draw (.error e) = .finished (.error .unending) := by
  unfold afterAttempt
  rw [next_error, if_neg hn, h]

end Left

section Forsaken

variable {span : ℕ} {text : String} {n : UInt32}

theorem turn_forsaken (he : post.event = .ok text) (p : RetryPolicy) (span k : ℕ) :
    ((Activity.attempting post n).turn ((forsaken p span).service k) ((forsaken p span).choice k)).1 =
      afterAttempt ((forsaken p span).service k) post n p.jitterMillis (.error Broker.unavailable) := by
  have hline : ((forsaken p span).service k).line = some (lineFor (.error Broker.unavailable)) := rfl
  rw [turn_attempting hline he, publish_lineFor]
  rfl

/-- Two turns later the next attempt is made, if the pause is a length of time. -/
theorem run_forsaken (he : post.event = .ok text) (hspan : Duration.maxNanos ≤ span) {k : ℕ}
    (hrun : (run (forsaken p span) a k).1 = .attempting post n) (hn : ¬ p.maxAttempts ≤ n) :
    (run (forsaken p span) a (k + 1)).1 = .finished (.error .unending) ∨
      ¬ p.Overflows n ∧ (run (forsaken p span) a (k + 2)).1 = .attempting post (n + 1) := by
  have hafter : (run (forsaken p span) a (k + 1)).1 =
      afterAttempt ((forsaken p span).service k) post n p.jitterMillis (.error Broker.unavailable) := by
    rw [run_succ, hrun]
    exact turn_forsaken he p span k
  cases hadd : (p.backoff n).add? (p.jitter p.jitterMillis) with
  | none => exact .inl (hafter.trans (afterAttempt_of_none hn post _ _ hadd))
  | some delay =>
    have hpausing := hafter.trans (afterAttempt_of_some hn post _ _ hadd)
    refine .inr ⟨?_, ?_⟩
    · rw [RetryPolicy.overflows_iff, ← RetryPolicy.nanos_jitter_greatest, ← Duration.nanos_of_add? hadd]
      exact Nat.not_lt_of_le delay.le_max
    · have hover : k * span + delay.nanos ≤ (k + 1) * span := by
        rw [Nat.succ_mul]
        exact Nat.add_le_add_left (Nat.le_trans delay.le_max hspan) _
      rw [run_succ, hpausing]
      exact congrArg Prod.fst (turn_pausing_of_le post (n + 1) _ hover)

/-- Attempt follows attempt, up to any that the policy allows, unless a pause is too long before. -/
theorem exists_attempting (he : post.event = .ok text) (hspan : Duration.maxNanos ≤ span) (i : ℕ)
    (hi : i + 1 < p.maxAttempts.toNat) :
    (∃ k, (run (forsaken p span) (.attempting post 1) k).1 = .finished (.error .unending)) ∨
      ∃ k, (run (forsaken p span) (.attempting post 1) k).1 = .attempting post (.ofNat (i + 1)) := by
  -- on the attempts, not on the turns: each attempt takes two, as no pause outlasts the time between them
  induction i with
  | zero => exact .inr ⟨0, rfl⟩
  | succ i ih =>
    obtain hended | ⟨k, hk⟩ := ih (by omega)
    · exact .inl hended
    · have hmax := p.maxAttempts.toNat_lt
      have hlt : i + 1 < 2 ^ 32 := by omega
      have htoNat : (UInt32.ofNat (i + 1)).toNat = i + 1 := UInt32.toNat_ofNat_of_lt' hlt
      have hn : ¬ p.maxAttempts ≤ .ofNat (i + 1) := by
        rw [UInt32.le_iff_toNat_le, htoNat]
        omega
      obtain hended | ⟨-, hnext⟩ := run_forsaken he hspan hk hn
      · exact .inl ⟨k + 1, hended⟩
      · refine .inr ⟨k + 2, ?_⟩
        rw [hnext, UInt32.ofNat_add (i + 1) 1]
        rfl

/-- **A policy with a pause that is too long**: there are surroundings in which a publish comes to it. -/
theorem exists_unending (he : post.event = .ok text) (hspan : Duration.maxNanos ≤ span) (hp : ¬ p.Bounded) :
    ∃ k, (run (forsaken p span) (.attempting post 1) k).1 = .finished (.error .unending) := by
  simp only [RetryPolicy.Bounded, Classical.not_imp, not_not] at hp
  obtain ⟨htwo, hover⟩ := hp
  have hmax := p.maxAttempts.toNat_lt
  have hlast := RetryPolicy.toNat_maxAttempts_sub_one htwo
  obtain hended | ⟨k, hk⟩ := exists_attempting (p := p) he hspan (p.maxAttempts.toNat - 2) (by omega)
  · exact hended
  · have hnumber : UInt32.ofNat (p.maxAttempts.toNat - 2 + 1) = p.maxAttempts - 1 := by
      rw [← UInt32.ofNat_toNat (x := p.maxAttempts - 1), hlast]
      congr 1
      omega
    rw [hnumber] at hk
    have hn : ¬ p.maxAttempts ≤ p.maxAttempts - 1 := by
      rw [UInt32.le_iff_toNat_le, hlast]
      omega
    obtain hended | ⟨hnot, -⟩ := run_forsaken he hspan hk hn
    · exact ⟨k + 1, hended⟩
    · exact absurd hover hnot

end Forsaken

/-! ### The delays of a policy -/

/-- What the delays of a policy keep to, and the publishes that wait for them. -/
structure Delays (p : RetryPolicy) : Prop where
  /-- The delay doubles with each attempt, sixteen times at most, up to the greatest length of time, -/
  backoff : ∀ n, (p.backoff n).nanos = min (p.baseDelay.nanos * 2 ^ min (max n.toNat 1 - 1) 16) Duration.maxNanos
  /-- and is never shorter after a later attempt. -/
  rises : ∀ m n, m ≤ n → (p.backoff m).nanos ≤ (p.backoff n).nanos
  jitter : ∀ draw, (p.jitter draw).nanos ≤ p.maxJitter.nanos
  /-- The number of the next attempt does not wrap. -/
  counts : ∀ n outcome next, p.next n outcome = .attempting next → next.toNat = n.toNat + 1
  /-- The pause is the sum of both, where that is a length of time. -/
  pause : ∀ n draw delay, (p.backoff n).add? (p.jitter draw) = some delay →
    delay.nanos = (p.backoff n).nanos + (p.jitter draw).nanos
  /-- For some random part it is not, exactly if the delay leaves no room for the greatest one. -/
  overflows_iff : ∀ n, (∃ draw, (p.backoff n).add? (p.jitter draw) = none) ↔
    Duration.maxNanos < (p.backoff n).nanos + p.greatestJitter
  /-- And there are publishes that end for that reason, exactly if it is so after the last attempt but one. -/
  unending_iff : (∃ w post k, w.Lasting p ∧ (run w (.attempting post 1) k).1 = .finished (.error .unending)) ↔
    2 ≤ p.maxAttempts.toNat ∧ Duration.maxNanos < (p.backoff (p.maxAttempts - 1)).nanos + p.greatestJitter

/-- **The delays of every policy.** They are bounded and do not wrap, but the pause with its random part is a length of
time, and the publish goes on, only if the policy leaves room for both. -/
theorem delays (p : RetryPolicy) : Delays p where
  backoff := p.nanos_backoff
  rises _ _ := p.nanos_backoff_mono
  jitter draw := Nat.le_trans (p.nanos_jitter_le draw) p.greatestJitter_le
  counts _ _ _ := RetryPolicy.toNat_of_next
  pause _ _ _ := Duration.nanos_of_add?
  overflows_iff _ := RetryPolicy.overflows_iff
  unending_iff := by
    have hbounded : ¬ p.Bounded ↔
        2 ≤ p.maxAttempts.toNat ∧ Duration.maxNanos < (p.backoff (p.maxAttempts - 1)).nanos + p.greatestJitter := by
      rw [← RetryPolicy.overflows_iff, RetryPolicy.Bounded, Classical.not_imp, not_not]
    rw [← hbounded]
    constructor
    · rintro ⟨w, post, k, hw, hk⟩ hp
      have htime := onTime_run hp hw post k
      rw [hk] at htime
      exact htime rfl
    · intro hp
      have hspan : 1 ≤ Duration.maxNanos := by decide
      let post : Post := ⟨0, "", .messages, .ok ""⟩
      obtain ⟨k, hk⟩ := exists_unending (show post.event = .ok "" from rfl) (Nat.le_refl _) hp
      exact ⟨_, _, k, lasting_forsaken p hspan, hk⟩

/-- A policy with the greatest delay there is, and a random part of up to two hundred milliseconds: with any but the
least random part there is no pause, and the first failed attempt is the end of a publish that has another one left. -/
theorem pause_overflows :
    let p : RetryPolicy := ⟨2, .max, .ofMillis 200⟩
    let s : Service := { policy := p, line := some (lineFor (.error Broker.unavailable)) }
    (p.backoff 1).nanos = Duration.maxNanos ∧ (p.jitter 1).nanos = 1000000 ∧ (p.backoff 1).add? (p.jitter 1) = none ∧
      p.next 1 (.error Broker.unavailable) = .attempting 2 ∧
      ((publish 0 "r" .messages (.ok "hello")).turn s { draw := 1 }).1 = .finished (.error .unending) := by
  refine ⟨rfl, by decide, rfl, rfl, rfl⟩

end Hub.Activity

end Parley
