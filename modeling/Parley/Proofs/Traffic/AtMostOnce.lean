import Mathlib.Data.List.Nodup
import Parley.Proofs.Traffic.Simulation

/-!
At most once and in its own room, whatever fails: through retries, fallbacks, outages, disconnects,
lags and new subscriptions no connection accepts a call's frame twice, nor one for another room; and
what a call could not publish stays on its own hub.
-/

namespace Parley.Ledger

open Hub Deployment

/-- **At most once, in its own room.** In every reachable state every message of the feeds and every
accepted frame is that of a publish call. A connection that a hub lists in a room is of that hub and that
room; it has the frame of a call at most once, and only if the call is for its room; and the frame of a
call that ended exhausted is on no connection of another hub. -/
theorem accepted_at_most_once (base : Service) (hubs : Nat) (ms : List Move) :
    let l := (start base hubs).run ms
    (∀ f, (l.service.broker.feed f).toList = (l.origins f).map l.view.message) ∧ ∀ c : ConnId,
      (l.service.connection c).accepted = (l.accepted c).map l.view.text ∧
      (∀ h r, c ∈ (l.service.registry h).snapshot r → l.home c = h ∧ (l.service.connection c).room = r) ∧
      ∀ p : TaskId,
        (l.accepted c).count p ≤ 1 ∧
        (p ∈ l.accepted c → ∃ post text, l.posts p = some post ∧ post.event = .ok text ∧
          post.room = (l.service.connection c).room) ∧
        (p ∈ l.accepted c → ∀ k e, l.deployment.task p = .activity (.finished (.error (.exhausted k e))) →
          ∃ post, l.posts p = some post ∧ post.hub = l.home c) := by
  intro l
  have hl : Sound l := sound_run (sound_start base hubs) ms
  refine ⟨hl.feed, fun c => ?_⟩
  refine ⟨hl.delivered.frames c, fun h r hc => (hl.delivered.member h r c hc).2, fun p => ⟨?_, ?_, ?_⟩⟩
  · exact List.nodup_iff_count_le_one.1 (hl.delivered.distinct c) p
  · intro hp
    obtain ⟨post, text, hpost, he⟩ := Traffic.event_of_came hl.filed (hl.delivered.came c p hp)
    have hroom := hl.delivered.room c p hp
    rw [Traffic.roomOf, hpost] at hroom
    exact ⟨post, text, hpost, he, hroom⟩
  · intro hp k e ht
    rcases hl.delivered.came c p hp with ⟨a, post, -, -, hpost, hub⟩ | ⟨f, i, hi, -⟩
    · exact ⟨post, hpost, hub⟩
    · -- a call whose event the broker took has returned without an error
      have htask := (hl.filed.placed f i p hi).2.1
      rw [view_task ht] at htask
      cases htask

end Parley.Ledger
