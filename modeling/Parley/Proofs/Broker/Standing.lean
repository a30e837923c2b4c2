import Parley.Proofs.Broker.History

/-!
# How many subscriptions there are

The broker counts the subscriptions on its current feed that were not given up. After any history these are the ones
that the history leaves standing (`standing_history`).
-/

namespace Parley.MemoryBroker

open Broker

/-- A subscription on the current feed that was not given up. -/
def stands (b : MemoryBroker) (n : Nat) : Bool :=
  b.subscriptions[n]?.any fun s => !s.dropped && s.feed == b.current

theorem subscriberCount_eq (b : MemoryBroker) :
    b.subscriberCount = ((List.range b.subscriptions.size).filter b.stands).length := by
  have hlist : b.subscriptions.toList.map some = (List.range b.subscriptions.size).map (b.subscriptions[·]?) := by
    refine List.ext_getElem (by simp) fun i h₁ h₂ => ?_
    have hi : i < b.subscriptions.size := by simpa using h₁
    simp [Array.getElem?_eq_getElem hi]
  rw [← List.countP_eq_length_filter]
  calc b.subscriberCount
      = (b.subscriptions.toList.map some).countP (Option.any fun s => !s.dropped && s.feed == b.current) := by
        rw [List.countP_map]
        rfl
    _ = (List.range b.subscriptions.size).countP b.stands := by
        rw [hlist, List.countP_map]
        rfl

/-- A broker after a history: the subscriptions on its current feed are those that the history leaves standing. -/
structure Counted (b : MemoryBroker) (h : List Happening) : Prop where
  pos : 0 < b.feeds.size
  lies : ∀ (n : Nat) (s : Subscription), b.subscriptions[n]? = some s → s.feed < b.feeds.size
  standing : standing h = (List.range b.subscriptions.size).filter b.stands

theorem stands_congr {b b' : MemoryBroker} (hs : b'.subscriptions = b.subscriptions) (hf : b'.feeds.size = b.feeds.size)
    (n : Nat) : b'.stands n = b.stands n := by
  rw [stands, stands, hs, current, current, hf]

/-- A read changes neither whose a subscription is nor its feed. -/
theorem stands_receive (b : MemoryBroker) (n k : Nat) : (b.receive n).2.stands k = b.stands k ∧
    (b.receive n).2.subscriptions.size = b.subscriptions.size ∧
    ∀ s', (b.receive n).2.subscriptions[k]? = some s' → ∃ s, b.subscriptions[k]? = some s ∧ s.feed = s'.feed := by
  have hset : ∀ s position, b.subscriptions[n]? = some s →
      stands { b with subscriptions := b.subscriptions.set! n { s with position } } k = b.stands k ∧
        (b.subscriptions.set! n { s with position }).size = b.subscriptions.size ∧
        ∀ s', (b.subscriptions.set! n { s with position })[k]? = some s' →
          ∃ s, b.subscriptions[k]? = some s ∧ s.feed = s'.feed := by
    intro s position hs
    have hn : n < b.subscriptions.size := (Array.getElem?_eq_some_iff.mp hs).1
    by_cases hk : k = n
    · subst hk
      have hget : (b.subscriptions.set! k { s with position })[k]? = some { s with position } := by
        rw [Array.set!_eq_setIfInBounds, Array.getElem?_setIfInBounds_self_of_lt hn]
      refine ⟨?_, by simp, fun s' hs' => ⟨s, hs, ?_⟩⟩
      · unfold stands
        dsimp only
        rw [hget, hs]
        rfl
      · cases hget.symm.trans hs'
        rfl
    · have hget : (b.subscriptions.set! n { s with position })[k]? = b.subscriptions[k]? := by
        rw [Array.set!_eq_setIfInBounds, Array.getElem?_setIfInBounds_ne (Ne.symm hk)]
      refine ⟨?_, by simp, fun s' hs' => ⟨s', hget.symm.trans hs', rfl⟩⟩
      unfold stands
      dsimp only
      rw [hget]
      rfl
  unfold receive
  split
  · exact ⟨rfl, rfl, fun s' hs' => ⟨s', hs', rfl⟩⟩
  · rename_i s hs
    split
    · exact ⟨rfl, rfl, fun s' hs' => ⟨s', hs', rfl⟩⟩
    · dsimp only
      split
      · exact hset s _ hs
      · split
        · exact hset s _ hs
        · exact hset s _ hs

namespace Counted

variable {b b' : MemoryBroker} {h : List Happening} {x : Happening}

theorem keep (c : Counted b h) (hs : b'.subscriptions = b.subscriptions) (hf : b'.feeds.size = b.feeds.size)
    (hx : x.standing (Broker.standing h) = Broker.standing h) : Counted b' (h ++ [x]) where
  pos := hf ▸ c.pos
  lies n s hn := by
    rw [hf]
    exact c.lies n s (hs ▸ hn)
  standing := by
    rw [standing_concat, hx, c.standing, hs]
    exact List.filter_congr fun n _ => (stands_congr hs hf n).symm

theorem notMem_of_not_stands (c : Counted b h) {n : Nat} (hn : b.stands n = false) : n ∉ Broker.standing h := by
  rw [c.standing, List.mem_filter, hn]
  simp

theorem subscribe (c : Counted b h) (patterns : List String) :
    Counted (b.subscribe patterns).2 (h ++ [.subscribed patterns (b.subscribe patterns).1]) := by
  cases ho : (b.subscribe patterns).1 with
  | error e =>
    rw [subscribe_error ho]
    exact c.keep rfl rfl rfl
  | ok n =>
    obtain ⟨rfl, globs, -, hfeeds, hsubs⟩ := subscribe_ok ho
    have hcur : (b.subscribe patterns).2.current = b.current := by rw [current, hfeeds]; rfl
    refine ⟨hfeeds ▸ c.pos, fun n s hn => ?_, ?_⟩
    · rw [hfeeds]
      rw [hsubs, Array.getElem?_push] at hn
      split at hn
      · cases hn
        exact Nat.sub_one_lt_of_lt c.pos
      · exact c.lies n s hn
    · have hold : ∀ n ∈ List.range b.subscriptions.size, (b.subscribe patterns).2.stands n = b.stands n := by
        intro n hn
        unfold stands
        rw [hsubs, hcur, Array.getElem?_push_lt (List.mem_range.mp hn),
          Array.getElem?_eq_getElem (List.mem_range.mp hn)]
      have hnew : (b.subscribe patterns).2.stands b.subscriptions.size = true := by
        unfold stands
        rw [hsubs, hcur, Array.getElem?_push_size]
        simp
      rw [standing_concat, Happening.standing, c.standing, hsubs, Array.size_push, List.range_succ, List.filter_append,
        List.filter_congr hold]
      simp [hnew]

theorem read (c : Counted b h) (n : Nat) : Counted (b.receive n).2 (h ++ [.read n (b.receive n).1]) where
  pos := by rw [(receive_others b n).1]; exact c.pos
  lies k s' hk := by
    obtain ⟨s, hs, hf⟩ := (stands_receive b n k).2.2 s' hk
    rw [(receive_others b n).1, ← hf]
    exact c.lies k s hs
  standing := by
    have hx : (Happening.read n (b.receive n).1).standing (Broker.standing h) = Broker.standing h := by
      cases hd : (b.receive n).1 with
      | message m => rfl
      | waiting => rfl
      | ended =>
        obtain ⟨-, -, -, hs⟩ := receive_ended (show b.receive n = (.ended, (b.receive n).2) by rw [← hd])
        have hn : b.stands n = false := by
          unfold stands
          cases hget : b.subscriptions[n]? with
          | none => rfl
          | some s => rcases hs s hget with hd | hf <;> simp [*]
        refine List.filter_eq_self.mpr fun k hk => bne_iff_ne.mpr fun e => ?_
        exact c.notMem_of_not_stands hn (e ▸ hk)
    rw [standing_concat, hx, c.standing, (stands_receive b n n).2.1]
    exact List.filter_congr fun k _ => (stands_receive b n k).1.symm

theorem drop (c : Counted b h) (n : Nat) : Counted (b.drop n) (h ++ [.dropped n]) where
  pos := c.pos
  lies k s' hk := by
    unfold MemoryBroker.drop at hk
    rw [Array.getElem?_modify] at hk
    split at hk
    · obtain ⟨s, hs, rfl⟩ := Option.map_eq_some_iff.mp hk
      exact c.lies k s hs
    · exact c.lies k s' hk
  standing := by
    rw [standing_concat, Happening.standing, c.standing, List.filter_filter]
    show _ = (List.range (b.subscriptions.modify n _).size).filter (b.drop n).stands
    rw [Array.size_modify]
    refine List.filter_congr fun k _ => ?_
    unfold stands MemoryBroker.drop
    rw [Array.getElem?_modify]
    by_cases hk : n = k
    · subst hk
      cases b.subscriptions[n]? <;> simp
    · rw [if_neg hk]
      simp [Ne.symm hk, current]

theorem disconnect (c : Counted b h) : Counted b.disconnect (h ++ [.disconnected]) where
  pos := by simp [MemoryBroker.disconnect]
  lies n s hn := by
    have := c.lies n s hn
    simp only [MemoryBroker.disconnect, Array.size_push]
    omega
  standing := by
    rw [standing_concat, Happening.standing]
    refine (List.filter_eq_nil_iff.mpr fun n _ => ?_).symm
    unfold stands
    show ¬ (b.subscriptions[n]?.any fun s => !s.dropped && s.feed == b.disconnect.current) = true
    cases hs : b.subscriptions[n]? with
    | none => simp
    | some s =>
      have hlt := c.lies n s hs
      have hne : s.feed ≠ b.disconnect.current := by
        simp only [current, MemoryBroker.disconnect, Array.size_push]
        omega
      simp [hne]

theorem perform (c : Counted b h) (d : Deed) : Counted (b.perform d).2 (h ++ [(b.perform d).1]) := by
  cases d with
  | publish m =>
    cases ho : (b.publish m).1 with
    | ok u =>
      obtain ⟨hfeeds, hsubs⟩ := publish_ok ho
      exact c.keep hsubs (by simp [MemoryBroker.perform, hfeeds]) rfl
    | error e =>
      exact c.keep (publish_error ho).subscriptions (by simp [MemoryBroker.perform, (publish_error ho).feeds]) rfl
  | subscribe patterns => exact c.subscribe patterns
  | read n => exact c.read n
  | drop n => exact c.drop n
  | disconnect => exact c.disconnect
  | outage down => exact c.keep rfl rfl rfl

end Counted

/-- Every run: the subscriptions that a history leaves standing are those on the current feed. -/
theorem standing_history (ds : List Deed) :
    Counted (({} : MemoryBroker).after ds) (({} : MemoryBroker).history ds) := by
  induction ds using List.reverseRecOn with
  | nil => exact ⟨by decide, by simp [after], rfl⟩
  | append_singleton ds d ih =>
    rw [after_concat, history_concat]
    exact ih.perform d

end Parley.MemoryBroker
