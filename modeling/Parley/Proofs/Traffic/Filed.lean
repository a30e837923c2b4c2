import Parley.Proofs.Traffic.State

/-!
The books of a traffic are in order: a call is one task, a message of the feeds comes from one call
that has returned, no two places of the feeds hold the same call, a hub has one subscriber and a
subscription one reader.
-/

namespace Parley.Traffic

open Hub Deployment Function

variable {takes : ConnId → Prop} {v v' : Traffic}

/-- The state of a call that has an event under way. -/
def Fits (q : Post) : Activity → Prop
  | .recording .. => False
  | .attempting q' _ => q' = q
  | .pausing q' _ _ => q' = q
  | .delivering _ r => (∃ k e, r = .error (.exhausted k e)) ∧ ∃ text, q.event = .ok text
  | .finished r => (∃ k e, r = .error (.exhausted k e)) → ∃ text, q.event = .ok text

/-- A subscriber reads a subscription that is not given up, for what hubs subscribe to; its place lies
in the feed, behind the message that it hands out. -/
def Reads (v : Traffic) (x : Subscriber) (k : Nat) : Prop :=
  ∃ s, v.subscription k = some s ∧
  (s.dropped = false ∧ MemoryBroker.readPatterns Subscriber.patterns = .ok s.patterns) ∧
    s.feed ≤ v.current ∧ s.position ≤ (v.origins s.feed).length ∧ ((∃ f, x.state = .relaying k f) → 0 < s.position)

/-- The books are in order. -/
structure Filed (v : Traffic) : Prop where
  posted : ∀ p q, v.posts p = some q → ∃ a, v.task p = .activity a
  fits : ∀ p a, v.task p = .activity a → ∃ q, v.posts p = some q ∧ Fits q a
  placed : ∀ (f i : Nat) (p : TaskId), (v.origins f)[i]? = some p →
    f ≤ v.current ∧ v.task p = .activity (.finished (.ok ())) ∧ ∃ q text, v.posts p = some q ∧ q.event = .ok text
  once : ∀ (f i g j : Nat) (p : TaskId), (v.origins f)[i]? = some p → (v.origins g)[j]? = some p → f = g ∧ i = j
  alone : ∀ n m x z, v.task n = .subscriber x → v.task m = .subscriber z → x.hub = z.hub → n = m
  apart : ∀ n m x z k, v.task n = .subscriber x → v.task m = .subscriber z → x.held? = some k → z.held? = some k → n = m
  reads : ∀ n x k, v.task n = .subscriber x → x.held? = some k → v.Reads x k

namespace Filed

theorem not_placed (hv : Filed v) {p : TaskId} {a : Activity} (hp : v.task p = .activity a)
    (ha : a ≠ .finished (.ok ())) (f i : Nat) : (v.origins f)[i]? ≠ some p := by
  intro h
  have ht := (hv.placed f i p h).2.1
  rw [hp] at ht
  exact ha (Task.activity.inj ht)

theorem posts_eq_none (hv : Filed v) {n : TaskId} (hn : v.task n = .done) : v.posts n = none := by
  cases hp : v.posts n with
  | none => rfl
  | some q =>
    obtain ⟨a, ha⟩ := hv.posted n q hp
    rw [hn] at ha
    cases ha

/-- Which tasks are something else does not change with a task that was and is not that. -/
theorem update_task_iff {task : TaskId → Task} {n m : TaskId} {t u : Task} (hn : task n ≠ u) (ht : t ≠ u) :
    update task n t m = u ↔ task m = u := by
  rcases eq_or_ne m n with rfl | hm
  · rw [update_self]
    exact iff_of_false ht hn
  · rw [update_of_ne hm]

/-- A call goes on: it still fits its event, and one that has returned stays so. -/
theorem activity (hv : Filed v) {p : TaskId} {a a' : Activity} (hp : v.task p = .activity a)
    (hposts : v'.posts = v.posts)
    (htask : v'.task = update v.task p (.activity a')) (hcur : v'.current = v.current) (hor : v'.origins = v.origins)
    (hsub : v'.subscription = v.subscription) (ha : ∀ q, Fits q a → Fits q a')
    (hk : a = .finished (.ok ()) → a' = .finished (.ok ())) : Filed v' := by
  have hx : ∀ n x, v'.task n = .subscriber x ↔ v.task n = .subscriber x := by
    intro n x
    rw [htask]
    exact update_task_iff (by rw [hp]; simp) (by simp)
  refine ⟨?_, ?_, ?_, ?_, ?_, ?_, ?_⟩
  · intro n q hq
    rw [hposts] at hq
    obtain ⟨b, hb⟩ := hv.posted n q hq
    rw [htask]
    rcases eq_or_ne n p with rfl | hn
    · exact ⟨a', update_self ..⟩
    · exact ⟨b, by rw [update_of_ne hn]; exact hb⟩
  · intro n b hb
    rw [htask] at hb
    rw [hposts]
    rcases eq_or_ne n p with rfl | hn
    · rw [update_self] at hb
      cases hb
      obtain ⟨q, hq, hf⟩ := hv.fits n a hp
      exact ⟨q, hq, ha q hf⟩
    · rw [update_of_ne hn] at hb
      exact hv.fits n b hb
  · intro f i n hn
    rw [hor] at hn
    obtain ⟨h1, h2, h3⟩ := hv.placed f i n hn
    refine ⟨hcur ▸ h1, ?_, hposts ▸ h3⟩
    rw [htask]
    rcases eq_or_ne n p with rfl | hne
    · rw [hp] at h2
      rw [update_self, hk (Task.activity.inj h2)]
    · rw [update_of_ne hne]; exact h2
  · rw [hor]; exact hv.once
  · intro n m x z h1 h2
    exact hv.alone n m x z ((hx n x).1 h1) ((hx m z).1 h2)
  · intro n m x z k h1 h2
    exact hv.apart n m x z k ((hx n x).1 h1) ((hx m z).1 h2)
  · intro n x k h1 h2
    obtain ⟨s, hs, hlive, h3⟩ := hv.reads n x k ((hx n x).1 h1) h2
    exact ⟨s, by rw [hsub]; exact hs, hlive, by rw [hcur, hor]; exact h3⟩

/-- A subscriber goes on: what it holds it held before or nobody did, and it is at a place there. -/
theorem subscriber (hv : Filed v) {n : TaskId} {x x' : Subscriber} (hn : v.task n = .subscriber x)
    (hposts : v'.posts = v.posts) (htask : v'.task = update v.task n (.subscriber x')) (hcur : v'.current = v.current)
    (hor : v'.origins = v.origins) (hub : x'.hub = x.hub)
    (hheld : ∀ k, x'.held? = some k → x.held? = some k ∨ v.subscription k = none)
    (hreads : ∀ k, x'.held? = some k → v'.Reads x' k)
    (hsub : ∀ j, x.held? ≠ some j → v.subscription j ≠ none → v'.subscription j = v.subscription j) : Filed v' := by
  have hact : ∀ m a, v'.task m = .activity a ↔ v.task m = .activity a := by
    intro m a
    rw [htask]
    exact update_task_iff (by rw [hn]; simp) (by simp)
  -- the hub of a subscriber is the hub it had
  have hback : ∀ m z, v'.task m = .subscriber z → ∃ z₀, v.task m = .subscriber z₀ ∧ z₀.hub = z.hub ∧ (m ≠ n → z₀ = z) ∧
      (m = n → z = x') := by
    intro m z hm
    rw [htask] at hm
    rcases eq_or_ne m n with rfl | hne
    · rw [update_self] at hm
      cases hm
      exact ⟨x, hn, hub.symm, fun h => absurd rfl h, fun _ => rfl⟩
    · rw [update_of_ne hne] at hm
      exact ⟨z, hm, rfl, fun _ => rfl, fun h => absurd h hne⟩
  -- nobody else holds what this one holds now
  have hother : ∀ m z k, m ≠ n → v.task m = .subscriber z → z.held? = some k → x'.held? ≠ some k := by
    intro m z k hne hm hz hx
    rcases hheld k hx with h | h
    · exact hne (hv.apart m n z x k hm hn hz h)
    · obtain ⟨s, hs, -⟩ := hv.reads m z k hm hz
      rw [h] at hs
      cases hs
  refine ⟨?_, ?_, ?_, ?_, ?_, ?_, ?_⟩
  · intro p q hq
    rw [hposts] at hq
    obtain ⟨a, ha⟩ := hv.posted p q hq
    exact ⟨a, (hact p a).2 ha⟩
  · intro p a ha
    rw [hposts]
    exact hv.fits p a ((hact p a).1 ha)
  · intro f i p hp
    rw [hor] at hp
    obtain ⟨h1, h2, h3⟩ := hv.placed f i p hp
    exact ⟨hcur ▸ h1, (hact p _).2 h2, hposts ▸ h3⟩
  · rw [hor]; exact hv.once
  · intro m l z w hm hl hzw
    obtain ⟨z₀, hz, hz', -⟩ := hback m z hm
    obtain ⟨w₀, hw, hw', -⟩ := hback l w hl
    exact hv.alone m l z₀ w₀ hz hw (hz'.trans (hzw.trans hw'.symm))
  · intro m l z w k hm hl hz hw
    obtain ⟨z₀, hz0, -, hzne, hzeq⟩ := hback m z hm
    obtain ⟨w₀, hw0, -, hwne, hweq⟩ := hback l w hl
    by_cases hmn : m = n
    · by_cases hln : l = n
      · rw [hmn, hln]
      · rw [← hwne hln] at hw
        exact absurd (hzeq hmn ▸ hz) (hother l w₀ k hln hw0 hw)
    · rw [← hzne hmn] at hz
      by_cases hln : l = n
      · exact absurd (hweq hln ▸ hw) (hother m z₀ k hmn hz0 hz)
      · rw [← hwne hln] at hw
        exact hv.apart m l z₀ w₀ k hz0 hw0 hz hw
  · intro m z k hm hz
    obtain ⟨z₀, hz0, -, hzne, hzeq⟩ := hback m z hm
    by_cases hmn : m = n
    · rw [hzeq hmn] at hz ⊢
      exact hreads k hz
    · rw [← hzne hmn] at hz ⊢
      obtain ⟨s, hs, hlive, h1, h2, h3⟩ := hv.reads m z₀ k hz0 hz
      have hxk : x.held? ≠ some k := fun h => hmn (hv.apart m n z₀ x k hz0 hn hz h)
      exact ⟨s, by rw [hsub k hxk (by rw [hs]; simp)]; exact hs, hlive, by rw [hcur, hor]; exact ⟨h1, h2, h3⟩⟩

/-- A delivery goes on, for a call or for a subscriber. -/
theorem fanout (hv : Filed v) {n : TaskId} {f f' : Fanout} (hn : (v.task n).fanout? = some f)
    (hposts : v'.posts = v.posts)
    (htask : v'.task = update v.task n ((v.task n).withFanout f')) (hcur : v'.current = v.current)
    (hor : v'.origins = v.origins) (hsub : v'.subscription = v.subscription) : Filed v' := by
  rcases Task.fanout?_eq_some hn with ⟨r, ht⟩ | ⟨x, k, ht, hx⟩
  · have hw : v'.task = update v.task n (.activity (.delivering f' r)) := by rw [htask, ht]; rfl
    exact hv.activity ht hposts hw hcur hor hsub (fun _ h => h) (fun h => by cases h)
  · have hk : x.held? = some k := by rw [Subscriber.held?, hx]
    have hw : v'.task = update v.task n (.subscriber { x with state := .relaying k f' }) := by
      obtain ⟨hub, delay, state⟩ := x
      subst hx
      rw [htask, ht]
      rfl
    obtain ⟨s, hs, hlive, h1, h2, h3⟩ := hv.reads n x k ht hk
    refine hv.subscriber ht hposts hw hcur hor rfl ?_ ?_ (fun j _ _ => by rw [hsub])
    · intro j hj
      cases hj
      exact .inl hk
    · intro j hj
      cases hj
      exact ⟨s, by rw [hsub]; exact hs, hlive, by rw [hcur]; exact h1, by rw [hor]; exact h2, fun _ => h3 ⟨f, hx⟩⟩

theorem call (hv : Filed v) {p : TaskId} (q : Post) (hp : v.task p = .done) :
    Filed { v with posts := update v.posts p (some q), task := update v.task p (.activity (.attempting q 1)) } := by
  have hx : ∀ n x, update v.task p (.activity (.attempting q 1)) n = .subscriber x ↔ v.task n = .subscriber x :=
    fun n x => update_task_iff (by rw [hp]; simp) (by simp)
  refine ⟨?_, ?_, ?_, hv.once, ?_, ?_, ?_⟩
  · intro n r hr
    show ∃ a, update v.task p (.activity (.attempting q 1)) n = .activity a
    rcases eq_or_ne n p with rfl | hn
    · exact ⟨_, update_self ..⟩
    · rw [update_of_ne hn]
      exact hv.posted n r ((update_of_ne hn (some q) v.posts).symm.trans hr)
  · intro n a ha
    show ∃ r, update v.posts p (some q) n = some r ∧ Fits r a
    rcases eq_or_ne n p with rfl | hn
    · cases (update_self n _ v.task).symm.trans ha
      exact ⟨q, update_self .., rfl⟩
    · rw [update_of_ne hn]
      exact hv.fits n a ((update_of_ne hn _ v.task).symm.trans ha)
  · intro f i n hn
    obtain ⟨h1, h2, r, text, h3, h4⟩ := hv.placed f i n hn
    have hne : n ≠ p := by rintro rfl; rw [hp] at h2; cases h2
    exact ⟨h1, (update_of_ne hne _ v.task).trans h2, r, text, (update_of_ne hne _ v.posts).trans h3, h4⟩
  · intro n m x z h1 h2
    exact hv.alone n m x z ((hx n x).1 h1) ((hx m z).1 h2)
  · intro n m x z k h1 h2
    exact hv.apart n m x z k ((hx n x).1 h1) ((hx m z).1 h2)
  · intro n x k h1 h2
    exact hv.reads n x k ((hx n x).1 h1) h2

theorem listen (hv : Filed v) {n : TaskId} {x : Subscriber} (hn : v.task n = .done) (hx : x.held? = none)
    (alone : ∀ m z, v.task m = .subscriber z → z.hub ≠ x.hub) :
    Filed { v with task := update v.task n (.subscriber x) } := by
  have hact : ∀ m a, update v.task n (.subscriber x) m = .activity a ↔ v.task m = .activity a :=
    fun m a => update_task_iff (by rw [hn]; simp) (by simp)
  have hsub : ∀ m z, update v.task n (.subscriber x) m = .subscriber z → (m = n ∧ z = x) ∨
      v.task m = .subscriber z := by
    intro m z hm
    rcases eq_or_ne m n with rfl | hne
    · rw [update_self] at hm
      cases hm
      exact .inl ⟨rfl, rfl⟩
    · rw [update_of_ne hne] at hm
      exact .inr hm
  refine ⟨?_, ?_, ?_, hv.once, ?_, ?_, ?_⟩
  · intro p q hq
    obtain ⟨a, ha⟩ := hv.posted p q hq
    exact ⟨a, (hact p a).2 ha⟩
  · intro p a ha
    exact hv.fits p a ((hact p a).1 ha)
  · intro f i p hp
    obtain ⟨h1, h2, h3⟩ := hv.placed f i p hp
    exact ⟨h1, (hact p _).2 h2, h3⟩
  · intro m l z w hm hl hzw
    rcases hsub m z hm with ⟨rfl, rfl⟩ | hm' <;> rcases hsub l w hl with ⟨rfl, rfl⟩ | hl'
    · rfl
    · exact absurd hzw.symm (alone l w hl')
    · exact absurd hzw (alone m z hm')
    · exact hv.alone m l z w hm' hl' hzw
  · intro m l z w k hm hl hz hw
    rcases hsub m z hm with ⟨rfl, rfl⟩ | hm'
    · rw [hx] at hz; cases hz
    · rcases hsub l w hl with ⟨rfl, rfl⟩ | hl'
      · rw [hx] at hw; cases hw
      · exact hv.apart m l z w k hm' hl' hz hw
  · intro m z k hm hz
    rcases hsub m z hm with ⟨rfl, rfl⟩ | hm'
    · rw [hx] at hz; cases hz
    · exact hv.reads m z k hm' hz

theorem getElem?_update_origins {p : TaskId} {f i : Nat} {n : TaskId} :
    (update v.origins v.current (v.origins v.current ++ [p]) f)[i]? = some n ↔
      (v.origins f)[i]? = some n ∨ (f = v.current ∧ i = (v.origins f).length ∧ n = p) := by
  rcases eq_or_ne f v.current with rfl | hf
  · rw [update_self, List.getElem?_append]
    by_cases hi : i < (v.origins v.current).length
    · rw [if_pos hi]
      simp [Nat.ne_of_lt hi]
    · rw [if_neg hi, List.getElem?_eq_none (Nat.le_of_not_lt hi)]
      have hz : i - (v.origins v.current).length = 0 ↔ i = (v.origins v.current).length := by omega
      simp [List.getElem?_singleton, hz, eq_comm]
  · rw [update_of_ne hf]
    simp [hf]

theorem accept (hv : Filed v) {p : TaskId} {q : Post} {n : UInt32} {text : String}
    (hp : v.task p = .activity (.attempting q n)) (he : q.event = .ok text) :
    Filed { v with task := update v.task p (.activity (.finished (.ok ())))
                   origins := update v.origins v.current (v.origins v.current ++ [p]) } := by
  have h0 : Filed { v with task := update v.task p (.activity (.finished (.ok ()))) } :=
    hv.activity hp rfl rfl rfl rfl rfl (fun _ _ ⟨_, _, h⟩ => by cases h) (fun h => by cases h)
  have hnew : ∀ f i, (v.origins f)[i]? ≠ some p := hv.not_placed hp (by simp)
  have hlen : ∀ f, (v.origins f).length ≤ (update v.origins v.current (v.origins v.current ++ [p]) f).length := by
    intro f
    rcases eq_or_ne f v.current with rfl | hf
    · rw [update_self]; simp
    · simp [update_of_ne hf]
  refine ⟨h0.posted, h0.fits, ?_, ?_, h0.alone, h0.apart, ?_⟩
  · intro f i m hm
    rcases getElem?_update_origins.1 hm with hm | ⟨rfl, -, rfl⟩
    · exact h0.placed f i m hm
    · obtain ⟨r, hr, hf⟩ := hv.fits m _ hp
      have hf : q = r := hf
      exact ⟨Nat.le_refl _, update_self .., r, text, hr, hf ▸ he⟩
  · intro f i g j m hm hm'
    rcases getElem?_update_origins.1 hm with hm | ⟨rfl, rfl, rfl⟩ <;>
      rcases getElem?_update_origins.1 hm' with hm' | ⟨rfl, rfl, hmp⟩
    · exact hv.once f i g j m hm hm'
    · exact absurd (hmp ▸ hm) (hnew f i)
    · exact absurd hm' (hnew g j)
    · exact ⟨rfl, rfl⟩
  · intro m x k hm hx
    obtain ⟨s, hs, hlive, h1, h2, h3⟩ := h0.reads m x k hm hx
    exact ⟨s, hs, hlive, h1, Nat.le_trans h2 (hlen s.feed), h3⟩

/-- **The books stay in order.** -/
theorem change (hv : Filed v) (h : Change takes v v') : Filed v' := by
  cases h with
  | none => exact hv
  | call p q hp => exact hv.call q hp
  | listen n x hn hx alone => exact hv.listen hn hx alone
  | connect => exact ⟨hv.posted, hv.fits, hv.placed, hv.once, hv.alone, hv.apart, hv.reads⟩
  | enlist => exact ⟨hv.posted, hv.fits, hv.placed, hv.once, hv.alone, hv.apart, hv.reads⟩
  | quiet p a a' hp ha =>
    refine hv.activity hp rfl rfl rfl rfl rfl ?_ ?_
    · intro q hq
      cases ha with
      | pause => exact hq
      | resume => exact hq
      | fail q' n e he => rintro ⟨k, b, h⟩; exact absurd (Except.error.inj h) (he k b)
      | settle k r => exact fun _ => hq.2
    · rintro rfl; cases ha
  | accept p q n text hp he => exact hv.accept hp he
  | fallBack p q n text hp he k e =>
    exact hv.activity hp rfl rfl rfl rfl rfl (fun r (hr : q = r) => ⟨⟨k, e, rfl⟩, text, hr ▸ he⟩) (fun h => by cases h)
  | pass n f f' hn hf => exact hv.fanout hn rfl rfl rfl rfl rfl
  | hand n frame c rest sent hn ht => exact hv.fanout hn rfl rfl rfl rfl rfl
  | subscribed n x hn hx k hk globs hg =>
    refine hv.subscriber hn rfl rfl rfl rfl rfl ?_ ?_ ?_
    · intro j hj
      cases hj
      exact .inr hk
    · intro j hj
      cases hj
      exact ⟨_, update_self .., ⟨rfl, hg⟩, Nat.le_refl _, Nat.le_refl _, fun h => by cases h.choose_spec⟩
    · intro j _ hj
      exact update_of_ne (fun h : j = k => hj (h ▸ hk)) ..
  | received n x hn k r hx s hs place p hp hle hskip =>
    have hk : x.held? = some k := by rw [Subscriber.held?, hx]
    obtain ⟨s', hs', hlive, h1, h2, -⟩ := hv.reads n x k hn hk
    rw [hs] at hs'
    cases hs'
    refine hv.subscriber hn rfl rfl rfl rfl rfl ?_ ?_ ?_
    · intro j hj
      cases hj
      exact .inl hk
    · intro j hj
      cases hj
      refine ⟨_, update_self .., hlive, h1, ?_, fun _ => Nat.succ_pos place⟩
      exact (List.getElem?_eq_some_iff.1 hp).1
    · intro j hj _
      exact update_of_ne (fun h : j = k => hj (h ▸ hk)) ..
  | relayed n x hn k j hx =>
    have hk : x.held? = some k := by rw [Subscriber.held?, hx]
    refine hv.subscriber hn rfl rfl rfl rfl rfl ?_ ?_ (fun _ _ _ => rfl)
    · intro i hi
      cases hi
      exact .inl hk
    · intro i hi
      cases hi
      obtain ⟨s, hs, hlive, h1, h2, -⟩ := hv.reads n x k hn hk
      exact ⟨s, hs, hlive, h1, h2, fun h => by cases h.choose_spec⟩
  | rest n x x' hn hub hx hend subscription hs =>
    refine hv.subscriber hn rfl rfl rfl rfl hub ?_ ?_ (fun j hj _ => hs j hj)
    · intro k hk; rw [hx] at hk; cases hk
    · intro k hk; rw [hx] at hk; cases hk
  | disconnect =>
    refine ⟨hv.posted, hv.fits, ?_, hv.once, hv.alone, hv.apart, ?_⟩
    · intro f i p hp
      obtain ⟨h1, h2⟩ := hv.placed f i p hp
      exact ⟨Nat.le_succ_of_le h1, h2⟩
    · intro n x k hn hx
      obtain ⟨s, hs, hlive, h1, h2⟩ := hv.reads n x k hn hx
      exact ⟨s, hs, hlive, Nat.le_succ_of_le h1, h2⟩

end Filed

end Parley.Traffic
