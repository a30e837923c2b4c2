import Parley.Proofs.Admission.Scheduled
import Parley.Proofs.Printing
import Parley.Proofs.Sessions.Cleanup

/-!
What holds while only participants are let in: a session's person takes part in its room, and whatever is
said of a person in a room is vouched for by the store. Steps of tasks, requests, frames and drops let
nobody in, and keep it so.
-/

namespace Parley

open Hub Deployment Http

/-! ### The store and the configuration -/

structure Service.SameBooks (s t : Service) : Prop where
  store : t.store = s.store
  config : t.config = s.config

namespace Hub

variable {s t : Service}

theorem Fanout.Step.books {f f' : Fanout} (h : Fanout.Step s f f' t) : s.SameBooks t := by
  cases h <;> exact ⟨rfl, rfl⟩

theorem Activity.Step.books {a a' : Activity} (h : Activity.Step s a a' t) : s.SameBooks t := by
  cases h with
  | deliver f f' t r hf => exact hf.books
  | _ => exact ⟨rfl, rfl⟩

theorem Subscriber.Step.books {x x' : Subscriber} (h : Subscriber.Step s x x' t) : s.SameBooks t := by
  cases h with
  | relay n f f' hx t hf => exact hf.books
  | _ => exact ⟨rfl, rfl⟩

theorem Session.Step.books {x x' : Session} (h : Session.Step s x x' t) : s.SameBooks t := by
  cases h with
  | work a a' here next hb t ha => exact ha.books
  | handle _ frame rest _ a ha =>
    rcases route_service s x.hub x.room x.user (Text.Utf8.encode frame) with h | h <;> rw [h] <;> exact ⟨rfl, rfl⟩
  | _ => exact ⟨rfl, rfl⟩

end Hub

theorem Task.Step.books {s t : Service} {k k' : Task} (h : Task.Step s k k' t) : s.SameBooks t := by
  cases h with
  | writer | closer => exact ⟨rfl, rfl⟩
  | activity a a' t h => exact h.books
  | session x x' t choice h => exact (Session.step_spec h).books
  | subscriber x x' t h => exact h.books

theorem Deployment.books_turn (y : Deployment) (u : Turn) : y.service.SameBooks (y.turn u).service := by
  cases u with
  | step n choice =>
    simp only [turn]
    cases h : y.step n choice with
    | none => exact ⟨rfl, rfl⟩
    | some y' =>
      obtain ⟨-, k, s, hk, rfl⟩ := step_spec h
      exact hk.books
  | listen hub =>
    simp only [turn, start]
    split
    · split <;> exact ⟨rfl, rfl⟩
    · exact ⟨rfl, rfl⟩
  | _ => exact ⟨rfl, rfl⟩

theorem Deployment.books_feed (y : Deployment) (n : TaskId) (i : Item) : y.service.SameBooks (y.feed n i).service := by
  unfold Deployment.feed
  split <;> exact ⟨rfl, rfl⟩

theorem Deployment.books_abort (y : Deployment) (n : TaskId) : y.service.SameBooks (y.abort n).service := by
  unfold Deployment.abort
  split
  · rename_i x _
    unfold Session.abort
    cases x.stage <;> exact ⟨rfl, rfl⟩
  · exact ⟨rfl, rfl⟩

/-! ### Texts that are vouched for -/

/-- If the text is that of a typing, read or presence event, the person takes part in the room. -/
def Vouched (m : MemoryStore) (text : String) : Prop :=
  ∀ e : Envelope, e.IsPersonal → e.text = text → m.takesPart e.room e.user = true

theorem takesPart_iff {m : MemoryStore} {room user : String} :
    m.takesPart room user = true ↔ (room, user) ∈ m.participants :=
  List.contains_iff_mem

theorem Vouched.mono {m m' : MemoryStore} (h : ∀ p ∈ m.participants, p ∈ m'.participants) {text : String}
    (ht : Vouched m text) :
    Vouched m' text :=
  fun e he hte => takesPart_iff.2 (h _ (takesPart_iff.1 (ht e he hte)))

theorem Envelope.IsPersonal.name {e : Envelope} (h : e.IsPersonal) : e.type.name ∈ ["typing", "read", "presence"] := by
  rcases h with h | h | h <;> rw [h] <;> decide

theorem public_vouched (m : MemoryStore) : Public (Vouched m) where
  message msg e he ht := by
    have h := he.name
    rw [Envelope.text_eq_ofMessage ht] at h
    exact absurd h (by decide)
  created c user time e he ht := by
    have h := he.name
    rw [(Envelope.text_inj ht).1] at h
    have hc : EventType.conversationCreated.name ∈ ["typing", "read", "presence"] := h
    exact absurd hc (by decide)

theorem entitled_vouched {m : MemoryStore} {x : Session} (h : m.takesPart x.room x.user = true) :
    x.Entitled (Vouched m) := by
  intro e _ hroom huser d _ ht
  obtain ⟨-, hr, hu⟩ := Envelope.text_inj ht
  rw [hr, hu, hroom, huser]
  exact h

/-! ### Deployments -/

namespace Gateway

/-- What holds of a deployment in which only participants are let in. -/
structure Guarded (y : Deployment) : Prop where
  tended : Tended y
  named : ∀ n x, y.task n = .session x → x.room ≠ "" ∧ Text.trim x.room = x.room
  takesPart : ∀ n x, y.task n = .session x → y.service.store.takesPart x.room x.user = true
  vouched : y.Says (Vouched y.service.store)

/-- A change by which nobody is let in. -/
structure Inner (y y' : Deployment) : Prop where
  guarded : Guarded y'
  sessions : ∀ n x', y'.task n = .session x' → ∃ x, y.task n = .session x ∧ x'.self = x.self
  config : y'.service.config = y.service.config

variable {y y' : Deployment}

theorem Inner.refl (hy : Guarded y) : Inner y y := ⟨hy, fun _ x' h => ⟨x', h, rfl⟩, rfl⟩

theorem Inner.trans {y'' : Deployment} (h : Inner y y') (h' : Inner y' y'') : Inner y y'' := by
  refine ⟨h'.guarded, fun n x'' hx => ?_, h'.config.trans h.config⟩
  obtain ⟨x', hx', hself'⟩ := h'.sessions n x'' hx
  obtain ⟨x, hx, hself⟩ := h.sessions n x' hx'
  exact ⟨x, hx, hself'.trans hself⟩

theorem sessions_of_change {new : Option Session} (h : Change y new y') {n : TaskId} {x' : Session}
    (hx : y'.task n = .session x') :
    (∃ x, y.task n = .session x ∧ x'.self = x.self) ∨ new = some x' := by
  cases h with
  | still h => exact .inl ⟨x', (h.sessions n x').1 hx, rfl⟩
  | shift m z z' hz h hat =>
    by_cases hn : n = m
    · subst hn
      rw [h.after] at hx
      cases hx
      exact .inl ⟨z, hz, (h.self z hz).symm⟩
    · exact .inl ⟨x', (h.others n x' hn).1 hx, rfl⟩
  | opened m z hm _ h =>
    by_cases hn : n = m
    · subst hn
      rw [h.after] at hx
      cases hx
      exact .inr rfl
    · exact .inl ⟨x', (h.others n x' hn).1 hx, rfl⟩

/-- A change by which nobody loses a place, and whoever is let in takes part, keeps a deployment guarded. -/
theorem Guarded.change (hy : Guarded y) {new : Option Session} (h : Change y new y')
    (hnew : ∀ x, new = some x → (x.room ≠ "" ∧ Text.trim x.room = x.room) ∧
      y'.service.store.takesPart x.room x.user = true)
    (hstore : ∀ p ∈ y.service.store.participants, p ∈ y'.service.store.participants)
    (hspeech : y'.Says (Vouched y'.service.store)) :
    Guarded y' := by
  refine ⟨hy.tended.change h, fun n x' hx => ?_, fun n x' hx => ?_, hspeech⟩
  · rcases sessions_of_change h hx with ⟨x, hx, hself⟩ | hn
    · obtain ⟨-, -, hroom, -⟩ := Session.self_eq_iff.1 hself
      rw [hroom]
      exact hy.named n x hx
    · exact (hnew x' hn).1
  · rcases sessions_of_change h hx with ⟨x, hx, hself⟩ | hn
    · obtain ⟨-, -, hroom, huser⟩ := Session.self_eq_iff.1 hself
      rw [hroom, huser]
      exact takesPart_iff.2 (hstore _ (takesPart_iff.1 (hy.takesPart n x hx)))
    · exact (hnew x' hn).2

theorem Inner.of_change (hy : Guarded y) (h : Change y none y')
    (hstore : ∀ p ∈ y.service.store.participants, p ∈ y'.service.store.participants)
    (hconfig : y'.service.config = y.service.config) (hspeech : y'.Says (Vouched y'.service.store)) : Inner y y' := by
  refine ⟨hy.change h nofun hstore hspeech, fun n x' hx => ?_, hconfig⟩
  rcases sessions_of_change h hx with h | h
  · exact h
  · cases h

theorem Inner.of_books (hy : Guarded y) (h : Change y none y') (hb : y.service.SameBooks y'.service)
    (hspeech : y'.Says (Vouched y.service.store)) : Inner y y' := by
  refine .of_change hy h (fun p hp => ?_) hb.config ?_
  · rw [hb.store]
    exact hp
  · rw [hb.store]
    exact hspeech

theorem inner_turn (hy : Guarded y) (u : Turn) : Inner y (y.turn u) :=
  .of_books hy (hy.tended.change_turn u) (y.books_turn u)
    (hy.vouched.turn (fun n x hx => entitled_vouched (hy.takesPart n x hx)) u)

theorem inner_reaches (hy : Guarded y) (h : Reaches y y') : Inner y y' :=
  h.induct (motive := Inner y) (fun _ u h => h.trans (inner_turn h.guarded u)) (.refl hy)

theorem inner_spawn (hy : Guarded y) {a : Activity} (ha : Only (Vouched y.service.store) a.text?) :
    Inner y (y.spawn (.activity a)).2 :=
  .of_books hy (.still (.spawn y (by simp) (by simp))) ⟨rfl, rfl⟩ (hy.vouched.spawn ha)

theorem inner_serve (hy : Guarded y) (hub : Nat) (r : Request) : Inner y (y.serve hub r) := by
  generalize hd : Route.answer y.service hub r = done
  have hm : Mild (Vouched done.2.store) y.service done := by
    rw [← hd]
    exact Route.answer_mild (public_vouched _) _ _ _
  have h₁ : Inner y { y with service := done.2 } := by
    refine .of_change hy (.still (.service y ⟨hm.hubs, by rw [hm.connections], fun c => ?_⟩)) hm.store hm.config ?_
    · rw [Service.connection, hm.connections]
      rfl
    · exact (hy.vouched.mono fun _ => Vouched.mono hm.store).withService
        ((hy.vouched.mono fun _ => Vouched.mono hm.store).service.congr hm.line hm.connections)
  unfold Deployment.serve
  rw [hd]
  cases ha : done.1.apart with
  | none =>
    cases hb : done.1.before with
    | none => simp only [ha, hb]; exact h₁
    | some b => simp only [ha, hb]; exact h₁.trans (inner_spawn h₁.guarded (hm.before b hb))
  | some a =>
    have h₂ := h₁.trans (inner_spawn h₁.guarded (hm.apart a ha))
    cases hb : done.1.before with
    | none => simp only [ha, hb]; exact h₂
    | some b => simp only [ha, hb]; exact h₂.trans (inner_spawn h₂.guarded (hm.before b hb))

theorem inner_feed (hy : Guarded y) (n : TaskId) (i : Item) : Inner y (y.feed n i) :=
  .of_books hy (hy.tended.change_feed n i) (y.books_feed n i) (hy.vouched.feed n i)

theorem inner_abort (hy : Guarded y) (n : TaskId) : Inner y (y.abort n) :=
  .of_books hy (hy.tended.change_abort n) (y.books_abort n) (hy.vouched.abort n)

theorem inner_store (hy : Guarded y) {m : MemoryStore} (hm : ∀ p ∈ y.service.store.participants, p ∈ m.participants) :
    Inner y { y with service := { y.service with store := m } } := by
  refine .of_change hy (.still (.service y ⟨rfl, rfl, fun _ => rfl⟩)) hm rfl ?_
  have h := hy.vouched.mono fun _ => Vouched.mono hm
  exact h.withService (h.service.congr rfl rfl)

theorem inner_calendar (hy : Guarded y) (t : Timestamp) :
    Inner y { y with service := { y.service with clock := { y.service.clock with time := t } } } :=
  .of_books hy (.still (.service y ⟨rfl, rfl, fun _ => rfl⟩))
  ⟨rfl, rfl⟩ (hy.vouched.withService (hy.vouched.service.congr rfl rfl))

theorem inner_transport (hy : Guarded y) (c : ConnId) (sink : Sink) :
    Inner y { y with service := y.service.updateConnection c fun conn => { conn with sink } } :=
  .of_books hy (.still (.service y (.updateConnection _ c _ rfl))) ⟨rfl, rfl⟩
    (hy.vouched.withService (hy.vouched.service.updateConnection c _ rfl))

/-- A request over a transport that can be upgraded, for anything else than an upgrade. -/
theorem inner_request (hy : Guarded y) (hub : Nat) {r : Request} (hp : Route.Path.ofText? r.path ≠ some .upgrade) :
    Inner y (upgrade { deployment := y } hub r).2.deployment := by
  rw [upgrade_of_ne _ hub hp]
  have h := inner_serve hy hub (arriving r)
  exact h.trans (inner_reaches h.guarded (request_reaches { deployment := y } hub (arriving r)))

/-! ### Letting in -/

theorem guarded_openSession (hy : Guarded y) {hub : Nat} (hh : hub < y.service.hubs.size) {r : Request}
    {room user : String}
    (h : Admits y.service r room user) (sink : Sink) : Guarded (y.openSession hub room user sink).2.2 := by
  refine hy.change (hy.tended.change_openSession hh room user sink) (fun x hx => ?_) (fun _ hp => hp)
    (hy.vouched.openSession hub room user sink)
  cases hx
  exact ⟨Access.roomOf?_spec h.2.named, h.2.takesPart⟩

end Gateway

end Parley
