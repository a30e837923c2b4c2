import Parley.Proofs.Delivery.Deeds
import Parley.Proofs.Presence.Said

/-!
# Whose presence is whose

A presence record has one key for a room and a person, in which a colon stands between the two. Names
are free and may have colons, so a key may be read with its room ending at an earlier colon or a later
one: `Blurred` pairs are different and have one key.

* `presenceKey_eq_iff`: two pairs have one key exactly if they are the same or blurred.
* `course_sameStatus`: what is read of a person is left as it is by every announcement of a person with
  another key, whatever the broker refuses and whatever else happens that leaves it as it is.
* `presence_independent_iff`: an announcement never changes what is read of another person exactly if
  the two are not blurred. They never are where rooms have no colon in their names
  (`independent_of_no_colon`).
-/

namespace Parley

open Hub

/-! ### Keys -/

/-- The second room goes on after a colon with what the first person's name begins with, up to a colon
and the second person's name. -/
def Blurred (room user room' user' : String) : Prop :=
  ∃ w, room' = room ++ ":" ++ w ∧ user = w ++ ":" ++ user'

/-- Different pairs of a room and a person that are not blurred. -/
structure Apart (room user room' user' : String) : Prop where
  ne : (room, user) ≠ (room', user')
  left : ¬ Blurred room user room' user'
  right : ¬ Blurred room' user' room user

section Keys

variable {room user room' user' : String}

theorem presenceKey_toList (room user : String) :
    (presenceKey room user).toList = "presence:".toList ++ (room.toList ++ ':' :: user.toList) := by
  simp [presenceKey]

theorem presenceKey_eq_of_blurred (h : Blurred room user room' user') :
    presenceKey room user = presenceKey room' user' := by
  obtain ⟨w, rfl, rfl⟩ := h
  simp only [presenceKey, String.append_assoc]

/-- Of two rooms of one key that are different, the longer one goes on after a colon. -/
theorem blurred_of_append {ws : List Char} (hroom : room'.toList = room.toList ++ ws)
    (huser : ':' :: user.toList = ws ++ ':' :: user'.toList) :
    (room, user) = (room', user') ∨ Blurred room user room' user' := by
  cases ws with
  | nil =>
    left
    simp only [List.append_nil, List.nil_append, List.cons.injEq, true_and] at hroom huser
    rw [String.toList_inj.1 hroom, String.toList_inj.1 huser]
  | cons c ws =>
    right
    obtain ⟨rfl, hrest⟩ := List.cons.inj huser
    exact ⟨String.ofList ws, String.toList_inj.1 (by simp [hroom]), String.toList_inj.1 (by simp [hrest])⟩

/-- **One key.** Two pairs have the same key exactly if they are the same pair or blurred. -/
theorem presenceKey_eq_iff : presenceKey room user = presenceKey room' user' ↔ ¬ Apart room user room' user' := by
  constructor
  · intro h hapart
    rw [← String.toList_inj, presenceKey_toList, presenceKey_toList, List.append_cancel_left_eq] at h
    rcases List.append_eq_append_iff.1 h with ⟨ws, hroom, huser⟩ | ⟨ws, hroom, huser⟩
    · exact (blurred_of_append hroom huser).elim hapart.ne hapart.left
    · exact (blurred_of_append hroom huser).elim (Ne.symm hapart.ne) hapart.right
  · intro h
    by_contra hkey
    refine h ⟨fun he => ?_, fun hb => hkey (presenceKey_eq_of_blurred hb),
      fun hb => hkey (presenceKey_eq_of_blurred hb).symm⟩
    obtain ⟨rfl, rfl⟩ := Prod.mk.inj he
    exact hkey rfl

/-- Rooms without colons in their names keep all persons apart, whatever these are called. -/
theorem apart_of_no_colon (hroom : ':' ∉ room.toList) (hroom' : ':' ∉ room'.toList)
    (h : (room, user) ≠ (room', user')) : Apart room user room' user' := by
  refine ⟨h, ?_, ?_⟩
  · rintro ⟨w, rfl, -⟩
    simp at hroom'
  · rintro ⟨w, rfl, -⟩
    simp at hroom

end Keys

/-! ### Answers on the line -/

namespace Broker.Line

variable {l l' : Line} {key : String}

theorem find?_erase_of_neg {α : Type} [DecidableEq α] {p : α → Bool} {a : α} (h : p a = false) (l : List α) :
    (l.erase a).find? p = l.find? p := by
  induction l with
  | nil => rfl
  | cons b l ih =>
    rw [List.erase_cons]
    split
    · rename_i hb
      rw [beq_iff_eq.1 hb, List.find?_cons, h]
    · rw [List.find?_cons, List.find?_cons, ih]

/-- How the next call of a kind is to fail, if it is planned to. -/
def planned (l : Line) (kind : CallKind) : Option Error :=
  ((l.plans.find? (·.kind == kind)).bind (·.failure)).map (⟨·, l.said⟩)

theorem call_fst {α : Type} (l : Line) (now : Instant) (c : Call) (run : MemoryBroker → Except Error α × MemoryBroker) :
    (l.call now c run).1 = ((l.planned c.kind).map Except.error).getD (run l.broker).1 := by
  unfold call takePlan planned
  cases hp : l.plans.find? (·.kind == c.kind) with
  | none => simp
  | some p => cases hf : p.failure <;> simp [hf]

/-- A call of one kind leaves the next call of another kind planned as it was. -/
theorem planned_call {α : Type} (l : Line) (now : Instant) {c : Call} {kind : CallKind} (hc : c.kind ≠ kind)
    (run : MemoryBroker → Except Error α × MemoryBroker) : (l.call now c run).2.planned kind = l.planned kind := by
  unfold call takePlan planned
  cases hp : l.plans.find? (·.kind == c.kind) with
  | none => rfl
  | some p =>
    have hkind : p.kind = c.kind := by simpa using List.find?_some hp
    have hne : (p.kind == kind) = false := by rw [hkind]; exact beq_false_of_ne hc
    simp only [find?_erase_of_neg (p := fun q : Plan => q.kind == kind) hne]

/-- Two lines on which the same is read under a key, whenever it is. -/
structure SameAnswers (key : String) (l l' : Line) : Prop where
  planned : l'.planned .get = l.planned .get
  available : l'.broker.available = l.broker.available
  peek : l'.broker.peek key = l.broker.peek key

/-- A call that is no read, and after which the broker has the same under the key. -/
theorem sameAnswers_call {α : Type} (l : Line) (now : Instant) {c : Call} (hc : c.kind ≠ .get)
    {run : MemoryBroker → Except Error α × MemoryBroker} (ha : (run l.broker).2.available = l.broker.available)
    (hp : (run l.broker).2.peek key = l.broker.peek key) : SameAnswers key l (l.call now c run).2 := by
  refine ⟨l.planned_call now hc run, ?_, ?_⟩ <;>
    rcases l.call_cases now c run with ⟨_, _, hb⟩ | ⟨_, hb⟩ <;> rw [hb]
  · exact ha
  · exact hp

/-- What is read is settled by the next plan for a read and by what stands under the key. -/
theorem SameAnswers.get_fst (h : SameAnswers key l l') (now : Instant) : (l'.get now key).1 = (l.get now key).1 := by
  have hget : (l'.broker.get now key).1 = (l.broker.get now key).1 := by
    cases ha : l.broker.available with
    | true => rw [MemoryBroker.get_fst now key ha, MemoryBroker.get_fst now key (h.available.trans ha), h.peek]
    | false => simp [MemoryBroker.get, h.available, ha]
  have hplanned : l'.planned (Call.kind (.get key)) = l.planned (Call.kind (.get key)) := h.planned
  rw [get, get, call_fst, call_fst, hplanned, hget]

end Broker.Line

/-! ### Announcements -/

/-- What is read of a person in a room is the same in both services, whenever it is read. -/
def SameStatus (room user : String) (s t : Service) : Prop :=
  ∀ now, (readStatus { t with now } room user).1 = (readStatus { s with now } room user).1

namespace SameStatus

variable {room user : String} {s t u : Service}

theorem readStatus_line (s : Service) (now : Instant) : (readStatus { s with now } room user).1 =
    s.line.bind fun l => (l.get now (presenceKey room user)).1.toOption.join := by
  unfold readStatus Service.onLine
  cases s.line with
  | none => rfl
  | some l =>
    simp only [Option.map_some, Option.bind_some]
    rcases (l.get now (presenceKey room user)).1 with _ | _ <;> rfl

theorem of_line (h : t.line = s.line) : SameStatus room user s t := by
  intro now
  rw [readStatus_line, readStatus_line, h]

theorem refl (s : Service) : SameStatus room user s s := of_line rfl

theorem trans (h : SameStatus room user s t) (h' : SameStatus room user t u) : SameStatus room user s u :=
  fun now => (h' now).trans (h now)

theorem of_sameAnswers {l l' : Broker.Line} (hs : s.line = some l) (ht : t.line = some l')
    (h : l.SameAnswers (presenceKey room user) l') : SameStatus room user s t := by
  intro now
  rw [readStatus_line, readStatus_line, hs, ht, Option.bind_some, Option.bind_some, h.get_fst]

end SameStatus

namespace Hub.Activity

variable {room user : String} {s t : Service} {a a' : Activity}

/-- What the activity still has to record, if anything, is recorded under another key. -/
def Elsewhere (key : String) (a : Activity) : Prop :=
  ∀ post user status, a = .recording post user status → presenceKey post.room user ≠ key

/-- A record under another key, or a publish, changes nothing under the key. -/
theorem step_sameStatus {choice : Choice} (ha : a.Elsewhere (presenceKey room user))
    (h : a.step s choice = some (a', t)) :
    SameStatus room user s t ∧ a'.Elsewhere (presenceKey room user) := by
  have publish (l : Broker.Line) (hl : s.line = some l) (m : Broker.Message) :
      SameStatus room user s { s with line := some (l.publish s.now m).2 } :=
    .of_sameAnswers hl rfl (l.sameAnswers_call s.now (by simp [Broker.Call.kind]) (l.broker.publish_available m)
      (MemoryBroker.peek_of_records (l.broker.records_publish m)))
  cases step_spec h with
  | record l hl post user' status =>
    refine ⟨.of_sameAnswers hl rfl
      (l.sameAnswers_call s.now (by simp [Broker.Call.kind]) ?_ ?_), by simp [Elsewhere]⟩ <;>
      unfold MemoryBroker.setEx <;> split
    · rfl
    · rfl
    · rw [MemoryBroker.peek_put, if_neg (Ne.symm (ha post user' status rfl))]
    · rfl
  | unrecorded | direct | unwritable | resume | delivered => exact ⟨.refl s, by simp [Elsewhere]⟩
  | accepted l hl post n text he hp => exact ⟨publish l hl _, by simp [Elsewhere]⟩
  | exhausted l hl post n text he e hp => exact ⟨publish l hl _, by simp [Elsewhere]⟩
  | again l hl post n text he e hp next instant => exact ⟨publish l hl _, by simp [Elsewhere]⟩
  | unending l hl post n text he e hp => exact ⟨publish l hl _, by simp [Elsewhere]⟩
  | deliver f f' t r hf => exact ⟨.of_line hf.line, by simp [Elsewhere]⟩

/-- **Every run.** Between the steps anything may happen that leaves what is read as it is. -/
theorem course_sameStatus {ds : List Deed} (ha : a.Elsewhere (presenceKey room user))
    (h : Course (SameStatus room user) s a ds a' t) : SameStatus room user s t := by
  induction h with
  | refl s a => exact .refl s
  | own choice hstep _ ih =>
    obtain ⟨hsame, ha⟩ := step_sameStatus ha hstep
    exact hsame.trans (ih ha)
  | other hother _ ih => exact SameStatus.trans hother (ih ha)

end Hub.Activity

/-- Whoever announces the first person, in whatever state of the service and with whatever status: up
to every moment of the announcement, what is read of the second person is what it was, unless something
else has changed it. -/
def Independent (room user room' user' : String) : Prop :=
  ∀ (s : Service) (hub : Nat) (status : Option String) (ds : List Deed) (a : Activity) (t : Service),
    Activity.Course (SameStatus room' user') (Activity.announce s hub room user status).2
      (Activity.announce s hub room user status).1 ds a t → SameStatus room' user' s t

section Independent

variable {room user room' user' : String}

theorem independent_of_key_ne (h : presenceKey room user ≠ presenceKey room' user') :
    Independent room user room' user' := by
  intro s hub status ds a t hcourse
  have hclock : SameStatus room' user' s (Activity.announce s hub room user status).2 := .of_line rfl
  refine hclock.trans (Activity.course_sameStatus ?_ hcourse)
  rintro post user₀ status₀ ⟨⟩
  exact h

/-- Under one key, recording the first person as away records the second one so. -/
theorem not_independent_of_key_eq (h : presenceKey room user = presenceKey room' user') :
    ¬ Independent room user room' user' := by
  intro hind
  let key := presenceKey room' user'
  let fresh : Service := { line := some {} }
  let recorded : Broker.Line := (({} : Broker.Line).setEx 0 key "away" presenceLife).2
  let post : Post := ⟨0, room, .presence, .ok (Envelope.presence room user fresh.readClock.1 "away").text⟩
  have hstep : (Activity.recording post user "away").step fresh.readClock.2 default =
      some (.attempting post 1, { fresh.readClock.2 with line := some recorded }) := by
    rw [show recorded = (({} : Broker.Line).setEx 0 (presenceKey room user) "away" presenceLife).2 by rw [h]]
    rfl
  have hsame := hind fresh 0 (some "away") _ _ _ (.own default hstep (.refl _ _)) 0
  have hread : (recorded.get 0 key).1 = .ok (some "away") := by
    have hget := MemoryBroker.get_fst 0 key (b := recorded.broker) rfl
    rw [show recorded.broker = ({} : MemoryBroker).put key ⟨"away", presenceLife.nanos⟩ from rfl,
      MemoryBroker.peek_put, if_pos rfl] at hget
    rw [Broker.Line.get, Broker.Line.call_fst]
    exact hget
  rw [SameStatus.readStatus_line, SameStatus.readStatus_line, Option.bind_some, hread] at hsame
  cases hsame

/-- Where rooms have no colon in their names, the presence of one person never tells on that of another. -/
theorem independent_of_no_colon (hroom : ':' ∉ room.toList) (hroom' : ':' ∉ room'.toList)
    (h : (room, user) ≠ (room', user')) : Independent room user room' user' :=
  independent_of_key_ne fun hkey => presenceKey_eq_iff.1 hkey (apart_of_no_colon hroom hroom' h)

end Independent

/-- **Whose presence is whose.** Two pairs share a key exactly if they are not apart, and an announcement
of the first leaves what is read of the second as it is, in every run from every state, exactly if they
are: distinct pairs are confused if and only if the name of one's room goes on, after a colon, with what
the other's name begins with. -/
theorem presence_independent_iff (room user room' user' : String) :
    (presenceKey room user = presenceKey room' user' ↔ ¬ Apart room user room' user') ∧
    (Independent room user room' user' ↔ Apart room user room' user') := by
  refine ⟨presenceKey_eq_iff, fun h => ?_, fun h => independent_of_key_ne fun hkey => presenceKey_eq_iff.1 hkey h⟩
  by_contra hnot
  exact not_independent_of_key_eq (presenceKey_eq_iff.2 hnot) h

/-- Announcing `c` in `a:b` tells of `b:c` in `a`, who is somebody else. -/
theorem presence_blurred : ("a:b", "c") ≠ ("a", "b:c") ∧ presenceKey "a:b" "c" = presenceKey "a" "b:c" ∧
    ¬ Independent "a:b" "c" "a" "b:c" :=
  have hkey : presenceKey "a:b" "c" = presenceKey "a" "b:c" := by decide
  ⟨by decide, hkey, not_independent_of_key_eq hkey⟩

end Parley
