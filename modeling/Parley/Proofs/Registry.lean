import Mathlib.Data.Finset.Card
import Mathlib.Data.Finset.Image
import Parley.Proofs.Service

/-!
# A registry as a set of connections

A registry keeps its connections by their rooms, and a room goes with the last of its connections. Seen from outside it
is a plain set: `Call.apply` is what a call does to the set, and `Reflects` says that a registry is such a set, grouped
by rooms.

* `Groups` is the invariant, with a lemma for each of the two operations that change a registry.
* `Groups.reflects` reads off it everything that a registry can be asked.
* `refines_set` puts them together for calls in any order, each with its answer.
-/

namespace Parley.Hub

/-- A connection as a registry is told of it: its number, its own room, and whose it is. -/
structure Entrant where
  id : ConnId
  room : String
  user : String
deriving DecidableEq, Repr

def Entrant.member (e : Entrant) : Member := ⟨e.id, e.user⟩

namespace Registry

/-! ### Calls -/

inductive Call where
  | add (e : Entrant)
  /-- Removes a connection from a room, which need not be its own. -/
  | remove (room : String) (e : Entrant)
  | snapshot (room : String)
deriving DecidableEq, Repr

inductive Answer where
  | added
  /-- Whether the connection was there. -/
  | removed (found : Bool)
  | listed (cs : List ConnId)
deriving DecidableEq, Repr

namespace Call

def perform (r : Registry) : Call → Answer × Registry
  | .add e => (.added, r.add e.room e.member)
  | .remove room e => (.removed (r.remove room e.id).1, (r.remove room e.id).2)
  | .snapshot room => (.listed (r.snapshot room), r)

/-- What a call does to a set of connections: one that is added is in it, one that is removed from its own room is
not. -/
def apply (S : Finset Entrant) : Call → Finset Entrant
  | .add e => insert e S
  | .remove room e => if e ∈ S ∧ room = e.room then S.erase e else S
  | .snapshot _ => S

def subject? : Call → Option Entrant
  | .add e | .remove _ e => some e
  | .snapshot _ => none

end Call

def after (calls : List Call) : Registry := calls.foldl (fun r c => (c.perform r).2) {}

def standing (calls : List Call) : Finset Entrant := calls.foldl Call.apply ∅

def answers (r : Registry) : List Call → List Answer
  | [] => []
  | c :: rest => (c.perform r).1 :: answers (c.perform r).2 rest

/-- The connections that calls are about have numbers of their own. -/
def Apart (calls : List Call) : Prop :=
  ∀ e ∈ calls.filterMap Call.subject?, ∀ f ∈ calls.filterMap Call.subject?, e.id = f.id → e = f

instance (calls : List Call) : Decidable (Apart calls) := by
  unfold Apart
  infer_instance

/-! ### The rooms of a registry -/

variable {r : Registry} {S : Finset Entrant} {e : Entrant} {room : String}

theorem nodup_rooms_setMembers (h : (r.rooms.map Prod.fst).Nodup) (room : String) (ms : List Member) :
    ((r.setMembers room ms).rooms.map Prod.fst).Nodup := by
  have others : ((r.rooms.filter (·.1 != room)).map Prod.fst).Nodup := h.sublist (List.filter_sublist.map Prod.fst)
  unfold setMembers
  cases ms with
  | nil => exact others
  | cons m ms =>
    refine List.nodup_cons.mpr ⟨fun hmem => ?_, others⟩
    obtain ⟨p, hp, hroom⟩ := List.mem_map.mp hmem
    exact bne_iff_ne.mp (List.mem_filter.mp hp).2 hroom

theorem mem_rooms_of_lookup {ms : List Member} (h : r.rooms.lookup room = some ms) : (room, ms) ∈ r.rooms := by
  obtain ⟨before, rest, heq, -⟩ := List.lookup_eq_some_iff.mp h
  rw [heq]
  exact List.mem_append_right before List.mem_cons_self

theorem Filled.lookup_eq (hr : r.Filled) (room : String) :
    r.rooms.lookup room = if r.members room = [] then none else some (r.members room) := by
  cases h : r.rooms.lookup room with
  | none => simp [members, h]
  | some ms => simp [members, h, hr _ (mem_rooms_of_lookup h)]

theorem Filled.mem_rooms_iff (hr : r.Filled) (room : String) : room ∈ r.rooms.map Prod.fst ↔ r.members room ≠ [] := by
  have hlookup := hr.lookup_eq room
  constructor
  · intro hmem
    obtain ⟨p, hp, rfl⟩ := List.mem_map.mp hmem
    have hsome : (r.rooms.lookup p.1).isSome = true := List.lookup_isSome_iff.mpr ⟨p, hp, beq_self_eq_true _⟩
    intro hnil
    rw [hlookup, if_pos hnil] at hsome
    cases hsome
  · intro hne
    rw [if_neg hne] at hlookup
    exact List.mem_map.mpr ⟨_, mem_rooms_of_lookup hlookup, rfl⟩

theorem members_remove_of_not_contains {id : ConnId} (h : r.contains room id = false) (other : String) :
    (r.remove room id).2.members other = r.members other := by
  by_cases hother : other = room
  · subst hother
    simp only [remove, members_setMembers]
    refine List.filter_eq_self.mpr fun m hm => bne_iff_ne.mpr fun hid => ?_
    have hfound : r.contains other id = true := List.any_eq_true.mpr ⟨m, hm, beq_iff_eq.mpr hid⟩
    rw [h] at hfound
    cases hfound
  · exact members_setMembers_of_ne r _ hother

/-! ### The grouping of a set -/

/-- A registry that lists the connections of a set by their rooms. -/
structure Groups (S : Finset Entrant) (r : Registry) : Prop where
  rooms : (r.rooms.map Prod.fst).Nodup
  filled : r.Filled
  once : ∀ room, (r.snapshot room).Nodup
  mem_members : ∀ room m, m ∈ r.members room ↔ ∃ e ∈ S, e.room = room ∧ e.member = m

theorem groups_empty : Groups ∅ {} where
  rooms := List.nodup_nil
  filled := List.forall_mem_nil _
  once _ := List.nodup_nil
  mem_members room m := by simp [members]

namespace Groups

theorem add (h : Groups S r) (hid : ∀ f ∈ S, f.id = e.id → f = e) : Groups (insert e S) (r.add e.room e.member) where
  rooms := nodup_rooms_setMembers h.rooms _ _
  filled := h.filled.setMembers _ _
  once room := Service.nodup_snapshot_add room e.member h.once e.room
  mem_members room m := by
    by_cases hroom : room = e.room
    · subst hroom
      rw [mem_members_add, h.mem_members]
      constructor
      · rintro (rfl | ⟨⟨f, hf, hroom, rfl⟩, -⟩)
        · exact ⟨e, Finset.mem_insert_self e S, rfl, rfl⟩
        · exact ⟨f, Finset.mem_insert_of_mem hf, hroom, rfl⟩
      · rintro ⟨f, hf, hroom, rfl⟩
        by_cases hfe : f.id = e.id
        · rcases Finset.mem_insert.mp hf with rfl | hf
          · exact .inl rfl
          · exact .inl (congrArg Entrant.member (hid f hf hfe))
        · rcases Finset.mem_insert.mp hf with rfl | hf
          · exact absurd rfl hfe
          · exact .inr ⟨⟨f, hf, hroom, rfl⟩, hfe⟩
    · rw [Registry.add, members_setMembers_of_ne r _ hroom, h.mem_members]
      constructor
      · rintro ⟨f, hf, hf'⟩
        exact ⟨f, Finset.mem_insert_of_mem hf, hf'⟩
      · rintro ⟨f, hf, hfroom, hm⟩
        rcases Finset.mem_insert.mp hf with rfl | hf
        · exact absurd hfroom.symm hroom
        · exact ⟨f, hf, hfroom, hm⟩

theorem contains_eq (h : Groups S r) (hid : ∀ f ∈ S, f.id = e.id → f = e) (room : String) :
    r.contains room e.id = decide (e ∈ S ∧ room = e.room) := by
  rw [Bool.eq_iff_iff, decide_eq_true_iff, contains, List.any_eq_true]
  constructor
  · rintro ⟨m, hm, hme⟩
    obtain ⟨f, hf, hroom, rfl⟩ := (h.mem_members room m).mp hm
    obtain rfl := hid f hf (beq_iff_eq.mp hme)
    exact ⟨hf, hroom.symm⟩
  · rintro ⟨he, hroom⟩
    exact ⟨e.member, (h.mem_members room _).mpr ⟨e, he, hroom.symm, rfl⟩, beq_self_eq_true _⟩

theorem congr (h : Groups S r) {r' : Registry} (hrooms : (r'.rooms.map Prod.fst).Nodup) (hfilled : r'.Filled)
    (hmembers : ∀ room, r'.members room = r.members room) : Groups S r' where
  rooms := hrooms
  filled := hfilled
  once room := by
    rw [snapshot, hmembers]
    exact h.once room
  mem_members room m := by
    rw [hmembers]
    exact h.mem_members room m

theorem remove (h : Groups S r) (hid : ∀ f ∈ S, f.id = e.id → f = e) (room : String) :
    Groups (Call.apply S (.remove room e)) (r.remove room e.id).2 := by
  have hrooms : ((r.remove room e.id).2.rooms.map Prod.fst).Nodup := nodup_rooms_setMembers h.rooms _ _
  have hfilled : (r.remove room e.id).2.Filled := h.filled.setMembers _ _
  simp only [Call.apply]
  by_cases hthere : e ∈ S ∧ room = e.room
  · rw [if_pos hthere]
    obtain ⟨-, rfl⟩ := hthere
    refine ⟨hrooms, hfilled, fun other => Service.nodup_snapshot_remove e.id other h.once e.room, fun other m => ?_⟩
    by_cases hother : other = e.room
    · subst hother
      rw [mem_members_remove, h.mem_members]
      constructor
      · rintro ⟨⟨f, hf, hroom, rfl⟩, hne⟩
        exact ⟨f, Finset.mem_erase.mpr ⟨fun hfe => hne (congrArg Entrant.id hfe), hf⟩, hroom, rfl⟩
      · rintro ⟨f, hf, hroom, rfl⟩
        obtain ⟨hne, hf⟩ := Finset.mem_erase.mp hf
        exact ⟨⟨f, hf, hroom, rfl⟩, fun hfe => hne (hid f hf hfe)⟩
    · rw [Registry.remove, members_setMembers_of_ne r _ hother, h.mem_members]
      constructor
      · rintro ⟨f, hf, hroom, hm⟩
        exact ⟨f, Finset.mem_erase.mpr ⟨fun hfe => hother (hfe ▸ hroom.symm), hf⟩, hroom, hm⟩
      · rintro ⟨f, hf, hf'⟩
        exact ⟨f, Finset.mem_of_mem_erase hf, hf'⟩
  · rw [if_neg hthere]
    have hnot : r.contains room e.id = false := by rw [h.contains_eq hid, decide_eq_false hthere]
    exact h.congr hrooms hfilled (members_remove_of_not_contains hnot)

end Groups

/-! ### What a registry can be asked -/

/-- The members of the rooms that are there. -/
def chart (r : Registry) (room : String) : Option (Finset Member) := (r.rooms.lookup room).map List.toFinset

/-- The members that a room has of a set of connections. -/
def mates (S : Finset Entrant) (room : String) : Finset Member := (S.filter (·.room = room)).image Entrant.member

/-- A set of connections by their rooms; a room without any is not there. -/
def grouping (S : Finset Entrant) (room : String) : Option (Finset Member) :=
  if mates S room = ∅ then none else some (mates S room)

/-- A registry is a set of connections, grouped by rooms, and answers as the set does. -/
structure Reflects (S : Finset Entrant) (r : Registry) : Prop where
  /-- As a map it is the grouping, each room being kept once, and none empty. -/
  chart : r.chart = grouping S
  rooms : (r.rooms.map Prod.fst).Nodup
  filled : ∀ p ∈ r.rooms, p.2 ≠ []
  /-- A connection is listed under its own room only, and there once. -/
  listed : ∀ e ∈ S, ∀ room, (r.members room).countP (·.id = e.id) = if room = e.room then 1 else 0
  snapshot : ∀ room, (r.snapshot room).Nodup ∧ ∀ c, c ∈ r.snapshot room ↔ ∃ e ∈ S, e.room = room ∧ e.id = c
  connectionCount : ∀ room, r.connectionCount room = (S.filter (·.room = room)).card
  roomCount : r.roomCount = (S.image Entrant.room).card
  userConnected : ∀ room user, r.userConnected room user = true ↔ ∃ e ∈ S, e.room = room ∧ e.user = user

namespace Groups

theorem mem_mates {m : Member} : m ∈ mates S room ↔ ∃ e ∈ S, e.room = room ∧ e.member = m := by
  simp only [mates, Finset.mem_image, Finset.mem_filter, and_assoc]

theorem toFinset_members (h : Groups S r) (room : String) : (r.members room).toFinset = mates S room := by
  ext m
  rw [List.mem_toFinset, h.mem_members, mem_mates]

theorem mem_snapshot (h : Groups S r) {c : ConnId} : c ∈ r.snapshot room ↔ ∃ e ∈ S, e.room = room ∧ e.id = c := by
  rw [Service.mem_snapshot]
  constructor
  · rintro ⟨m, hm, rfl⟩
    obtain ⟨e, he, hroom, rfl⟩ := (h.mem_members room m).mp hm
    exact ⟨e, he, hroom, rfl⟩
  · rintro ⟨e, he, hroom, rfl⟩
    exact ⟨e.member, (h.mem_members room _).mpr ⟨e, he, hroom, rfl⟩, rfl⟩

theorem chart_eq (h : Groups S r) : r.chart = grouping S := by
  funext room
  rw [chart, h.filled.lookup_eq, grouping, ← h.toFinset_members]
  by_cases hnil : r.members room = []
  · simp [hnil]
  · simp [hnil, List.toFinset_eq_empty_iff]

theorem count_eq (h : Groups S r) (hS : ∀ e ∈ S, ∀ f ∈ S, e.id = f.id → e = f) (he : e ∈ S) (room : String) :
    (r.members room).countP (·.id = e.id) = if room = e.room then 1 else 0 := by
  have hmap : (r.members room).countP (·.id = e.id) = (r.snapshot room).count e.id := by
    rw [snapshot, List.count, List.countP_map]
    rfl
  rw [hmap]
  by_cases hroom : room = e.room
  · rw [if_pos hroom]
    exact List.count_eq_one_of_mem (h.once room) (h.mem_snapshot.mpr ⟨e, he, hroom.symm, rfl⟩)
  · rw [if_neg hroom]
    refine List.count_eq_zero_of_not_mem fun hmem => ?_
    obtain ⟨f, hf, hfroom, hid⟩ := h.mem_snapshot.mp hmem
    exact hroom (by rw [← hfroom, hS f hf e he hid])

theorem connectionCount_eq (h : Groups S r) (hS : ∀ e ∈ S, ∀ f ∈ S, e.id = f.id → e = f) (room : String) :
    r.connectionCount room = (S.filter (·.room = room)).card := by
  have hnodup : (r.members room).Nodup := (h.once room).of_map _
  have hinj : Set.InjOn Entrant.member (S.filter (·.room = room)) := fun e he f hf heq =>
    hS e (Finset.mem_of_mem_filter e he) f (Finset.mem_of_mem_filter f hf) (congrArg Member.id heq)
  rw [connectionCount, ← List.toFinset_card_of_nodup hnodup, h.toFinset_members, mates, Finset.card_image_of_injOn hinj]

theorem roomCount_eq (h : Groups S r) : r.roomCount = (S.image Entrant.room).card := by
  have hrooms : (r.rooms.map Prod.fst).toFinset = S.image Entrant.room := by
    ext room
    rw [List.mem_toFinset, h.filled.mem_rooms_iff, Finset.mem_image]
    constructor
    · intro hne
      obtain ⟨m, hm⟩ := List.exists_mem_of_ne_nil _ hne
      obtain ⟨e, he, hroom, -⟩ := (h.mem_members room m).mp hm
      exact ⟨e, he, hroom⟩
    · rintro ⟨e, he, hroom⟩
      exact List.ne_nil_of_mem ((h.mem_members room e.member).mpr ⟨e, he, hroom, rfl⟩)
  rw [← hrooms, List.toFinset_card_of_nodup h.rooms, List.length_map, roomCount]

theorem userConnected_iff (h : Groups S r) (room user : String) :
    r.userConnected room user = true ↔ ∃ e ∈ S, e.room = room ∧ e.user = user := by
  rw [userConnected, List.any_eq_true]
  constructor
  · rintro ⟨m, hm, huser⟩
    obtain ⟨e, he, hroom, rfl⟩ := (h.mem_members room m).mp hm
    exact ⟨e, he, hroom, beq_iff_eq.mp huser⟩
  · rintro ⟨e, he, hroom, rfl⟩
    exact ⟨e.member, (h.mem_members room _).mpr ⟨e, he, hroom, rfl⟩, beq_self_eq_true _⟩

theorem reflects (h : Groups S r) (hS : ∀ e ∈ S, ∀ f ∈ S, e.id = f.id → e = f) : Reflects S r where
  chart := h.chart_eq
  rooms := h.rooms
  filled := h.filled
  listed _ he := h.count_eq hS he
  snapshot room := ⟨h.once room, fun _ => h.mem_snapshot⟩
  connectionCount := h.connectionCount_eq hS
  roomCount := h.roomCount_eq
  userConnected := h.userConnected_iff

end Groups

/-! ### Calls in any order -/

variable {calls : List Call} {c : Call}

theorem after_append_singleton (calls : List Call) (c : Call) : after (calls ++ [c]) = (c.perform (after calls)).2 := by
  simp [after]

theorem standing_append_singleton (calls : List Call) (c : Call) :
    standing (calls ++ [c]) = c.apply (standing calls) := by
  simp [standing]

theorem Apart.of_prefix {earlier : List Call} (h : Apart calls) (hp : earlier <+: calls) : Apart earlier := by
  have hsub : (earlier.filterMap Call.subject?).Sublist (calls.filterMap Call.subject?) := hp.sublist.filterMap _
  exact fun e he f hf => h e (hsub.subset he) f (hsub.subset hf)

/-- Whoever is in the set was the subject of a call. -/
theorem mem_subjects_of_mem_standing (h : e ∈ standing calls) : e ∈ calls.filterMap Call.subject? := by
  induction calls using List.reverseRecOn with
  | nil => simp [standing] at h
  | append_singleton calls c ih =>
    rw [standing_append_singleton] at h
    rw [List.filterMap_append, List.mem_append]
    cases c with
    | add f =>
      rcases Finset.mem_insert.mp h with rfl | h
      · exact .inr (by simp [Call.subject?])
      · exact .inl (ih h)
    | remove room f =>
      simp only [Call.apply] at h
      split at h
      · exact .inl (ih (Finset.mem_of_mem_erase h))
      · exact .inl (ih h)
    | snapshot room => exact .inl (ih h)

theorem Apart.standing (h : Apart calls) : ∀ e ∈ standing calls, ∀ f ∈ Registry.standing calls, e.id = f.id → e = f :=
  fun e he f hf => h e (mem_subjects_of_mem_standing he) f (mem_subjects_of_mem_standing hf)

/-- A connection with the number of one that the next call is about is that one. -/
theorem Apart.eq_subject (h : Apart (calls ++ [c])) (hc : c.subject? = some e) :
    ∀ f ∈ Registry.standing calls, f.id = e.id → f = e := by
  intro f hf
  have hmem : e ∈ (calls ++ [c]).filterMap Call.subject? := by simp [hc]
  refine h f ?_ e hmem
  rw [List.filterMap_append]
  exact List.mem_append_left _ (mem_subjects_of_mem_standing hf)

/-- **Every run.** The registry that calls leave groups the set that they leave. -/
theorem groups_after (h : Apart calls) : Groups (standing calls) (after calls) := by
  induction calls using List.reverseRecOn with
  | nil => exact groups_empty
  | append_singleton calls c ih =>
    have hbefore := ih (h.of_prefix (List.prefix_append calls [c]))
    rw [standing_append_singleton, after_append_singleton]
    cases c with
    | add e => exact hbefore.add (h.eq_subject rfl)
    | remove room e => exact hbefore.remove (h.eq_subject rfl) room
    | snapshot room => exact hbefore

theorem getElem?_answers (r : Registry) (calls : List Call) (k : Nat) :
    (answers r calls)[k]? = calls[k]?.map fun c =>
    (c.perform ((calls.take k).foldl (fun r c => (c.perform r).2) r)).1 := by
  induction calls generalizing r k with
  | nil => rfl
  | cons c rest ih =>
    cases k with
    | zero => rfl
    | succ k => exact ih _ k

/-- What a call is answered where the set is `S`. -/
def Call.Answered (S : Finset Entrant) (a : Answer) : Call → Prop
  | .add _ => a = .added
  | .remove room e => a = .removed (decide (e ∈ S ∧ room = e.room))
  | .snapshot room => ∃ cs, a = .listed cs ∧ cs.Nodup ∧ ∀ c, c ∈ cs ↔ ∃ e ∈ S, e.room = room ∧ e.id = c

/-- What is so of calls on a registry that was empty. -/
structure Refines (calls : List Call) : Prop where
  /-- The registry they leave is the set they leave, grouped by rooms. -/
  reflects : Reflects (standing calls) (after calls)
  /-- Every answer, once it is given, tells of the set at that time, whatever calls come after it. -/
  answered : ∀ k (c : Call), calls[k]? = some c →
    ∃ a, (answers {} calls)[k]? = some a ∧ c.Answered (standing (calls.take k)) a
  /-- A removal of what is not there, or from a room that is not its own, changes nothing. -/
  unchanged : ∀ k room e, calls[k]? = some (.remove room e) → ¬ (e ∈ standing (calls.take k) ∧ room = e.room) →
    (after (calls.take (k + 1))).chart = (after (calls.take k)).chart

theorem Groups.answered (h : Groups S r) (c : Call) (hid : ∀ e, c.subject? = some e → ∀ f ∈ S, f.id = e.id → f = e) :
    c.Answered S (c.perform r).1 := by
  cases c with
  | add e => rfl
  | remove room e => exact congrArg Answer.removed (h.contains_eq (hid e rfl) room)
  | snapshot room => exact ⟨_, rfl, h.once room, fun _ => h.mem_snapshot⟩

theorem take_succ_of_getElem? {k : Nat} (hk : calls[k]? = some c) : calls.take (k + 1) = calls.take k ++ [c] := by
  rw [List.take_add_one, hk, Option.toList_some]

/-- **The registry is a set.** Whatever is added, removed and asked for, in any order, repeats and wrong rooms
included: where distinct connections have distinct numbers, the registry is the plain set of connections grouped by
rooms, and every call is answered as the set answers it. -/
theorem refines_set (calls : List Call) (h : Apart calls) : Refines calls where
  reflects := (groups_after h).reflects h.standing
  answered k c hk := by
    have hgroups := groups_after (h.of_prefix (List.take_prefix k calls))
    have hnext : Apart (calls.take k ++ [c]) := by
      rw [← take_succ_of_getElem? hk]
      exact h.of_prefix (List.take_prefix (k + 1) calls)
    refine ⟨_, ?_, hgroups.answered c fun e he => hnext.eq_subject he⟩
    rw [getElem?_answers, hk]
    rfl
  unchanged k room e hk hnot := by
    have hbefore := groups_after (h.of_prefix (List.take_prefix k calls))
    have hbehind := groups_after (h.of_prefix (List.take_prefix (k + 1) calls))
    have hsame : standing (calls.take (k + 1)) = standing (calls.take k) := by
      rw [take_succ_of_getElem? hk, standing_append_singleton, Call.apply, if_neg hnot]
    rw [hbehind.chart_eq, hbefore.chart_eq, hsame]

/-- Two devices of one person in a room: one is added twice and removed from another room first, a list is taken,
and then the first device leaves for good. -/
def twoDevices : List Call :=
  let phone : Entrant := ⟨0, "r", "ann"⟩
  let desk : Entrant := ⟨1, "r", "ann"⟩
  [.add phone, .add desk, .remove "q" phone, .add phone, .snapshot "r", .remove "r" phone, .remove "r" phone]

theorem refines_set_twoDevices : Apart twoDevices ∧ Refines twoDevices ∧ standing twoDevices = {⟨1, "r", "ann"⟩} ∧
    answers {} twoDevices =
      [.added, .added, .removed false, .added, .listed [1, 0], .removed true, .removed false] :=
  have h : Apart twoDevices := by decide
  ⟨h, refines_set twoDevices h, by decide, by decide⟩

end Registry

end Parley.Hub
