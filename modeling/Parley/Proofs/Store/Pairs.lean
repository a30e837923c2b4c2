import Parley.Proofs.Store.Interleaving

/-!
# Direct conversations of calls side by side

Whether two people have a direct conversation is looked up in one statement, and the conversation is
added in later ones, which no constraint of the tables holds back. So two calls for the same two
people that are inside their transactions at the same time can both find nothing and both commit:
`two_directs_byTurns` runs two such calls.

Calls for the same two people that do not overlap (`Server.Apart`) keep the direct conversations
apart, whatever else goes on at the same time. A call knows, at each stage, what its lookups have
told it (`Call.Fits`), and no other call takes that away: only a call for the same two people adds
a direct conversation of the two. `directs_unique_of_apart` is the result for every schedule.
-/

namespace Parley

/-! ### The direct conversations of two people -/

namespace Tables

def directs (t : Tables) (a b : String) : List Conversation :=
  t.conversations.filter fun c =>
    !c.isGroup && t.participants.contains (c.id, a) && t.participants.contains (c.id, b)

def OneDirect (t : Tables) : Prop := ∀ a b, a ≠ b → (t.directs a b).length ≤ 1

/-- Every membership is of a conversation that is there. -/
def Rooted (t : Tables) : Prop := ∀ p ∈ t.participants, ∃ c ∈ t.conversations, c.id = p.1

variable {t : Tables} {a b user : String} {rooms : List String} {c : Conversation}

theorem mem_directs : c ∈ t.directs a b ↔
    c ∈ t.conversations ∧ c.isGroup = false ∧ (c.id, a) ∈ t.participants ∧ (c.id, b) ∈ t.participants := by
  simp [directs, and_assoc]

theorem directs_comm (t : Tables) (a b : String) : t.directs a b = t.directs b a := by
  simp only [directs, Bool.and_right_comm]

theorem mem_memberships {room : String} : room ∈ t.memberships user ↔ (room, user) ∈ t.participants := by
  simp [memberships]

theorem directAmong_isEmpty : (t.directAmong rooms).isEmpty = true ↔
    ∀ c ∈ t.conversations, c.isGroup = false → c.id ∉ rooms := by
  simp [directAmong, List.filter_eq_nil_iff]

end Tables

namespace Store

open Tables

/-! ### What a call adds -/

namespace Call

variable {c other : Call} {t : Tables} {a b : String} {faults : List String}

def Unused (c : Call) (t : Tables) : Prop := ∀ conv ∈ t.conversations, conv.id ≠ c.id

theorem mem_enrolments {room user : String} :
    (room, user) ∈ c.enrolments ↔ room = c.id ∧ user ∈ c.draft.members := by
  rw [← Draft.mem_people]
  simp [enrolments, and_comm, eq_comm]

theorem mem_conversations_commit {conv : Conversation} :
    conv ∈ (c.commit t).conversations ↔ conv ∈ t.conversations ∨ conv = c.row := by
  simp [commit, append]

theorem mem_participants_commit {p : String × String} :
    p ∈ (c.commit t).participants ↔ p ∈ t.participants ∨ p ∈ c.enrolments := by
  simp [commit, append]

theorem Unused.notMem_participants (h : c.Unused t) (hrooted : t.Rooted) {user : String} :
    (c.id, user) ∉ t.participants := by
  intro hmem
  obtain ⟨conv, hconv, hid⟩ := hrooted _ hmem
  exact h conv hconv hid

/-- A call adds its conversation to the direct ones of its own people, and to no others. -/
theorem directs_commit (h : c.Unused t) (hrooted : t.Rooted) (a b : String) :
    (c.commit t).directs a b =
      t.directs a b ++ if c.draft.isGroup = false ∧ a ∈ c.draft.members ∧ b ∈ c.draft.members then [c.row] else [] := by
  have hold : ∀ conv ∈ t.conversations, ∀ user,
      (conv.id, user) ∈ (c.commit t).participants ↔ (conv.id, user) ∈ t.participants := by
    intro conv hconv user
    rw [mem_participants_commit, mem_enrolments]
    exact or_iff_left fun hmem => h conv hconv hmem.1
  have hnew : ∀ user, (c.id, user) ∈ (c.commit t).participants ↔ user ∈ c.draft.members := by
    intro user
    rw [mem_participants_commit, mem_enrolments]
    simp [h.notMem_participants hrooted]
  rw [directs, show (c.commit t).conversations = t.conversations ++ [c.row] from rfl, List.filter_append]
  congr 1
  · refine List.filter_congr fun conv hconv => ?_
    simp only [List.contains_eq_mem, hold conv hconv]
  · rw [List.filter_singleton]
    simp only [List.contains_eq_mem, show c.row.id = c.id from rfl, hnew,
      show c.row.isGroup = c.draft.isGroup from rfl]
    cases c.draft.isGroup <;> simp

theorem rooted_commit (hrooted : t.Rooted) : (c.commit t).Rooted := by
  rintro ⟨room, user⟩ hp
  rcases mem_participants_commit.mp hp with hp | hp
  · obtain ⟨conv, hconv, hid⟩ := hrooted _ hp
    exact ⟨conv, mem_conversations_commit.mpr (.inl hconv), hid⟩
  · exact ⟨c.row, mem_conversations_commit.mpr (.inr rfl), (mem_enrolments.mp hp).1.symm⟩

theorem Unused.commit (h : c.Unused t) (hid : other.id ≠ c.id) : c.Unused (other.commit t) := by
  intro conv hconv
  rcases mem_conversations_commit.mp hconv with hconv | rfl
  · exact h conv hconv
  · exact hid

/-- Two people of a call that is not for these two only are not the two of another direct call. -/
theorem directs_commit_of_members_ne (h : other.Unused t) (hrooted : t.Rooted) (hvalid : other.Valid)
    (hcard : c.draft.others.card = 1) (hne : other.draft.isGroup = false → other.draft.members ≠ c.draft.members) :
    (other.commit t).directs c.draft.creator c.draft.other = t.directs c.draft.creator c.draft.other := by
  rw [directs_commit h hrooted, if_neg, List.append_nil]
  rintro ⟨hdirect, hcreator, hother⟩
  have hcard' : other.draft.others.card = 1 := hvalid.resolve_left (by simp [hdirect])
  apply hne hdirect
  symm
  apply Finset.eq_of_subset_of_card_le
  · rw [Draft.members_of_card_one hcard]
    exact Finset.insert_subset hcreator (Finset.singleton_subset_iff.mpr hother)
  · rw [Draft.card_members_of_card_one hcard, Draft.card_members_of_card_one hcard']

/-! ### What a call knows -/

/-- The call has its conversation and its members among the rows. -/
def Stored (c : Call) (t : Tables) : Prop := c.row ∈ t.conversations ∧ ∀ p ∈ c.enrolments, p ∈ t.participants

theorem Stored.row_mem_directs (h : c.Stored t) (hdirect : c.draft.isGroup = false) (ha : a ∈ c.draft.members)
    (hb : b ∈ c.draft.members) : c.row ∈ t.directs a b :=
  mem_directs.mpr ⟨h.1, hdirect, h.2 _ (mem_enrolments.mpr ⟨rfl, ha⟩), h.2 _ (mem_enrolments.mpr ⟨rfl, hb⟩)⟩

/-- Why a call is given up: its people have a direct conversation, or a statement has failed with one
of these texts. -/
def Grounds (faults : List String) (c : Call) (t : Tables) (e : Error) : Prop :=
  (e = .directExists ∧ c.draft.isGroup = false ∧ t.directs c.draft.creator c.draft.other ≠ []) ∨
    ∃ text ∈ faults, e = Procedure.failed text

/-- These rooms hold all direct conversations of the two. -/
def Covers (c : Call) (t : Tables) (rooms : List String) : Prop :=
  ∀ conv ∈ t.directs c.draft.creator c.draft.other, conv.id ∈ rooms

/-- What the lookups have told a call that is about to add its rows. -/
def Clear (c : Call) (t : Tables) : Prop :=
  c.draft.isGroup = false → t.directs c.draft.creator c.draft.other = []

/-- What a call has learnt by a stage. -/
def Learnt (faults : List String) (c : Call) (t : Tables) : Stage → Prop
  | .waiting => True
  | .listing => c.draft.isGroup = false
  | .sharing rooms =>
    c.draft.isGroup = false ∧ c.Covers t rooms ∧ ∀ room ∈ rooms, (room, c.draft.creator) ∈ t.participants
  | .checking rooms =>
    c.draft.isGroup = false ∧ c.Covers t rooms ∧
      ∀ room ∈ rooms, (room, c.draft.creator) ∈ t.participants ∧ (room, c.draft.other) ∈ t.participants
  | .adding | .enrolling | .committing => c.Clear t
  | .abandoning e _ => c.Grounds faults t e
  | .ended _ => True

/-- What is so of a call at a stage. -/
def Fits (faults : List String) (c : Call) (t : Tables) : Stage → Prop
  | .ended (.ok conv) => conv = c.row ∧ c.Stored t
  | .ended (.error e) => (e = .notDirect ∧ ¬ c.Valid) ∨ c.Grounds faults t e
  | stage => c.Valid ∧ c.Unused t ∧ c.Learnt faults t stage

/-! ### A statement of the call itself -/

theorem Fits.failing {stage : Stage} {text : String} (hfault : text ∈ faults) (h : c.Fits faults t stage) :
    c.Fits faults t (c.failing text stage) := by
  cases stage with
  | ended r => exact h
  | waiting | committing | abandoning => exact .inr (.inr ⟨text, hfault, rfl⟩)
  | listing | sharing | checking | adding | enrolling => exact ⟨h.1, h.2.1, .inr ⟨text, hfault, rfl⟩⟩

theorem learnt_sharing (hdirect : c.draft.isGroup = false) :
    c.Learnt faults t (.sharing (t.memberships c.draft.creator)) := by
  refine ⟨hdirect, fun conv hconv => ?_, fun room hroom => mem_memberships.mp hroom⟩
  exact mem_memberships.mpr (mem_directs.mp hconv).2.2.1

theorem learnt_next_sharing {rooms : List String} (h : c.Learnt faults t (.sharing rooms)) :
    c.Learnt faults t (c.next t (.sharing rooms)) := by
  obtain ⟨hdirect, hcovers, hrooms⟩ := h
  have hboth : c.Covers t ((t.memberships c.draft.other).filter rooms.contains) := by
    intro conv hconv
    rw [List.mem_filter, mem_memberships, List.contains_iff_mem]
    exact ⟨(mem_directs.mp hconv).2.2.2, hcovers conv hconv⟩
  simp only [next]
  split_ifs with hempty
  · intro _
    rw [List.isEmpty_iff] at hempty
    refine List.eq_nil_iff_forall_not_mem.mpr fun conv hconv => ?_
    have := hboth conv hconv
    rw [hempty] at this
    exact List.not_mem_nil this
  · refine ⟨hdirect, hboth, fun room hroom => ?_⟩
    rw [List.mem_filter, mem_memberships, List.contains_iff_mem] at hroom
    exact ⟨hrooms room hroom.2, hroom.1⟩

theorem learnt_next_checking {rooms : List String} (h : c.Learnt faults t (.checking rooms)) :
    c.Learnt faults t (c.next t (.checking rooms)) := by
  obtain ⟨hdirect, hcovers, hrooms⟩ := h
  simp only [next]
  split_ifs with hempty
  · rw [directAmong_isEmpty] at hempty
    intro _
    refine List.eq_nil_iff_forall_not_mem.mpr fun conv hconv => ?_
    have hmem := mem_directs.mp hconv
    exact hempty conv hmem.1 hmem.2.1 (hcovers conv hconv)
  · rw [directAmong_isEmpty] at hempty
    simp only [not_forall, not_not] at hempty
    obtain ⟨conv, hconv, hconvDirect, hroom⟩ := hempty
    refine .inl ⟨rfl, hdirect, List.ne_nil_of_mem (mem_directs.mpr ⟨hconv, hconvDirect, ?_⟩)⟩
    exact hrooms conv.id hroom

theorem Fits.next {stage : Stage} (h : c.Fits faults t stage) : c.Fits faults (c.tables t stage) (c.next t stage) := by
  cases stage with
  | waiting =>
    obtain ⟨hvalid, hunused, -⟩ := h
    cases hgroup : c.draft.isGroup with
    | true =>
      rw [show c.next t .waiting = .adding by simp [Call.next, hgroup]]
      exact ⟨hvalid, hunused, by simp [Learnt, Clear, hgroup]⟩
    | false =>
      rw [show c.next t .waiting = .listing by simp [Call.next, hgroup]]
      exact ⟨hvalid, hunused, hgroup⟩
  | listing => exact ⟨h.1, h.2.1, learnt_sharing h.2.2⟩
  | sharing rooms =>
    have hlearnt := learnt_next_sharing h.2.2
    simp only [Call.next] at hlearnt ⊢
    split_ifs at hlearnt ⊢ <;> exact ⟨h.1, h.2.1, hlearnt⟩
  | checking rooms =>
    have hlearnt := learnt_next_checking h.2.2
    simp only [Call.next] at hlearnt ⊢
    split_ifs at hlearnt ⊢ <;> exact ⟨h.1, h.2.1, hlearnt⟩
  | adding | enrolling => exact h
  | committing =>
    refine ⟨rfl, mem_conversations_commit.mpr (.inr rfl), fun p hp => ?_⟩
    exact mem_participants_commit.mpr (.inr hp)
  | abandoning e own => exact .inr h.2.2
  | ended r => exact h

/-! ### A commit of another call -/

section Commit

variable (hunused : other.Unused t) (hrooted : t.Rooted)
include hunused hrooted

theorem Grounds.commit {e : Error} (h : c.Grounds faults t e) : c.Grounds faults (other.commit t) e := by
  refine h.imp_left fun ⟨he, hdirect, hne⟩ => ⟨he, hdirect, ?_⟩
  rw [directs_commit hunused hrooted]
  exact List.append_ne_nil_of_left_ne_nil hne _

omit hunused hrooted in
theorem Stored.commit (h : c.Stored t) : c.Stored (other.commit t) :=
  ⟨mem_conversations_commit.mpr (.inl h.1), fun p hp => mem_participants_commit.mpr (.inl (h.2 p hp))⟩

/-- What a call knows stays so when another one commits that is not a direct call of the same people. -/
theorem Fits.commit {stage : Stage} (h : c.Fits faults t stage) (hvalid : other.Valid) (hid : other.id ≠ c.id)
    (hne : (c.own stage).isSome → c.draft.isGroup = false → other.draft.isGroup = false →
      other.draft.members ≠ c.draft.members) :
    c.Fits faults (other.commit t) stage := by
  have hdirects : (c.own stage).isSome → c.Valid → c.draft.isGroup = false →
      (other.commit t).directs c.draft.creator c.draft.other = t.directs c.draft.creator c.draft.other :=
    fun hsome hvalid' hdirect =>
      directs_commit_of_members_ne hunused hrooted hvalid (hvalid'.resolve_left (by simp [hdirect]))
        (hne hsome hdirect)
  have hgrown : ∀ room user, (room, user) ∈ t.participants → (room, user) ∈ (other.commit t).participants :=
    fun room user hp => mem_participants_commit.mpr (.inl hp)
  cases stage with
  | waiting => exact ⟨h.1, h.2.1.commit hid, trivial⟩
  | listing => exact ⟨h.1, h.2.1.commit hid, h.2.2⟩
  | sharing rooms =>
    obtain ⟨hv, hu, hdirect, hcovers, hrooms⟩ := h
    refine ⟨hv, hu.commit hid, hdirect, ?_, fun room hroom => hgrown _ _ (hrooms room hroom)⟩
    rw [Covers, hdirects rfl hv hdirect]
    exact hcovers
  | checking rooms =>
    obtain ⟨hv, hu, hdirect, hcovers, hrooms⟩ := h
    refine ⟨hv, hu.commit hid, hdirect, ?_, fun room hroom => ?_⟩
    · rw [Covers, hdirects rfl hv hdirect]
      exact hcovers
    · exact ⟨hgrown _ _ (hrooms room hroom).1, hgrown _ _ (hrooms room hroom).2⟩
  | adding | enrolling | committing =>
    refine ⟨h.1, h.2.1.commit hid, fun hdirect => ?_⟩
    rw [hdirects rfl h.1 hdirect]
    exact h.2.2 hdirect
  | abandoning e own => exact ⟨h.1, h.2.1.commit hid, h.2.2.commit hunused hrooted⟩
  | ended r =>
    cases r with
    | ok conv => exact ⟨h.1, h.2.commit⟩
    | error e => exact h.imp_right fun hgrounds => hgrounds.commit hunused hrooted

/-- A call that knows the way to be clear keeps the direct conversations apart. -/
theorem oneDirect_commit (hone : t.OneDirect) (hvalid : other.Valid) (hclear : other.Clear t) :
    (other.commit t).OneDirect := by
  intro a b hab
  rw [directs_commit hunused hrooted]
  split_ifs with hadded
  · obtain ⟨hdirect, ha, hb⟩ := hadded
    have hcard := hvalid.resolve_left (by simp [hdirect])
    have hempty := hclear hdirect
    rw [Draft.members_of_card_one hcard, Finset.mem_insert, Finset.mem_singleton] at ha hb
    have hnone : t.directs a b = [] := by
      rcases ha with rfl | rfl <;> rcases hb with rfl | rfl
      · exact absurd rfl hab
      · exact hempty
      · rw [directs_comm]
        exact hempty
      · exact absurd rfl hab
    rw [hnone]
    simp
  · rw [List.append_nil]
    exact hone a b hab

end Commit

end Call

/-! ### The server -/

namespace Caller

variable {faults : List String}

/-- A call under way has come to a stage, and what is so of that stage is so. -/
def Sound (faults : List String) (t : Tables) (c : Caller) : Prop :=
  ∃ stage, c = c.call.caller stage ∧ c.call.Fits faults t stage

/-- Two direct calls for the same people, both inside their transactions. -/
def Contend (c c' : Caller) : Prop :=
  c.working = true ∧ c'.working = true ∧ c.call.draft.isGroup = false ∧ c'.call.draft.isGroup = false ∧
    c.call.draft.members = c'.call.draft.members

instance (c c' : Caller) : Decidable (Contend c c') := by
  unfold Contend
  infer_instance

theorem sound_start {t : Tables} {call : Call} (h : call.Unused t) : (Caller.start call).Sound faults t := by
  by_cases hvalid : call.Valid
  · exact ⟨.waiting, rfl, hvalid, h, trivial⟩
  · exact ⟨.ended (.error .notDirect), Call.start_of_not_valid hvalid, .inl ⟨rfl, hvalid⟩⟩

@[simp]
theorem call_goOn (c : Caller) (rest : Procedure Conversation) (own : Option Tables) :
    (c.goOn rest own).call = c.call := by
  cases rest <;> rfl

/-- A statement leaves the call what it is. -/
@[simp]
theorem call_step (t : Tables) (fault : Option String) (c : Caller) : (c.step t fault).2.call = c.call := by
  unfold step
  split <;> simp

/-- One statement of a call: the committed rows stay, or the call commits and knew that it may. -/
theorem Sound.step {t : Tables} {c : Caller} (h : c.Sound faults t) (fault : Option String)
    (hfault : ∀ text, fault = some text → text ∈ faults) :
    (c.step t fault).2.Sound faults (c.step t fault).1 ∧
      ((c.step t fault).1 = t ∨
        (c.step t fault).1 = c.call.commit t ∧ c.working = true ∧
          c.call.Valid ∧ c.call.Unused t ∧ c.call.Clear t) := by
  obtain ⟨stage, hc, hfits⟩ := h
  generalize c.call = call at hc hfits
  subst hc
  by_cases hended : ∃ r, stage = .ended r
  · obtain ⟨r, rfl⟩ := hended
    exact ⟨⟨.ended r, rfl, hfits⟩, .inl rfl⟩
  have hbefore : call.Valid ∧ call.Unused t ∧ call.Learnt faults t stage := by
    cases stage with
    | ended r => exact absurd ⟨r, rfl⟩ hended
    | waiting | listing | sharing | checking | adding | enrolling | committing | abandoning => exact hfits
  obtain ⟨hvalid, hunused, hlearnt⟩ := hbefore
  cases fault with
  | some text =>
    rw [Call.step_caller_fault hvalid]
    exact ⟨⟨call.failing text stage, rfl, hfits.failing (hfault text rfl)⟩, .inl rfl⟩
  | none =>
    rw [Call.step_caller hvalid]
    refine ⟨⟨call.next t stage, rfl, hfits.next⟩, ?_⟩
    cases stage with
    | committing => exact .inr ⟨rfl, rfl, hvalid, hunused, hlearnt⟩
    | waiting | listing | sharing | checking | adding | enrolling | abandoning | ended => exact .inl rfl

theorem Sound.fits_of_done {t : Tables} {c : Caller} (h : c.Sound faults t) {r : Except Error Conversation}
    (hdone : c.rest = .done r) : c.call.Fits faults t (.ended r) := by
  obtain ⟨stage, hc, hfits⟩ := h
  have hrest : c.call.rest stage = .done r := by rw [← hdone, hc]; rfl
  obtain rfl := Call.ended_of_rest (by rintro rfl; exact hfits.1) hrest
  exact hfits

end Caller

namespace Server

variable {s : Server} {faults : List String}

/-- No two direct calls for the same people are inside their transactions at the same time. -/
def Apart (s : Server) : Prop :=
  ∀ c ∈ s.callers, ∀ c' ∈ s.callers, c.call.id ≠ c'.call.id → ¬ c.Contend c'

instance (s : Server) : Decidable s.Apart := by
  unfold Apart
  infer_instance

/-- The tables keep direct conversations apart, and every call is where it says. -/
structure Sound (faults : List String) (s : Server) : Prop where
  oneDirect : s.tables.OneDirect
  rooted : s.tables.Rooted
  distinct : (s.callers.map (·.call.id)).Nodup
  callers : ∀ c ∈ s.callers, c.Sound faults s.tables

theorem sound_start {t : Tables} {calls : List Call} (hone : t.OneDirect) (hrooted : t.Rooted)
    (hids : (calls.map (·.id)).Nodup) (hunused : ∀ call ∈ calls, call.Unused t) : (start t calls).Sound faults where
  oneDirect := hone
  rooted := hrooted
  distinct := by
    rw [start, List.map_map]
    exact hids
  callers := by
    intro c hc
    obtain ⟨call, hcall, rfl⟩ := List.mem_map.mp hc
    exact Caller.sound_start (hunused call hcall)

theorem map_id_step (s : Server) (tick : Tick) :
    (s.step tick).callers.map (·.call.id) = s.callers.map (·.call.id) := by
  rw [step]
  split
  · rfl
  · rename_i c hc
    obtain ⟨hlt, rfl⟩ := List.getElem?_eq_some_iff.mp hc
    have hlt' : tick.turn < (s.callers.map (·.call.id)).length := by simpa using hlt
    have hid : (s.callers.map (·.call.id))[tick.turn] = s.callers[tick.turn].call.id := by simp
    rw [List.map_set, Caller.call_step, ← hid, List.set_getElem_self]

theorem Sound.step (h : s.Sound faults) (apart : s.Apart) (tick : Tick)
    (hfault : ∀ text, tick.fault = some text → text ∈ faults) : (s.step tick).Sound faults := by
  have hids : ((s.step tick).callers.map (·.call.id)).Nodup := by
    rw [map_id_step]
    exact h.distinct
  cases hc : s.callers[tick.turn]? with
  | none =>
    rw [show s.step tick = s by simp [Server.step, hc]]
    exact h
  | some c =>
    have hmem : c ∈ s.callers := List.mem_of_getElem? hc
    have hstep : s.step tick =
        ⟨(c.step s.tables tick.fault).1, s.callers.set tick.turn (c.step s.tables tick.fault).2⟩ := by
      simp [Server.step, hc]
    obtain ⟨hmoved, htables⟩ := (h.callers c hmem).step tick.fault hfault
    rw [hstep] at hids ⊢
    -- whoever else is there is one of the calls that were there, and not the one that has moved
    have hothers : ∀ c' ∈ s.callers.set tick.turn (c.step s.tables tick.fault).2,
        c' ≠ (c.step s.tables tick.fault).2 → c' ∈ s.callers ∧ c.call.id ≠ c'.call.id := by
      intro c' hc' hne
      have hold := (List.mem_or_eq_of_mem_set hc').resolve_right hne
      refine ⟨hold, fun hid => hne (List.inj_on_of_nodup_map hids hc' ?_ ?_)⟩
      · exact List.mem_set (List.getElem?_eq_some_iff.mp hc).1 _
      · rw [Caller.call_step, hid]
    refine ⟨?_, ?_, hids, fun c' hc' => ?_⟩
    · rcases htables with hsame | ⟨hcommit, -, hvalid, hunused, hclear⟩
      · rw [hsame]
        exact h.oneDirect
      · rw [hcommit]
        exact Call.oneDirect_commit hunused h.rooted h.oneDirect hvalid hclear
    · rcases htables with hsame | ⟨hcommit, -⟩
      · rw [hsame]
        exact h.rooted
      · rw [hcommit]
        exact Call.rooted_commit h.rooted
    · by_cases hne : c' = (c.step s.tables tick.fault).2
      · rw [hne]
        exact hmoved
      · obtain ⟨hmem', hid⟩ := hothers c' hc' hne
        rcases htables with hsame | ⟨hcommit, hworking, hvalid, hunused, -⟩
        · rw [hsame]
          exact h.callers c' hmem'
        · rw [hcommit]
          obtain ⟨stage, hstage, hfits⟩ := h.callers c' hmem'
          refine ⟨stage, hstage, hfits.commit hunused h.rooted hvalid hid fun hown hdirect' hdirect heq => ?_⟩
          have hworking' : c'.working = true := by rw [Caller.working, hstage]; exact hown
          exact apart c hmem c' hmem' hid ⟨hworking, hworking', hdirect, hdirect', heq⟩

/-! ### Every schedule -/

theorem run_take_succ (s : Server) (schedule : List Tick) {n : Nat} (hn : n < schedule.length) :
    s.run (schedule.take (n + 1)) = (s.run (schedule.take n)).step schedule[n] := by
  rw [run, run, List.take_succ_eq_append_getElem hn, List.foldl_append]
  rfl

theorem Sound.run (h : s.Sound faults) (schedule : List Tick)
    (apart : ∀ n < schedule.length, (s.run (schedule.take n)).Apart)
    (hfaults : ∀ tick ∈ schedule, ∀ text, tick.fault = some text → text ∈ faults) :
    ∀ n ≤ schedule.length, (s.run (schedule.take n)).Sound faults := by
  intro n
  induction n with
  | zero => exact fun _ => h
  | succ n ih =>
    intro hn
    rw [run_take_succ s schedule hn]
    exact (ih (by omega)).step (apart n hn) _ (hfaults _ (List.getElem_mem hn))

/-- How the calls of a server have ended that are at their end. -/
structure Settled (faults : List String) (s : Server) : Prop where
  /-- A call that gives a conversation has stored it, with its members. -/
  made : ∀ c ∈ s.callers, ∀ conv, c.rest = .done (.ok conv) → conv = c.call.row ∧ c.call.Stored s.tables
  /-- A call that fails makes no sense, or finds a direct conversation of its people, or had a statement fail. -/
  refused : ∀ c ∈ s.callers, ∀ e, c.rest = .done (.error e) →
    (e = .notDirect ∧ ¬ c.call.Valid) ∨ c.call.Grounds faults s.tables e
  /-- Of the direct calls for the same people, one at most gives a conversation. -/
  single : ∀ c ∈ s.callers, ∀ c' ∈ s.callers, ∀ conv conv', c.rest = .done (.ok conv) → c'.rest = .done (.ok conv') →
    c.call.draft.isGroup = false → c'.call.draft.isGroup = false → c.call.draft.others.card = 1 →
    c.call.draft.members = c'.call.draft.members → c = c'

theorem Sound.settled (h : s.Sound faults) : s.Settled faults where
  made := fun c hc _ hdone => (h.callers c hc).fits_of_done hdone
  refused := fun c hc _ hdone => (h.callers c hc).fits_of_done hdone
  single := by
    intro c hc c' hc' conv conv' hdone hdone' hdirect hdirect' hcard hmembers
    have hstored := ((h.callers c hc).fits_of_done hdone).2
    have hstored' := ((h.callers c' hc').fits_of_done hdone').2
    have hcreator : c.call.draft.creator ∈ c.call.draft.members := Finset.mem_insert_self _ _
    have hother : c.call.draft.other ∈ c.call.draft.members := by rw [Draft.members_of_card_one hcard]; simp
    have hrow : c.call.row ∈ s.tables.directs c.call.draft.creator c.call.draft.other :=
      hstored.row_mem_directs hdirect hcreator hother
    have hrow' : c'.call.row ∈ s.tables.directs c.call.draft.creator c.call.draft.other :=
      hstored'.row_mem_directs hdirect' (hmembers ▸ hcreator) (hmembers ▸ hother)
    have hone := h.oneDirect _ _ (Draft.creator_ne_other hcard)
    obtain ⟨only, honly⟩ := List.length_eq_one_iff.mp (le_antisymm hone (List.length_pos_of_mem hrow))
    rw [honly, List.mem_singleton] at hrow hrow'
    have hrows : c.call.row = c'.call.row := hrow.trans hrow'.symm
    exact List.inj_on_of_nodup_map h.distinct hc hc' (congrArg Conversation.id hrows)

/-- **One direct conversation of two people.** Take tables in which any two people have at most one direct
conversation, calls whose identifiers are not taken, and any schedule of their statements, failing ones
included, along which no two direct calls for the same people are inside their transactions at once. Then
the committed rows keep at most one direct conversation of any two people, and the calls that have ended
have ended as `Settled` says. -/
theorem directs_unique_of_apart (t : Tables) (calls : List Call) (schedule : List Tick) (hone : t.OneDirect)
    (hrooted : t.Rooted) (hids : (calls.map (·.id)).Nodup) (hunused : ∀ call ∈ calls, call.Unused t)
    (apart : ∀ n < schedule.length, ((start t calls).run (schedule.take n)).Apart) :
    ((start t calls).run schedule).tables.OneDirect ∧
      ((start t calls).run schedule).Settled (schedule.filterMap (·.fault)) := by
  have hfaults : ∀ tick ∈ schedule, ∀ text, tick.fault = some text → text ∈ schedule.filterMap (·.fault) :=
    fun tick htick text htext => List.mem_filterMap.mpr ⟨tick, htick, htext⟩
  have h := (sound_start hone hrooted hids hunused).run schedule apart hfaults schedule.length le_rfl
  rw [List.take_length] at h
  exact ⟨h.oneDirect, h.settled⟩

/-- Two people ask for a direct conversation with each other. -/
def eachOther : List Call :=
  [⟨⟨none, false, "u1", ["u2"]⟩, "conv_1", { micros := 1 }⟩, ⟨⟨none, false, "u2", ["u1"]⟩, "conv_2", { micros := 2 }⟩]

/-- The statements of the first call, and then those of the second. -/
def inTurn : List Tick := List.replicate 6 ⟨0, none⟩ ++ List.replicate 5 ⟨1, none⟩

theorem directs_unique_of_apart_inTurn :
    (∀ n < inTurn.length, ((start {} eachOther).run (inTurn.take n)).Apart) ∧
      ((start {} eachOther).run inTurn).tables.OneDirect ∧
      ((start {} eachOther).run inTurn).tables.directs "u1" "u2" ≠ [] :=
  have apart : ∀ n < inTurn.length, ((start {} eachOther).run (inTurn.take n)).Apart := by decide +kernel
  have h := directs_unique_of_apart {} eachOther inTurn (fun a b _ => by simp [directs])
    (fun p hp => absurd hp List.not_mem_nil) (by decide) (fun _ _ conv hconv => absurd hconv List.not_mem_nil) apart
  ⟨apart, h.1, by decide +kernel⟩

/-- The statements of the two calls by turns. -/
def byTurns : List Tick := (List.replicate 6 [⟨0, none⟩, ⟨1, none⟩]).flatten

/-- By turns, both calls find no direct conversation, and both commit one. -/
theorem two_directs_byTurns :
    ({} : Tables).OneDirect ∧ ¬ ((start {} eachOther).run byTurns).tables.OneDirect ∧
      ((start {} eachOther).run byTurns).callers.map (·.rest) = eachOther.map fun call => .done (.ok call.row) := by
  refine ⟨fun a b _ => by simp [directs], fun hone => ?_, rfl⟩
  have htwo : (((start {} eachOther).run byTurns).tables.directs "u1" "u2").length = 2 := by decide +kernel
  have := hone "u1" "u2" (by decide)
  omega

end Server

end Store

end Parley
