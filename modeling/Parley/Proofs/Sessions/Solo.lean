import Mathlib.Data.Prod.Lex
import Parley.Proofs.Registry
import Parley.Proofs.Delivery.Broadcast
import Parley.Proofs.Sessions.Alone
import Parley.Proofs.Sessions.Tended

/-!
# A session that is alone

A session on a hub without a broker, of which no other session stands in the way: where it stands, what it has still
to say, and what each of its steps comes to.

* `Session.Stands` says how far a session has got since it came: its connection is in the room or not, and all else
  is as it was. Who comes and goes leaves the registry as it was (`Registry.members_remove_add`,
  `Registry.rooms_remove_add_perm`).
* `Stage.rest` is what will be said after the activity that a session is about, and `Session.due` what a connection
  will be told. Whatever one step says or tells is taken away from the front of it.
* `Session.Forth` collects what a step comes to. There are two kinds of steps: one of an activity (`Stands.work`),
  and one from an activity that has ended to the next (`Stands.begin`); the lemmas after it are the cases of the
  second kind.
* `Stands.forth` is the step lemma, and `Stands.goes` says that there is a step unless the client is waited for.
-/

namespace Parley

open Hub

/-! ### A connection that comes and goes -/

namespace Hub.Registry

variable {r : Registry} {room : String} {m : Member}

theorem filter_members_of_notMem (h : m.id ∉ r.snapshot room) :
    (r.members room).filter (·.id != m.id) = r.members room := by
  refine List.filter_eq_self.mpr fun n hn => bne_iff_ne.mpr fun heq => h ?_
  exact heq ▸ List.mem_map_of_mem hn

theorem members_add (h : m.id ∉ r.snapshot room) : (r.add room m).members room = r.members room ++ [m] := by
  rw [add, members_setMembers, filter_members_of_notMem h]

theorem snapshot_add (h : m.id ∉ r.snapshot room) : (r.add room m).snapshot room = r.snapshot room ++ [m.id] := by
  rw [snapshot, members_add h, List.map_append]
  rfl

theorem members_remove_add (h : m.id ∉ r.snapshot room) (other : String) :
    ((r.add room m).remove room m.id).2.members other = r.members other := by
  by_cases hother : other = room
  · subst hother
    simp [remove, members_add h, filter_members_of_notMem h]
  · rw [remove, members_setMembers_of_ne _ _ hother, add, members_setMembers_of_ne _ _ hother]

/-- A registry as calls leave it: every room is there once and has somebody, and nobody is in it twice. -/
structure Orderly (r : Registry) : Prop where
  names : (r.rooms.map Prod.fst).Nodup
  filled : r.Filled
  once : ∀ room, (r.snapshot room).Nodup

theorem Orderly.perform (hr : r.Orderly) (call : Call) : (call.perform r).2.Orderly := by
  cases call with
  | add e =>
    exact ⟨nodup_rooms_setMembers hr.names _ _, hr.filled.setMembers _ _,
      fun _ => Service.nodup_snapshot_add _ _ hr.once _⟩
  | remove room e =>
    exact ⟨nodup_rooms_setMembers hr.names _ _, hr.filled.setMembers _ _,
      fun _ => Service.nodup_snapshot_remove _ _ hr.once _⟩
  | snapshot room => exact hr

theorem orderly_after (calls : List Call) : (after calls).Orderly :=
  List.foldlRecOn calls _ ⟨List.nodup_nil, nofun, fun _ => List.nodup_nil⟩ fun _ hr call _ => hr.perform call

theorem rooms_remove_add_perm (hr : r.Orderly) (h : m.id ∉ r.snapshot room) :
    ((r.add room m).remove room m.id).2.rooms.Perm r.rooms := by
  have hothers : (r.add room m).rooms.filter (·.1 != room) = r.rooms.filter (·.1 != room) := by
    simp [add, setMembers]
  have hmembers : ((r.add room m).members room).filter (·.id != m.id) = r.members room := by
    simp [members_add h, filter_members_of_notMem h]
  have hkept : ∀ ps : List (String × List Member), (∀ p ∈ ps, (room != p.1) = true) → ps.filter (·.1 != room) = ps :=
    fun ps hps => List.filter_eq_self.mpr fun p hp => bne_iff_ne.mpr (bne_iff_ne.mp (hps p hp)).symm
  rw [remove, setMembers, hmembers, hothers]
  have hlookup := hr.filled.lookup_eq room
  by_cases hnil : r.members room = []
  · -- the room is not there
    rw [if_pos hnil, List.lookup_eq_none_iff] at hlookup
    rw [hnil, if_pos (by rfl), hkept _ hlookup]
  · rw [if_neg hnil] at hlookup
    obtain ⟨before, behind, heq, hbefore⟩ := List.lookup_eq_some_iff.mp hlookup
    have hbehind : ∀ p ∈ behind, (room != p.1) = true := by
      intro p hp
      have hnames := hr.names
      rw [heq, List.map_append, List.map_cons] at hnames
      have hnot := (List.nodup_cons.mp (List.nodup_append.mp hnames).2.1).1
      exact bne_iff_ne.mpr fun h => hnot (List.mem_map.mpr ⟨p, hp, h.symm⟩)
    rw [if_neg (by simpa using hnil), heq, List.filter_append, List.filter_cons_of_neg (by simp), hkept _ hbefore,
      hkept _ hbehind]
    exact List.perm_middle.symm

end Hub.Registry

namespace Hub

variable {s₀ s t u : Service} {x x' : Session} {coming : List Item} {c : ConnId}

def Stage.activity : Stage → Activity
  | .joining a | .handling a | .leaving a => a
  | _ => .finished (.ok ())

/-! ### Where a session stands -/

/-- The registry of a hub while a connection stands there or not. -/
def Standing.place (r : Registry) (room : String) (m : Member) : Standing → Registry
  | .awaited => r
  | .listed => r.add room m
  | _ => ((r.add room m).remove room m.id).2

/-- A session still reads what comes. -/
def Stage.Listens : Stage → Prop
  | .opening | .joining _ | .reading | .handling _ => True
  | _ => False

/-- A session that is alone on its hub, as it was when it came, has got so far. -/
structure Session.Stands (s₀ s : Service) (x : Session) (coming : List Item) : Prop where
  line : s.line = none
  agrees : x.Agrees s
  there : ∀ c ∈ (s₀.registry x.hub).snapshot x.room, c < s.connections.size
  once : ((s₀.registry x.hub).snapshot x.room).Nodup
  new : x.conn ∉ (s₀.registry x.hub).snapshot x.room
  here : s.registry x.hub = x.standing.place (s₀.registry x.hub) x.room x.member
  elsewhere : ∀ g, g ≠ x.hub → s.registry g = s₀.registry g
  undropped : x.stage ≠ .dropped
  fits : x.stage.activity.Fits x.hub x.room ((s.registry x.hub).snapshot x.room)
  /-- The client will go. -/
  awaits : x.stage.Listens → ∃ i ∈ x.inbox ++ coming, i.ends = true
  /-- The departure is announced only of somebody who does not stay. -/
  leaves : ∀ a, x.stage = .leaving a → (s₀.registry x.hub).userConnected x.room x.user = false

namespace Session

/-- Who is in the room: those who were, and the session's own connection while it is listed. -/
theorem Stands.snapshot (h : x.Stands s₀ s coming) : (s.registry x.hub).snapshot x.room =
    if x.standing = .listed then (s₀.registry x.hub).snapshot x.room ++ [x.conn]
    else (s₀.registry x.hub).snapshot x.room := by
  have hnew : x.member.id ∉ (s₀.registry x.hub).snapshot x.room := h.new
  have hplace := h.here
  rw [hplace]
  cases hs : x.standing with
  | awaited => rfl
  | listed => exact Registry.snapshot_add hnew
  | removed | closed | dropped =>
    simp only [Standing.place, Registry.snapshot, Registry.members_remove_add hnew]
    rfl

theorem Stands.nodup (h : x.Stands s₀ s coming) : ((s.registry x.hub).snapshot x.room).Nodup := by
  rw [h.snapshot]
  split
  · exact List.nodup_append.mpr ⟨h.once, List.nodup_singleton _, fun a ha b hb heq =>
      h.new (List.mem_singleton.mp hb ▸ heq ▸ ha)⟩
  · exact h.once

theorem Stands.lt_size (h : x.Stands s₀ s coming) (hc : c ∈ (s.registry x.hub).snapshot x.room) :
    c < s.connections.size := by
  rw [h.snapshot] at hc
  split at hc
  · rcases List.mem_append.mp hc with hc | hc
    · exact h.there c hc
    · rw [List.mem_singleton.mp hc]
      exact h.agrees.conn
  · exact h.there c hc

/-- Whether somebody is there who stays. -/
theorem Stands.userConnected (h : x.Stands s₀ s coming) (hs : x.standing = .closed) :
    (s.registry x.hub).userConnected x.room x.user = (s₀.registry x.hub).userConnected x.room x.user := by
  have hnew : x.member.id ∉ (s₀.registry x.hub).snapshot x.room := h.new
  rw [h.here, hs, Registry.userConnected, Registry.userConnected]
  show ((Registry.remove _ x.room x.member.id).2.members x.room).any _ = _
  rw [Registry.members_remove_add hnew]

theorem Stands.quiet {inbox : List Item} (h : x.Stands s₀ s coming) (g : Stage) (hq : Quiet s t) (hl : t.line = none)
    (hs : g.standing = x.standing) (hg : g ≠ .dropped)
    (hfits : g.activity.Fits x.hub x.room ((s.registry x.hub).snapshot x.room))
    {coming' : List Item} (hawaits : g.Listens → ∃ i ∈ inbox ++ coming', i.ends = true)
    (hleaves : ∀ a, g = .leaving a → (s₀.registry x.hub).userConnected x.room x.user = false) :
    ({ x with inbox := inbox, stage := g } : Session).Stands s₀ t coming' where
  line := hl
  agrees := h.agrees.congr rfl hs (by rw [hq.hubs]) (Nat.le_of_eq hq.size.symm) (hq.footing x.conn)
  there c hc := hq.size.symm ▸ h.there c hc
  once := h.once
  new := h.new
  here := by
    show t.registry x.hub = g.standing.place _ _ _
    rw [hq.registry, h.here, hs]
    rfl
  elsewhere g' hg' := (hq.registry g').trans (h.elsewhere g' hg')
  undropped := hg
  fits := by
    show g.activity.Fits x.hub x.room ((t.registry x.hub).snapshot x.room)
    rw [hq.registry]
    exact hfits
  awaits := hawaits
  leaves := hleaves

end Session

/-! ### What remains to be said -/

/-- What frames say, and then the farewell. -/
def remarks (room user : String) (stays : Bool) (k : Clockwork) (fs : List ClientFrame) : List Envelope :=
  speech room user k fs ++ farewell room user stays (later fs.length k)

/-- What is said after the activity of a stage, while these items come. -/
def Stage.rest (room user : String) (stays : Bool) (items : List Item) (k : Clockwork) : Stage → List String
  | .opening => (said room user k items ++ saidLast room user stays k items).map Envelope.text
  | .joining _ | .reading | .handling _ => (remarks room user stays k (heard items)).map Envelope.text
  | .releasing | .closing | .checking => (farewell room user stays k).map Envelope.text
  | .leaving _ | .over | .dropped => []

/-- How far a stage is from the end. -/
def Stage.rank : Stage → ℕ
  | .opening => 7
  | .joining _ | .handling _ => 6
  | .reading => 5
  | .releasing => 4
  | .closing => 3
  | .checking => 2
  | .leaving _ => 1
  | .over | .dropped => 0

section Busy

variable {g next : Stage} {a : Activity} {here : Activity → Stage}

theorem Stage.Busy.activity (h : g.Busy a here next) : g.activity = a ∧ (∀ b, (here b).activity = b) ∧
    next.activity = .finished (.ok ()) := by
  cases h <;> exact ⟨rfl, fun _ => rfl, rfl⟩

theorem Stage.Busy.rest (h : g.Busy a here next) (room user : String) (stays : Bool) (items : List Item)
    (k : Clockwork) :
    (∀ b, (here b).rest room user stays items k = g.rest room user stays items k) ∧
      next.rest room user stays items k = g.rest room user stays items k := by
  cases h <;> exact ⟨fun _ => rfl, rfl⟩

theorem Stage.Busy.rank (h : g.Busy a here next) : (∀ b, (here b).rank = g.rank) ∧ next.rank < g.rank := by
  cases h <;> exact ⟨fun _ => rfl, Nat.lt_succ_self _⟩

theorem Stage.Busy.of_leaving (h : g.Busy a here next) : (∀ b c, here b = .leaving c → g = .leaving a) ∧
    ∀ c, next ≠ .leaving c := by
  cases h <;> simp

theorem Stage.Busy.undropped (h : g.Busy a here next) : (∀ b, here b ≠ .dropped) ∧ next ≠ .dropped := by
  cases h <;> simp

theorem Stage.Busy.listens (h : g.Busy a here next) : (∀ b, (here b).Listens ↔ g.Listens) ∧
    (next.Listens ↔ g.Listens) := by
  cases h <;> exact ⟨fun _ => Iff.rfl, Iff.rfl⟩

end Busy

namespace Session

/-- Whether the person stays when the session's own connection goes. -/
def stays (s₀ : Service) (x : Session) : Bool := (s₀.registry x.hub).userConnected x.room x.user

/-- What a connection will be told after the activity that a session is about: those who were in the room before
hear all, and the session's own connection hears no farewell. -/
def share (s₀ : Service) (x : Session) (coming : List Item) (k : Clockwork) (c : ConnId) : List String :=
  if c = x.conn then x.stage.rest x.room x.user true (x.inbox ++ coming) k
  else if c ∈ (s₀.registry x.hub).snapshot x.room then x.stage.rest x.room x.user (x.stays s₀) (x.inbox ++ coming) k
  else []

def debt (s₀ s : Service) (x : Session) (coming : List Item) (c : ConnId) : List String :=
  x.stage.activity.owes c ++ ((if c ∈ (s.registry x.hub).snapshot x.room then x.stage.activity.owed else []) ++
    x.share s₀ coming s.clock c)

def due (s₀ s : Service) (x : Session) (coming : List Item) (c : ConnId) : List String :=
  if (s.connection c).closed then [] else x.debt s₀ s coming c

/-- How far a session is from its end. -/
def weight (x : Session) (coming : List Item) : ℕ ×ₗ ℕ :=
  toLex (64 * (2 * coming.length + x.inbox.length) + 8 * x.stage.rank + x.stage.activity.phase,
    x.stage.activity.waiting)

structure Forth (s₀ s : Service) (x : Session) (coming : List Item) (t : Service) (x' : Session) : Prop where
  stands : x'.Stands s₀ t coming
  self : x'.self = x.self
  nearer : x'.weight coming < x.weight coming
  said : ∃ texts, x.stage.activity.begins = texts.map (fun text => .broadcast x.hub x.room (some text)) ∧
    x.stage.activity.owed ++ x.stage.rest x.room x.user (x.stays s₀) (x.inbox ++ coming) s.clock =
      texts ++ (x'.stage.activity.owed ++ x'.stage.rest x.room x.user (x.stays s₀) (x'.inbox ++ coming) t.clock)
  hears : Roomy s x.hub x.room → ∀ c,
    Hears (s.connection c) (t.connection c) (x.due s₀ s coming c) (x'.due s₀ t coming c)

theorem hears_of_debt (hc : t.connection c = s.connection c) (h : x'.debt s₀ t coming c = x.debt s₀ s coming c) :
    Hears (s.connection c) (t.connection c) (x.due s₀ s coming c) (x'.due s₀ t coming c) := by
  refine .nothing (congrArg (·.queue) hc) (congrArg (·.accepted) hc) ?_
  rw [due, due, hc, h]

theorem weight_lt_of_rank {g : Stage} {inbox : List Item} (h : 64 * inbox.length + 8 * g.rank + g.activity.phase <
    64 * x.inbox.length + 8 * x.stage.rank + x.stage.activity.phase) :
    ({ x with inbox := inbox, stage := g } : Session).weight coming < x.weight coming := by
  refine Prod.Lex.toLex_lt_toLex.mpr (.inl ?_)
  dsimp only
  omega

/-! ### Steps -/

/-- A step about an activity. -/
theorem Stands.work {a a' : Activity} {here : Activity → Stage} {next : Stage} (h : x.Stands s₀ s coming)
    (hb : x.stage.Busy a here next) (hstep : Activity.Step s a a' t) :
    Forth s₀ s x coming t { x with stage := here a' } := by
  obtain ⟨hactivity, hactivity', -⟩ := hb.activity
  have hrest := fun stays => (hb.rest x.room x.user stays (x.inbox ++ coming) s.clock).1 a'
  have hfits := h.fits
  rw [hactivity] at hfits
  obtain ⟨halone, hfits', hnearer⟩ := Activity.alone_of_step h.line h.nodup hfits hstep
  have hquiet := hstep.quiet
  have hsnapshot : (t.registry x.hub).snapshot x.room = (s.registry x.hub).snapshot x.room := by rw [hquiet.registry]
  obtain ⟨hline, hclock⟩ := halone.steady
  refine ⟨h.quiet (here a') hquiet (hline.trans h.line) (hb.standing.1 a') (hb.undropped.1 a') ?_ ?_ ?_,
    rfl, ?_, ?_, ?_⟩
  · rw [hactivity']
    exact hfits'
  · exact fun hl => h.awaits ((hb.listens.1 a').mp hl)
  · exact fun b hleaving => h.leaves a (hb.of_leaving.1 _ _ hleaving)
  · refine Prod.Lex.toLex_lt_toLex.mpr ?_
    rw [hactivity', hactivity, hb.rank.1]
    rcases hnearer with hphase | ⟨hphase, hwaiting⟩
    · exact .inl (by dsimp only; omega)
    · exact .inr ⟨by dsimp only; omega, hwaiting⟩
  · obtain ⟨texts, hbegins, howed⟩ := halone.said
    refine ⟨texts, by rw [hactivity, hbegins], ?_⟩
    rw [hactivity', hactivity, hclock, hrest, howed, List.append_assoc]
  · intro hroomy c
    have hears := halone.hears (fun d hd => h.lt_size hd) hroomy c (x.share s₀ coming s.clock c)
    simpa only [due, debt, share, stays, hactivity, hactivity', hsnapshot, hclock, hrest] using hears

/-- A step of a session that is about no activity: it may begin one, of which those hear who are in the room then. -/
theorem Stands.begin {g : Stage} {inbox : List Item} (h : x.Stands s₀ s coming)
    (h' : ({ x with inbox := inbox, stage := g } : Session).Stands s₀ t coming)
    {r : Except PublishError Unit} (hidle : x.stage.activity = .finished r)
    (hnearer : 64 * inbox.length + 8 * g.rank + g.activity.phase < 64 * x.inbox.length + 8 * x.stage.rank)
    (hconn : ∀ c, c ≠ x.conn → t.connection c = s.connection c)
    (hown : (t.connection x.conn).queue = (s.connection x.conn).queue ∧
      (t.connection x.conn).accepted = (s.connection x.conn).accepted ∧
      ((t.connection x.conn).closed = (s.connection x.conn).closed ∨
        x.stage.rest x.room x.user true (x.inbox ++ coming) s.clock = []))
    (howes : ∀ c, g.activity.owes c = [])
    (hheard : x.stage.rest x.room x.user true (x.inbox ++ coming) s.clock =
      (if g.standing = .listed then g.activity.owed else []) ++ g.rest x.room x.user true (inbox ++ coming) t.clock)
    (hsaid : x.stage.rest x.room x.user (x.stays s₀) (x.inbox ++ coming) s.clock =
      g.activity.owed ++ g.rest x.room x.user (x.stays s₀) (inbox ++ coming) t.clock) :
    Forth s₀ s x coming t { x with inbox := inbox, stage := g } where
  stands := h'
  self := rfl
  nearer := weight_lt_of_rank (by rw [hidle]; exact hnearer)
  said := ⟨[], by rw [hidle]; rfl, by rw [hidle]; exact hsaid⟩
  hears := by
    intro _ c
    have hmem : c ∈ (t.registry x.hub).snapshot x.room ↔
        c ∈ (s₀.registry x.hub).snapshot x.room ∨ g.standing = .listed ∧ c = x.conn := by
      have hsnapshot := h'.snapshot
      dsimp only at hsnapshot
      rw [hsnapshot]
      split <;> simp [*]
    have hdebt : ({ x with inbox := inbox, stage := g } : Session).debt s₀ t coming c = x.debt s₀ s coming c := by
      rw [debt, debt, hidle, howes, Activity.owes_finished, Activity.owed_finished, ite_self, share, share]
      by_cases hc : c = x.conn
      · subst hc
        have hown : x.conn ∈ (t.registry x.hub).snapshot x.room ↔ g.standing = .listed := by
          rw [hmem]
          simp [h.new]
        simp only [hown, if_true, hheard, List.nil_append]
      · rw [if_neg hc, if_neg hc]
        by_cases hin : c ∈ (s₀.registry x.hub).snapshot x.room
        · rw [if_pos (hmem.mpr (.inl hin)), if_pos hin, if_pos hin]
          exact hsaid.symm
        · rw [if_neg fun hthere => (hmem.mp hthere).elim hin fun hown => hc hown.2, if_neg hin, if_neg hin]
    by_cases hc : c = x.conn
    · subst hc
      obtain ⟨hqueue, haccepted, hclosed | hnothing⟩ := hown
      · exact .nothing hqueue haccepted (by rw [due, due, hclosed, hdebt])
      · have hnone : x.debt s₀ s coming x.conn = [] := by
          rw [debt, share, if_pos rfl, hnothing, hidle, Activity.owes_finished, Activity.owed_finished, ite_self]
          rfl
        exact .nothing hqueue haccepted (by rw [due, due, hdebt, hnone]; simp)
    · exact hears_of_debt (hconn c hc) hdebt

/-- Where an activity has ended the session goes on. -/
theorem Stands.settle {r : Except PublishError Unit} {here : Activity → Stage} {next : Stage} (h : x.Stands s₀ s coming)
    (hb : x.stage.Busy (.finished r) here next) : Forth s₀ s x coming s { x with stage := next } := by
  obtain ⟨hactivity, -, hnext⟩ := hb.activity
  have hrest := fun stays => (hb.rest x.room x.user stays (x.inbox ++ coming) s.clock).2
  have hstands : ({ x with stage := next } : Session).Stands s₀ s coming :=
    h.quiet next (.refl s) h.line hb.standing.2 hb.undropped.2 (by rw [hnext]; trivial)
      (fun hl => h.awaits (hb.listens.2.mp hl)) fun a ha => absurd ha (hb.of_leaving.2 a)
  have hrank := hb.rank.2
  refine h.begin hstands hactivity ?_ (fun _ _ => rfl) ⟨rfl, rfl, .inl rfl⟩ (fun _ => by rw [hnext]; rfl) ?_ ?_
  · rw [hnext]
    show _ + 0 < _
    omega
  · rw [hrest, hnext]
    split <;> rfl
  · rw [hrest, hnext]
    rfl

/-- Where its connection comes or goes and is still open, a session stands as the registry says. -/
theorem Stands.relisted {g : Stage} (h : x.Stands s₀ s coming)
    (hq : Quiet (s.setRegistry x.hub (g.standing.place (s₀.registry x.hub) x.room x.member)) t) (hl : t.line = s.line)
    (hopen : x.standing ≠ .closed ∧ x.standing ≠ .dropped) (hg : g.standing ≠ .closed ∧ g.standing ≠ .dropped)
    (hfits : ∀ cs, g.activity.Fits x.hub x.room cs) (hlistens : g.Listens → x.stage.Listens) :
    ({ x with stage := g } : Session).Stands s₀ t coming where
  line := hl.trans h.line
  agrees := by
    refine ⟨?_, hq.size ▸ h.agrees.conn, (hq.room x.conn).trans h.agrees.room, (hq.user x.conn).trans h.agrees.user,
      fun _ _ => (hq.closed x.conn).trans (h.agrees.unclosed hopen.1 hopen.2), fun hclosed => absurd hclosed hg.1⟩
    rw [hq.hubs, Service.size_setRegistry]
    exact h.agrees.hub
  there c hc := hq.size ▸ h.there c hc
  once := h.once
  new := h.new
  here := (hq.registry x.hub).trans (s.registry_setRegistry _ h.agrees.hub)
  elsewhere g' hg' := (hq.registry g').trans ((s.registry_setRegistry_of_ne _ hg').trans (h.elsewhere g' hg'))
  undropped hdropped := hg.2 (congrArg Stage.standing hdropped)
  fits := hfits _
  awaits hl := h.awaits (hlistens hl)
  leaves a ha := absurd (congrArg Stage.standing ha) hg.1

theorem Stands.register (h : x.Stands s₀ s coming) (hx : x.stage = .opening) :
    Forth s₀ s x coming (Activity.announce (s.register x.hub x.conn) x.hub x.room x.user none).2
      { x with stage := .joining (Activity.announce (s.register x.hub x.conn) x.hub x.room x.user none).1 } := by
  have hplace : s.register x.hub x.conn = s.setRegistry x.hub ((s₀.registry x.hub).add x.room x.member) := by
    have hhere := h.here
    rw [standing, hx] at hhere
    rw [Service.register, hhere, h.agrees.room, h.agrees.user]
    rfl
  refine h.begin (h.relisted (hplace ▸ .readClock _) rfl ?_ ?_ ?_ ?_) (by rw [hx]; rfl) ?_ (fun _ _ => rfl)
    ⟨rfl, rfl, .inl rfl⟩ (fun _ => rfl) (by rw [hx]; rfl) (by rw [hx]; rfl)
  · simp [standing, hx, Stage.standing]
  · simp [Stage.standing]
  · exact fun _ => ⟨_, _, rfl⟩
  · exact fun _ => by rw [hx]; trivial
  · rw [hx]
    show 64 * x.inbox.length + 8 * 6 + 5 < 64 * x.inbox.length + 8 * 7
    omega

/-! ### Reading -/

section Reading

variable {i : Item} {rest : List Item}

theorem remarks_cons {room user : String} {k : Clockwork} {f : ClientFrame} {v : Utterance}
    (hv : Utterance.of? room user k.read.1 f = some v) (stays : Bool) (fs : List ClientFrame) :
    remarks room user stays k (f :: fs) = v.event :: remarks room user stays k.read.2 fs := by
  rw [remarks, speech, hv]
  rfl

theorem Stands.awaits_cons (h : x.Stands s₀ s coming) (hx : x.stage = .reading) (hi : x.inbox = i :: rest)
    (hends : i.ends = false) : ∃ j ∈ rest ++ coming, j.ends = true := by
  obtain ⟨j, hj, hjends⟩ := h.awaits (by rw [hx]; trivial)
  rw [hi] at hj
  rcases List.mem_cons.mp hj with rfl | hj
  · rw [hends] at hjends
    cases hjends
  · exact ⟨j, hj, hjends⟩

theorem Stands.pass (h : x.Stands s₀ s coming) (hx : x.stage = .reading) (hi : x.inbox = i :: rest)
    (hends : i.ends = false) (hframe : i.frame? = none) : Forth s₀ s x coming s { x with inbox := rest } := by
  have hheard : heard (x.inbox ++ coming) = heard (rest ++ coming) := by
    rw [hi, List.cons_append, heard_cons hends, hframe]
    rfl
  have hforth : Forth s₀ s x coming s { x with inbox := rest, stage := .reading } := by
    refine h.begin
      (h.quiet .reading (.refl s) h.line (by rw [standing, hx]) nofun
        trivial (fun _ => h.awaits_cons hx hi hends) nofun)
      (by rw [hx]; rfl) ?_ (fun _ _ => rfl) ⟨rfl, rfl, .inl rfl⟩ (fun _ => rfl) ?_ ?_
    · rw [hx, hi, List.length_cons]
      show 64 * rest.length + 8 * 5 + 0 < 64 * (rest.length + 1) + 8 * 5
      omega
    · rw [hx, Stage.rest, hheard]
      rfl
    · rw [hx, Stage.rest, hheard]
      rfl
  rwa [← hx] at hforth

theorem Stands.leave (h : x.Stands s₀ s coming) (hx : x.stage = .reading) (hi : x.inbox = i :: rest)
    (hends : i.ends = true) :
    Forth s₀ s x coming s { x with inbox := rest, stage := .releasing } := by
  have hheard : heard (x.inbox ++ coming) = [] := by rw [hi, List.cons_append, heard_cons_of_ends hends]
  refine h.begin (h.quiet .releasing (.refl s) h.line (by rw [standing, hx]; rfl) nofun trivial nofun nofun)
    (by rw [hx]; rfl) ?_ (fun _ _ => rfl) ⟨rfl, rfl, .inl rfl⟩ (fun _ => rfl) ?_ ?_
  · rw [hx, hi, List.length_cons]
    show 64 * rest.length + 8 * 4 + 0 < 64 * (rest.length + 1) + 8 * 5
    omega
  · rw [hx, Stage.rest, hheard]
    rfl
  · rw [hx, Stage.rest, hheard]
    rfl

theorem Stands.handle {frame : String} {f : ClientFrame} {v : Utterance} (h : x.Stands s₀ s coming)
    (hx : x.stage = .reading) (hi : x.inbox = .text frame :: rest) (hframe : (Item.text frame).frame? = some f)
    (hv : Utterance.of? x.room x.user s.clock.read.1 f = some v) :
    Forth s₀ s x coming s.readClock.2
      { x with inbox := rest, stage := .handling (v.activity x.hub x.room x.user) } := by
  have hheard : heard (x.inbox ++ coming) = f :: heard (rest ++ coming) := by
    rw [hi, List.cons_append, heard_cons rfl, hframe]
    rfl
  have howed : (v.activity x.hub x.room x.user).owed = [v.event.text] := by
    unfold Utterance.activity
    cases v.status <;> rfl
  have howes : ∀ c, (v.activity x.hub x.room x.user).owes c = [] := by
    unfold Utterance.activity
    cases v.status <;> exact fun _ => rfl
  have hfits : (v.activity x.hub x.room x.user).Fits x.hub x.room ((s.registry x.hub).snapshot x.room) := by
    unfold Utterance.activity
    cases v.status <;> exact ⟨_, _, rfl⟩
  have hphase : (v.activity x.hub x.room x.user).phase ≤ 5 := by
    unfold Utterance.activity
    cases v.status <;> simp [Activity.phase]
  refine h.begin (h.quiet (.handling _) (.readClock s) h.line (by rw [standing, hx]; rfl) nofun hfits
      (fun _ => h.awaits_cons hx hi rfl) nofun)
    (by rw [hx]; rfl) ?_ (fun _ _ => rfl) ⟨rfl, rfl, .inl rfl⟩ howes ?_ ?_
  · rw [hx, hi, List.length_cons]
    show 64 * rest.length + 8 * 6 + (v.activity x.hub x.room x.user).phase < 64 * (rest.length + 1) + 8 * 5
    omega
  · rw [hx, Stage.rest, hheard, remarks_cons hv]
    show _ = (v.activity x.hub x.room x.user).owed ++ _
    rw [howed]
    rfl
  · rw [hx, Stage.rest, hheard, remarks_cons hv]
    show _ = (v.activity x.hub x.room x.user).owed ++ _
    rw [howed]
    rfl

end Reading

/-! ### Leaving -/

theorem Stands.remove (h : x.Stands s₀ s coming) (hx : x.stage = .releasing) :
    Forth s₀ s x coming (s.deregister x.hub x.conn) { x with stage := .closing } := by
  have hplace : s.deregister x.hub x.conn =
      s.setRegistry x.hub (((s₀.registry x.hub).add x.room x.member).remove x.room x.conn).2 := by
    have hhere := h.here
    rw [standing, hx] at hhere
    rw [Service.deregister, Service.removeFrom, hhere, h.agrees.room]
    rfl
  refine h.begin (h.relisted (hplace ▸ .refl _) rfl ?_ ?_ ?_ ?_) (by rw [hx]; rfl) ?_ (fun _ _ => rfl)
    ⟨rfl, rfl, .inl rfl⟩ (fun _ => rfl) (by rw [hx]; rfl) (by rw [hx]; rfl)
  · simp [standing, hx, Stage.standing]
  · simp [Stage.standing]
  · exact fun _ => trivial
  · exact False.elim
  · rw [hx]
    show 64 * x.inbox.length + 8 * 3 + 0 < 64 * x.inbox.length + 8 * 4
    omega

theorem Stands.close (h : x.Stands s₀ s coming) (hx : x.stage = .closing) :
    Forth s₀ s x coming (s.close x.conn) { x with stage := .checking } := by
  have hconn := s.connection_updateConnection Connection.close h.agrees.conn
  have hothers : ∀ c, c ≠ x.conn → (s.close x.conn).connection c = s.connection c := fun c hc =>
    s.connection_updateConnection_of_ne _ hc
  refine h.begin ?_ (by rw [hx]; rfl) ?_ hothers ⟨?_, ?_, .inr ?_⟩ (fun _ => rfl) (by rw [hx]; rfl) (by rw [hx]; rfl)
  · exact {
      line := h.line
      agrees := by
        refine ⟨h.agrees.hub, ?_, ?_, ?_, nofun, fun _ => ?_⟩
        · rw [Service.size_close]
          exact h.agrees.conn
        · rw [Service.close, hconn, Connection.room_close]
          exact h.agrees.room
        · rw [Service.close, hconn, Connection.user_close]
          exact h.agrees.user
        · rw [Service.close, hconn, Connection.closed_close]
      there := fun c hc => (Service.size_close s x.conn).symm ▸ h.there c hc
      once := h.once
      new := h.new
      here := by
        have hhere := h.here
        rw [standing, hx] at hhere
        exact hhere
      elsewhere := h.elsewhere
      undropped := nofun
      fits := trivial
      awaits := nofun
      leaves := nofun }
  · rw [hx]
    show 64 * x.inbox.length + 8 * 2 + 0 < 64 * x.inbox.length + 8 * 3
    omega
  · rw [Service.close, hconn]
    unfold Connection.close
    split <;> rfl
  · rw [Service.close, hconn, Connection.accepted_close]
  · rw [hx]
    rfl

theorem Stands.stay (h : x.Stands s₀ s coming) (hx : x.stage = .checking) (hstays : x.stays s₀ = true) :
    Forth s₀ s x coming s { x with stage := .over } := by
  refine h.begin (h.quiet .over (.refl s) h.line (by rw [standing, hx]; rfl) nofun trivial nofun nofun)
    (by rw [hx]; rfl) ?_ (fun _ _ => rfl) ⟨rfl, rfl, .inl rfl⟩ (fun _ => rfl) (by rw [hx]; rfl)
    (by rw [hx, hstays]; rfl)
  rw [hx]
  show 64 * x.inbox.length + 8 * 0 + 0 < 64 * x.inbox.length + 8 * 2
  omega

theorem Stands.depart (h : x.Stands s₀ s coming) (hx : x.stage = .checking) (hstays : x.stays s₀ = false) :
    Forth s₀ s x coming (Activity.announce s x.hub x.room x.user (some offlineStatus)).2
      { x with stage := .leaving (Activity.announce s x.hub x.room x.user (some offlineStatus)).1 } := by
  refine h.begin
    (h.quiet (.leaving (Activity.announce s x.hub x.room x.user (some offlineStatus)).1) (.readClock s) h.line
      (by rw [standing, hx]; rfl) nofun ⟨_, _, rfl⟩ nofun fun _ _ => hstays)
    (by rw [hx]; rfl) ?_ (fun _ _ => rfl) ⟨rfl, rfl, .inl rfl⟩ (fun _ => rfl) (by rw [hx]; rfl)
    (by rw [hx, hstays]; rfl)
  rw [hx]
  show 64 * x.inbox.length + 8 * 1 + 5 < 64 * x.inbox.length + 8 * 2
  omega

/-! ### Every step -/

theorem Stands.advance {choice : Choice} {a : Activity} {here : Activity → Stage} {next : Stage}
    (h : x.Stands s₀ s coming)
    (hb : x.stage.Busy a here next) (hstep : x.advance s choice a here next = some (x', t)) :
    Forth s₀ s x coming t x' := by
  have worked : ((a.step s choice).map fun p => (({ x with stage := here p.1 } : Session), p.2)) = some (x', t) →
      Forth s₀ s x coming t x' := by
    intro hsome
    obtain ⟨⟨a', t'⟩, ha, heq⟩ := Option.map_eq_some_iff.mp hsome
    cases heq
    exact h.work hb (Activity.step_spec ha)
  cases a with
  | finished r =>
    cases hstep
    exact h.settle hb
  | _ => exact worked hstep

theorem Stands.read (h : x.Stands s₀ s coming) (hx : x.stage = .reading) (hstep : x.read s = some (x', t)) :
    Forth s₀ s x coming t x' := by
  cases hi : x.inbox with
  | nil =>
    rw [Session.read, hi] at hstep
    cases hstep
  | cons i rest =>
    rw [Session.read, hi] at hstep
    cases i with
    | text frame =>
      dsimp only at hstep
      cases hframe : (Item.text frame).frame? with
      | none =>
        rw [route_of_no_frame hframe] at hstep
        cases hstep
        exact h.pass hx hi rfl hframe
      | some f =>
        obtain ⟨v, hv, hroute⟩ := route_of_frame hframe s x.hub x.room x.user
        rw [hroute] at hstep
        cases hstep
        exact h.handle hx hi hframe hv
    | other =>
      cases hstep
      exact h.pass hx hi rfl rfl
    | close | error | ended =>
      cases hstep
      exact h.leave hx hi rfl

/-- **What a step of a session that is alone comes to.** -/
theorem Stands.forth {choice : Choice} (h : x.Stands s₀ s coming) (hstep : x.step s choice = some (x', t)) :
    Forth s₀ s x coming t x' := by
  unfold step at hstep
  split at hstep
  case h_1 hx =>
    cases hstep
    exact h.register hx
  case h_2 a hx => exact h.advance (hx ▸ .joining a) hstep
  case h_3 hx => exact h.read hx hstep
  case h_4 a hx => exact h.advance (hx ▸ .handling a) hstep
  case h_5 hx =>
    cases hstep
    exact h.remove hx
  case h_6 hx =>
    cases hstep
    exact h.close hx
  case h_7 hx =>
    rw [h.userConnected (by rw [standing, hx]; rfl)] at hstep
    split at hstep
    case isTrue hstays =>
      cases hstep
      exact h.stay hx hstays
    case isFalse hstays =>
      cases hstep
      exact h.depart hx (Bool.eq_false_iff.mpr hstays)
  case h_8 a hx => exact h.advance (hx ▸ .leaving a) hstep
  all_goals cases hstep

/-- Until it is over there is a step, unless the session waits for its client, who has not gone yet. -/
theorem Stands.goes (h : x.Stands s₀ s coming) (hover : x.stage ≠ .over) :
    (∀ choice, (x.step s choice).isSome = true) ∨ x.stage = .reading ∧ x.inbox = [] ∧ coming ≠ [] := by
  have busy : ∀ {a here next}, x.stage.Busy a here next → ∀ choice, (x.advance s choice a here next).isSome = true := by
    intro a here next hb choice
    have hfits := h.fits
    rw [hb.activity.1] at hfits
    have hstep := fun hunfinished => Activity.exists_step hfits hunfinished s choice
    unfold Session.advance
    split
    case h_1 => rfl
    case h_2 => rw [Option.isSome_map, hstep ‹_›]
  cases hx : x.stage with
  | opening | releasing | closing => exact .inl fun _ => by rw [step, hx]; rfl
  | joining a => exact .inl fun choice => by rw [step, hx]; exact busy (hx ▸ .joining a) choice
  | handling a => exact .inl fun choice => by rw [step, hx]; exact busy (hx ▸ .handling a) choice
  | leaving a => exact .inl fun choice => by rw [step, hx]; exact busy (hx ▸ .leaving a) choice
  | checking => exact .inl fun _ => by rw [step, hx]; dsimp only; split <;> rfl
  | reading =>
    cases hi : x.inbox with
    | nil =>
      refine .inr ⟨rfl, rfl, ?_⟩
      rintro rfl
      obtain ⟨i, hmem, -⟩ := h.awaits (by rw [hx]; trivial)
      rw [hi] at hmem
      cases hmem
    | cons i rest =>
      refine .inl fun _ => ?_
      rw [step, hx]
      dsimp only
      rw [Session.read, hi]
      cases i with
      | text frame => dsimp only; split <;> rfl
      | _ => rfl
  | _ => first | exact absurd hx hover | exact absurd hx h.undropped

end Session

end Hub

end Parley
