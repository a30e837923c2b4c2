import Parley.Proofs.Broker.History
import Parley.Proofs.Presence.Said

/-!
# Records that are stored and read at the same time

Any number of commands store and read records of one broker, and their steps come in any order. A store
reads the clock and then puts its record. A read reads the clock, looks for the record, and if that was
gone by the reading of the clock it removes what is under the key, provided that this is gone by then
as well: in the meantime the record may have been renewed.

* `Desk` is a broker, the time and the commands under way, with every record that was put so far.
  `Command.step` is made of what the commands of the broker are made of: `read_alone` and `store_alone`
  say that a command which nothing comes between is `MemoryBroker.get` and `MemoryBroker.setEx`.
* `Sound` ties the records to what was put: under each key is the record put last, or nothing and that
  record is gone. `Sound.move` is the step and `sound_run` the run.
* `records_faithful`: a read finds what was put last if that outlives the read's clock, and finds nothing
  only if there is nothing that has not gone; no record is removed that is not gone.
-/

namespace Parley.Records

open Broker

/-! ### Commands -/

/-- A record as it is stored: for so long from a reading of the clock. -/
structure Put where
  key : String
  value : String
  ttl : Nat
  asked : Instant
deriving DecidableEq, Repr

def Put.record (p : Put) : Record := ⟨p.value, p.asked + p.ttl⟩

/-- How far a command has come. -/
inductive Command where
  | store (key value : String) (ttl : Nat)
  /-- The clock was read. -/
  | putting (p : Put)
  | stored (p : Put)
  | read (key : String)
  /-- The clock was read at `asked`. -/
  | looking (key : String) (asked : Instant)
  /-- The record that was found was gone by `asked`. -/
  | sweeping (key : String) (asked : Instant)
  | answered (key : String) (answer : Option String)
  | refused (e : Error)
deriving DecidableEq, Repr

namespace Command

/-- The next step of a command at a time. -/
def step (b : MemoryBroker) (now : Instant) : Command → Command × MemoryBroker
  | .store key value ttl => if b.available then (.putting ⟨key, value, ttl, now⟩, b) else (.refused unavailable, b)
  | .putting p => (.stored p, b.put p.key p.record)
  | .read key => if b.available then (.looking key now, b) else (.refused unavailable, b)
  | .looking key asked =>
    match b.peek key with
    | none => (.answered key none, b)
    | some r =>
      match MemoryBroker.Record.live? r asked with
      | some v => (.answered key (some v), b)
      | none => (.sweeping key asked, b)
  | .sweeping key asked => (.answered key none, b.sweep asked key)
  | c => (c, b)

def puts : Command → List Put
  | .putting p => [p]
  | _ => []

def fresh : Command → Bool
  | .store .. | .read _ => true
  | _ => false

/-- The reading of the clock that a read goes by. -/
def asked? : Command → Option Instant
  | .looking _ asked | .sweeping _ asked => some asked
  | _ => none

/-- What a step of a command that is not over comes to. -/
inductive Step (b : MemoryBroker) (now : Instant) : Command → Command → MemoryBroker → Prop
  | refuse (c : Command) (hc : c.fresh = true) : Step b now c (.refused unavailable) b
  | timeStore (key value : String) (ttl : Nat) : Step b now (.store key value ttl) (.putting ⟨key, value, ttl, now⟩) b
  | put (p : Put) : Step b now (.putting p) (.stored p) (b.put p.key p.record)
  | timeRead (key : String) : Step b now (.read key) (.looking key now) b
  | answer (key : String) (asked : Instant) :
      Step b now (.looking key asked) (.answered key ((b.peek key).bind (MemoryBroker.Record.live? · asked))) b
  | lapse (key : String) (asked : Instant) (r : Record) (hr : b.peek key = some r)
      (hlive : MemoryBroker.Record.live? r asked = none) : Step b now (.looking key asked) (.sweeping key asked) b
  | sweep (key : String) (asked : Instant) : Step b now (.sweeping key asked) (.answered key none) (b.sweep asked key)

theorem step_spec (b : MemoryBroker) (now : Instant) (c : Command) :
    Step b now c (c.step b now).1 (c.step b now).2 ∨ c.step b now = (c, b) ∧ c.puts = [] := by
  cases c with
  | store key value ttl =>
    left
    simp only [step]
    split
    · exact .timeStore key value ttl
    · exact .refuse _ rfl
  | putting p => exact .inl (.put p)
  | read key =>
    left
    simp only [step]
    split
    · exact .timeRead key
    · exact .refuse _ rfl
  | looking key asked =>
    left
    have hanswer : Step b now (.looking key asked)
        (.answered key ((b.peek key).bind (MemoryBroker.Record.live? · asked))) b := .answer key asked
    simp only [step]
    cases hp : b.peek key with
    | none => simpa only [hp, Option.bind_none] using hanswer
    | some r =>
      cases hr : MemoryBroker.Record.live? r asked with
      | some v => simpa only [hp, hr, Option.bind_some] using hanswer
      | none =>
        have hlapse : Step b now (.looking key asked) (.sweeping key asked) b := .lapse key asked r hp hr
        simpa only [hp, hr] using hlapse
  | sweeping key asked => exact .inl (.sweep key asked)
  | stored | answered | refused => exact .inr ⟨rfl, rfl⟩

end Command

/-- Something that happens while records are stored and read. -/
inductive Move where
  | store (key value : String) (ttl : Nat)
  | read (key : String)
  /-- The next step of a command. -/
  | step (n : Nat)
  /-- Time passes. -/
  | wait (span : Nat)
  /-- Something that is done to the broker besides. -/
  | other (d : Deed)
deriving DecidableEq, Repr

/-- A broker and the commands under way, each by its number. -/
structure Desk where
  broker : MemoryBroker := {}
  now : Instant := 0
  commands : List Command := []
  /-- Every record that was put, in order. -/
  written : List Put := []

namespace Desk

def move (d : Desk) : Move → Desk
  | .store key value ttl => { d with commands := d.commands ++ [.store key value ttl] }
  | .read key => { d with commands := d.commands ++ [.read key] }
  | .step n =>
    match d.commands[n]? with
    | none => d
    | some c =>
      { d with
        broker := (c.step d.broker d.now).2
        commands := d.commands.set n (c.step d.broker d.now).1
        written := d.written ++ c.puts }
  | .wait span => { d with now := d.now + span }
  | .other x => { d with broker := (d.broker.perform x).2 }

def after (d : Desk) (ms : List Move) : Desk := ms.foldl move d

theorem after_concat (d : Desk) (ms : List Move) (m : Move) : d.after (ms ++ [m]) = (d.after ms).move m :=
  List.foldl_append

theorem move_step {d : Desk} {n : Nat} {c : Command} (h : d.commands[n]? = some c) :
    d.move (.step n) =
      { d with
        broker := (c.step d.broker d.now).2
        commands := d.commands.set n (c.step d.broker d.now).1
        written := d.written ++ c.puts } := by
  rw [move, h]

/-! ### A command that nothing comes between -/

theorem move_step_last (b : MemoryBroker) (now : Instant) (cs : List Command) (c : Command) (ps : List Put) :
    (Desk.mk b now (cs ++ [c]) ps).move (.step cs.length) =
      ⟨(c.step b now).2, now, cs ++ [(c.step b now).1], ps ++ c.puts⟩ := by
  rw [move_step (c := c) (by simp)]
  simp

/-- **A read by itself** is the broker's. -/
theorem read_alone (d : Desk) (key : String) :
    d.after [.read key, .step d.commands.length, .step d.commands.length, .step d.commands.length] =
      { d with
        broker := (d.broker.get d.now key).2
        commands := d.commands ++ [match (d.broker.get d.now key).1 with
          | .ok answer => .answered key answer
          | .error e => .refused e] } := by
  obtain ⟨b, now, cs, ps⟩ := d
  change ((((Desk.mk b now (cs ++ [.read key]) ps).move (.step cs.length)).move (.step cs.length)).move
      (.step cs.length)) = _
  rw [move_step_last, move_step_last, move_step_last, MemoryBroker.get]
  cases ha : b.available with
  | false => simp [Command.step, Command.puts, ha]
  | true =>
    cases hp : b.peek key with
    | none => simp [Command.step, Command.puts, ha, hp]
    | some r => cases hr : MemoryBroker.Record.live? r now <;> simp [Command.step, Command.puts, ha, hp, hr]

/-- **A store by itself** is the broker's, with what it puts. -/
theorem store_alone (d : Desk) (key value : String) (ttl : Nat) :
    d.after [.store key value ttl, .step d.commands.length, .step d.commands.length] =
      match d.broker.setEx d.now key value ttl with
      | (.ok _, b) =>
        { d with
          broker := b
          commands := d.commands ++ [.stored ⟨key, value, ttl, d.now⟩]
          written := d.written ++ [⟨key, value, ttl, d.now⟩] }
      | (.error e, b) => { d with broker := b, commands := d.commands ++ [.refused e] } := by
  obtain ⟨b, now, cs, ps⟩ := d
  change (((Desk.mk b now (cs ++ [.store key value ttl]) ps).move (.step cs.length)).move (.step cs.length)) = _
  rw [move_step_last, move_step_last, MemoryBroker.setEx]
  cases ha : b.available <;> simp [Command.step, Command.puts, Put.record, ha]

end Desk

/-- What comes of some moves, with a broker that has no record to begin with. -/
def run (ms : List Move) : Desk := ({} : Desk).after ms

theorem run_concat (ms : List Move) (m : Move) : run (ms ++ [m]) = (run ms).move m := Desk.after_concat _ _ _

def lastPut (key : String) (ps : List Put) : Option Put := ps.reverse.find? (·.key == key)

theorem lastPut_concat (key : String) (ps : List Put) (p : Put) :
    lastPut key (ps ++ [p]) = if p.key = key then some p else lastPut key ps := by
  rw [lastPut, List.reverse_concat, List.find?_cons]
  by_cases h : p.key = key
  · simp [h]
  · rw [beq_false_of_ne h, if_neg h, lastPut]

/-! ### The records of a broker -/

/-- Under a key that stands once, what is left of a list is what there was, if it was left. -/
theorem lookup_filter {l : List (String × Record)} (hl : (l.map Prod.fst).Nodup) (kept : String × Record → Bool)
    (key : String) :
    (l.filter kept).lookup key = (l.lookup key).filter fun r => kept (key, r) := by
  induction l with
  | nil => rfl
  | cons e l ih =>
    obtain ⟨other, r⟩ := e
    rw [List.map_cons, List.nodup_cons] at hl
    by_cases hk : key = other
    · subst hk
      have hno : (l.filter kept).lookup key = none :=
        List.lookup_eq_none_iff.2 fun e he => by
          have hmem := List.mem_map_of_mem (f := Prod.fst) (List.mem_filter.1 he).1
          simpa using fun h : key = e.1 => hl.1 (h ▸ hmem)
      by_cases hr : kept (key, r) = true <;> simp [hr, hno, Option.filter]
    · have hlook : ∀ l : List (String × Record), ((other, r) :: l).lookup key = l.lookup key := fun l => by
        rw [List.lookup_cons, beq_false_of_ne hk]
      rw [hlook, ← ih hl.2, List.filter_cons]
      split
      · exact hlook _
      · rfl

def Keyed (b : MemoryBroker) : Prop := (b.records.map Prod.fst).Nodup

section Keyed

variable {b : MemoryBroker}

theorem Keyed.congr {b' : MemoryBroker} (h : Keyed b) (hr : b'.records = b.records) : Keyed b' := by
  rw [Keyed, hr]
  exact h

theorem Keyed.filter (h : Keyed b) (kept : String × Record → Bool) : ((b.records.filter kept).map Prod.fst).Nodup :=
  h.sublist (List.filter_sublist.map _)

theorem Keyed.put (h : Keyed b) (key : String) (r : Record) : Keyed (b.put key r) := by
  refine List.nodup_cons.2 ⟨fun hmem => ?_, h.filter _⟩
  obtain ⟨e, he, hkey⟩ := List.mem_map.1 hmem
  simpa [hkey] using (List.mem_filter.1 he).2

theorem Keyed.peek_sweep (h : Keyed b) (asked : Instant) (key other : String) :
    (b.sweep asked key).peek other = (b.peek other).filter fun r => !(other == key && decide (r.expiry ≤ asked)) :=
  lookup_filter h _ other

/-- Nothing else that is done to a broker touches its records. -/
theorem records_perform (b : MemoryBroker) (x : Deed) : (b.perform x).2.records = b.records := by
  cases x with
  | publish m => exact b.records_publish m
  | subscribe patterns => exact b.records_subscribe patterns
  | read n => exact b.records_receive n
  | drop n | disconnect | outage down => rfl

end Keyed

/-! ### What is under a key -/

/-- Under a key is what was put there last, or nothing, and what was put there last is gone. -/
def Held (b : MemoryBroker) (ps : List Put) (now : Instant) (key : String) : Prop :=
  b.peek key = (lastPut key ps).map Put.record ∨
    b.peek key = none ∧ ∀ p, lastPut key ps = some p → p.record.expiry ≤ now

namespace Held

variable {b : MemoryBroker} {ps : List Put} {now : Instant} {key : String}

theorem congr {b' : MemoryBroker} (h : Held b ps now key) (hp : b'.peek key = b.peek key) : Held b' ps now key := by
  rw [Held, hp]
  exact h

theorem later {now' : Instant} (h : Held b ps now key) (hle : now ≤ now') : Held b ps now' key :=
  h.imp_right fun ⟨hnone, hgone⟩ => ⟨hnone, fun p hp => Nat.le_trans (hgone p hp) hle⟩

/-- A put record is what is under its key then. -/
theorem put (h : Held b ps now key) (p : Put) : Held (b.put p.key p.record) (ps ++ [p]) now key := by
  rw [Held, MemoryBroker.peek_put, lastPut_concat]
  by_cases hkey : p.key = key
  · rw [if_pos hkey.symm, if_pos hkey]
    exact .inl rfl
  · rw [if_neg (Ne.symm hkey), if_neg hkey]
    exact h

/-- A removal by an earlier reading of the clock takes a record only if it is gone. -/
theorem sweep (h : Held b ps now key) (hkeyed : Keyed b) {asked : Instant} (hle : asked ≤ now) (other : String) :
    Held (b.sweep asked other) ps now key := by
  rw [Held, hkeyed.peek_sweep]
  rcases h with hheld | ⟨hnone, hgone⟩
  · rw [hheld]
    cases hlast : lastPut key ps with
    | none => exact .inl rfl
    | some p =>
      by_cases hgone : key = other ∧ p.record.expiry ≤ asked
      · refine .inr ⟨by simp [Option.filter, hgone], ?_⟩
        rintro q ⟨⟩
        exact Nat.le_trans hgone.2 hle
      · have hstays : key = other → asked < p.record.expiry := fun hkey => Nat.lt_of_not_le fun he => hgone ⟨hkey, he⟩
        refine .inl ?_
        rw [Option.map_some, Option.filter_some, if_pos]
        simpa [Decidable.imp_iff_not_or] using hstays
  · exact .inr ⟨by rw [hnone]; rfl, hgone⟩

end Held

/-- What is under each key is what was put there last, or that is gone; and no command is ahead of the clock. -/
structure Sound (d : Desk) : Prop where
  keyed : Keyed d.broker
  held : ∀ key, Held d.broker d.written d.now key
  asked : ∀ c ∈ d.commands, ∀ t, c.asked? = some t → t ≤ d.now

namespace Sound

variable {d : Desk}

theorem step {n : Nat} {c c' : Command} {b : MemoryBroker} (h : Sound d) (hc : d.commands[n]? = some c)
    (hstep : Command.Step d.broker d.now c c' b) : Sound ⟨b, d.now, d.commands.set n c', d.written ++ c.puts⟩ := by
  have hasked : ∀ t, c.asked? = some t → t ≤ d.now := h.asked c (List.mem_of_getElem? hc)
  have set (hc' : ∀ t, c'.asked? = some t → t ≤ d.now) :
      ∀ x ∈ d.commands.set n c', ∀ t, x.asked? = some t → t ≤ d.now := by
    intro x hx t ht
    rcases List.mem_or_eq_of_mem_set hx with hx | rfl
    · exact h.asked x hx t ht
    · exact hc' t ht
  have quiet (hputs : c.puts = []) : ∀ key, Held d.broker (d.written ++ c.puts) d.now key := by
    rw [hputs, List.append_nil]
    exact h.held
  cases hstep with
  | refuse c hfresh => exact ⟨h.keyed, quiet (by cases c <;> first | rfl | cases hfresh), set fun t ht => by cases ht⟩
  | timeStore key value ttl => exact ⟨h.keyed, quiet rfl, set fun t ht => by cases ht⟩
  | put p => exact ⟨h.keyed.put p.key p.record, fun key => (h.held key).put p, set fun t ht => by cases ht⟩
  | timeRead key => exact ⟨h.keyed, quiet rfl, set fun t ht => by cases ht; exact Nat.le_refl _⟩
  | answer key asked => exact ⟨h.keyed, quiet rfl, set fun t ht => by cases ht⟩
  | lapse key asked r hr hlive => exact ⟨h.keyed, quiet rfl, set hasked⟩
  | sweep key asked =>
    refine ⟨h.keyed.filter _, fun other => ?_, set fun t ht => by cases ht⟩
    rw [show Command.puts (.sweeping key asked) = [] from rfl, List.append_nil]
    exact (h.held other).sweep h.keyed (hasked asked rfl) key

theorem move (h : Sound d) (m : Move) : Sound (d.move m) := by
  have add (c : Command) (hc : c.asked? = none) : Sound { d with commands := d.commands ++ [c] } := by
    refine ⟨h.keyed, h.held, fun c' hmem t ht => ?_⟩
    rcases List.mem_append.1 hmem with hmem | hmem
    · exact h.asked c' hmem t ht
    · rw [List.mem_singleton.1 hmem, hc] at ht
      cases ht
  cases m with
  | store key value ttl => exact add _ rfl
  | read key => exact add _ rfl
  | wait span =>
    have hle : d.now ≤ d.now + span := Nat.le_add_right ..
    exact ⟨h.keyed, fun key => (h.held key).later hle, fun c hmem t ht => Nat.le_trans (h.asked c hmem t ht) hle⟩
  | other x =>
    have hrecords := records_perform d.broker x
    exact ⟨h.keyed.congr hrecords, fun key => (h.held key).congr (MemoryBroker.peek_of_records hrecords), h.asked⟩
  | step n =>
    cases hc : d.commands[n]? with
    | none =>
      rw [Desk.move, hc]
      exact h
    | some c =>
      rw [Desk.move_step hc]
      rcases c.step_spec d.broker d.now with hstep | ⟨hend, hputs⟩
      · exact h.step hc hstep
      · have hset : d.commands.set n c = d.commands := by
          obtain ⟨hlt, rfl⟩ := List.getElem?_eq_some_iff.1 hc
          exact List.set_getElem_self hlt
        rw [hend, hputs, List.append_nil, hset]
        exact h

end Sound

theorem sound_run (ms : List Move) : Sound (run ms) := by
  induction ms using List.reverseRecOn with
  | nil => exact ⟨List.nodup_nil, fun key => .inl rfl, fun c hc => by cases hc⟩
  | append_singleton ms m ih =>
    rw [run_concat]
    exact ih.move m

/-! ### How a command came where it is -/

/-- A command was at `c₀` after some of the moves, and its step then took it elsewhere, to `c`. -/
structure Brought (ms : List Move) (n : Nat) (c : Command) (before : List Move) (c₀ : Command) : Prop where
  moved : before ++ [.step n] <+: ms
  was : (run before).commands[n]? = some c₀
  does : ∃ b, Command.Step (run before).broker (run before).now c₀ c b

/-- A command that was begun has come where it is by a step of its own. -/
theorem reached {ms : List Move} {n : Nat} {c : Command} (h : (run ms).commands[n]? = some c) (hc : c.fresh = false) :
    ∃ before c₀, Brought ms n c before c₀ := by
  induction ms using List.reverseRecOn with
  | nil => cases h
  | append_singleton ms m ih =>
    -- where it stood there before, the step that led there was made before
    have earlier (h : (run ms).commands[n]? = some c) : ∃ before c₀, Brought (ms ++ [m]) n c before c₀ := by
      obtain ⟨before, c₀, hb⟩ := ih h
      exact ⟨before, c₀, hb.moved.trans (List.prefix_append ms [m]), hb.was, hb.does⟩
    have added (c' : Command) (hc' : c'.fresh = true) (h : ((run ms).commands ++ [c'])[n]? = some c) :
        (run ms).commands[n]? = some c := by
      rw [List.getElem?_append] at h
      split at h
      · exact h
      · have hmem := List.mem_of_getElem? h
        rw [List.mem_singleton.1 hmem, hc'] at hc
        cases hc
    rw [run_concat] at h
    cases m with
    | store key value ttl => exact earlier (added _ rfl h)
    | read key => exact earlier (added _ rfl h)
    | wait span => exact earlier h
    | other x => exact earlier h
    | step k =>
      cases hk : (run ms).commands[k]? with
      | none =>
        rw [Desk.move, hk] at h
        exact earlier h
      | some c₀ =>
        rw [Desk.move_step hk] at h
        by_cases hkn : k = n
        · subst hkn
          have hlt : k < (run ms).commands.length := (List.getElem?_eq_some_iff.1 hk).1
          have hstep : (c₀.step (run ms).broker (run ms).now).1 = c :=
            Option.some.inj ((List.getElem?_set_self hlt).symm.trans h)
          rcases c₀.step_spec (run ms).broker (run ms).now with hdoes | ⟨hend, -⟩
          · exact ⟨ms, c₀, List.prefix_refl _, hk, _, hstep ▸ hdoes⟩
          · rw [hend] at hstep
            exact earlier (hk.trans (congrArg some hstep))
        · exact earlier ((List.getElem?_set_ne hkn).symm.trans h)

/-- A command reads `key`: it read the clock after `first` and looks for the record after `second`. -/
structure Looked (ms : List Move) (n : Nat) (key : String) (first second : List Move) : Prop where
  called : (run first).commands[n]? = some (.read key)
  clock : first ++ [.step n] <+: second
  looking : (run second).commands[n]? = some (.looking key (run first).now)
  entry : second ++ [.step n] <+: ms

/-- A command stores `p`: it read the clock after `first` and puts the record after `second`. -/
structure Stored (ms : List Move) (n : Nat) (p : Put) (first second : List Move) : Prop where
  called : (run first).commands[n]? = some (.store p.key p.value p.ttl)
  clock : first ++ [.step n] <+: second
  asked : (run first).now = p.asked
  putting : (run second).commands[n]? = some (.putting p)
  entry : second ++ [.step n] <+: ms

section Came

variable {ms : List Move} {n : Nat} {key : String}

theorem looked_of_looking {asked : Instant} {rest : List Move} (h : (run ms).commands[n]? = some (.looking key asked))
    (hms : ms ++ [.step n] <+: rest) : ∃ first, Looked rest n key first ms ∧ asked = (run first).now := by
  obtain ⟨first, c₀, hmoved, hwas, _, hdoes⟩ := reached h rfl
  cases hdoes with
  | timeRead => exact ⟨first, ⟨hwas, hmoved, h, hms⟩, rfl⟩

theorem stored_of_putting {p : Put} {rest : List Move} (h : (run ms).commands[n]? = some (.putting p))
    (hms : ms ++ [.step n] <+: rest) : ∃ first, Stored rest n p first ms := by
  obtain ⟨first, c₀, hmoved, hwas, _, hdoes⟩ := reached h rfl
  cases hdoes with
  | timeStore => exact ⟨first, hwas, hmoved, rfl, h, hms⟩

/-- Who is about to remove a record has looked for it, and it was gone. -/
theorem looked_of_sweeping {asked : Instant} (h : (run ms).commands[n]? = some (.sweeping key asked)) :
    ∃ first second r, Looked ms n key first second ∧ asked = (run first).now ∧ (run second).broker.peek key = some r ∧
      MemoryBroker.Record.live? r asked = none := by
  obtain ⟨second, c₀, hmoved, hwas, _, hdoes⟩ := reached h rfl
  cases hdoes with
  | lapse key asked r hr hlive =>
    obtain ⟨first, hlooked, rfl⟩ := looked_of_looking hwas hmoved
    exact ⟨first, second, r, hlooked, rfl, hr, hlive⟩

/-- The answer to a read is what stood there when it was looked for, if that outlived the reading of the clock. -/
theorem looked_of_answered {answer : Option String} (h : (run ms).commands[n]? = some (.answered key answer)) :
    ∃ first second, Looked ms n key first second ∧
      answer = ((run second).broker.peek key).bind (MemoryBroker.Record.live? · (run first).now) := by
  obtain ⟨second, c₀, hmoved, hwas, _, hdoes⟩ := reached h rfl
  cases hdoes with
  | answer =>
    obtain ⟨first, hlooked, rfl⟩ := looked_of_looking hwas hmoved
    exact ⟨first, second, hlooked, rfl⟩
  | sweep =>
    obtain ⟨first, look, r, hlooked, rfl, hr, hlive⟩ := looked_of_sweeping hwas
    refine ⟨first, look, ⟨hlooked.called, hlooked.clock, hlooked.looking, ?_⟩, by rw [hr]; exact hlive.symm⟩
    exact hlooked.entry.trans ((List.prefix_append _ _).trans hmoved)

end Came

/-! ### What the commands come to -/

/-- **Every record was put by a store**, and they stand in the order in which they were put. -/
theorem stored_of_written {ms : List Move} {ps qs : List Put} {p : Put} (h : (run ms).written = ps ++ p :: qs) :
    ∃ n first second, Stored ms n p first second ∧ (run second).written = ps := by
  induction ms using List.reverseRecOn generalizing qs with
  | nil => simp [run, Desk.after] at h
  | append_singleton ms m ih =>
    have earlier {qs : List Put} (h : (run ms).written = ps ++ p :: qs) :
        ∃ n first second, Stored (ms ++ [m]) n p first second ∧ (run second).written = ps := by
      obtain ⟨n, first, second, hs, hps⟩ := ih h
      exact ⟨n, first, second, ⟨hs.called, hs.clock, hs.asked, hs.putting, hs.entry.trans (List.prefix_append ms [m])⟩,
        hps⟩
    rw [run_concat] at h
    cases m with
    | store key value ttl => exact earlier h
    | read key => exact earlier h
    | wait span => exact earlier h
    | other x => exact earlier h
    | step n =>
      cases hc : (run ms).commands[n]? with
      | none =>
        rw [Desk.move, hc] at h
        exact earlier h
      | some c =>
        rw [Desk.move_step hc] at h
        cases c with
        | putting q =>
          -- the record is the one that this step puts, or it was put before
          rcases concat_eq_append_cons h with ⟨-, hps, rfl⟩ | ⟨rest, -, hps⟩
          · obtain ⟨first, hs⟩ := stored_of_putting hc (List.prefix_refl _)
            exact ⟨n, first, ms, hs, hps⟩
          · exact earlier hps
        | _ => exact earlier (by simpa [Command.puts] using h)

theorem live?_eq_some {r : Record} {now : Instant} {v : String} (h : MemoryBroker.Record.live? r now = some v) :
    r.value = v ∧ now < r.expiry := by
  unfold MemoryBroker.Record.live? at h
  split at h <;> cases h
  exact ⟨rfl, ‹_›⟩

theorem expiry_le_of_live? {r : Record} {now : Instant} (h : MemoryBroker.Record.live? r now = none) :
    r.expiry ≤ now := by
  unfold MemoryBroker.Record.live? at h
  split at h
  · cases h
  · exact Nat.le_of_not_lt ‹_›

/-- What stores and reads come to, whatever the order of their steps. -/
structure Faithful (ms : List Move) : Prop where
  /-- A read that gives a text looked when the last store of the key had put that text, and for longer
  than until the read's own reading of the clock. -/
  found : ∀ n key v, (run ms).commands[n]? = some (.answered key (some v)) →
    ∃ first second, Looked ms n key first second ∧
    ∃ p, lastPut key (run second).written = some p ∧ p.value = v ∧ (run first).now < p.asked + p.ttl
  /-- A read that gives nothing looked when the key was never stored, or what was stored last was gone. -/
  missed : ∀ n key, (run ms).commands[n]? = some (.answered key none) → ∃ first second, Looked ms n key first second ∧
    ∀ p, lastPut key (run second).written = some p → p.asked + p.ttl ≤ (run second).now
  /-- What was put was put by stores, in this order, each for so long from its reading of the clock. -/
  stored : ∀ ps p qs, (run ms).written = ps ++ p :: qs →
    ∃ n first second, Stored ms n p first second ∧ (run second).written = ps
  /-- A removal takes no record but one that is gone already. -/
  removed : ∀ n key asked, (run ms).commands[n]? = some (.sweeping key asked) → ∀ other r,
    (run ms).broker.peek other = some r → (run (ms ++ [.step n])).broker.peek other ≠ some r →
      other = key ∧ r.expiry ≤ asked ∧ asked ≤ (run ms).now
  /-- What was stored last is there until it is gone. -/
  kept : ∀ key p, lastPut key (run ms).written = some p → (run ms).now < p.asked + p.ttl →
    (run ms).broker.peek key = some p.record

/-- **No stale read and no lost write.** In every run of stores and reads of any keys, with outages and
whatever else is done to the broker in between. -/
theorem records_faithful (ms : List Move) : Faithful ms where
  found n key v h := by
    obtain ⟨first, second, hlooked, hanswer⟩ := looked_of_answered h
    obtain ⟨r, hpeek, hlive⟩ := Option.bind_eq_some_iff.1 hanswer.symm
    obtain ⟨hvalue, hlt⟩ := live?_eq_some hlive
    rcases (sound_run second).held key with hheld | ⟨hnone, -⟩
    · obtain ⟨p, hlast, rfl⟩ := Option.map_eq_some_iff.1 (hheld.symm.trans hpeek)
      exact ⟨first, second, hlooked, p, hlast, hvalue, hlt⟩
    · cases hnone.symm.trans hpeek
  missed n key h := by
    obtain ⟨first, second, hlooked, hanswer⟩ := looked_of_answered h
    refine ⟨first, second, hlooked, fun p hlast => ?_⟩
    rcases (sound_run second).held key with hheld | ⟨-, hgone⟩
    · rw [hheld, hlast] at hanswer
      have hread : (run first).now ≤ (run second).now :=
        (sound_run second).asked _ (List.mem_of_getElem? hlooked.looking) _ rfl
      exact Nat.le_trans (expiry_le_of_live? hanswer.symm) hread
    · exact hgone p hlast
  stored ps p qs h := stored_of_written h
  removed n key asked h other r hpeek hgone := by
    have hle : asked ≤ (run ms).now := (sound_run ms).asked _ (List.mem_of_getElem? h) asked rfl
    rw [run_concat, Desk.move_step h] at hgone
    change ((run ms).broker.sweep asked key).peek other ≠ some r at hgone
    rw [(sound_run ms).keyed.peek_sweep, hpeek, Option.filter_some] at hgone
    have hboth : other = key ∧ r.expiry ≤ asked := by
      by_contra hnot
      refine hgone (if_pos ?_)
      simpa [Decidable.imp_iff_not_or] using hnot
    exact ⟨hboth.1, hboth.2, hle⟩
  kept key p hlast hlt := by
    rcases (sound_run ms).held key with hheld | ⟨-, hgone⟩
    · rw [hheld, hlast]
      rfl
    · exact absurd (hgone p hlast) (Nat.not_le.2 hlt)

/-- A record is renewed between the look of a read and its removal, and stays. -/
example : ((run [.store "k" "old" 5, .step 0, .step 0, .wait 5, .read "k", .step 1, .step 1,
    .store "k" "new" 5, .step 2, .step 2, .step 1]).broker.peek "k") = some ⟨"new", 10⟩ := by decide

end Parley.Records
