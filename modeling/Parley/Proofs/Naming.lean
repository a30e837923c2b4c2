import Mathlib.Data.Option.Basic
import Parley.Proofs.Channel

/-!
A room's channel, a category's pattern and the reading of a channel agree on every name. A name is read
as the category and the room whose channel it is, so it has one pattern at most, and a name that a
pattern covers is let go of only if it names no room.

The first colon of a channel ends its category, whatever is in the room: a room may have colons, stars
and brackets, and may look like a channel itself.
-/

namespace Parley

open Hub

/-- Whether a text is a pattern that matches the whole name. -/
def Glob.covers (pattern name : String) : Bool :=
  match Glob.parse pattern with
  | .ok g => g.accepts name
  | .error _ => false

namespace Glob

theorem matchParts_prefix (cs s : List Char) : matchParts (cs.map .char ++ [.anySequence]) s = true ↔ cs <+: s := by
  induction cs generalizing s with
  | nil => exact iff_of_true (matchParts_anySequence s) (List.nil_prefix)
  | cons c cs ih =>
    cases s with
    | nil => simp only [List.map_cons, List.cons_append, matchParts, List.prefix_nil, reduceCtorEq, Bool.false_eq_true]
    | cons d s =>
      rw [List.map_cons, List.cons_append, List.cons_prefix_cons, matchParts, Bool.and_eq_true, beq_iff_eq, ih, eq_comm]

end Glob

namespace Category

theorem eq_of_ofName? {s : String} {c : Category} (h : ofName? s = some c) : c.name = s := by
  simpa using List.find?_some h

theorem channel_eq_iff (c : Category) (room n : String) :
    c.channel room = n ↔ n.toList = c.name.toList ++ ':' :: (Channel.segment ++ room.toList) := by
  rw [← String.toList_inj, c.toList_channel, eq_comm]

/-- **A pattern covers the channels of its category and nothing else.** -/
theorem covers_pattern (c : Category) (n : String) :
    Glob.covers c.pattern n = true ↔ ∃ room, c.channel room = n := by
  have hparts : Glob.covers c.pattern n = true ↔ (c.name.toList ++ ':' :: Channel.segment) <+: n.toList := by
    rw [Glob.covers, c.parse_pattern]
    exact Glob.matchParts_prefix _ _
  rw [hparts]
  constructor
  · rintro ⟨rest, hrest⟩
    exact ⟨String.ofList rest, (c.channel_eq_iff _ n).2 (by simp [← hrest])⟩
  · rintro ⟨room, rfl⟩
    exact ⟨room.toList, by simp [c.toList_channel]⟩

/-- What stands before the first colon of a channel is the name of its category. -/
theorem takeWhile_channel (c : Category) (room : String) :
    (c.channel room).toList.takeWhile (· != ':') = c.name.toList := by
  rw [c.toList_channel, List.takeWhile_append_of_pos c.ne_colon_of_mem_name]
  simp

theorem channel_eq_channel_iff {c d : Category} {r s : String} :
    c.channel r = d.channel s ↔ c = d ∧ r = s := by
  refine ⟨fun h => ?_, fun ⟨hc, hr⟩ => by rw [hc, hr]⟩
  have hname : c.name = d.name :=
    String.toList_inj.1 (by rw [← c.takeWhile_channel r, h, d.takeWhile_channel s])
  obtain rfl : c = d := Option.some.inj (by rw [← c.ofName?_name, hname, d.ofName?_name])
  rw [channel_eq_iff, c.toList_channel] at h
  exact ⟨rfl, String.toList_inj.1 (by simpa using h.symm)⟩

end Category

namespace Channel

theorem takeWhile_cons_dropWhile {cs : List Char} (h : ':' ∈ cs) :
    cs.takeWhile (· != ':') ++ ':' :: (cs.dropWhile (· != ':')).drop 1 = cs := by
  induction cs with
  | nil => cases h
  | cons c cs ih =>
    by_cases hc : c = ':'
    · simp [hc]
    · have hmem : ':' ∈ cs := (List.mem_cons.1 h).resolve_left (Ne.symm hc)
      simpa [hc] using ih hmem

theorem channel_of_parse? {n room : String} {c : Category} (h : parse? n = some (c, room)) :
    room ≠ "" ∧ c.channel room = n := by
  simp only [parse?, Option.bind_eq_bind, Option.bind_eq_some_iff, Option.guard_eq_some', Option.pure_def,
    Option.some.injEq, Prod.mk.injEq] at h
  obtain ⟨-, hcolon, -, hsegment, -, hroom, d, hname, rfl, rfl⟩ := h
  obtain ⟨room, hrest⟩ := List.isPrefixOf_iff_prefix.1 hsegment
  rw [← hrest, List.drop_left] at hroom ⊢
  refine ⟨fun he => ?_, ?_⟩
  · simp [String.ofList_eq_empty_iff.1 he] at hroom
  · have hsplit := takeWhile_cons_dropWhile (List.contains_iff_mem.1 hcolon)
    rw [Category.channel_eq_iff, Category.eq_of_ofName? hname, String.toList_ofList, String.toList_ofList,
      hrest, hsplit]

/-- **Reading a name undoes naming a room.** A name is read as a category and a room exactly if the
room has a name and theirs is the channel. -/
theorem parse?_eq_some_iff (n : String) (c : Category) (room : String) :
    parse? n = some (c, room) ↔ room ≠ "" ∧ c.channel room = n := by
  refine ⟨channel_of_parse?, ?_⟩
  rintro ⟨hroom, rfl⟩
  rw [parse?_channel, if_neg hroom]

end Channel

namespace MemoryBroker

theorem readPatterns_cons (text : String) (texts : List String) :
    readPatterns (text :: texts) = match Glob.parse text with
      | .ok g => (readPatterns texts).map (g :: ·)
      | .error fault => .error ⟨.command, "invalid pattern: " ++ fault.message⟩ := rfl

/-- Patterns that can be read accept a name together if one of them covers it. -/
theorem any_accepts_of_readPatterns {texts : List String} {globs : List Glob}
    (h : readPatterns texts = .ok globs) (n : String) : globs.any (·.accepts n) = texts.any (Glob.covers · n) := by
  induction texts generalizing globs with
  | nil =>
    cases h
    rfl
  | cons text texts ih =>
    rw [readPatterns_cons] at h
    cases hp : Glob.parse text with
    | error e => simp [hp] at h
    | ok g =>
      cases hr : readPatterns texts with
      | error e => simp [hp, hr, Except.map] at h
      | ok rest =>
        simp only [hp, hr, Except.map, Except.ok.injEq] at h
        subst h
        simp only [List.any_cons, ih hr, Glob.covers, hp]

end MemoryBroker

namespace Hub.Subscriber

/-- **What a hub hears are the channels of the rooms.** The patterns it subscribes to can be read, and
together they accept exactly the channels. -/
theorem accepts_iff : ∃ globs, MemoryBroker.readPatterns patterns = .ok globs ∧
    ∀ n, globs.any (·.accepts n) = true ↔ ∃ (c : Category) (room : String), c.channel room = n := by
  obtain ⟨globs, hread, -⟩ := patterns_spec
  refine ⟨globs, hread, fun n => ?_⟩
  rw [MemoryBroker.any_accepts_of_readPatterns hread, patterns, List.any_map, List.any_eq_true]
  constructor
  · rintro ⟨c, -, hc⟩
    exact ⟨c, (c.covers_pattern n).1 hc⟩
  · rintro ⟨c, hc⟩
    exact ⟨c, by cases c <;> decide, (c.covers_pattern n).2 hc⟩

theorem countP_patterns (n : String) : patterns.countP (Glob.covers · n) ≤ 1 := by
  have hone : ∀ c d : Category, Glob.covers c.pattern n = true → Glob.covers d.pattern n = true → c = d := by
    intro c d hc hd
    obtain ⟨r, hr⟩ := (c.covers_pattern n).1 hc
    obtain ⟨s, hs⟩ := (d.covers_pattern n).1 hd
    exact (Category.channel_eq_channel_iff.1 (hr.trans hs.symm)).1
  rw [patterns, List.countP_map]
  by_cases h : ∃ c : Category, Glob.covers c.pattern n = true
  · obtain ⟨c, hc⟩ := h
    have hle : Category.all.countP ((Glob.covers · n) ∘ Category.pattern) ≤ Category.all.countP (· == c) :=
      List.countP_mono_left fun d _ hd => by simpa using hone d c hd hc
    have hc1 : Category.all.countP (· == c) = 1 := by cases c <;> rfl
    omega
  · have hzero : Category.all.countP ((Glob.covers · n) ∘ Category.pattern) = 0 :=
      List.countP_eq_zero.2 fun d _ hd => h ⟨d, hd⟩
    omega

theorem relay_eq_done_iff (hub : Nat) (m : Broker.Message) :
    relay hub m = .done 0 ↔ Channel.parse? m.channel = none := by
  rw [relay]
  cases h : Channel.parse? m.channel with
  | none => simp
  | some p => simp

end Hub.Subscriber

/-- **Naming, patterns and reading agree on every name.** The channel of a room that has a name is read
as its category and that room, and what is read as a category and a room is their channel. A pattern
covers the channels of its category and nothing else, and of a hub's patterns at most one covers a
name. A name that is covered is not read, and its message let go of, exactly if the room has no name. -/
theorem Channel.naming_spec (n : String) :
    (∀ (c : Category) (room : String), room ≠ "" → parse? (c.channel room) = some (c, room)) ∧
    (∀ (c : Category) (room : String), parse? n = some (c, room) → room ≠ "" ∧ c.channel room = n) ∧
    (∀ c : Category, Glob.covers c.pattern n = true ↔ ∃ room, c.channel room = n) ∧
    Subscriber.patterns.countP (Glob.covers · n) ≤ 1 ∧
    (∀ pattern ∈ Subscriber.patterns, Glob.covers pattern n = true →
      ∃ (c : Category) (room : String), c.pattern = pattern ∧ c.channel room = n ∧
        (parse? n = none ↔ room = "") ∧
        ∀ (hub : Nat) (payload : Bytes), Subscriber.relay hub ⟨n, payload⟩ = .done 0 ↔ room = "") := by
  refine ⟨fun c room hroom => ?_, fun c room => channel_of_parse?, fun c => c.covers_pattern n,
    Subscriber.countP_patterns n, fun pattern hmem hcover => ?_⟩
  · exact (parse?_eq_some_iff _ c room).2 ⟨hroom, rfl⟩
  · obtain ⟨c, -, rfl⟩ := List.mem_map.1 hmem
    obtain ⟨room, rfl⟩ := (c.covers_pattern n).1 hcover
    have hnone : parse? (c.channel room) = none ↔ room = "" := by
      rw [parse?_channel]
      by_cases hroom : room = "" <;> simp [hroom]
    exact ⟨c, room, rfl, rfl, hnone, fun hub payload => (Subscriber.relay_eq_done_iff hub ⟨_, payload⟩).trans hnone⟩

/-- A room that looks like a channel, with a star and a bracket in it. -/
example : Channel.parse? (Category.events.channel "presence:conversation:[*") =
    some (.events, "presence:conversation:[*") := by decide

end Parley
