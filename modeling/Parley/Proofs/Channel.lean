import Parley.Hub.Subscriber

/-!
A room's channel carries its category and its room back, and the pattern of its category covers it:
what a hub publishes is heard by every hub, and known for what it is.
-/

namespace Parley

open Hub

namespace Category

theorem toList_channel (c : Category) (room : String) :
    (c.channel room).toList = c.name.toList ++ ':' :: (Channel.segment ++ room.toList) := by
  have hi : infixText.toList = ':' :: Channel.segment := rfl
  rw [channel, String.toList_append, String.toList_append, hi, List.append_assoc]
  rfl

theorem ne_colon_of_mem_name (c : Category) : ∀ x ∈ c.name.toList, (x != ':') = true := by
  have h : c.name.toList.all (· != ':') = true := by cases c <;> rfl
  exact fun x hx => List.all_eq_true.1 h x hx

theorem ofName?_name (c : Category) : ofName? c.name = some c := by
  cases c <;> rfl

theorem parse_pattern (c : Category) :
    Glob.parse c.pattern = .ok ⟨(c.name.toList ++ ':' :: Channel.segment).map .char ++ [.anySequence]⟩ := by
  cases c <;> rfl

end Category

namespace Channel

theorem parse?_channel (c : Category) (room : String) :
    parse? (c.channel room) = if room = "" then none else some (c, room) := by
  have hrest : (((c.channel room).toList.dropWhile (· != ':')).drop 1) = segment ++ room.toList := by
    rw [c.toList_channel, List.dropWhile_append_of_pos c.ne_colon_of_mem_name]
    simp
  have hname : (c.channel room).toList.takeWhile (· != ':') = c.name.toList := by
    rw [c.toList_channel, List.takeWhile_append_of_pos c.ne_colon_of_mem_name]
    simp
  have hcolon : (c.channel room).toList.contains ':' = true := by
    rw [c.toList_channel]; simp
  have hpre : segment.isPrefixOf (segment ++ room.toList) = true := List.isPrefixOf_iff_prefix.2 (List.prefix_append ..)
  have hdrop : (segment ++ room.toList).drop segment.length = room.toList := List.drop_left
  dsimp only [parse?]
  rw [hrest, hname, hcolon, hpre, hdrop, String.ofList_toList, String.ofList_toList, c.ofName?_name]
  by_cases hr : room = ""
  · subst hr
    rfl
  · have he : room.toList.isEmpty = false := by
      rw [Bool.eq_false_iff]
      intro he
      exact hr (String.toList_eq_nil_iff.1 (List.isEmpty_iff.1 he))
    rw [if_neg hr, he]
    rfl

end Channel

namespace Glob

theorem matchParts_map_char (cs : List Char) (ps : List Part) (s : List Char) :
    matchParts (cs.map .char ++ ps) (cs ++ s) = matchParts ps s := by
  induction cs with
  | nil => rfl
  | cons c cs ih => simp [matchParts, ih]

theorem matchParts_anySequence (s : List Char) : matchParts [.anySequence] s = true := by
  have hmem : [] ∈ Text.suffixes s := Text.mem_suffixes.2 ⟨s, by simp⟩
  exact List.any_eq_true.2 ⟨[], hmem, rfl⟩

end Glob

namespace Hub.Subscriber

/-- **A hub hears every room.** Its patterns can be read, and each channel is covered by one of them. -/
theorem patterns_spec : ∃ globs, MemoryBroker.readPatterns patterns = .ok globs ∧
    ∀ (c : Category) (room : String), globs.any (·.accepts (c.channel room)) = true := by
  let glob (c : Category) : Glob := ⟨(c.name.toList ++ ':' :: Channel.segment).map .char ++ [.anySequence]⟩
  refine ⟨Category.all.map glob, ?_, fun c room => ?_⟩
  · simp only [patterns, Category.all, List.map_cons, List.map_nil, MemoryBroker.readPatterns, List.foldr_cons,
      List.foldr_nil, Category.parse_pattern]
    rfl
  · have hmem : glob c ∈ Category.all.map glob := List.mem_map_of_mem (by cases c <;> decide)
    have hacc : (glob c).accepts (c.channel room) = true := by
      rw [Glob.accepts, c.toList_channel]
      have h := Glob.matchParts_map_char (c.name.toList ++ ':' :: Channel.segment) [.anySequence] room.toList
      rw [Glob.matchParts_anySequence] at h
      simpa [glob] using h
    exact List.any_eq_true.2 ⟨glob c, hmem, hacc⟩

theorem relay_message (hub : Nat) (q : Post) (text : String) :
    relay hub (q.message text) = if q.room = "" then .done 0 else .listing hub q.room (some text) := by
  unfold relay
  rw [show (q.message text).channel = q.category.channel q.room from rfl, Channel.parse?_channel]
  by_cases hr : q.room = ""
  · rw [if_pos hr, if_pos hr]
  · rw [if_neg hr, if_neg hr]
    exact congrArg _ (Text.Utf8.decode?_encode text)

end Hub.Subscriber

end Parley
