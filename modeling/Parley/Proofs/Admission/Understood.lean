import Parley.Proofs.Admission.Frames
import Parley.Proofs.Json.Values

/-!
# Which texts are frames

A text is understood as a frame about typing, reading or presence exactly if it is a JSON document that names that
type and carries at most one argument of its kind, and the frame says what the argument says. Where members stand,
and what members there are of other names, makes no difference.
-/

namespace Parley.ClientFrame

open Json (Document maxDepth)

inductive Kind where
  | typing
  | read
  | presence
deriving DecidableEq, Repr

namespace Kind

def word : Kind → String
  | typing => "typing"
  | read => "read"
  | presence => "presence"

def member : Kind → String
  | typing => "stopped"
  | read => "last_read_id"
  | presence => "status"

/-- What a frame of a type says, by the arguments that it carries. -/
inductive Carries : Kind → List Json → ClientFrame → Prop
  | goesOn : Carries typing [] (.typing false)
  | stopped (b : Bool) : Carries typing [.bool b] (.typing b)
  | nowhere : Carries read [] (.read none)
  | upTo (v : Json) : Carries read [v] (.read (some v.canonical))
  | silent : Carries presence [] (.presence none)
  | blank : Carries presence [.null] (.presence none)
  | status (s : String) : Carries presence [.string s] (.presence (some s))

/-- A value that names a type once and carries these arguments: members of an object, or what stands behind the type
in an array. -/
inductive Shapes (k : Kind) (args : List Json) : Json → Prop
  | object (ms : List (String × Json)) (htype : named "type" ms = [.string k.word]) (hargs : named k.member ms = args) :
      Shapes k args (.object ms)
  | array : Shapes k args (.array (.string k.word :: args))

/-- The members that count in a frame of a type. -/
def heeds (k : Kind) (m : String × Json) : Bool := m.1 == "type" || m.1 == k.member

variable {k : Kind} {args : List Json} {v : Json} {f : ClientFrame}

theorem shapes_iff : k.Shapes args v ↔ v.tags = [.string k.word] ∧ v.arguments k.member = args := by
  constructor
  · rintro (⟨ms, htype, hargs⟩ | _)
    · exact ⟨htype, hargs⟩
    · exact ⟨rfl, rfl⟩
  · rintro ⟨htags, rfl⟩
    cases v with
    | object ms => exact .object ms htags rfl
    | array xs =>
      cases xs with
      | nil => cases htags
      | cons t xs =>
        obtain rfl : t = .string k.word := (List.cons.inj htags).1
        exact .array
    | _ => cases htags

/-- What a value says under a type that is known. -/
theorem says_iff (hf : f ≠ .unknown) : Says v f ↔ ∃ k args, Shapes k args v ∧ Carries k args f := by
  simp only [shapes_iff]
  constructor
  · intro h
    cases h with
    | types ht ha => exact ⟨typing, _, ⟨ht, ha⟩, .goesOn⟩
    | typing b ht ha => exact ⟨typing, _, ⟨ht, ha⟩, .stopped b⟩
    | reads ht ha => exact ⟨read, _, ⟨ht, ha⟩, .nowhere⟩
    | read w ht ha => exact ⟨read, _, ⟨ht, ha⟩, .upTo w⟩
    | present ht ha => exact ⟨presence, _, ⟨ht, ha⟩, .silent⟩
    | blank ht ha => exact ⟨presence, _, ⟨ht, ha⟩, .blank⟩
    | presence s ht ha => exact ⟨presence, _, ⟨ht, ha⟩, .status s⟩
    | unknown => exact absurd rfl hf
  · rintro ⟨k, args, ⟨ht, ha⟩, hcarries⟩
    cases hcarries with
    | goesOn => exact .types ht ha
    | stopped b => exact .typing b ht ha
    | nowhere => exact .reads ht ha
    | upTo w => exact .read w ht ha
    | silent => exact .present ht ha
    | blank => exact .blank ht ha
    | status s => exact .presence s ht ha

theorem Carries.length_le (h : Carries k args f) : args.length ≤ 1 := by
  cases h <;> simp

theorem word_injective {k k' : Kind} (h : k.word = k'.word) : k = k' := by
  cases k <;> cases k' <;> first | rfl | exact absurd h (by decide)

theorem named_heeds {name : String} (hname : name = "type" ∨ name = k.member) (ms : List (String × Json)) :
    named name (ms.filter k.heeds) = named name ms := by
  unfold named
  rw [List.filter_filter]
  refine congrArg _ (List.filter_congr fun m _ => ?_)
  by_cases h : m.1 = name
  · rcases hname with rfl | rfl <;> simp [h, heeds]
  · simp [h]

/-- Objects of which the members that count are the same, in whatever order, have the same values under those names. -/
theorem named_perm {ms ms' : List (String × Json)} (h : (ms.filter k.heeds).Perm (ms'.filter k.heeds)) {name : String}
    (hname : name = "type" ∨ name = k.member) : (named name ms).Perm (named name ms') := by
  rw [← named_heeds hname ms, ← named_heeds hname ms']
  exact (h.filter _).map _

theorem named_type_of_perm {ms ms' : List (String × Json)} (h : (ms.filter k.heeds).Perm (ms'.filter k.heeds))
    (htype : named "type" ms = [.string k.word]) : named "type" ms' = [.string k.word] := by
  have hperm := named_perm h (.inl rfl)
  rw [htype] at hperm
  exact (List.singleton_perm.mp hperm).symm

/-- What an object says as a frame does not depend on the order of its members, nor on those that do not count. -/
theorem Shapes.perm {ms ms' : List (String × Json)} (hms : (ms.filter k.heeds).Perm (ms'.filter k.heeds))
    (h : Shapes k args (.object ms)) (hf : Carries k args f) : Shapes k args (.object ms') := by
  obtain ⟨_, htype, rfl⟩ | _ := h
  have hargs : (named k.member ms).Perm (named k.member ms') := named_perm hms (.inr rfl)
  refine .object ms' (named_type_of_perm hms htype) ?_
  rcases hcases : named k.member ms with _ | ⟨v, _ | ⟨w, vs⟩⟩
  · rw [hcases] at hargs
    exact hargs.symm.eq_nil
  · rw [hcases] at hargs
    exact (List.singleton_perm.mp hargs).symm
  · have hlen := hf.length_le
    rw [hcases] at hlen
    simp at hlen

end Kind

/-- A text is a frame of a known type exactly if it has the shape of one. -/
theorem parse_known_iff {raw : Bytes} {f : ClientFrame} (hf : f ≠ .unknown) :
    parse raw = .ok f ↔ ∃ k args v, Document maxDepth v raw ∧ Kind.Shapes k args v ∧ Kind.Carries k args f := by
  rw [parse_iff]
  simp only [Json.parse_ok_iff, Kind.says_iff hf]
  constructor
  · rintro ⟨v, hv, k, args, h⟩
    exact ⟨k, args, v, hv, h⟩
  · rintro ⟨k, args, v, hv, h⟩
    exact ⟨v, hv, k, args, h⟩

section Objects

variable {raw raw' : Bytes} {ms ms' : List (String × Json)}

theorem parse_object_iff {f : ClientFrame} (hraw : Document maxDepth (.object ms) raw) :
    parse raw = .ok f ↔ Says (.object ms) f := by
  rw [parse_iff]
  constructor
  · rintro ⟨v, hv, hsays⟩
    obtain rfl := (Json.parse_ok_iff.mp hv).unique hraw
    exact hsays
  · exact fun h => ⟨_, Json.parse_ok_iff.mpr hraw, h⟩

theorem parse_unknown_iff (hraw : Document maxDepth (.object ms) raw) :
    parse raw = .ok .unknown ↔ ∃ t, named "type" ms = [.string t] ∧ ∀ k : Kind, t ≠ k.word := by
  rw [parse_object_iff hraw]
  constructor
  · intro h
    cases h with
    | unknown t htype hother =>
      refine ⟨t, htype, fun k => ?_⟩
      cases k with
      | typing => exact hother.1
      | read => exact hother.2.1
      | presence => exact hother.2.2
  · rintro ⟨t, htype, hother⟩
    exact .unknown t htype ⟨hother .typing, hother .read, hother .presence⟩ nofun

theorem parse_of_perm {k : Kind} {f : ClientFrame} (hraw : Document maxDepth (.object ms) raw)
    (hraw' : Document maxDepth (.object ms') raw') (htype : named "type" ms = [.string k.word])
    (hms : (ms.filter k.heeds).Perm (ms'.filter k.heeds)) (h : parse raw = .ok f) : parse raw' = .ok f := by
  have hf : f ≠ .unknown := by
    rintro rfl
    obtain ⟨t, ht, hother⟩ := (parse_unknown_iff hraw).mp h
    obtain rfl : k.word = t := by simpa using htype.symm.trans ht
    exact hother k rfl
  obtain ⟨k', args, hshapes, hcarries⟩ := (Kind.says_iff hf).mp ((parse_object_iff hraw).mp h)
  obtain rfl : k' = k := by
    have htype' := (Kind.shapes_iff.mp hshapes).1
    exact Kind.word_injective (by simpa using htype'.symm.trans htype)
  exact (parse_object_iff hraw').mpr ((Kind.says_iff hf).mpr ⟨_, args, hshapes.perm hms hcarries, hcarries⟩)

end Objects

/-- **A frame is understood exactly if it is written as the grammar says**: a frame about typing, reading or
presence is a document, of values that all have their limits, that names the type and carries at most one argument
of its kind, as an object or as an array; an object is a frame of no known type exactly if it has one type and this
is a string of no known type; and of an object with a known type only the type and its argument count, wherever they
stand and whatever stands beside them. -/
theorem parse_grammar (raw : Bytes) :
    (∀ f, f ≠ .unknown →
      (parse raw = .ok f ↔ ∃ k args v, Document maxDepth v raw ∧ Kind.Shapes k args v ∧ Kind.Carries k args f)) ∧
    (∀ ms, Document maxDepth (.object ms) raw →
      (parse raw = .ok .unknown ↔ ∃ t, named "type" ms = [.string t] ∧ ∀ k : Kind, t ≠ k.word)) ∧
    ∀ (k : Kind) ms raw' ms', Document maxDepth (.object ms) raw → Document maxDepth (.object ms') raw' →
      named "type" ms = [.string k.word] → (ms.filter k.heeds).Perm (ms'.filter k.heeds) →
      ∀ f, parse raw = .ok f ↔ parse raw' = .ok f := by
  refine ⟨fun f hf => parse_known_iff hf, fun ms hraw => parse_unknown_iff hraw, ?_⟩
  intro k ms raw' ms' hraw hraw' htype hms f
  exact ⟨parse_of_perm hraw hraw' htype hms, parse_of_perm hraw' hraw (Kind.named_type_of_perm hms htype) hms.symm⟩

end Parley.ClientFrame
