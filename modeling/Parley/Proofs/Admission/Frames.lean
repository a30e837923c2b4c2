import Parley.Frame
import Parley.Proofs.Reading

/-!
# What a frame from a client says

A frame is understood if it is a JSON value that says something (`parse_iff`): what it says are its type and the one
member that goes with the type (`Says`). Frames that agree about these are one and the same (`Says.unique`),
whatever else they hold.
-/

namespace Parley

namespace Json

/-- The type of a value as a frame: the values of its members of that name, or the first of its items. -/
def tags : Json → List Json
  | .object ms => ClientFrame.named "type" ms
  | .array (t :: _) => [t]
  | _ => []

/-- The values of the members of one name, or the items behind the first. -/
def arguments (name : String) : Json → List Json
  | .object ms => ClientFrame.named name ms
  | .array (_ :: rest) => rest
  | _ => []

namespace Reader

theorem value_of_text {s r : Bytes} {t : String} (h : text s = .ok (t, r)) (n depth : Nat) :
    value (n + 1) depth s = .ok (.string t, r) := by
  unfold text at h
  cases hs : skip s with
  | nil => rw [hs] at h; cases h
  | cons b u =>
    rw [hs] at h
    dsimp only at h
    split at h
    · rename_i hb
      obtain rfl : b = 0x22 := by simpa using hb
      rw [value, hs]
      dsimp only
      rw [h]
      rfl
    · cases h

/-- What a value that was read is by its first byte, and how the rest of it was read. -/
inductive Began (n depth : Nat) (t : Bytes) : UInt8 → Json → Bytes → Prop
  | string {x : String} {r : Bytes} (h : stringRest [] t = .ok (x, r)) : Began n depth t 0x22 (.string x) r
  | array {xs : List Json} {r : Bytes} (h : elements n (depth - 1) .first [] t = .ok (xs, r)) :
      Began n depth t 0x5B (.array xs) r
  | object {ms : List (String × Json)} {r : Bytes} (h : members n (depth - 1) .first [] t = .ok (ms, r)) :
      Began n depth t 0x7B (.object ms) r
  | word {b : UInt8} {v : Json} {r : Bytes} (htags : v.tags = []) (hstring : ∀ x, v ≠ .string x) : Began n depth t b v r

theorem began_of_value {n depth : Nat} {b : UInt8} {s t r : Bytes} {v : Json} (hs : skip s = b :: t)
    (h : value (n + 1) depth s = .ok (v, r)) : Began n depth t b v r := by
  have plain : ∀ {α : Type} {x : Read α} {f : α → Json}, (∀ a, (f a).tags = []) → (∀ a y, f a ≠ .string y) →
      x.to f = .ok (v, r) → Began n depth t b v r := by
    intro α x f htags hstring hx
    obtain ⟨a, -, rfl⟩ := Read.of_to_ok hx
    exact .word (htags a) (hstring a)
  rw [value, hs] at h
  dsimp only at h
  iterate 5
    split at h
    · exact plain (fun _ => rfl) (by simp) h
  split at h
  · rename_i hb
    obtain rfl : b = 0x22 := by simpa using hb
    obtain ⟨x, hx, rfl⟩ := Read.of_to_ok h
    exact .string hx
  split at h
  · rename_i hb
    obtain rfl : b = 0x5B := by simpa using hb
    cases depth with
    | zero => cases h
    | succ depth =>
      obtain ⟨xs, hxs, rfl⟩ := Read.of_to_ok h
      exact .array hxs
  split at h
  · rename_i hb
    obtain rfl : b = 0x7B := by simpa using hb
    cases depth with
    | zero => cases h
    | succ depth =>
      obtain ⟨ms, hms, rfl⟩ := Read.of_to_ok h
      exact .object hms
  · cases h

theorem text_of_value {n depth : Nat} {s r : Bytes} {t : String} (h : value n depth s = .ok (.string t, r)) :
    text s = .ok (t, r) := by
  cases n with
  | zero => cases h
  | succ n =>
    cases hs : skip s with
    | nil => rw [value, hs] at h; cases h
    | cons b u =>
      cases began_of_value hs h with
      | string hu =>
        unfold text
        rw [hs]
        exact hu
      | word _ hstring => exact absurd rfl (hstring t)

theorem members_extends {n depth : Nat} {mark : Mark} {acc ms : List (String × Json)} {s r : Bytes}
    (h : members n depth mark acc s = .ok (ms, r)) : acc.reverse <+: ms := by
  induction n generalizing mark acc s with
  | zero => cases h
  | succ n ih =>
    rcases members_succ h with ⟨-, rfl⟩ | ⟨u, name, u₁, u₂, v, u₃, hn, hs, hc, hv, hrest⟩
    · exact List.prefix_refl _
    · exact (List.reverse_prefix.mpr ⟨[(name, v)], rfl⟩).trans (ih hrest)

/-- Items that have been read stand before those that follow. -/
theorem elements_append (n depth : Nat) (mark : Mark) (acc before : List Json) (s : Bytes) :
    elements n depth mark (acc ++ before) s = (elements n depth mark acc s).to (before.reverse ++ ·) := by
  induction n generalizing mark acc s with
  | zero => rfl
  | succ n ih =>
    rw [elements, elements]
    cases nextItem mark s with
    | error e => rfl
    | ok x =>
      cases x with
      | close t => simp [Read.to]
      | more t =>
        dsimp only
        cases value n depth t with
        | error e => rfl
        | ok p => exact ih .later (p.1 :: acc) p.2

end Reader

end Json

namespace ClientFrame

open Json (Read)
open Json.Reader

/-- What a value holds beside its type. -/
def Payload.of : Json → Payload
  | .object ms => .members (ms.filter (·.1 != "type"))
  | .array (_ :: rest) => .items rest
  | _ => .items []

theorem named_filter {name : String} (hname : name ≠ "type") (ms : List (String × Json)) :
    named name (ms.filter (·.1 != "type")) = named name ms := by
  unfold named
  rw [List.filter_filter]
  refine congrArg _ (List.filter_congr fun m _ => ?_)
  by_cases h : m.1 = name <;> simp [h, hname]

theorem named_cons_self (name : String) (v : Json) (ms : List (String × Json)) :
    named name ((name, v) :: ms) = v :: named name ms := by
  unfold named
  rw [List.filter_cons_of_pos (by simp), List.map_cons]

theorem named_cons_of_ne {name other : String} (h : name ≠ other) (v : Json) (ms : List (String × Json)) :
    named other ((name, v) :: ms) = named other ms := by
  unfold named
  rw [List.filter_cons_of_neg (by simpa using h)]

theorem named_reverse (name : String) (ms : List (String × Json)) :
    named name ms.reverse = (named name ms).reverse := by
  unfold named
  rw [List.filter_reverse, List.map_reverse]

theorem named_prefix (name : String) {before ms : List (String × Json)} (h : before <+: ms) :
    named name before <+: named name ms :=
  (h.filter _).map _

theorem named_type_cons {all : List (String × Json)}
    (h : named "type" all = ((none : Option String).map Json.string).toList)
    (t : String) : named "type" (("type", .string t) :: all) = ((some t).map Json.string).toList := by
  rw [named_cons_self, h]
  rfl

/-- What one step of reading a frame's members comes to: the brace closes, or the type is read, or another member. -/
theorem readMembers_succ {n : Nat} {mark : Mark} {tag : Option String} {acc : List (String × Json)} {s r : Bytes}
    {t : String} {p : Payload} (h : readMembers (n + 1) mark tag acc s = .ok ((t, p), r)) :
    (nextName mark s = .ok (.close r) ∧ tag = some t ∧ p = .members acc.reverse) ∨
    ∃ u name u₁ u₂ v u₃, nextName mark s = .ok (.more u) ∧ stringRest [] u = .ok (name, u₁) ∧ colon u₁ = .ok u₂ ∧
      ((name = "type" ∧ tag = none ∧ ∃ t', v = .string t' ∧ text u₂ = .ok (t', u₃) ∧
          readMembers n .later (some t') acc u₃ = .ok ((t, p), r)) ∨
        (name ≠ "type" ∧ value n (Json.maxDepth - 1) u₂ = .ok (v, u₃) ∧
          readMembers n .later tag ((name, v) :: acc) u₃ = .ok ((t, p), r))) := by
  unfold readMembers at h
  split at h
  · cases h
  · rename_i u hn
    split at h
    · cases h
      exact .inl ⟨hn, rfl, rfl⟩
    · cases h
  · rename_i u hn
    split at h
    · cases h
    · rename_i name u₁ hs
      split at h
      · rename_i hname
        split at h
        · cases h
        · rename_i htag
          split at h
          · cases h
          · rename_i u₂ hc
            split at h
            · cases h
            · rename_i t' u₃ ht
              exact .inr ⟨u, name, u₁, u₂, _, u₃, hn, hs, hc,
                .inl ⟨by simpa using hname, by simpa using htag, t', rfl, ht, h⟩⟩
      · rename_i hname
        split at h
        · cases h
        · rename_i u₂ hc
          split at h
          · cases h
          · rename_i v u₃ hv
            exact .inr ⟨u, name, u₁, u₂, v, u₃, hn, hs, hc, .inr ⟨by simpa using hname, hv, h⟩⟩

section Members

variable {n : Nat} {mark : Mark} {tag : Option String} {acc : List (String × Json)} {s r : Bytes} {t : String}

/-- The members of a frame are those of an object, the type apart. -/
theorem members_of_readMembers {p : Payload} (all : List (String × Json)) (hacc : all.filter (·.1 != "type") = acc)
    (htag : named "type" all = (tag.map Json.string).toList) (h : readMembers n mark tag acc s = .ok ((t, p), r)) :
    ∃ ms, members n (Json.maxDepth - 1) mark all s = .ok (ms, r) ∧ named "type" ms = [.string t] ∧
    p = .of (.object ms) := by
  induction n generalizing mark tag acc all s with
  | zero => cases h
  | succ n ih =>
    rcases readMembers_succ h with ⟨hn, rfl, rfl⟩ | ⟨u, name, u₁, u₂, v, u₃, hn, hs, hc, hcase⟩
    · refine ⟨all.reverse, by rw [members, hn], ?_, ?_⟩
      · rw [named_reverse, htag]
        rfl
      · rw [← hacc, Payload.of, List.filter_reverse]
    · -- the member that was read stands in the object, be it the type or another
      have hmember : ∀ ms, value n (Json.maxDepth - 1) u₂ = .ok (v, u₃) →
          members n (Json.maxDepth - 1) .later ((name, v) :: all) u₃ = .ok (ms, r) →
          members (n + 1) (Json.maxDepth - 1) mark all s = .ok (ms, r) := by
        intro ms hv hms
        rw [members, hn]
        simp only [hs, hc, hv, hms]
      rcases hcase with ⟨rfl, rfl, t', rfl, ht, hrest⟩ | ⟨hname, hv, hrest⟩
      · obtain ⟨ms, hms, hparts⟩ :=
          ih (("type", .string t') :: all) (by simpa using hacc) (named_type_cons htag t') hrest
        obtain ⟨m, rfl⟩ : ∃ m, n = m + 1 := by
          cases n with
          | zero => cases hrest
          | succ m => exact ⟨m, rfl⟩
        exact ⟨ms, hmember ms (value_of_text ht _ _) hms, hparts⟩
      · obtain ⟨ms, hms, hparts⟩ := ih ((name, v) :: all) (by simp [hname, hacc])
          (by rw [named_cons_of_ne hname, htag]) hrest
        exact ⟨ms, hmember ms hv hms, hparts⟩

/-- A type that is the only one in the end comes first: none was read before. -/
theorem only_type {all ms : List (String × Json)} {v : Json} (htag : named "type" all = (tag.map Json.string).toList)
    (hms : (("type", v) :: all).reverse <+: ms) (ht : named "type" ms = [.string t]) : tag = none ∧ v = .string t := by
  have hprefix : (tag.map Json.string).toList.reverse ++ [v] <+: [.string t] := by
    have h := named_prefix "type" hms
    rwa [named_reverse, named_cons_self, List.reverse_cons, ht, htag] at h
  cases tag with
  | none => exact ⟨rfl, by simpa using hprefix⟩
  | some t' => simpa using hprefix.length_le

theorem readMembers_of_members {ms : List (String × Json)} (all : List (String × Json))
    (hacc : all.filter (·.1 != "type") = acc) (htag : named "type" all = (tag.map Json.string).toList)
    (hms : members n (Json.maxDepth - 1) mark all s = .ok (ms, r))
    (ht : named "type" ms = [.string t]) : readMembers n mark tag acc s = .ok ((t, .of (.object ms)), r) := by
  induction n generalizing mark tag acc all s with
  | zero => cases hms
  | succ n ih =>
    rcases members_succ hms with ⟨hn, rfl⟩ | ⟨u, name, u₁, u₂, v, u₃, hn, hs, hc, hv, hrest⟩
    · obtain rfl : tag = some t := by
        rw [named_reverse, htag] at ht
        cases tag with
        | none => cases ht
        | some t' => cases ht; rfl
      rw [readMembers, hn, Payload.of, List.filter_reverse, hacc]
    · rw [readMembers, hn]
      dsimp only
      rw [hs]
      dsimp only
      by_cases hname : name = "type"
      · subst hname
        obtain ⟨rfl, rfl⟩ := only_type htag (members_extends hrest) ht
        have hfinal := ih (("type", .string t) :: all) (by simpa using hacc) (named_type_cons htag t) hrest
        simp only [hc, text_of_value hv]
        exact hfinal
      · have hacc' : ((name, v) :: all).filter (·.1 != "type") = (name, v) :: acc := by simp [hname, hacc]
        have hfinal := ih ((name, v) :: all) hacc' (by rw [named_cons_of_ne hname, htag]) hrest
        rw [if_neg (by simpa using hname)]
        simp only [hc, hv]
        exact hfinal

end Members

section Items

variable {n : Nat} {s r : Bytes} {t : String}

/-- The items of a frame are those of an array, the type first. -/
theorem elements_of_readItems {p : Payload} (h : readItems n s = .ok ((t, p), r)) :
    ∃ xs, elements (n + 1) (Json.maxDepth - 1) .first [] s = .ok (.string t :: xs, r) ∧ p = .items xs := by
  unfold readItems at h
  split at h
  · cases h
  · cases h
  · rename_i u hn
    split at h
    · cases h
    · rename_i t' u₁ ht
      obtain ⟨xs, hxs, he⟩ := Read.of_to_ok h
      obtain ⟨rfl, rfl⟩ : t' = t ∧ .items xs = p := by simpa using he
      obtain ⟨m, rfl⟩ : ∃ m, n = m + 1 := by
        cases n with
        | zero => cases hxs
        | succ m => exact ⟨m, rfl⟩
      refine ⟨xs, ?_, rfl⟩
      rw [elements, hn]
      simp only [value_of_text ht]
      have happend := elements_append (m + 1) (Json.maxDepth - 1) .later [] [.string t'] u₁
      rw [hxs] at happend
      exact happend

/-- An array that begins with a type is read as a frame. -/
theorem readItems_of_elements {xs : List Json}
    (h : elements (n + 1) (Json.maxDepth - 1) .first [] s = .ok (.string t :: xs, r)) :
    readItems n s = .ok ((t, .items xs), r) := by
  rw [elements] at h
  unfold readItems
  cases hn : nextItem .first s with
  | error e => rw [hn] at h; cases h
  | ok next =>
    rw [hn] at h
    cases next with
    | close u => cases h
    | more u =>
      dsimp only at h ⊢
      cases hv : value n (Json.maxDepth - 1) u with
      | error e => rw [hv] at h; cases h
      | ok q =>
        obtain ⟨v, u₁⟩ := q
        rw [hv] at h
        have hrest : (elements n (Json.maxDepth - 1) .later [] u₁).to ([v] ++ ·) = .ok (.string t :: xs, r) :=
          (elements_append n (Json.maxDepth - 1) .later [] [v] u₁).symm.trans h
        obtain ⟨ys, hys, he⟩ := Read.of_to_ok hrest
        obtain ⟨rfl, rfl⟩ : v = .string t ∧ ys = xs := by simpa using he
        simp only [text_of_value hv, hys]
        rfl

end Items

/-- What is read as a frame is read as a value that has one type. -/
theorem value_of_readTagged {raw r : Bytes} {t : String} {p : Payload} (h : readTagged raw = .ok ((t, p), r)) :
    ∃ n v, value n Json.maxDepth raw = .ok (v, r) ∧ v.tags = [.string t] ∧ p = .of v := by
  unfold readTagged at h
  dsimp only at h
  cases hs : skip raw with
  | nil => rw [hs] at h; cases h
  | cons b s =>
    rw [hs] at h
    dsimp only at h
    split at h
    · rename_i hb
      obtain rfl : b = 0x7B := by simpa using hb
      obtain ⟨ms, hms, hparts⟩ := members_of_readMembers [] rfl rfl h
      refine ⟨fuelFor raw + 1, .object ms, ?_, hparts⟩
      have hvalue : value (fuelFor raw + 1) Json.maxDepth raw = _ := value_object hs (fuelFor raw) (Json.maxDepth - 1)
      rw [hvalue, hms]
      rfl
    · split at h
      · rename_i hb
        obtain rfl : b = 0x5B := by simpa using hb
        obtain ⟨xs, hxs, rfl⟩ := elements_of_readItems h
        refine ⟨fuelFor raw + 2, .array (.string t :: xs), ?_, rfl, rfl⟩
        have hvalue : value (fuelFor raw + 2) Json.maxDepth raw = _ :=
          value_array hs (fuelFor raw + 1) (Json.maxDepth - 1)
        rw [hvalue, hxs]
        rfl
      · split at h <;> cases h

/-- A value that has one type is read as a frame. -/
theorem readTagged_of_value {raw r : Bytes} {n : Nat} {v : Json} {t : String}
    (h : value n Json.maxDepth raw = .ok (v, r))
    (ht : v.tags = [.string t]) : readTagged raw = .ok ((t, .of v), r) := by
  have hsettles := ((settles n).value _ _ _ _ h).settled
  unfold readTagged
  dsimp only
  cases hs : skip raw with
  | nil =>
    have hfuel := hsettles (fuelFor raw) (by unfold fuelFor; omega)
    rw [fuelFor, value, hs] at hfuel
    cases hfuel
  | cons b s =>
    dsimp only
    have hobject := hsettles (fuelFor raw + 1) (by unfold fuelFor; omega)
    have harray := hsettles (fuelFor raw + 2) (by unfold fuelFor; omega)
    cases began_of_value hs hobject with
    | string => cases ht
    | word htags => rw [htags] at ht; cases ht
    | object hms => exact readMembers_of_members [] rfl rfl hms ht
    | @array xs _ hxs =>
      -- the items are read one step further than as a frame
      cases began_of_value hs harray with
      | word htags => rw [htags] at ht; cases ht
      | array hxs' =>
        cases xs with
        | nil => cases ht
        | cons w ws =>
          obtain rfl : w = .string t := List.cons.inj ht |>.1
          exact readItems_of_elements hxs'

/-! ### What a frame says -/

/-- What a value says as a frame: its type, and the member that goes with the type. -/
inductive Says (v : Json) : ClientFrame → Prop
  | types (ht : v.tags = [.string "typing"]) (ha : v.arguments "stopped" = []) : Says v (.typing false)
  | typing (b : Bool) (ht : v.tags = [.string "typing"]) (ha : v.arguments "stopped" = [.bool b]) : Says v (.typing b)
  | reads (ht : v.tags = [.string "read"]) (ha : v.arguments "last_read_id" = []) : Says v (.read none)
  | read (w : Json) (ht : v.tags = [.string "read"]) (ha : v.arguments "last_read_id" = [w]) :
      Says v (.read (some w.canonical))
  | present (ht : v.tags = [.string "presence"]) (ha : v.arguments "status" = []) : Says v (.presence none)
  | blank (ht : v.tags = [.string "presence"]) (ha : v.arguments "status" = [.null]) : Says v (.presence none)
  | presence (status : String) (ht : v.tags = [.string "presence"]) (ha : v.arguments "status" = [.string status]) :
      Says v (.presence (some status))
  | unknown (tag : String) (ht : v.tags = [.string tag]) (hn : tag ≠ "typing" ∧ tag ≠ "read" ∧ tag ≠ "presence")
      (alone : ∀ t xs, v = .array (t :: xs) → xs = []) : Says v .unknown

theorem argument_ok_iff {name : String} (hname : name ≠ "type") {v : Json} {x : Option Json} :
    argument name (.of v) = .ok x ↔ v.arguments name = x.toList := by
  cases v with
  | object ms =>
    rw [Payload.of, argument, Json.arguments, named_filter hname]
    rcases named name ms with _ | ⟨w, _ | ⟨w', ws⟩⟩ <;> cases x <;> simp
  | array xs =>
    rcases xs with _ | ⟨t, _ | ⟨w, _ | ⟨w', ws⟩⟩⟩ <;> cases x <;> simp [Payload.of, argument, Json.arguments]
  | _ => cases x <;> simp [Payload.of, argument, Json.arguments]

/-- A value is taken only for what it says, -/
theorem says_of_ofTagged {v : Json} {tag : String} {f : ClientFrame} (ht : v.tags = [.string tag])
    (h : ofTagged tag (.of v) = .ok f) : Says v f := by
  unfold ofTagged at h
  by_cases htyping : tag = "typing"
  · subst htyping
    rw [if_pos (by decide)] at h
    split at h
    · rename_i hx
      cases h
      exact .types ht ((argument_ok_iff (by decide)).mp hx)
    · rename_i b hx
      cases h
      exact .typing b ht ((argument_ok_iff (by decide)).mp hx)
    · cases h
    · cases h
  by_cases hread : tag = "read"
  · subst hread
    rw [if_neg (by decide), if_pos (by decide)] at h
    cases hx : argument "last_read_id" (.of v) with
    | error e => rw [hx] at h; cases h
    | ok x =>
      rw [hx] at h
      cases h
      cases x with
      | none => exact .reads ht ((argument_ok_iff (by decide)).mp hx)
      | some w => exact .read w ht ((argument_ok_iff (by decide)).mp hx)
  by_cases hpresence : tag = "presence"
  · subst hpresence
    rw [if_neg (by decide), if_neg (by decide), if_pos (by decide)] at h
    split at h
    · rename_i hx
      cases h
      exact .present ht ((argument_ok_iff (by decide)).mp hx)
    · rename_i hx
      cases h
      exact .blank ht ((argument_ok_iff (by decide)).mp hx)
    · rename_i t hx
      cases h
      exact .presence t ht ((argument_ok_iff (by decide)).mp hx)
    · cases h
    · cases h
  · rw [if_neg (by simpa using htyping), if_neg (by simpa using hread), if_neg (by simpa using hpresence)] at h
    split at h
    · cases h
    · rename_i hmore
      cases h
      refine .unknown tag ht ⟨htyping, hread, hpresence⟩ fun t xs hv => ?_
      subst hv
      cases xs with
      | nil => rfl
      | cons x xs => exact absurd rfl (hmore x xs)

/-- and if it says something, then for that. -/
theorem ofTagged_of_says {v : Json} {f : ClientFrame} (h : Says v f) :
    ∃ tag, v.tags = [.string tag] ∧ ofTagged tag (.of v) = .ok f := by
  cases h with
  | types ht ha =>
    refine ⟨_, ht, ?_⟩
    unfold ofTagged
    rw [if_pos (by decide), (argument_ok_iff (x := none) (by decide)).mpr ha]
  | typing b ht ha =>
    refine ⟨_, ht, ?_⟩
    unfold ofTagged
    rw [if_pos (by decide), (argument_ok_iff (x := some (.bool b)) (by decide)).mpr ha]
  | reads ht ha =>
    refine ⟨_, ht, ?_⟩
    unfold ofTagged
    rw [if_neg (by decide), if_pos (by decide), (argument_ok_iff (x := none) (by decide)).mpr ha]
    rfl
  | read w ht ha =>
    refine ⟨_, ht, ?_⟩
    unfold ofTagged
    rw [if_neg (by decide), if_pos (by decide), (argument_ok_iff (x := some w) (by decide)).mpr ha]
    rfl
  | present ht ha =>
    refine ⟨_, ht, ?_⟩
    unfold ofTagged
    rw [if_neg (by decide), if_neg (by decide), if_pos (by decide), (argument_ok_iff (x := none) (by decide)).mpr ha]
  | blank ht ha =>
    refine ⟨_, ht, ?_⟩
    unfold ofTagged
    rw [if_neg (by decide), if_neg (by decide), if_pos (by decide),
      (argument_ok_iff (x := some .null) (by decide)).mpr ha]
  | presence status ht ha =>
    refine ⟨_, ht, ?_⟩
    unfold ofTagged
    rw [if_neg (by decide), if_neg (by decide), if_pos (by decide),
      (argument_ok_iff (x := some (.string status)) (by decide)).mpr ha]
  | unknown tag ht hn alone =>
    refine ⟨tag, ht, ?_⟩
    unfold ofTagged
    rw [if_neg (by simpa using hn.1), if_neg (by simpa using hn.2.1), if_neg (by simpa using hn.2.2)]
    cases v with
    | array xs =>
      cases xs with
      | nil => cases ht
      | cons t xs =>
        obtain rfl := alone t xs rfl
        rfl
    | _ => rfl

/-- **A frame is understood if it is a value that says something, and then as what it says.** -/
theorem parse_iff {raw : Bytes} {f : ClientFrame} : parse raw = .ok f ↔ ∃ v, Json.parse raw = .ok v ∧ Says v f := by
  constructor
  · intro h
    unfold parse at h
    split at h
    · cases h
    · rename_i tag p r htagged
      split at h
      · cases h
      · rename_i f' hf
        obtain ⟨n, v, hv, ht, rfl⟩ := value_of_readTagged htagged
        obtain ⟨rfl, hend⟩ := finish_ok_iff.mp h
        exact ⟨v, (Json.parse_of_value hv).trans (finish_ok_iff.mpr ⟨rfl, hend⟩), says_of_ofTagged ht hf⟩
  · rintro ⟨v, hparse, hsays⟩
    unfold Json.parse at hparse
    split at hparse
    · cases hparse
    · rename_i v' r hv
      obtain ⟨rfl, hend⟩ := finish_ok_iff.mp hparse
      obtain ⟨t, ht, hf⟩ := ofTagged_of_says hsays
      rw [parse, readTagged_of_value hv ht]
      dsimp only
      rw [hf]
      exact finish_ok_iff.mpr ⟨rfl, hend⟩

/-- Values that agree about the type and its member say the same. -/
theorem Says.unique {v w : Json} {f g : ClientFrame} (hf : Says v f) (hg : Says w g) (ht : v.tags = w.tags)
    (ha : ∀ name ∈ ["stopped", "last_read_id", "status"], v.arguments name = w.arguments name) : f = g := by
  have h1 := ha "stopped" (by decide)
  have h2 := ha "last_read_id" (by decide)
  have h3 := ha "status" (by decide)
  cases hf <;> cases hg <;> simp_all

end ClientFrame

end Parley
