import Mathlib.Data.List.Induction
import Parley.Proofs.Broker

/-!
# The history of a broker

What is done to a broker, in any order, and what came of it: a `Deed` is an attempt to publish or to
subscribe, a read, a subscription given up, a disconnect, an outage or its end; a `Happening` is a deed with its
outcome. A history says by itself what matters to a subscription:

* `stretch` is what was accepted before the next disconnect, which is what a subscription made at the
  beginning of the history could have;
* `given` is what a subscription has given;
* `standing` is which subscriptions there are, neither given up nor over nor cut off by a disconnect.
-/

namespace Parley.Broker

inductive Deed where
  | publish (m : Message)
  | subscribe (patterns : List String)
  /-- The owner of a subscription asks for its next message. -/
  | read (n : Nat)
  | drop (n : Nat)
  | disconnect
  /-- The broker cannot be reached, or can be again. -/
  | outage (down : Bool)
deriving DecidableEq, Repr

/-- Something that was done to a broker, with what came of it. -/
inductive Happening where
  | published (m : Message) (outcome : Outcome)
  | subscribed (patterns : List String) (answer : Except Error Nat)
  | read (n : Nat) (d : Delivery)
  | dropped (n : Nat)
  | disconnected
  | outage (down : Bool)
deriving Repr

namespace Happening

def accepted? : Happening → Option Message
  | .published m (.ok _) => some m
  | _ => none

def given? (n : Nat) : Happening → Option Message
  | .read k (.message m) => if k = n then some m else none
  | _ => none

/-- The subscriptions that there are afterwards. -/
def standing (ns : List Nat) : Happening → List Nat
  | .subscribed _ (.ok n) => ns ++ [n]
  | .dropped n | .read n .ended => ns.filter (· != n)
  | .disconnected => []
  | _ => ns

end Happening

/-- The messages that are accepted before the next disconnect, in order. -/
def stretch : List Happening → List Message
  | [] => []
  | .disconnected :: _ => []
  | x :: h => x.accepted?.toList ++ stretch h

def given (n : Nat) (h : List Happening) : List Message := h.filterMap (Happening.given? n)

/-- The subscriptions that are neither given up nor over, of those made since the last disconnect. -/
def standing (h : List Happening) : List Nat := h.foldl Happening.standing []

section Stretch

variable {h : List Happening} {x : Happening}

theorem stretch_append_of_mem (hd : .disconnected ∈ h) (k : List Happening) : stretch (h ++ k) = stretch h := by
  induction h with
  | nil => cases hd
  | cons y h ih =>
    cases y with
    | disconnected => rfl
    | _ =>
      have hd : Happening.disconnected ∈ h := by simpa using hd
      simp only [List.cons_append, stretch, ih hd]

theorem stretch_append_of_notMem (hd : .disconnected ∉ h) (k : List Happening) :
    stretch (h ++ k) = stretch h ++ stretch k := by
  induction h with
  | nil => rfl
  | cons y h ih =>
    cases y with
    | disconnected => simp at hd
    | _ =>
      have hd : Happening.disconnected ∉ h := fun hm => hd (List.mem_cons_of_mem _ hm)
      simp only [List.cons_append, stretch, ih hd, List.append_assoc]

theorem stretch_singleton (x : Happening) : stretch [x] = x.accepted?.toList := by
  cases x <;> simp [stretch, Happening.accepted?]

theorem stretch_grows (h k : List Happening) : stretch h <+: stretch (h ++ k) := by
  by_cases hd : .disconnected ∈ h
  · exact ⟨[], (List.append_nil _).trans (stretch_append_of_mem hd k).symm⟩
  · rw [stretch_append_of_notMem hd]
    exact List.prefix_append _ _

theorem stretch_concat_of_none (hx : x.accepted? = none) (h : List Happening) : stretch (h ++ [x]) = stretch h := by
  by_cases hd : .disconnected ∈ h
  · exact stretch_append_of_mem hd [x]
  · rw [stretch_append_of_notMem hd, stretch_singleton, hx]
    simp

end Stretch

theorem given_append (n : Nat) (h k : List Happening) : given n (h ++ k) = given n h ++ given n k :=
  List.filterMap_append

theorem given_concat_of_none {n : Nat} {x : Happening} (hx : x.given? n = none) (h : List Happening) :
    given n (h ++ [x]) = given n h := by
  simp [given, hx]

theorem given_concat_message (n : Nat) (m : Message) (h : List Happening) :
    given n (h ++ [.read n (.message m)]) = given n h ++ [m] := by
  simp [given, Happening.given?]

theorem given_split {n k : Nat} {h : List Happening} (hk : k < (given n h).length) :
    ∃ before m later, h = before ++ .read n (.message m) :: later ∧ k = (given n before).length := by
  induction h using List.reverseRecOn with
  | nil => cases hk
  | append_singleton h x ih =>
    by_cases hlt : k < (given n h).length
    · obtain ⟨before, m, later, rfl, rfl⟩ := ih hlt
      exact ⟨before, m, later ++ [x], by simp, rfl⟩
    · cases x with
      | read j d =>
        cases d with
        | message m =>
          by_cases hj : j = n
          · subst hj
            rw [given_concat_message, List.length_append, List.length_singleton] at hk
            exact ⟨h, m, [], rfl, by omega⟩
          · rw [given_concat_of_none (by simp [Happening.given?, hj])] at hk
            exact absurd hk hlt
        | _ => rw [given_concat_of_none rfl] at hk; exact absurd hk hlt
      | _ => rw [given_concat_of_none rfl] at hk; exact absurd hk hlt

theorem standing_concat (h : List Happening) (x : Happening) : standing (h ++ [x]) = x.standing (standing h) :=
  List.foldl_append

theorem concat_eq_append_cons {α : Type} {h mid rest : List α} {x y : α} (e : h ++ [x] = mid ++ y :: rest) :
    (rest = [] ∧ h = mid ∧ x = y) ∨ ∃ rest', rest = rest' ++ [x] ∧ h = mid ++ y :: rest' := by
  rcases List.eq_nil_or_concat rest with rfl | ⟨rest', z, rfl⟩
  · obtain ⟨rfl, hxy⟩ := List.append_inj' e rfl
    exact .inl ⟨rfl, rfl, List.singleton_inj.mp hxy⟩
  · rw [List.concat_eq_append, ← List.cons_append, ← List.append_assoc] at e
    obtain ⟨rfl, hxz⟩ := List.append_inj' e rfl
    obtain rfl := List.singleton_inj.mp hxz
    exact .inr ⟨rest', List.concat_eq_append, rfl⟩

end Parley.Broker

namespace Parley.MemoryBroker

open Broker

/-! ### Courses -/

def perform (b : MemoryBroker) : Deed → Happening × MemoryBroker
  | .publish m =>
    let (outcome, b) := b.publish m
    (.published m outcome, b)
  | .subscribe patterns =>
    let (answer, b) := b.subscribe patterns
    (.subscribed patterns answer, b)
  | .read n =>
    let (d, b) := b.receive n
    (.read n d, b)
  | .drop n => (.dropped n, b.drop n)
  | .disconnect => (.disconnected, b.disconnect)
  | .outage down => (.outage down, { b with available := !down })

def after (b : MemoryBroker) (ds : List Deed) : MemoryBroker := ds.foldl (fun b d => (b.perform d).2) b

def history (b : MemoryBroker) : List Deed → List Happening
  | [] => []
  | d :: ds => (b.perform d).1 :: (b.perform d).2.history ds

theorem after_concat (b : MemoryBroker) (ds : List Deed) (d : Deed) :
    b.after (ds ++ [d]) = ((b.after ds).perform d).2 :=
  List.foldl_append

theorem history_concat (b : MemoryBroker) (ds : List Deed) (d : Deed) :
    b.history (ds ++ [d]) = b.history ds ++ [((b.after ds).perform d).1] := by
  induction ds generalizing b with
  | nil => rfl
  | cons e ds ih => exact congrArg _ (ih _)

end Parley.MemoryBroker
