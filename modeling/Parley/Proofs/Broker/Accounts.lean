import Parley.Proofs.Broker.History

/-!
# The account of a subscription

A subscription gives messages of its stretch, which is what the broker accepts between the subscription and
the next disconnect: those that one of its patterns asks for, each once and in the order in which they were
accepted. It loses a message only by being slow. The broker keeps the last `capacity` messages of a stretch,
and every message counts, whether it is asked for or not.

`Kept` says which messages a subscription can still give, and `Account` what it has given, read by read. From
an account follows which messages are skipped (`Account.mem_places_iff`).
-/

namespace Parley.Broker

/-! ### Accounts -/

/-- Place `i` of a stretch holds a message that one of the patterns asks for. -/
def Asked (globs : List Glob) (ms : List Message) (i : Nat) : Prop :=
  ∃ m, ms[i]? = some m ∧ globs.any (·.accepts m.channel) = true

/-- A message of a stretch that a subscription can still give: it is asked for, it lies behind the places of all
that were given, and fewer than `capacity` messages were accepted after it. -/
structure Kept (globs : List Glob) (ms : List Message) (places : List Nat) (i : Nat) : Prop where
  asked : Asked globs ms i
  behind : ∀ p ∈ places, p < i
  near : ms.length - (i + 1) < capacity

/-- What a read gives when a stretch has come so far, with the place of the message: the first one that is kept. Where
none is kept the subscription waits, or is over if there was a disconnect. -/
inductive Gives (globs : List Glob) (before : List Happening) (places : List Nat) : Delivery → Option Nat → Prop
  | message (m : Message) (i : Nat) (hm : (stretch before)[i]? = some m) (hi : Kept globs (stretch before) places i)
      (first : ∀ j, Kept globs (stretch before) places j → i ≤ j) : Gives globs before places (.message m) (some i)
  | waiting (h : ∀ j, ¬ Kept globs (stretch before) places j) (hd : .disconnected ∉ before) :
      Gives globs before places .waiting none
  | ended (h : ∀ j, ¬ Kept globs (stretch before) places j) (hd : .disconnected ∈ before) :
      Gives globs before places .ended none

/-- The place of what a read gave, where `k` messages had been given before it. -/
def placeOf (places : List Nat) (k : Nat) : Delivery → Option Nat
  | .message _ => places[k]?
  | _ => none

/-- The account of a subscription from when it was made: the places in its stretch of the messages that it has given. -/
structure Account (globs : List Glob) (n : Nat) (h : List Happening) (places : List Nat) : Prop where
  /-- In the order in which they were accepted, and each once. -/
  order : places.Pairwise (· < ·)
  /-- Each message just as it was accepted. -/
  given : (given n h).map some = places.map ((stretch h)[·]?)
  asked : ∀ i ∈ places, Asked globs (stretch h) i
  /-- Each read, as long as the subscription is not given up. -/
  reads : ∀ before d later, h = before ++ .read n d :: later → .dropped n ∉ before →
    Gives globs before (places.take (Broker.given n before).length) d (placeOf places (Broker.given n before).length d)
  /-- What is over or given up stays so. -/
  finished : ∀ before x later, h = before ++ x :: later → x = .read n .ended ∨ x = .dropped n →
    ∀ d, .read n d ∈ later → d = .ended

section Places

variable {globs : List Glob} {ms ms' : List Message} {places : List Nat} {i : Nat}

theorem Asked.lt (h : Asked globs ms i) : i < ms.length := by
  obtain ⟨m, hm, -⟩ := h
  exact (List.getElem?_eq_some_iff.mp hm).1

theorem getElem?_of_shorter (hp : ms <+: ms') (hi : i < ms.length) : ms'[i]? = ms[i]? := by
  obtain ⟨rest, rfl⟩ := hp
  exact List.getElem?_append_left hi

theorem Asked.mono (hp : ms <+: ms') (h : Asked globs ms i) : Asked globs ms' i := by
  obtain ⟨m, hm, ha⟩ := h
  exact ⟨m, by rw [getElem?_of_shorter hp (Asked.lt ⟨m, hm, ha⟩), hm], ha⟩

/-- Where something is kept a read gives a message, no later than that. -/
theorem Gives.of_kept {before : List Happening} {d : Delivery} {o : Option Nat} (hg : Gives globs before places d o)
    (hi : Kept globs (stretch before) places i) :
    ∃ m j, d = .message m ∧ o = some j ∧ Kept globs (stretch before) places j ∧ j ≤ i := by
  cases hg with
  | message m j hm hj first => exact ⟨m, j, rfl, rfl, hj, first i hi⟩
  | waiting hno => exact absurd hi (hno i)
  | ended hno => exact absurd hi (hno i)

theorem Kept.take (k : Nat) (h : Kept globs ms places i) : Kept globs ms (places.take k) i :=
  ⟨h.asked, fun p hp => h.behind p (List.mem_of_mem_take hp), h.near⟩

end Places

namespace Account

variable {globs : List Glob} {n : Nat} {h : List Happening} {places : List Nat}

theorem nil (globs : List Glob) (n : Nat) : Account globs n [] [] where
  order := .nil
  given := rfl
  asked := nofun
  reads before d later h := by simp at h
  finished before x later h := by simp at h

theorem length (ac : Account globs n h places) : (Broker.given n h).length = places.length := by
  simpa using congrArg List.length ac.given

theorem given_mono (ac : Account globs n h places) (x : Happening) :
    (Broker.given n h).map some = places.map ((stretch (h ++ [x]))[·]?) := by
  rw [ac.given]
  refine List.map_congr_left fun i hi => ?_
  exact (getElem?_of_shorter (stretch_grows h [x]) (ac.asked i hi).lt).symm

theorem concat {x : Happening} (ac : Account globs n h places) (hx : ∀ d, x ≠ .read n d) :
    Account globs n (h ++ [x]) places where
  order := ac.order
  given := by
    have hg : x.given? n = none := by
      cases x with
      | read k d =>
        cases d with
        | message m =>
          have hk : k ≠ n := fun e => hx _ (by rw [e])
          simp [Happening.given?, hk]
        | _ => rfl
      | _ => rfl
    rw [given_concat_of_none hg]
    exact ac.given_mono x
  asked i hi := (ac.asked i hi).mono (stretch_grows h [x])
  reads before d later he hd := by
    rcases concat_eq_append_cons he with ⟨-, -, hxd⟩ | ⟨later, rfl, rfl⟩
    · exact absurd hxd (hx d)
    · exact ac.reads before d later rfl hd
  finished before y later he hy d hr := by
    rcases concat_eq_append_cons he with ⟨rfl, -, -⟩ | ⟨later, rfl, rfl⟩
    · cases hr
    · rcases List.mem_append.mp hr with hr | hr
      · exact ac.finished before y later rfl hy d hr
      · exact absurd (List.mem_singleton.mp hr).symm (hx d)

/-- A read that was over found nothing kept behind a disconnect, and nothing has come since. -/
theorem ended_again {d : Delivery} {o : Option Nat} (ac : Account globs n h places) (hr : .read n .ended ∈ h)
    (hd : .dropped n ∉ h) (hg : Gives globs h places d o) : d = .ended := by
  obtain ⟨before, later, rfl⟩ := List.append_of_mem hr
  have hb : .dropped n ∉ before := fun hm => hd (List.mem_append_left _ hm)
  obtain ⟨hno, hc⟩ : (∀ j, ¬ Kept globs (stretch before) (places.take (Broker.given n before).length) j) ∧
      .disconnected ∈ before := by
    cases ac.reads before .ended later rfl hb with
    | ended hno hc => exact ⟨hno, hc⟩
  have hs : stretch (before ++ .read n .ended :: later) = stretch before := stretch_append_of_mem hc _
  cases hg with
  | message m i hm hi first =>
    rw [hs] at hi
    exact absurd (hi.take _) (hno i)
  | waiting hk hw => exact absurd (List.mem_append_left _ hc) hw
  | ended => rfl

/-- A read of the subscription adds the place of what it gave. -/
theorem concat_read {d : Delivery} {o : Option Nat} (ac : Account globs n h places) (hd : .dropped n ∉ h)
    (hg : Gives globs h places d o) : Account globs n (h ++ [.read n d]) (places ++ o.toList) where
  order := by
    cases hg with
    | message m i hm hi first =>
      refine List.pairwise_append.mpr ⟨ac.order, List.pairwise_singleton _ _, fun p hp j hj => ?_⟩
      obtain rfl := List.mem_singleton.mp hj
      exact hi.behind p hp
    | waiting => simpa using ac.order
    | ended => simpa using ac.order
  given := by
    have hs : stretch (h ++ [.read n d]) = stretch h := stretch_concat_of_none rfl h
    rw [hs]
    cases hg with
    | message m i hm hi first =>
      rw [given_concat_message, List.map_append, List.map_append, ac.given]
      simp [hm]
    | waiting => rw [given_concat_of_none rfl]; simpa using ac.given
    | ended => rw [given_concat_of_none rfl]; simpa using ac.given
  asked i hi := by
    refine Asked.mono (stretch_grows h _) ?_
    rcases List.mem_append.mp hi with hi | hi
    · exact ac.asked i hi
    · cases hg with
      | message m j hm hj first =>
        obtain rfl := List.mem_singleton.mp hi
        exact hj.asked
      | waiting => cases hi
      | ended => cases hi
  reads before e later he hb := by
    rcases concat_eq_append_cons he with ⟨-, rfl, hde⟩ | ⟨later, rfl, rfl⟩
    · -- this read: its place is the one that is added
      obtain rfl : d = e := by injection hde
      have hl := ac.length
      have htake : (places ++ o.toList).take (Broker.given n h).length = places := by
        rw [hl]
        exact List.take_left
      have hplace : placeOf (places ++ o.toList) (Broker.given n h).length d = o := by
        cases hg with
        | message m i hm hi first => simp [placeOf, hl]
        | waiting => rfl
        | ended => rfl
      rw [htake, hplace]
      exact hg
    · -- a read before it
      have hr := ac.reads before e later rfl hb
      have hl := ac.length
      rw [given_append, List.length_append] at hl
      have htake : (places ++ o.toList).take (Broker.given n before).length =
          places.take (Broker.given n before).length :=
        List.take_append_of_le_length (by omega)
      have hplace : placeOf (places ++ o.toList) (Broker.given n before).length e =
          placeOf places (Broker.given n before).length e := by
        cases e with
        | message m =>
          have hpos : 0 < (Broker.given n (.read n (.message m) :: later)).length := by
            simp [Broker.given, Happening.given?]
          exact List.getElem?_append_left (by omega)
        | _ => rfl
      rw [htake, hplace]
      exact hr
  finished before x later he hx e hr := by
    rcases concat_eq_append_cons he with ⟨rfl, -, -⟩ | ⟨later, rfl, rfl⟩
    · cases hr
    · rcases List.mem_append.mp hr with hr | hr
      · exact ac.finished before x later rfl hx e hr
      · injection List.mem_singleton.mp hr with _ hr
        rw [hr]
        rcases hx with rfl | rfl
        · exact ac.ended_again (by simp) hd hg
        · simp at hd

/-- A subscription that was given up gives nothing more. -/
theorem concat_dropped (ac : Account globs n h places) (hd : .dropped n ∈ h) :
    Account globs n (h ++ [.read n .ended]) places where
  order := ac.order
  given := by
    rw [given_concat_of_none rfl]
    exact ac.given_mono _
  asked i hi := (ac.asked i hi).mono (stretch_grows h _)
  reads before e later he hb := by
    rcases concat_eq_append_cons he with ⟨-, rfl, -⟩ | ⟨later, rfl, rfl⟩
    · exact absurd hd hb
    · exact ac.reads before e later rfl hb
  finished before x later he hx e hr := by
    rcases concat_eq_append_cons he with ⟨rfl, -, -⟩ | ⟨later, rfl, rfl⟩
    · cases hr
    · rcases List.mem_append.mp hr with hr | hr
      · exact ac.finished before x later rfl hx e hr
      · injection List.mem_singleton.mp hr

/-! ### Which messages are skipped -/

/-- Each message that was given, at the read that gave it. -/
theorem exists_read (ac : Account globs n h places) {i : Nat} (hi : i ∈ places) :
    ∃ before m later, h = before ++ .read n (.message m) :: later ∧ .dropped n ∉ before ∧
      places[(Broker.given n before).length]? = some i := by
  obtain ⟨k, hk⟩ := List.getElem?_of_mem hi
  have hlt : k < (Broker.given n h).length := by
    rw [ac.length]
    exact (List.getElem?_eq_some_iff.mp hk).1
  obtain ⟨before, m, later, rfl, rfl⟩ := given_split hlt
  refine ⟨before, m, later, rfl, fun hd => ?_, hk⟩
  obtain ⟨b₁, b₂, rfl⟩ := List.append_of_mem hd
  have := ac.finished b₁ (.dropped n) (b₂ ++ .read n (.message m) :: later) (by simp) (.inr rfl) (.message m) (by simp)
  cases this

/-- A read comes as far as place `i`: all that was given before it lies before `i`, and what it gives, if anything,
does not. -/
def Reaches (places : List Nat) (k : Nat) (d : Delivery) (i : Nat) : Prop :=
  (∀ p ∈ places.take k, p < i) ∧ ∀ p, placeOf places k d = some p → i ≤ p

/-- A message that is asked for is given exactly if it was still near enough at the read that came as far as it. -/
theorem mem_places_iff {before later : List Happening} {d : Delivery} {i : Nat} (ac : Account globs n h places)
    (he : h = before ++ .read n d :: later) (hd : .dropped n ∉ before) (hi : Asked globs (stretch before) i)
    (hr : Reaches places (Broker.given n before).length d i) :
    i ∈ places ↔ (stretch before).length - (i + 1) < capacity := by
  obtain ⟨hbefore, hle⟩ := hr
  constructor
  · -- it was given by this read or by a later one, where no fewer messages had been accepted
    intro hmem
    obtain ⟨b₁, m, l₁, rfl, hd₁, hp⟩ := ac.exists_read hmem
    have hnear : (stretch b₁).length - (i + 1) < capacity := by
      have hg := ac.reads b₁ (.message m) l₁ rfl hd₁
      rw [placeOf, hp] at hg
      cases hg with
      | message _ _ _ hk _ => exact hk.near
    have hlen : (stretch before).length ≤ (stretch b₁).length := by
      rcases List.append_eq_append_iff.mp he with ⟨c, hb, hc⟩ | ⟨c, hb, hc⟩
      · cases c with
        | nil => simp [hb]
        | cons x c =>
          -- an earlier read did not give it: what it gave lies before `i`
          obtain ⟨rfl, -⟩ := List.cons.inj hc
          have hlt : (Broker.given n b₁).length < (Broker.given n before).length := by
            rw [hb, given_append, List.length_append]
            simp [Broker.given, Happening.given?]
          have hpi : i ∈ places.take (Broker.given n before).length :=
            List.mem_of_getElem? ((List.getElem?_take_of_lt hlt).trans hp)
          exact absurd (hbefore i hpi) (Nat.lt_irrefl i)
      · rw [hb]
        exact (stretch_grows before c).length_le
    omega
  · intro hnear
    obtain ⟨m, j, rfl, hj, hk, hji⟩ := (ac.reads before d later he hd).of_kept ⟨hi, hbefore, hnear⟩
    have hij : i = j := by have := hle j hj; omega
    subst hij
    exact List.mem_of_getElem? hj

end Account

end Parley.Broker
