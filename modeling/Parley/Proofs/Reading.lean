import Parley.Json.Reader

/-!
# What a reader leaves, and how many steps it takes

A reader of JSON leaves no more than it was given (`Within`), and a value takes at most two steps for each byte that it
has (`Settles`). So more steps than `fuelFor` allows give nothing else: `parse_of_value`.
-/

namespace Parley.Json

/-- What is left after reading is at most so long. -/
def Read.Within {α : Type} (n : Nat) : Read α → Prop
  | .ok (_, r) => r.length ≤ n
  | .error _ => True

namespace Read

variable {α β : Type} {m n : Nat} {x : Read α}

theorem Within.mono (h : x.Within m) (hn : m ≤ n) : x.Within n := by
  cases x with
  | ok p => exact Nat.le_trans h hn
  | error e => trivial

@[simp] theorem within_to (f : α → β) : (x.to f).Within n ↔ x.Within n := by
  cases x <;> rfl

theorem to_id (x : Read α) : x.to id = x := by cases x <;> rfl

theorem of_to_ok {f : α → β} {b : β} {r : Bytes} (h : x.to f = .ok (b, r)) : ∃ a, x = .ok (a, r) ∧ f a = b := by
  cases x with
  | ok p => cases h; exact ⟨p.1, rfl, rfl⟩
  | error e => cases h

/-- One reading after another. -/
def next (x : Read α) (k : α → Bytes → Read β) : Read β :=
  match x with
  | .ok (a, r) => k a r
  | .error e => .error e

theorem of_next_ok {k : α → Bytes → Read β} {b : β} {r : Bytes} (h : x.next k = .ok (b, r)) :
    ∃ a t, x = .ok (a, t) ∧ k a t = .ok (b, r) := by
  cases x with
  | ok p => exact ⟨p.1, p.2, rfl, h⟩
  | error e => cases h

end Read

namespace Reader

open Read

/-! ### Words and numbers -/

theorem within_word (ws s : Bytes) : (word ws s).Within s.length := by
  induction ws generalizing s with
  | nil => exact Nat.le_refl _
  | cons w ws ih =>
    cases s with
    | nil => trivial
    | cons b s =>
      unfold word
      split
      · exact (ih s).mono (Nat.le_succ _)
      · trivial

theorem length_skipDigits_le (s : Bytes) : (skipDigits s).length ≤ s.length := by
  induction s with
  | nil => exact Nat.le_refl _
  | cons b s ih =>
    unfold skipDigits
    split
    · exact Nat.le_succ_of_le ih
    · exact Nat.le_refl _

theorem within_real (negative : Bool) (significand : Nat) (e : Int) (s : Bytes) :
    (real negative significand e s).Within s.length := by
  unfold real
  split
  · exact Nat.le_refl _
  · trivial

theorem within_exponentDigits (negative : Bool) (significand : Nat) (start : Int) (up : Bool) (e : Nat) (s : Bytes) :
    (exponentDigits negative significand start up e s).Within s.length := by
  induction s generalizing e with
  | nil => exact within_real ..
  | cons b s ih =>
    unfold exponentDigits
    split
    · split
      · split
        · trivial
        · exact Nat.le_succ_of_le (length_skipDigits_le s)
      · exact (ih _).mono (Nat.le_succ _)
    · exact within_real ..

theorem within_exponent (negative : Bool) (significand : Nat) (start : Int) (s : Bytes) :
    (exponent negative significand start s).Within s.length := by
  have hdigits : ∀ (up : Bool) (b : UInt8) (r : Bytes), r.length ≤ s.length →
      (if isDigit b then exponentDigits negative significand start up (digit b) r else .error .malformed :
        Read Number).Within s.length := by
    intro up b r hr
    split
    · exact (within_exponentDigits ..).mono hr
    · trivial
  unfold exponent
  cases s with
  | nil => trivial
  | cons b s =>
    dsimp only
    by_cases hplus : (b == 0x2B) = true
    · rw [if_pos hplus]
      cases s with
      | nil => trivial
      | cons c s => exact hdigits true c s (Nat.le_add_right _ 2)
    · rw [if_neg hplus]
      by_cases hminus : (b == 0x2D) = true
      · rw [if_pos hminus]
        cases s with
        | nil => trivial
        | cons c s => exact hdigits false c s (Nat.le_add_right _ 2)
      · rw [if_neg hminus]
        exact hdigits true b s (Nat.le_succ _)

theorem within_afterFraction (negative : Bool) (significand : Nat) (e : Int) (s : Bytes) :
    (afterFraction negative significand e s).Within s.length := by
  cases s with
  | nil => exact within_real ..
  | cons b s =>
    unfold afterFraction
    dsimp only
    split
    · exact (within_exponent ..).mono (Nat.le_succ _)
    · exact within_real ..

theorem within_fractionDigits (negative : Bool) (significand : Nat) (e : Int) (seen : Bool) (s : Bytes) :
    (fractionDigits negative significand e seen s).Within s.length := by
  induction s generalizing significand e seen with
  | nil =>
    unfold fractionDigits
    split
    · exact within_real ..
    · trivial
  | cons b s ih =>
    unfold fractionDigits
    split
    · split
      · exact (within_afterFraction ..).mono (Nat.le_succ_of_le (length_skipDigits_le s))
      · exact (ih ..).mono (Nat.le_succ _)
    · split
      · exact within_afterFraction ..
      · trivial

theorem within_longDigits (negative : Bool) (significand e : Nat) (s : Bytes) :
    (longDigits negative significand e s).Within s.length := by
  induction s generalizing e with
  | nil => exact within_real ..
  | cons b s ih =>
    unfold longDigits
    split
    · exact (ih _).mono (Nat.le_succ _)
    · split
      · exact (within_fractionDigits ..).mono (Nat.le_succ _)
      · split
        · exact (within_exponent ..).mono (Nat.le_succ _)
        · exact within_real ..

theorem within_whole (negative : Bool) (significand : Nat) (s : Bytes) :
    (whole negative significand s).Within s.length := by
  unfold whole
  split
  · exact Nat.le_refl _
  · split
    · exact within_real ..
    · exact Nat.le_refl _

theorem within_integerDigits (negative : Bool) (significand : Nat) (s : Bytes) :
    (integerDigits negative significand s).Within s.length := by
  induction s generalizing significand with
  | nil => exact within_whole ..
  | cons b s ih =>
    unfold integerDigits
    split
    · split
      · exact (within_longDigits ..).mono (Nat.le_succ _)
      · exact (ih _).mono (Nat.le_succ _)
    · split
      · exact (within_fractionDigits ..).mono (Nat.le_succ _)
      · split
        · exact (within_exponent ..).mono (Nat.le_succ _)
        · exact within_whole ..

theorem within_number (negative : Bool) (b : UInt8) (s : Bytes) : (number negative (b :: s)).Within s.length := by
  unfold number
  dsimp only
  split
  · cases s with
    | nil => exact within_integerDigits ..
    | cons d s =>
      dsimp only
      split
      · trivial
      · exact within_integerDigits ..
  · split
    · exact within_integerDigits ..
    · trivial

/-! ### Strings -/

theorem within_stringRest (acc s : Bytes) : (stringRest acc s).Within s.length := by
  -- a string ends, is refused, or goes on with what is left
  fun_induction stringRest acc s
  all_goals first
    | exact Nat.le_succ _
    | trivial
    | (rename_i ih; exact ih.mono (by simp only [List.length_cons]; omega))

/-! ### Marks -/

theorem nextItem_spec {mark : Mark} {s : Bytes} {x : Next} (h : nextItem mark s = .ok x) :
    match x with
    | .close r => r.length < s.length
    | .more r => r.length ≤ s.length := by
  have hskip := length_skip_le s
  unfold nextItem at h
  cases hs : skip s with
  | nil => rw [hs] at h; cases h
  | cons b r =>
    rw [hs] at h hskip
    dsimp only at h
    have hlt : r.length < s.length := hskip
    split at h
    · cases h; exact hlt
    · split at h
      · cases h; exact hskip
      · split at h
        · have hskip' := length_skip_le r
          cases hr : skip r with
          | nil => rw [hr] at h; cases h
          | cons c r' =>
            rw [hr] at h hskip'
            dsimp only at h
            split at h
            · cases h
            · cases h; exact Nat.le_of_lt (Nat.lt_of_le_of_lt hskip' hlt)
        · cases h

theorem nextName_spec {mark : Mark} {s : Bytes} {x : Next} (h : nextName mark s = .ok x) :
    match x with
    | .close r | .more r => r.length < s.length := by
  have hskip := length_skip_le s
  unfold nextName at h
  cases hs : skip s with
  | nil => rw [hs] at h; cases h
  | cons b r =>
    rw [hs] at h hskip
    dsimp only at h
    have hlt : r.length < s.length := hskip
    split at h
    · cases h; exact hlt
    · split at h
      · split at h
        · cases h; exact hlt
        · cases h
      · split at h
        · have hskip' := length_skip_le r
          cases hr : skip r with
          | nil => rw [hr] at h; cases h
          | cons c r' =>
            rw [hr] at h hskip'
            dsimp only at h
            split at h
            · cases h; exact Nat.lt_trans (Nat.lt_of_lt_of_le (Nat.lt_succ_self _) hskip') hlt
            · cases h
        · cases h

theorem colon_spec {s r : Bytes} (h : colon s = .ok r) : r.length < s.length := by
  have hskip := length_skip_le s
  unfold colon at h
  cases hs : skip s with
  | nil => rw [hs] at h; cases h
  | cons b t =>
    rw [hs] at h hskip
    dsimp only at h
    split at h
    · cases h; exact hskip
    · cases h

/-! ### Values -/

/-- A reading that takes at most two steps for each byte it takes: with so many steps or more it has one result. -/
structure Settles {α : Type} (run : Nat → Read α) (s : Bytes) (a : α) (r : Bytes) : Prop where
  shorter : r.length < s.length
  settled : ∀ more, 2 * (s.length - r.length) ≤ more → run more = .ok (a, r)

section Settles

variable {α β : Type} {run : Nat → Read β} {f : α → β} {s t r : Bytes} {b : β} {fuel : Nat}

/-- The first step reads all of it. -/
theorem Settles.of_read {x : Read α} (ht : t.length < s.length) (hx : x.Within t.length)
    (hrun : ∀ n, run (n + 1) = x.to f) (h : run (fuel + 1) = .ok (b, r)) : Settles run s b r := by
  have hto : x.to f = .ok (b, r) := (hrun fuel).symm.trans h
  obtain ⟨a, rfl, rfl⟩ := of_to_ok hto
  have hr : r.length ≤ t.length := hx
  refine ⟨Nat.lt_of_le_of_lt hr ht, fun more hmore => ?_⟩
  obtain ⟨m, rfl⟩ : ∃ m, more = m + 1 := ⟨more - 1, by omega⟩
  exact (hrun m).trans hto

/-- The first step leaves the rest to another reading. -/
theorem Settles.of_inner {inner : Nat → Read α} (ht : t.length < s.length) (hrun : ∀ n, run (n + 1) = (inner n).to f)
    (hin : ∀ a r, inner fuel = .ok (a, r) → Settles inner t a r) (h : run (fuel + 1) = .ok (b, r)) :
    Settles run s b r := by
  obtain ⟨a, ha, rfl⟩ := of_to_ok ((hrun fuel).symm.trans h)
  obtain ⟨hshorter, hsettled⟩ := hin a r ha
  refine ⟨Nat.lt_trans hshorter ht, fun more hmore => ?_⟩
  obtain ⟨m, rfl⟩ : ∃ m, more = m + 1 := ⟨more - 1, by omega⟩
  rw [hrun m, hsettled m (by omega)]
  rfl

/-- The first step leaves the rest to two readings, one after the other. -/
theorem Settles.of_next {first : Nat → Read α} {k : Nat → α → Bytes → Read β} (ht : t.length ≤ s.length)
    (hrun : ∀ n, run (n + 1) = (first n).next (k n)) (hfirst : ∀ a u, first fuel = .ok (a, u) → Settles first t a u)
    (hk : ∀ a u, k fuel a u = .ok (b, r) → Settles (k · a u) u b r) (h : run (fuel + 1) = .ok (b, r)) :
    Settles run s b r := by
  obtain ⟨a, u, ha, hb⟩ := of_next_ok ((hrun fuel).symm.trans h)
  obtain ⟨hshorter, hsettled⟩ := hfirst a u ha
  obtain ⟨hshorter', hsettled'⟩ := hk a u hb
  refine ⟨by omega, fun more hmore => ?_⟩
  obtain ⟨m, rfl⟩ : ∃ m, more = m + 1 := ⟨more - 1, by omega⟩
  rw [hrun m, hsettled m (by omega)]
  exact hsettled' m (by omega)

end Settles

/-- A value is a scalar, an array or an object by its first byte: a scalar is read at once, the items of an array and
the members of an object in the steps that are left. -/
inductive Opens (s t : Bytes) : Prop
  | scalar (x : Read Json) (hx : x.Within t.length) (h : ∀ n depth, value (n + 1) depth s = x)
  | array (h : ∀ n depth, value (n + 1) (depth + 1) s = (elements n depth .first [] t).to .array)
      (deep : ∀ n, value (n + 1) 0 s = .error .malformed)
  | object (h : ∀ n depth, value (n + 1) (depth + 1) s = (members n depth .first [] t).to .object)
      (deep : ∀ n, value (n + 1) 0 s = .error .malformed)

theorem opens {s t : Bytes} {b : UInt8} (hs : skip s = b :: t) : Opens s t := by
  by_cases h1 : (b == 0x6E) = true
  · exact .scalar ((word [0x75, 0x6C, 0x6C] t).to fun _ => .null) ((within_to _).mpr (within_word _ t))
      fun n depth => by simp only [value, hs, if_pos h1]
  by_cases h2 : (b == 0x74) = true
  · exact .scalar ((word [0x72, 0x75, 0x65] t).to fun _ => .bool true) ((within_to _).mpr (within_word _ t))
      fun n depth => by simp only [value, hs, if_neg h1, if_pos h2]
  by_cases h3 : (b == 0x66) = true
  · exact .scalar ((word [0x61, 0x6C, 0x73, 0x65] t).to fun _ => .bool false) ((within_to _).mpr (within_word _ t))
      fun n depth => by simp only [value, hs, if_neg h1, if_neg h2, if_pos h3]
  by_cases h4 : (b == 0x2D) = true
  · refine .scalar ((number true t).to .number) ((within_to _).mpr ?_)
      fun n depth => by simp only [value, hs, if_neg h1, if_neg h2, if_neg h3, if_pos h4]
    cases t with
    | nil => trivial
    | cons d t => exact (within_number ..).mono (Nat.le_succ _)
  by_cases h5 : isDigit b = true
  · exact .scalar ((number false (b :: t)).to .number) ((within_to _).mpr (within_number false b t))
      fun n depth => by simp only [value, hs, if_neg h1, if_neg h2, if_neg h3, if_neg h4, if_pos h5]
  by_cases h6 : (b == 0x22) = true
  · exact .scalar ((stringRest [] t).to .string) ((within_to _).mpr (within_stringRest [] t))
      fun n depth => by simp only [value, hs, if_neg h1, if_neg h2, if_neg h3, if_neg h4, if_neg h5, if_pos h6]
  by_cases h7 : (b == 0x5B) = true
  · exact .array
      (fun n depth => by
        simp only [value, hs, if_neg h1, if_neg h2, if_neg h3, if_neg h4, if_neg h5, if_neg h6, if_pos h7])
      fun n => by simp only [value, hs, if_neg h1, if_neg h2, if_neg h3, if_neg h4, if_neg h5, if_neg h6, if_pos h7]
  by_cases h8 : (b == 0x7B) = true
  · exact .object
      (fun n depth => by
        simp only [value, hs, if_neg h1, if_neg h2, if_neg h3, if_neg h4, if_neg h5, if_neg h6, if_neg h7, if_pos h8])
      fun n => by
        simp only [value, hs, if_neg h1, if_neg h2, if_neg h3, if_neg h4, if_neg h5, if_neg h6, if_neg h7, if_pos h8]
  · exact .scalar (.error .malformed) trivial fun n depth => by
      simp only [value, hs, if_neg h1, if_neg h2, if_neg h3, if_neg h4, if_neg h5, if_neg h6, if_neg h7, if_neg h8]

theorem value_array {s t : Bytes} (hs : skip s = 0x5B :: t) (n depth : Nat) :
    value (n + 1) (depth + 1) s = (elements n depth .first [] t).to .array := by
  rw [value, hs]
  rfl

theorem value_object {s t : Bytes} (hs : skip s = 0x7B :: t) (n depth : Nat) :
    value (n + 1) (depth + 1) s = (members n depth .first [] t).to .object := by
  rw [value, hs]
  rfl

/-- What one step of reading an array's items comes to. -/
theorem elements_succ {n depth : Nat} {mark : Mark} {acc vs : List Json} {s r : Bytes}
    (h : elements (n + 1) depth mark acc s = .ok (vs, r)) :
    (nextItem mark s = .ok (.close r) ∧ vs = acc.reverse) ∨
    ∃ u v u₁, nextItem mark s = .ok (.more u) ∧ value n depth u = .ok (v, u₁) ∧
      elements n depth .later (v :: acc) u₁ = .ok (vs, r) := by
  unfold elements at h
  split at h
  · cases h
  · rename_i u hn
    cases h
    exact .inl ⟨hn, rfl⟩
  · rename_i u hn
    split at h
    · cases h
    · rename_i v u₁ hv
      exact .inr ⟨u, v, u₁, hn, hv, h⟩

/-- What one step of reading an object's members comes to. -/
theorem members_succ {n depth : Nat} {mark : Mark} {acc ms : List (String × Json)} {s r : Bytes}
    (h : members (n + 1) depth mark acc s = .ok (ms, r)) :
    (nextName mark s = .ok (.close r) ∧ ms = acc.reverse) ∨
    ∃ u name u₁ u₂ v u₃, nextName mark s = .ok (.more u) ∧ stringRest [] u = .ok (name, u₁) ∧ colon u₁ = .ok u₂ ∧
      value n depth u₂ = .ok (v, u₃) ∧ members n depth .later ((name, v) :: acc) u₃ = .ok (ms, r) := by
  unfold members at h
  split at h
  · cases h
  · rename_i u hn
    cases h
    exact .inl ⟨hn, rfl⟩
  · rename_i u hn
    split at h
    · cases h
    · rename_i name u₁ hs
      split at h
      · cases h
      · rename_i u₂ hc
        split at h
        · cases h
        · rename_i v u₃ hv
          exact .inr ⟨u, name, u₁, u₂, v, u₃, hn, hs, hc, hv, h⟩

/-- The three readers in so many steps: each takes at most two for each byte that it takes. -/
structure AllSettle (fuel : Nat) : Prop where
  value : ∀ depth s v r, value fuel depth s = .ok (v, r) → Settles (value · depth s) s v r
  elements : ∀ depth mark acc s vs r, elements fuel depth mark acc s = .ok (vs, r) →
    Settles (elements · depth mark acc s) s vs r
  members : ∀ depth mark acc s ms r, members fuel depth mark acc s = .ok (ms, r) →
    Settles (members · depth mark acc s) s ms r

section Step

variable {fuel depth : Nat} {mark : Mark} {s r : Bytes}

theorem AllSettle.value_succ (ih : AllSettle fuel) {v : Json} (h : Reader.value (fuel + 1) depth s = .ok (v, r)) :
    Settles (Reader.value · depth s) s v r := by
  cases hs : skip s with
  | nil => rw [Reader.value, hs] at h; cases h
  | cons b t =>
    have hlt : t.length < s.length := by
      have := length_skip_le s
      rwa [hs] at this
    cases opens hs with
    | scalar x hx hrun => exact .of_read hlt hx (fun n => (hrun n depth).trans (to_id x).symm) h
    | array hrun deep =>
      cases depth with
      | zero => rw [deep] at h; cases h
      | succ depth => exact .of_inner hlt (hrun · depth) (ih.elements _ _ _ _) h
    | object hrun deep =>
      cases depth with
      | zero => rw [deep] at h; cases h
      | succ depth => exact .of_inner hlt (hrun · depth) (ih.members _ _ _ _) h

theorem AllSettle.elements_succ (ih : AllSettle fuel) {acc vs : List Json}
    (h : Reader.elements (fuel + 1) depth mark acc s = .ok (vs, r)) :
    Settles (Reader.elements · depth mark acc s) s vs r := by
  cases hn : nextItem mark s with
  | error e => rw [Reader.elements, hn] at h; cases h
  | ok next =>
    have hspec := nextItem_spec hn
    cases next with
    | close t =>
      have hrun : ∀ n, Reader.elements (n + 1) depth mark acc s = Read.to id (.ok (acc.reverse, t)) := fun n => by
        rw [Reader.elements, hn]
        rfl
      exact .of_read hspec (Nat.le_refl _) hrun h
    | more t =>
      have hle : t.length ≤ s.length := hspec
      have hrun : ∀ n, Reader.elements (n + 1) depth mark acc s =
          (Reader.value n depth t).next fun v u => Reader.elements n depth .later (v :: acc) u := fun n => by
        rw [Reader.elements, hn]
        dsimp only
        cases Reader.value n depth t <;> rfl
      exact .of_next hle hrun (ih.value _ _) (fun _ _ => ih.elements _ _ _ _ _ _) h

theorem AllSettle.members_succ (ih : AllSettle fuel) {acc ms : List (String × Json)}
    (h : Reader.members (fuel + 1) depth mark acc s = .ok (ms, r)) :
    Settles (Reader.members · depth mark acc s) s ms r := by
  cases hn : nextName mark s with
  | error e => rw [Reader.members, hn] at h; cases h
  | ok next =>
    have hspec := nextName_spec hn
    cases next with
    | close t =>
      have hrun : ∀ n, Reader.members (n + 1) depth mark acc s = Read.to id (.ok (acc.reverse, t)) := fun n => by
        rw [Reader.members, hn]
        rfl
      exact .of_read hspec (Nat.le_refl _) hrun h
    | more t =>
      cases hname : stringRest [] t with
      | error e => rw [Reader.members, hn] at h; simp [hname] at h
      | ok p =>
        obtain ⟨name, t₁⟩ := p
        cases hcolon : colon t₁ with
        | error e => rw [Reader.members, hn] at h; simp [hname, hcolon] at h
        | ok t₂ =>
          have hle : t₂.length ≤ s.length := by
            have hstring : t₁.length ≤ t.length := by
              have := within_stringRest [] t
              rwa [hname] at this
            have := colon_spec hcolon
            omega
          have hrun : ∀ n, Reader.members (n + 1) depth mark acc s =
              (Reader.value n depth t₂).next fun v u => Reader.members n depth .later ((name, v) :: acc) u :=
                fun n => by
            rw [Reader.members, hn]
            simp only [hname, hcolon]
            cases Reader.value n depth t₂ <;> rfl
          exact .of_next hle hrun (ih.value _ _) (fun _ _ => ih.members _ _ _ _ _ _) h

end Step

/-- A value, the items of an array and the members of an object are read in at most two steps for each byte. -/
theorem settles (fuel : Nat) : AllSettle fuel := by
  induction fuel with
  | zero => exact ⟨nofun, nofun, nofun⟩
  | succ fuel ih =>
    exact ⟨fun _ _ _ _ => ih.value_succ, fun _ _ _ _ _ _ => ih.elements_succ, fun _ _ _ _ _ _ => ih.members_succ⟩

theorem finish_ok_iff {α : Type} {a b : α} {s : Bytes} : finish a s = .ok b ↔ a = b ∧ (skip s).isEmpty = true := by
  unfold finish
  split <;> simp_all

end Reader

theorem parse_of_value {fuel : Nat} {s r : Bytes} {v : Json} (h : Reader.value fuel maxDepth s = .ok (v, r)) :
    parse s = Reader.finish v r := by
  have hsettled := ((Reader.settles fuel).value _ _ _ _ h).settled (Reader.fuelFor s) (by unfold Reader.fuelFor; omega)
  unfold parse
  rw [hsettled]

end Parley.Json
