import Parley.Proofs.Json.Numbers
import Parley.Proofs.Json.Strings

/-!
# Reading values

The reader accepts what the grammar says is written, and nothing else: whatever it reads is so written (`sound`),
and whatever is written it reads, in two steps for each byte (`complete`). So a whole text is read as a value
exactly if it is a document of that value: `parse_ok_iff`.
-/

namespace Parley.Json

open Reader

/-! ### Blanks -/

theorem blanks_nil : Blanks [] := nofun

theorem Blanks.cons {b : UInt8} {s : Bytes} (h : Blanks s) (hb : isBlank b = true) : Blanks (b :: s) := by
  intro c hc
  rcases List.mem_cons.mp hc with rfl | hc
  · exact hb
  · exact h c hc

theorem AfterBlanks.of_blanks {P : Bytes → Prop} {a s : Bytes} (ha : Blanks a) (h : AfterBlanks P s) :
    AfterBlanks P (a ++ s) := by
  obtain ⟨a', t, rfl, ha', ht⟩ := h
  refine ⟨a ++ a', t, (List.append_assoc ..).symm, fun b hb => ?_, ht⟩
  exact (List.mem_append.mp hb).elim (ha b) (ha' b)

/-! ### Brackets and braces -/

def Items (d : Nat) : List Json → Bytes → Prop
  | [], s => Blanks s
  | v :: vs, s => ∃ t u, s = t ++ u ∧ AfterBlanks (Written d v) t ∧ MoreItems d vs u

def Members (d : Nat) : List (String × Json) → Bytes → Prop
  | [], s => Blanks s
  | (n, v) :: ms, s => ∃ t u, s = t ++ u ∧ AfterBlanks (Member n (Written d v)) t ∧ MoreMembers d ms u

theorem written_array_iff {d : Nat} {vs : List Json} {s : Bytes} :
    Written (d + 1) (.array vs) s ↔ ∃ t, s = 0x5B :: (t ++ [0x5D]) ∧ Items d vs t := by
  cases vs with
  | nil => rfl
  | cons v vs => simp only [Written, Items]; grind

theorem written_object_iff {d : Nat} {ms : List (String × Json)} {s : Bytes} :
    Written (d + 1) (.object ms) s ↔ ∃ t, s = 0x7B :: (t ++ [0x7D]) ∧ Members d ms t := by
  rcases ms with _ | ⟨⟨n, v⟩, ms⟩
  · rfl
  · simp only [Written, Members]; grind

namespace Reader

theorem skip_append {a : Bytes} (ha : Blanks a) (s : Bytes) : skip (a ++ s) = skip s := by
  induction a with
  | nil => rfl
  | cons b a ih =>
    rw [List.cons_append, skip, if_pos (ha b List.mem_cons_self)]
    exact ih fun c hc => ha c (List.mem_cons_of_mem _ hc)

theorem skip_of_not_blank {b : UInt8} (hb : isBlank b = false) (s : Bytes) : skip (b :: s) = b :: s := by
  rw [skip, hb]
  rfl

theorem exists_skip (s : Bytes) : ∃ a, s = a ++ skip s ∧ Blanks a := by
  induction s with
  | nil => exact ⟨[], rfl, blanks_nil⟩
  | cons b s ih =>
    obtain ⟨a, hs, ha⟩ := ih
    by_cases hb : isBlank b = true
    · exact ⟨b :: a, by rw [skip, if_pos hb, List.cons_append, ← hs], ha.cons hb⟩
    · exact ⟨[], by rw [skip, if_neg hb, List.nil_append], blanks_nil⟩

theorem skip_eq_nil_iff {s : Bytes} : skip s = [] ↔ Blanks s := by
  constructor
  · intro h
    obtain ⟨a, hs, ha⟩ := exists_skip s
    rw [hs, h, List.append_nil]
    exact ha
  · intro h
    rw [← List.append_nil s, skip_append h]
    rfl

theorem fresh_append {a s : Bytes} (ha : Blanks a) (hs : Fresh s) : Fresh (a ++ s) := by
  cases a with
  | nil => exact hs
  | cons b a =>
    rintro _ ⟨⟩
    have hb := ha b List.mem_cons_self
    simp only [isBlank, Bool.or_eq_true, beq_iff_eq] at hb
    rcases hb with ((rfl | rfl) | rfl) | rfl <;> rfl

/-! ### Marks and words -/

section Marks

variable {mark : Mark} {s r u : Bytes}

theorem nextItem_close_iff : nextItem mark s = .ok (.close r) ↔ skip s = 0x5D :: r := by
  unfold nextItem
  cases skip s with
  | nil => simp
  | cons b t =>
    dsimp only
    split_ifs with hclose hfirst hcomma
    · simp [eq_of_beq hclose]
    · simp_all
    · cases skip t with
      | nil => simp_all
      | cons c w => dsimp only; split_ifs <;> simp_all
    · simp_all

theorem nextItem_first_iff : nextItem .first s = .ok (.more u) ↔ skip s = u ∧ ∃ b t, u = b :: t ∧ b ≠ 0x5D := by
  unfold nextItem
  cases skip s with
  | nil => cases u <;> simp
  | cons b t =>
    dsimp only
    rw [if_pos rfl]
    split_ifs with hclose
    · cases u <;> simp_all
    · simp only [Except.ok.injEq, Next.more.injEq]
      exact ⟨fun h => ⟨h, b, t, h.symm, by simpa using hclose⟩, And.left⟩

theorem nextItem_later_iff :
    nextItem .later s = .ok (.more u) ↔ ∃ t, skip s = 0x2C :: t ∧ skip t = u ∧ ∃ b w, u = b :: w ∧ b ≠ 0x5D := by
  unfold nextItem
  cases skip s with
  | nil => simp
  | cons b t =>
    dsimp only
    rw [if_neg (show ¬ Mark.later = .first from nofun)]
    split_ifs with hclose hcomma
    · simp [eq_of_beq hclose]
    · obtain rfl := eq_of_beq hcomma
      cases ht : skip t with
      | nil => cases u <;> simp [ht]
      | cons c w =>
        dsimp only
        split_ifs with hc
        · cases u <;> simp_all
        · simp only [Except.ok.injEq, Next.more.injEq]
          exact ⟨fun h => ⟨t, rfl, ht.trans h, c, w, h.symm, by simpa using hc⟩,
            fun ⟨t', h, h', _⟩ => by cases h; rw [← ht, h']⟩
    · simp_all

theorem nextName_close_iff : nextName mark s = .ok (.close r) ↔ skip s = 0x7D :: r := by
  unfold nextName
  cases skip s with
  | nil => simp
  | cons b t =>
    dsimp only
    split_ifs with hclose hfirst hquote hcomma
    · simp [eq_of_beq hclose]
    · simp_all
    · simp_all
    · cases skip t with
      | nil => simp_all
      | cons c w => dsimp only; split_ifs <;> simp_all
    · simp_all

theorem nextName_first_iff : nextName .first s = .ok (.more u) ↔ skip s = 0x22 :: u := by
  unfold nextName
  cases skip s with
  | nil => simp
  | cons b t =>
    dsimp only
    rw [if_pos rfl]
    split_ifs <;> simp_all

theorem nextName_later_iff : nextName .later s = .ok (.more u) ↔ ∃ t, skip s = 0x2C :: t ∧ skip t = 0x22 :: u := by
  unfold nextName
  cases skip s with
  | nil => simp
  | cons b t =>
    dsimp only
    rw [if_neg (show ¬ Mark.later = .first from nofun)]
    split_ifs with hclose hcomma
    · simp [eq_of_beq hclose]
    · obtain rfl := eq_of_beq hcomma
      cases ht : skip t with
      | nil => simp [ht]
      | cons c w => dsimp only; split_ifs <;> simp_all
    · simp_all

theorem colon_iff : colon s = .ok r ↔ skip s = 0x3A :: r := by
  unfold colon
  cases skip s with
  | nil => simp
  | cons b t => dsimp only; split_ifs <;> simp_all

end Marks

theorem word_ok {w s r : Bytes} {u : Unit} (h : word w s = .ok (u, r)) : s = w ++ r := by
  induction w generalizing s with
  | nil => cases h; rfl
  | cons b w ih =>
    cases s with
    | nil => cases h
    | cons c s =>
      rw [word] at h
      split at h
      · rename_i hc
        obtain rfl : c = b := by simpa using hc
        rw [List.cons_append, ← ih h]
      · cases h

/-! ### What a value begins with -/

/-- What a value is by its first byte, and how it is read from there on. -/
inductive Head (n : Nat) : Nat → Bytes → Json → Bytes → Prop
  | null {d : Nat} (r : Bytes) : Head n d ([0x6E, 0x75, 0x6C, 0x6C] ++ r) .null r
  | true {d : Nat} (r : Bytes) : Head n d ([0x74, 0x72, 0x75, 0x65] ++ r) (.bool true) r
  | false {d : Nat} (r : Bytes) : Head n d ([0x66, 0x61, 0x6C, 0x73, 0x65] ++ r) (.bool false) r
  | negative {d : Nat} {t r : Bytes} {x : Number} (h : Reader.number true t = .ok (x, r)) :
      Head n d (0x2D :: t) (.number x) r
  | number {d : Nat} {b : UInt8} {t r : Bytes} {x : Number} (hb : isDigit b = true)
      (h : Reader.number false (b :: t) = .ok (x, r)) : Head n d (b :: t) (.number x) r
  | string {d : Nat} {t r : Bytes} {x : String} (h : stringRest [] t = .ok (x, r)) : Head n d (0x22 :: t) (.string x) r
  | array {d : Nat} {t r : Bytes} {vs : List Json} (h : elements n d .first [] t = .ok (vs, r)) :
      Head n (d + 1) (0x5B :: t) (.array vs) r
  | object {d : Nat} {t r : Bytes} {ms : List (String × Json)} (h : members n d .first [] t = .ok (ms, r)) :
      Head n (d + 1) (0x7B :: t) (.object ms) r

theorem head_of_value {n d : Nat} {s r : Bytes} {v : Json} (h : value (n + 1) d s = .ok (v, r)) :
    Head n d (skip s) v r := by
  rw [value] at h
  cases hs : skip s with
  | nil => rw [hs] at h; cases h
  | cons b t =>
    rw [hs] at h
    dsimp only at h
    split_ifs at h with hn ht hf hminus hdigit hquote harray hobject
    · obtain ⟨u, hu, rfl⟩ := Read.of_to_ok h
      obtain rfl := eq_of_beq hn
      rw [word_ok hu]
      exact .null r
    · obtain ⟨u, hu, rfl⟩ := Read.of_to_ok h
      obtain rfl := eq_of_beq ht
      rw [word_ok hu]
      exact .true r
    · obtain ⟨u, hu, rfl⟩ := Read.of_to_ok h
      obtain rfl := eq_of_beq hf
      rw [word_ok hu]
      exact .false r
    · obtain ⟨x, hx, rfl⟩ := Read.of_to_ok h
      obtain rfl := eq_of_beq hminus
      exact .negative hx
    · obtain ⟨x, hx, rfl⟩ := Read.of_to_ok h
      exact .number hdigit hx
    · obtain ⟨x, hx, rfl⟩ := Read.of_to_ok h
      obtain rfl := eq_of_beq hquote
      exact .string hx
    · obtain rfl := eq_of_beq harray
      cases d with
      | zero => cases h
      | succ d =>
        obtain ⟨vs, hvs, rfl⟩ := Read.of_to_ok h
        exact .array hvs
    · obtain rfl := eq_of_beq hobject
      cases d with
      | zero => cases h
      | succ d =>
        obtain ⟨ms, hms, rfl⟩ := Read.of_to_ok h
        exact .object hms

theorem value_of_head {n d : Nat} {s t r : Bytes} {v : Json} (hs : skip s = t) (h : Head n d t v r) :
    value (n + 1) d s = .ok (v, r) := by
  cases h with
  | null => rw [value, hs]; simp [word, Read.to]
  | true => rw [value, hs]; simp [word, Read.to]
  | false => rw [value, hs]; simp [word, Read.to]
  | negative h => rw [value, hs]; simp [h, Read.to]
  | @number _ b _ _ _ hb h =>
    have hne : ∀ c : UInt8, isDigit c = false → ¬ (b == c) = true := by
      rintro c hc heq
      rw [eq_of_beq heq, hc] at hb
      cases hb
    rw [value, hs]
    dsimp only
    rw [if_neg (hne 0x6E rfl), if_neg (hne 0x74 rfl), if_neg (hne 0x66 rfl), if_neg (hne 0x2D rfl), if_pos hb, h]
    rfl
  | string h => rw [value, hs]; simp [h, Read.to, isDigit]
  | array h => rw [value, hs]; simp [h, Read.to, isDigit]
  | object h => rw [value, hs]; simp [h, Read.to, isDigit]

/-! ### What is read is so written -/

theorem numeral_of_number {negative : Bool} {s r : Bytes} {x : Number} (h : Reader.number negative s = .ok (x, r)) :
    ∃ t, s = t ++ r ∧ Unsigned t ∧ Reader.number negative t = .ok (x, []) := by
  obtain ⟨t, hs, ht, hread⟩ := takes_number h
  exact ⟨t, hs, ht, by simpa using hread [] fresh_nil⟩

/-- What the three readers read in so many steps is so written. -/
structure Sound (n : Nat) : Prop where
  value : ∀ d s v r, value n d s = .ok (v, r) → ∃ t, s = t ++ r ∧ AfterBlanks (Written d v) t
  items : ∀ d s vs r, elements n d .first [] s = .ok (vs, r) → ∃ t, s = t ++ 0x5D :: r ∧ Items d vs t
  moreItems : ∀ d acc s vs r, elements n d .later acc s = .ok (vs, r) →
    ∃ t ws, s = t ++ 0x5D :: r ∧ vs = acc.reverse ++ ws ∧ MoreItems d ws t
  members : ∀ d s ms r, Reader.members n d .first [] s = .ok (ms, r) → ∃ t, s = t ++ 0x7D :: r ∧ Members d ms t
  moreMembers : ∀ d acc s ms r, Reader.members n d .later acc s = .ok (ms, r) →
    ∃ t ns, s = t ++ 0x7D :: r ∧ ms = acc.reverse ++ ns ∧ MoreMembers d ns t

section Sound

variable {n d : Nat} {s r : Bytes}

theorem Sound.value_succ (ih : Sound n) {v : Json} (h : Reader.value (n + 1) d s = .ok (v, r)) :
    ∃ t, s = t ++ r ∧ AfterBlanks (Written d v) t := by
  obtain ⟨a, hs, ha⟩ := exists_skip s
  -- the blanks before a value belong to it
  suffices ∃ t, skip s = t ++ r ∧ Written d v t by
    obtain ⟨t, ht, hv⟩ := this
    exact ⟨a ++ t, by rw [List.append_assoc, ← ht, ← hs], a, t, rfl, ha, hv⟩
  have hhead := head_of_value h
  generalize skip s = u at hhead ⊢
  cases hhead with
  | null => exact ⟨_, rfl, by rw [Written]⟩
  | true => exact ⟨_, rfl, by rw [Written]⟩
  | false => exact ⟨_, rfl, by rw [Written]⟩
  | negative hx =>
    obtain ⟨t, rfl, ht, hread⟩ := numeral_of_number hx
    exact ⟨0x2D :: t, rfl, by rw [Written]; exact numeral_iff.mpr (.inr ⟨t, rfl, ht, hread⟩)⟩
  | number hb hx =>
    obtain ⟨t, hs, ht, hread⟩ := numeral_of_number hx
    exact ⟨t, hs, by rw [Written]; exact numeral_iff.mpr (.inl ⟨ht, hread⟩)⟩
  | string hx =>
    obtain ⟨q, hq, hquoted⟩ := stringRest_nil_iff.mp hx
    exact ⟨q, hq, by rw [Written]; exact hquoted⟩
  | array hvs =>
    obtain ⟨t, rfl, ht⟩ := ih.items _ _ _ _ hvs
    exact ⟨0x5B :: (t ++ [0x5D]), by simp, written_array_iff.mpr ⟨t, rfl, ht⟩⟩
  | object hms =>
    obtain ⟨t, rfl, ht⟩ := ih.members _ _ _ _ hms
    exact ⟨0x7B :: (t ++ [0x7D]), by simp, written_object_iff.mpr ⟨t, rfl, ht⟩⟩

theorem Sound.items_succ (ih : Sound n) {vs : List Json} (h : elements (n + 1) d .first [] s = .ok (vs, r)) :
    ∃ t, s = t ++ 0x5D :: r ∧ Items d vs t := by
  obtain ⟨a, hs, ha⟩ := exists_skip s
  rcases elements_succ h with ⟨hn, rfl⟩ | ⟨u, v, u₁, hn, hv, hrest⟩
  · exact ⟨a, by rw [← nextItem_close_iff.mp hn, ← hs], ha⟩
  · obtain ⟨rfl, -⟩ := nextItem_first_iff.mp hn
    obtain ⟨t, ht, hwritten⟩ := ih.value _ _ _ _ hv
    obtain ⟨w, vs, rfl, rfl, hmore⟩ := ih.moreItems _ _ _ _ _ hrest
    exact ⟨a ++ t ++ w, by rw [hs, ht]; simp, a ++ t, w, rfl, hwritten.of_blanks ha, hmore⟩

theorem Sound.moreItems_succ (ih : Sound n) {acc vs : List Json} (h : elements (n + 1) d .later acc s = .ok (vs, r)) :
    ∃ t ws, s = t ++ 0x5D :: r ∧ vs = acc.reverse ++ ws ∧ MoreItems d ws t := by
  obtain ⟨a, hs, ha⟩ := exists_skip s
  rcases elements_succ h with ⟨hn, rfl⟩ | ⟨u, v, u₁, hn, hv, hrest⟩
  · exact ⟨a, [], by rw [← nextItem_close_iff.mp hn, ← hs], by simp, by rw [MoreItems]; exact ha⟩
  · obtain ⟨t, hcomma, rfl, -⟩ := nextItem_later_iff.mp hn
    obtain ⟨b, ht, hb⟩ := exists_skip t
    obtain ⟨w, hw, hwritten⟩ := ih.value _ _ _ _ hv
    obtain ⟨z, ws, rfl, rfl, hmore⟩ := ih.moreItems _ _ _ _ _ hrest
    refine ⟨a ++ 0x2C :: (b ++ w ++ z), v :: ws, by rw [hs, hcomma, ht, hw]; simp, by simp, ?_⟩
    rw [MoreItems]
    exact ⟨a, b ++ w, z, rfl, ha, hwritten.of_blanks hb, hmore⟩

theorem Sound.member (ih : Sound n) {name : String} {v : Json} {u u₁ u₂ : Bytes}
    (hname : stringRest [] u = .ok (name, u₁)) (hcolon : colon u₁ = .ok u₂) (hv : Reader.value n d u₂ = .ok (v, r)) :
    ∃ t, 0x22 :: u = t ++ r ∧ Member name (Written d v) t := by
  obtain ⟨q, hq, hquoted⟩ := stringRest_nil_iff.mp hname
  obtain ⟨a, hu₁, ha⟩ := exists_skip u₁
  obtain ⟨t, rfl, ht⟩ := ih.value _ _ _ _ hv
  refine ⟨q ++ a ++ 0x3A :: t, ?_, q, a, t, rfl, hquoted, ha, ht⟩
  rw [hq, hu₁, colon_iff.mp hcolon]
  simp

theorem Sound.members_succ (ih : Sound n) {ms : List (String × Json)}
    (h : Reader.members (n + 1) d .first [] s = .ok (ms, r)) :
    ∃ t, s = t ++ 0x7D :: r ∧ Members d ms t := by
  obtain ⟨a, hs, ha⟩ := exists_skip s
  rcases Reader.members_succ h with ⟨hn, rfl⟩ | ⟨u, name, u₁, u₂, v, u₃, hn, hname, hcolon, hv, hrest⟩
  · exact ⟨a, by rw [← nextName_close_iff.mp hn, ← hs], ha⟩
  · obtain ⟨t, ht, hmember⟩ := ih.member hname hcolon hv
    obtain ⟨w, ns, rfl, rfl, hmore⟩ := ih.moreMembers _ _ _ _ _ hrest
    refine ⟨a ++ t ++ w, ?_, a ++ t, w, rfl, .of_blanks ha ⟨[], t, rfl, blanks_nil, hmember⟩, hmore⟩
    rw [hs, nextName_first_iff.mp hn, ht]
    simp

theorem Sound.moreMembers_succ (ih : Sound n) {acc ms : List (String × Json)}
    (h : Reader.members (n + 1) d .later acc s = .ok (ms, r)) :
    ∃ t ns, s = t ++ 0x7D :: r ∧ ms = acc.reverse ++ ns ∧ MoreMembers d ns t := by
  obtain ⟨a, hs, ha⟩ := exists_skip s
  rcases Reader.members_succ h with ⟨hn, rfl⟩ | ⟨u, name, u₁, u₂, v, u₃, hn, hname, hcolon, hv, hrest⟩
  · exact ⟨a, [], by rw [← nextName_close_iff.mp hn, ← hs], by simp, by rw [MoreMembers]; exact ha⟩
  · obtain ⟨t, hcomma, hquote⟩ := nextName_later_iff.mp hn
    obtain ⟨b, ht, hb⟩ := exists_skip t
    obtain ⟨w, hw, hmember⟩ := ih.member hname hcolon hv
    obtain ⟨z, ns, rfl, rfl, hmore⟩ := ih.moreMembers _ _ _ _ _ hrest
    refine ⟨a ++ 0x2C :: (b ++ w ++ z), (name, v) :: ns, by rw [hs, hcomma, ht, hquote, hw]; simp, by simp, ?_⟩
    rw [MoreMembers]
    exact ⟨a, b ++ w, z, rfl, ha, .of_blanks hb ⟨[], w, rfl, blanks_nil, hmember⟩, hmore⟩

end Sound

theorem sound (n : Nat) : Sound n := by
  induction n with
  | zero => exact ⟨nofun, nofun, nofun, nofun, nofun⟩
  | succ n ih =>
    exact ⟨fun _ _ _ _ => ih.value_succ, fun _ _ _ _ => ih.items_succ, fun _ _ _ _ _ => ih.moreItems_succ,
      fun _ _ _ _ => ih.members_succ, fun _ _ _ _ _ => ih.moreMembers_succ⟩

/-! ### What is so written is read -/

def opensValue (b : UInt8) : Prop := isBlank b = false ∧ b ≠ 0x5D

theorem opensValue_of_isDigit {b : UInt8} (hb : isDigit b = true) : opensValue b := by
  refine ⟨?_, by rintro rfl; cases hb⟩
  cases h : isBlank b with
  | false => rfl
  | true =>
    simp only [isBlank, Bool.or_eq_true, beq_iff_eq] at h
    rcases h with ((rfl | rfl) | rfl) | rfl <;> cases hb

theorem unsigned_head {s : Bytes} (h : Unsigned s) : ∃ b t, s = b :: t ∧ isDigit b = true := by
  obtain ⟨w, f, e, rfl, ⟨hdigits, hne, -⟩, -, -⟩ := h
  obtain ⟨b, w, rfl⟩ := List.exists_cons_of_ne_nil hne
  exact ⟨b, w ++ f ++ e, rfl, hdigits b List.mem_cons_self⟩

theorem written_head {d : Nat} {v : Json} {s : Bytes} (h : Written d v s) : ∃ b t, s = b :: t ∧ opensValue b := by
  cases v with
  | null => rw [Written] at h; exact ⟨_, _, h, rfl, by decide⟩
  | bool b => cases b <;> rw [Written] at h <;> exact ⟨_, _, h, rfl, by decide⟩
  | number x =>
    rw [Written] at h
    rcases numeral_iff.mp h with ⟨hs, -⟩ | ⟨t, rfl, -⟩
    · obtain ⟨b, t, rfl, hb⟩ := unsigned_head hs
      exact ⟨b, t, rfl, opensValue_of_isDigit hb⟩
    · exact ⟨_, _, rfl, rfl, by decide⟩
  | string x =>
    rw [Written] at h
    obtain ⟨body, rfl, -⟩ := h
    exact ⟨_, _, rfl, rfl, by decide⟩
  | array vs =>
    cases d with
    | zero => cases vs <;> rw [Written] at h <;> cases h
    | succ d =>
      obtain ⟨t, rfl, -⟩ := written_array_iff.mp h
      exact ⟨_, _, rfl, rfl, by decide⟩
  | object ms =>
    cases d with
    | zero => rcases ms with _ | ⟨⟨n, v⟩, ms⟩ <;> rw [Written] at h <;> cases h
    | succ d =>
      obtain ⟨t, rfl, -⟩ := written_object_iff.mp h
      exact ⟨_, _, rfl, rfl, by decide⟩

theorem fresh_of_moreItems {d : Nat} {vs : List Json} {s : Bytes} (h : MoreItems d vs s) (r : Bytes) :
    Fresh (s ++ 0x5D :: r) := by
  cases vs with
  | nil => rw [MoreItems] at h; exact fresh_append h (by rintro _ ⟨⟩; rfl)
  | cons v vs =>
    rw [MoreItems] at h
    obtain ⟨a, t, u, rfl, ha, -, -⟩ := h
    rw [List.append_assoc]
    exact fresh_append ha (by rintro _ ⟨⟩; rfl)

theorem fresh_of_moreMembers {d : Nat} {ms : List (String × Json)} {s : Bytes} (h : MoreMembers d ms s) (r : Bytes) :
    Fresh (s ++ 0x7D :: r) := by
  rcases ms with _ | ⟨⟨n, v⟩, ms⟩
  · rw [MoreMembers] at h
    exact fresh_append h (by rintro _ ⟨⟩; rfl)
  · rw [MoreMembers] at h
    obtain ⟨a, t, u, rfl, ha, -, -⟩ := h
    rw [List.append_assoc]
    exact fresh_append ha (by rintro _ ⟨⟩; rfl)

/-- The three readers read what is so written, in so many steps. -/
structure Complete (n : Nat) : Prop where
  value : ∀ d v t r, AfterBlanks (Written d v) t → Fresh r → 2 * t.length ≤ n → value n d (t ++ r) = .ok (v, r)
  items : ∀ d vs t r, Items d vs t → 2 * t.length + 2 ≤ n → elements n d .first [] (t ++ 0x5D :: r) = .ok (vs, r)
  moreItems : ∀ d acc vs t r, MoreItems d vs t → 2 * t.length + 1 ≤ n →
    elements n d .later acc (t ++ 0x5D :: r) = .ok (acc.reverse ++ vs, r)
  members : ∀ d ms t r, Members d ms t → 2 * t.length + 2 ≤ n →
    Reader.members n d .first [] (t ++ 0x7D :: r) = .ok (ms, r)
  moreMembers : ∀ d acc ms t r, MoreMembers d ms t → 2 * t.length + 1 ≤ n →
    Reader.members n d .later acc (t ++ 0x7D :: r) = .ok (acc.reverse ++ ms, r)

section Complete

variable {n d : Nat} {t r : Bytes}

theorem number_append {negative : Bool} {x : Number} (h : Reader.number negative t = .ok (x, [])) (hr : Fresh r) :
    Reader.number negative (t ++ r) = .ok (x, r) := by
  obtain ⟨w, ht, -, hread⟩ := takes_number h
  rw [ht, List.append_nil]
  exact hread r hr

theorem Complete.value_succ (ih : Complete n) {v : Json} (h : AfterBlanks (Written d v) t) (hr : Fresh r)
    (hn : 2 * t.length ≤ n + 1) : Reader.value (n + 1) d (t ++ r) = .ok (v, r) := by
  obtain ⟨a, t, rfl, ha, hv⟩ := h
  obtain ⟨b, u, ht, hb⟩ := written_head hv
  have hskip : skip (a ++ t ++ r) = t ++ r := by
    rw [List.append_assoc, skip_append ha, ht]
    exact skip_of_not_blank hb.1 _
  have hlen : 2 * t.length ≤ n + 1 := by rw [List.length_append] at hn; omega
  refine value_of_head hskip ?_
  cases v with
  | null => rw [Written] at hv; subst hv; exact .null r
  | bool b => cases b <;> (rw [Written] at hv; subst hv; constructor)
  | number x =>
    rw [Written] at hv
    rcases numeral_iff.mp hv with ⟨hshape, hx⟩ | ⟨w, rfl, -, hx⟩
    · obtain ⟨b, w, rfl, hb⟩ := unsigned_head hshape
      exact .number hb (number_append hx hr)
    · exact .negative (number_append hx hr)
  | string x =>
    rw [Written] at hv
    have hquote : ∃ w, t = 0x22 :: w := by
      obtain ⟨body, hbody, -⟩ := hv
      exact ⟨_, hbody⟩
    obtain ⟨w, rfl⟩ := hquote
    exact .string (stringRest_nil_iff.mpr ⟨_, rfl, hv⟩)
  | array vs =>
    cases d with
    | zero => cases vs <;> rw [Written] at hv <;> cases hv
    | succ d =>
      obtain ⟨w, rfl, hw⟩ := written_array_iff.mp hv
      simp only [List.length_cons, List.length_append, List.length_nil] at hlen
      have hitems := ih.items d vs w r hw (by omega)
      rw [List.cons_append, List.append_assoc]
      exact .array hitems
  | object ms =>
    cases d with
    | zero => rcases ms with _ | ⟨⟨n, v⟩, ms⟩ <;> rw [Written] at hv <;> cases hv
    | succ d =>
      obtain ⟨w, rfl, hw⟩ := written_object_iff.mp hv
      simp only [List.length_cons, List.length_append, List.length_nil] at hlen
      have hmembers := ih.members d ms w r hw (by omega)
      rw [List.cons_append, List.append_assoc]
      exact .object hmembers

theorem skip_afterBlanks {v : Json} (h : AfterBlanks (Written d v) t) (r : Bytes) :
    ∃ u, AfterBlanks (Written d v) u ∧ u.length ≤ t.length ∧ skip (t ++ r) = u ++ r ∧ ∃ b w, u ++ r = b :: w ∧
    b ≠ 0x5D := by
  obtain ⟨a, t, rfl, ha, hv⟩ := h
  obtain ⟨b, w, rfl, hb⟩ := written_head hv
  refine ⟨b :: w, ⟨[], _, rfl, blanks_nil, hv⟩, by simp, ?_, b, w ++ r, rfl, hb.2⟩
  rw [List.append_assoc, skip_append ha]
  exact skip_of_not_blank hb.1 _

theorem Complete.items_succ (ih : Complete n) {vs : List Json} (h : Items d vs t) (hn : 2 * t.length + 2 ≤ n + 1) :
    elements (n + 1) d .first [] (t ++ 0x5D :: r) = .ok (vs, r) := by
  cases vs with
  | nil =>
    have hclose : nextItem .first (t ++ 0x5D :: r) = .ok (.close r) :=
      nextItem_close_iff.mpr ((skip_append h _).trans (skip_of_not_blank rfl r))
    rw [elements, hclose]
    rfl
  | cons v vs =>
    obtain ⟨t, u, rfl, ht, hu⟩ := h
    obtain ⟨w, hw, hlen, hskip, hhead⟩ := skip_afterBlanks ht (u ++ 0x5D :: r)
    rw [List.length_append] at hn
    rw [List.append_assoc, elements, nextItem_first_iff.mpr ⟨hskip, hhead⟩]
    simp only [ih.value d v w (u ++ 0x5D :: r) hw (fresh_of_moreItems hu r) (by omega),
      ih.moreItems d [v] vs u r hu (by omega)]
    rfl

theorem Complete.moreItems_succ (ih : Complete n) {acc vs : List Json} (h : MoreItems d vs t)
    (hn : 2 * t.length + 1 ≤ n + 1) :
    elements (n + 1) d .later acc (t ++ 0x5D :: r) = .ok (acc.reverse ++ vs, r) := by
  cases vs with
  | nil =>
    rw [MoreItems] at h
    have hclose : nextItem .later (t ++ 0x5D :: r) = .ok (.close r) :=
      nextItem_close_iff.mpr ((skip_append h _).trans (skip_of_not_blank rfl r))
    rw [elements, hclose]
    simp
  | cons v vs =>
    rw [MoreItems] at h
    obtain ⟨a, t, u, rfl, ha, ht, hu⟩ := h
    obtain ⟨w, hw, hlen, hskip, hhead⟩ := skip_afterBlanks ht (u ++ 0x5D :: r)
    have hcomma : skip (a ++ 0x2C :: (t ++ u) ++ 0x5D :: r) = 0x2C :: (t ++ (u ++ 0x5D :: r)) := by
      rw [List.append_assoc, skip_append ha, List.cons_append, List.append_assoc]
      exact skip_of_not_blank rfl _
    simp only [List.length_append, List.length_cons] at hn
    rw [elements, nextItem_later_iff.mpr ⟨_, hcomma, hskip, hhead⟩]
    simp only [ih.value d v w (u ++ 0x5D :: r) hw (fresh_of_moreItems hu r) (by omega),
      ih.moreItems d (v :: acc) vs u r hu (by omega)]
    simp

theorem Complete.member (ih : Complete n) {name : String} {v : Json} (h : Member name (Written d v) t) (hr : Fresh r)
    (hn : 2 * t.length ≤ n) :
    ∃ u u₁ u₂, t ++ r = 0x22 :: u ∧ stringRest [] u = .ok (name, u₁) ∧ colon u₁ = .ok u₂ ∧
    Reader.value n d u₂ = .ok (v, r) := by
  obtain ⟨q, a, t, rfl, hq, ha, ht⟩ := h
  simp only [List.length_append, List.length_cons] at hn
  obtain ⟨w, hw⟩ : ∃ w, q = 0x22 :: w := ⟨_, hq.choose_spec.1⟩
  refine ⟨w ++ (a ++ 0x3A :: (t ++ r)), a ++ 0x3A :: (t ++ r), t ++ r, ?_, ?_, ?_, ih.value d v t r ht hr (by omega)⟩
  · simp [hw]
  · exact stringRest_nil_iff.mpr ⟨q, by rw [hw, List.cons_append], hq⟩
  · exact colon_iff.mpr ((skip_append ha _).trans (skip_of_not_blank rfl _))

theorem Complete.members_succ (ih : Complete n) {ms : List (String × Json)} (h : Members d ms t)
    (hn : 2 * t.length + 2 ≤ n + 1) :
    Reader.members (n + 1) d .first [] (t ++ 0x7D :: r) = .ok (ms, r) := by
  rcases ms with _ | ⟨⟨name, v⟩, ms⟩
  · have hclose : nextName .first (t ++ 0x7D :: r) = .ok (.close r) :=
      nextName_close_iff.mpr ((skip_append h _).trans (skip_of_not_blank rfl r))
    rw [Reader.members, hclose]
    rfl
  · obtain ⟨t, u, rfl, ⟨a, t, rfl, ha, ht⟩, hu⟩ := h
    simp only [List.length_append] at hn
    obtain ⟨w, u₁, u₂, hw, hname, hcolon, hv⟩ := ih.member ht (fresh_of_moreMembers hu r) (by omega)
    have hmore : nextName .first (a ++ t ++ u ++ 0x7D :: r) = .ok (.more w) := by
      rw [nextName_first_iff, List.append_assoc, List.append_assoc, skip_append ha, hw]
      exact skip_of_not_blank rfl _
    rw [Reader.members, hmore]
    simp only [hname, hcolon, hv, ih.moreMembers d [(name, v)] ms u r hu (by omega)]
    rfl

theorem Complete.moreMembers_succ (ih : Complete n) {acc ms : List (String × Json)} (h : MoreMembers d ms t)
    (hn : 2 * t.length + 1 ≤ n + 1) :
    Reader.members (n + 1) d .later acc (t ++ 0x7D :: r) = .ok (acc.reverse ++ ms, r) := by
  rcases ms with _ | ⟨⟨name, v⟩, ms⟩
  · rw [MoreMembers] at h
    have hclose : nextName .later (t ++ 0x7D :: r) = .ok (.close r) :=
      nextName_close_iff.mpr ((skip_append h _).trans (skip_of_not_blank rfl r))
    rw [Reader.members, hclose]
    simp
  · rw [MoreMembers] at h
    obtain ⟨a, t, u, rfl, ha, ⟨b, t, rfl, hb, ht⟩, hu⟩ := h
    simp only [List.length_append, List.length_cons] at hn
    obtain ⟨w, u₁, u₂, hw, hname, hcolon, hv⟩ := ih.member ht (fresh_of_moreMembers hu r) (by omega)
    have hmore : nextName .later (a ++ 0x2C :: (b ++ t ++ u) ++ 0x7D :: r) = .ok (.more w) := by
      refine nextName_later_iff.mpr ⟨b ++ (t ++ (u ++ 0x7D :: r)), ?_, ?_⟩
      · rw [List.append_assoc, skip_append ha]
        simpa using skip_of_not_blank rfl _
      · rw [skip_append hb, hw]
        exact skip_of_not_blank rfl _
    rw [Reader.members, hmore]
    simp only [hname, hcolon, hv, ih.moreMembers d ((name, v) :: acc) ms u r hu (by omega)]
    simp

end Complete

theorem complete (n : Nat) : Complete n := by
  induction n with
  | zero =>
    refine ⟨fun d v t r h _ hn => ?_, fun _ _ _ _ _ hn => by omega, fun _ _ _ _ _ _ hn => by omega,
      fun _ _ _ _ _ hn => by omega, fun _ _ _ _ _ _ hn => by omega⟩
    obtain ⟨a, t, rfl, -, hv⟩ := h
    obtain ⟨b, u, rfl, -⟩ := written_head hv
    simp at hn
  | succ n ih =>
    exact ⟨fun _ _ _ _ => ih.value_succ, fun _ _ _ _ => ih.items_succ, fun _ _ _ _ _ => ih.moreItems_succ,
      fun _ _ _ _ => ih.members_succ, fun _ _ _ _ _ => ih.moreMembers_succ⟩

end Reader

/-! ### Whole texts -/

/-- The value of a whole text in which arrays and objects stand at most so deep inside one another. -/
def parseWithin (d : Nat) (s : Bytes) : Except Fault Json :=
  match value (fuelFor s) d s with
  | .error e => .error e
  | .ok (v, r) => finish v r

theorem parse_eq_parseWithin (s : Bytes) : parse s = parseWithin maxDepth s := rfl

/-- **A whole text is read as a value exactly if it is a document of that value.** -/
theorem parseWithin_ok_iff {d : Nat} {s : Bytes} {v : Json} : parseWithin d s = .ok v ↔ Document d v s := by
  unfold parseWithin
  constructor
  · intro h
    split at h
    · cases h
    · rename_i w r hw
      obtain ⟨rfl, hr⟩ := finish_ok_iff.mp h
      obtain ⟨t, ht, hwritten⟩ := (sound _).value _ _ _ _ hw
      exact ⟨t, r, ht, hwritten, skip_eq_nil_iff.mp (List.isEmpty_iff.mp hr)⟩
  · rintro ⟨t, b, rfl, ht, hb⟩
    have hfresh : Fresh b := by simpa using fresh_append hb fresh_nil
    have hfuel : 2 * t.length ≤ fuelFor (t ++ b) := by
      rw [fuelFor, List.length_append]
      omega
    rw [(complete _).value d v t b ht hfresh hfuel]
    exact finish_ok_iff.mpr ⟨rfl, List.isEmpty_iff.mpr (skip_eq_nil_iff.mpr hb)⟩

theorem parse_ok_iff {s : Bytes} {v : Json} : parse s = .ok v ↔ Document maxDepth v s := parseWithin_ok_iff

/-- A text is a document of one value at most. -/
theorem Document.unique {d : Nat} {s : Bytes} {v w : Json} (hv : Document d v s) (hw : Document d w s) : v = w :=
  Except.ok.inj ((parseWithin_ok_iff.mpr hv).symm.trans (parseWithin_ok_iff.mpr hw))

end Parley.Json
