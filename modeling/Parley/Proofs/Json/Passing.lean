import Mathlib.Tactic.SplitIfs
import Parley.Proofs.Json.Forms

/-!
# Passing over values

A value that nothing is asked about is passed over with only its form looked at, the brackets that are open in it
kept in a list. What has been passed over is the form of a value, up to the brackets that are still open (`passes`),
and every form is passed over, in two steps for each byte (`exists_steps`). So the reader stops exactly where a
value ends: `form_of_skipValue`, `skipValue_append`.
-/

namespace Parley.Json

open Reader

namespace Reader

variable {s r : Bytes}

/-! ### Strings -/

theorem letters_of_skipString (h : skipString s = .ok r) : ∃ body, s = body ++ 0x22 :: r ∧ Letters body := by
  fun_induction skipString s
  all_goals try cases h
  case case2 b hb =>
    obtain rfl := eq_of_beq hb
    exact ⟨[], rfl, .nil⟩
  case case4 b _ hb e he a₁ a₂ a₃ a₄ s hhex ih =>
    obtain rfl := eq_of_beq hb
    obtain rfl := eq_of_beq he
    obtain ⟨n, hn⟩ := Option.isSome_iff_exists.mp hhex
    obtain ⟨body, rfl, hbody⟩ := ih h
    exact ⟨_ ++ body, by simp, .cons (.point a₁ a₂ a₃ a₄ n hn) hbody⟩
  case case7 b _ hb e s _ hsimple ih =>
    obtain rfl := eq_of_beq hb
    obtain ⟨c, hc⟩ := Option.isSome_iff_exists.mp hsimple
    obtain ⟨body, rfl, hbody⟩ := ih h
    exact ⟨_ ++ body, by simp, .cons (.short e c hc) hbody⟩
  case case10 b s hquote hslash hcontrol ih =>
    obtain ⟨body, rfl, hbody⟩ := ih h
    have hplain : Letter [b] := .plain b (UInt8.not_lt.mp hcontrol) (by simpa using hquote) (by simpa using hslash)
    exact ⟨_ ++ body, by simp, .cons hplain hbody⟩

theorem skipString_letter {u : Bytes} (h : Letter u) (s : Bytes) : skipString (u ++ s) = skipString s := by
  cases h with
  | plain b hcontrol hquote hslash =>
    have hlow : ¬ b < 0x20 := UInt8.not_lt.mpr hcontrol
    rw [List.singleton_append, skipString.eq_def]
    simp [hquote, hslash, hlow]
  | short e c h =>
    have he : e ≠ 0x75 := by rintro rfl; simp [simpleEscape?] at h
    show skipString (0x5C :: e :: s) = _
    rw [skipString.eq_def]
    simp [he, h]
  | point a₁ a₂ a₃ a₄ n h => simp [skipString, h]

/-- **A string is passed over where the form of one ends**, after its opening quote. -/
theorem skipString_iff : skipString s = .ok r ↔ ∃ q, 0x22 :: s = q ++ r ∧ Closed q := by
  constructor
  · intro h
    obtain ⟨body, rfl, hbody⟩ := letters_of_skipString h
    exact ⟨0x22 :: (body ++ [0x22]), by simp, body, rfl, hbody⟩
  · rintro ⟨q, hs, body, rfl, hbody⟩
    obtain rfl : s = body ++ 0x22 :: r := by simpa using hs
    clear hs
    induction hbody with
    | nil => rw [List.nil_append, skipString.eq_def]; rfl
    | cons head tail ih => rw [List.append_assoc, skipString_letter head, ih]

/-! ### Numbers -/

theorem of_guarded_ok {P : Prop} [Decidable P] {t : Bytes} {e : Fault}
    (h : (if P then Except.ok t else .error e) = .ok r) :
    P ∧ t = r := by
  split_ifs at h with hP
  exact ⟨hP, Except.ok.inj h⟩

theorem skipDigits_cons {b : UInt8} (hb : isDigit b = true) (s : Bytes) :
    ∃ ds, b :: s = ds ++ skipDigits s ∧ Digits ds ∧ ds ≠ [] := by
  obtain ⟨ds, hs, hds⟩ := exists_skipDigits s
  exact ⟨b :: ds, by rw [List.cons_append, ← hs], hds.cons hb, List.cons_ne_nil _ _⟩

theorem power_of_skipExponent (h : skipExponent s = .ok r) : ∃ t, s = t ++ r ∧ Power t := by
  cases s with
  | nil => cases h
  | cons b s =>
    by_cases hsign : b = 0x2B ∨ b = 0x2D
    · have hsigns : [b] = [] ∨ [b] = [0x2B] ∨ [b] = [0x2D] := by simpa using hsign
      cases s with
      | nil => rcases hsign with rfl | rfl <;> cases h
      | cons d s =>
        obtain ⟨hd, rfl⟩ : isDigit d = true ∧ skipDigits s = r := by
          rcases hsign with rfl | rfl <;> exact of_guarded_ok (by simpa [skipExponent] using h)
        obtain ⟨ds, hs, hds, hne⟩ := skipDigits_cons hd s
        exact ⟨[b] ++ ds, by rw [hs]; simp, [b], ds, rfl, hsigns, hds, hne⟩
    · obtain ⟨hb, rfl⟩ : isDigit b = true ∧ skipDigits s = r :=
        of_guarded_ok (by simpa [skipExponent, not_or.mp hsign] using h)
      obtain ⟨ds, hs, hds, hne⟩ := skipDigits_cons hb s
      exact ⟨ds, hs, [], ds, rfl, .inl rfl, hds, hne⟩

theorem skipExponent_append {t : Bytes} (ht : Power t) (hr : NoDigit r) : skipExponent (t ++ r) = .ok r := by
  obtain ⟨sign, ds, rfl, hsign, hds, hne⟩ := ht
  obtain ⟨d, ds, rfl⟩ := List.exists_cons_of_ne_nil hne
  have hd : isDigit d = true := hds.head
  have hplain : d ≠ 0x2B ∧ d ≠ 0x2D := ⟨(by rintro rfl; cases hd), (by rintro rfl; cases hd)⟩
  rcases hsign with rfl | rfl | rfl <;> simp [skipExponent, hplain, hd, skipDigits_append hds.tail hr]

theorem exponent_of_skipMark (h : skipMark s = .ok r) : ∃ t, s = t ++ r ∧ Exponent t := by
  cases s with
  | nil => cases h; exact ⟨[], rfl, .inl rfl⟩
  | cons b s =>
    rw [skipMark] at h
    split_ifs at h with hb
    · obtain ⟨t, rfl, ht⟩ := power_of_skipExponent h
      exact ⟨b :: t, rfl, .inr ⟨b, t, rfl, hb, ht⟩⟩
    · cases h
      exact ⟨[], rfl, .inl rfl⟩

theorem skipMark_append {t : Bytes} (ht : Exponent t) (hr : Fresh r) : skipMark (t ++ r) = .ok r := by
  rcases ht with rfl | ⟨b, t, rfl, hb, ht⟩
  · cases r with
    | nil => rfl
    | cons c r => rw [List.nil_append, skipMark, hr.head.2.2]; rfl
  · rw [List.cons_append, skipMark, if_pos hb, skipExponent_append ht hr.noDigit]

theorem fraction_of_skipFraction (h : skipFraction s = .ok r) : ∃ f e, s = f ++ e ++ r ∧ Fraction f ∧ Exponent e := by
  cases s with
  | nil => cases h; exact ⟨[], [], rfl, .inl rfl, .inl rfl⟩
  | cons b s =>
    rw [skipFraction.eq_def] at h
    dsimp only at h
    split_ifs at h with hb
    · obtain rfl := eq_of_beq hb
      cases s with
      | nil => cases h
      | cons d s =>
        dsimp only at h
        split_ifs at h with hd
        obtain ⟨e, he, hexponent⟩ := exponent_of_skipMark h
        obtain ⟨ds, hs, hds, hne⟩ := skipDigits_cons hd s
        exact ⟨0x2E :: ds, e, by rw [hs, he]; simp, .inr ⟨ds, rfl, hds, hne⟩, hexponent⟩
    · obtain ⟨e, he, hexponent⟩ := exponent_of_skipMark h
      exact ⟨[], e, he, .inl rfl, hexponent⟩

theorem skipFraction_append {f e : Bytes} (hf : Fraction f) (he : Exponent e) (hr : Fresh r) :
    skipFraction (f ++ e ++ r) = .ok r := by
  have hmark := skipMark_append he hr
  rcases hf with rfl | ⟨ds, rfl, hds, hne⟩
  · rw [List.nil_append]
    cases hs : e ++ r with
    | nil =>
      rw [hs] at hmark
      exact hmark
    | cons b t =>
      have hpoint : (b == 0x2E) = false := by
        rcases he with rfl | ⟨c, t', rfl, hc, -⟩
        · obtain rfl : r = b :: t := hs
          exact hr.head.2.1
        · obtain ⟨rfl, -⟩ := List.cons.inj hs
          exact (not_isDigit_of_mark hc).2
      rw [hs] at hmark
      rw [skipFraction.eq_def]
      dsimp only
      rw [hpoint]
      exact hmark
  · obtain ⟨d, ds, rfl⟩ := List.exists_cons_of_ne_nil hne
    have hd : isDigit d = true := hds.head
    simp [skipFraction, hd, skipDigits_append hds.tail (noDigit_append he hr), hmark]

theorem skipNumber_cons {b : UInt8} (hb : isDigit b = true) (hs : b = 0x30 → NoDigit s) :
    skipNumber (b :: s) = skipFraction (if b = 0x30 then s else skipDigits s) := by
  rw [skipNumber.eq_def]
  by_cases hzero : b = 0x30
  · subst hzero
    cases s with
    | nil => rfl
    | cons d s => simp [hs rfl d rfl]
  · simp [hzero, hb]

theorem unsigned_of_skipNumber (h : skipNumber s = .ok r) : ∃ t, s = t ++ r ∧ Unsigned t := by
  cases s with
  | nil => cases h
  | cons b s =>
    by_cases hb : isDigit b = true
    · by_cases hzero : b = 0x30
      · have hs : NoDigit s := by
          subst hzero
          intro d hd
          cases hdigit : isDigit d with
          | false => rfl
          | true =>
            obtain ⟨s, rfl⟩ := List.head?_eq_some_iff.mp hd
            rw [skipNumber.eq_def] at h
            simp [hdigit] at h
        rw [skipNumber_cons hb fun _ => hs, if_pos hzero] at h
        obtain ⟨f, e, rfl, hf, he⟩ := fraction_of_skipFraction h
        exact ⟨[b] ++ f ++ e, by simp, [b], f, e, rfl,
          ⟨digits_nil.cons hb, List.cons_ne_nil _ _, fun _ => by rw [hzero]⟩, hf, he⟩
      · rw [skipNumber_cons hb fun hb => absurd hb hzero, if_neg hzero] at h
        obtain ⟨f, e, hrest, hf, he⟩ := fraction_of_skipFraction h
        obtain ⟨ds, hs, hds⟩ := exists_skipDigits s
        have hwhole : Whole (b :: ds) := ⟨hds.cons hb, List.cons_ne_nil _ _, fun h => absurd (Option.some.inj h) hzero⟩
        refine ⟨b :: ds ++ f ++ e, ?_, b :: ds, f, e, rfl, hwhole, hf, he⟩
        rw [hs, hrest]
        simp
    · have hzero : b ≠ 0x30 := by rintro rfl; exact hb rfl
      rw [skipNumber.eq_def] at h
      simp [hb, hzero] at h

/-- The bytes behind the digits before the point. -/
theorem noDigit_fraction {f e : Bytes} (hf : Fraction f) (he : Exponent e) (hr : Fresh r) : NoDigit (f ++ e ++ r) := by
  rcases hf with rfl | ⟨ds, rfl, -, -⟩
  · exact noDigit_append he hr
  · rintro _ ⟨⟩
    rfl

theorem skipNumber_append {t : Bytes} (ht : Unsigned t) (hr : Fresh r) : skipNumber (t ++ r) = .ok r := by
  obtain ⟨w, f, e, rfl, ⟨hdigits, hne, hlone⟩, hf, he⟩ := ht
  obtain ⟨b, ds, rfl⟩ := List.exists_cons_of_ne_nil hne
  have hnext := noDigit_fraction hf he hr
  have hassoc : b :: ds ++ f ++ e ++ r = b :: (ds ++ (f ++ e ++ r)) := by simp
  by_cases hzero : b = 0x30
  · obtain ⟨-, rfl⟩ : b = 0x30 ∧ ds = [] := by simpa [hzero] using hlone
    rw [hassoc, List.nil_append, skipNumber_cons hdigits.head fun _ => hnext, if_pos hzero]
    exact skipFraction_append hf he hr
  · rw [hassoc, skipNumber_cons hdigits.head fun h => absurd h hzero, if_neg hzero,
      skipDigits_append hdigits.tail hnext]
    exact skipFraction_append hf he hr

/-! ### Steps -/

/-- What is left to do once a value has ended, with these brackets open around it. -/
def resume (n : Nat) (brackets : List Bracket) (s : Bytes) : Except Fault Bytes :=
  if brackets.isEmpty then .ok s else skipOpen n .after brackets s

/-- The same for a value of which the rest, or a fault, is known. -/
def resumed (n : Nat) (brackets : List Bracket) : Except Fault Bytes → Except Fault Bytes
  | .error e => .error e
  | .ok s => resume n brackets s

/-- How a value begins that is passed over. -/
inductive Begins (n : Nat) (bs : List Bracket) : Bytes → Bytes → Prop
  | scalar {v t r : Bytes} (hv : Scalar v) (h : resume n bs t = .ok r) : Begins n bs (v ++ t) r
  | bracket (k : Bracket) {t r : Bytes} (h : skipOpen n .opened (k :: bs) t = .ok r) : Begins n bs (k.opening :: t) r

variable {n : Nat} {bs : List Bracket} {k : Bracket}

theorem skipOpen_value (n : Nat) (bs : List Bracket) (s : Bytes) :
    skipOpen (n + 1) .value bs s =
      match skip s with
      | [] => .error .ended
      | b :: s =>
        if b == 0x6E then resumed n bs ((word [0x75, 0x6C, 0x6C] s).map (·.2))
        else if b == 0x74 then resumed n bs ((word [0x72, 0x75, 0x65] s).map (·.2))
        else if b == 0x66 then resumed n bs ((word [0x61, 0x6C, 0x73, 0x65] s).map (·.2))
        else if b == 0x2D then resumed n bs (skipNumber s)
        else if isDigit b then resumed n bs (skipNumber (b :: s))
        else if b == 0x22 then resumed n bs (skipString s)
        else if b == 0x5B then skipOpen n .opened (.array :: bs) s
        else if b == 0x7B then skipOpen n .opened (.object :: bs) s
        else .error .malformed := by
  rw [skipOpen]
  rfl

theorem Begins.of_resumed {x : Except Fault Bytes} (h : resumed n bs x = .ok r)
    (hx : ∀ t, x = .ok t → ∃ v, s = v ++ t ∧ Scalar v) : Begins n bs s r := by
  cases x with
  | error e => cases h
  | ok t =>
    obtain ⟨v, rfl, hv⟩ := hx t rfl
    exact .scalar hv h

theorem of_word_map {w : Bytes} (h : (word w s).map (·.2) = .ok r) : s = w ++ r := by
  cases hw : word w s with
  | error e => rw [hw] at h; cases h
  | ok p =>
    rw [hw] at h
    cases h
    exact word_ok hw

theorem begins_of_skipOpen (h : skipOpen (n + 1) .value bs s = .ok r) : Begins n bs (skip s) r := by
  rw [skipOpen_value] at h
  cases hs : skip s with
  | nil => rw [hs] at h; cases h
  | cons b t =>
    rw [hs] at h
    dsimp only at h
    split_ifs at h with hn ht hf hminus hdigit hquote harray hobject
    · exact .of_resumed h fun u hu => ⟨_, by rw [eq_of_beq hn, of_word_map hu]; rfl, .null⟩
    · exact .of_resumed h fun u hu => ⟨_, by rw [eq_of_beq ht, of_word_map hu]; rfl, .true⟩
    · exact .of_resumed h fun u hu => ⟨_, by rw [eq_of_beq hf, of_word_map hu]; rfl, .false⟩
    · refine .of_resumed h fun u hu => ?_
      obtain ⟨v, rfl, hv⟩ := unsigned_of_skipNumber hu
      exact ⟨0x2D :: v, by rw [eq_of_beq hminus]; rfl, .negative hv⟩
    · exact .of_resumed h fun u hu => (unsigned_of_skipNumber hu).imp fun v hv => ⟨hv.1, .number hv.2⟩
    · refine .of_resumed h fun u hu => ?_
      obtain ⟨q, hq, hclosed⟩ := skipString_iff.mp hu
      exact ⟨q, by rw [eq_of_beq hquote, hq], .string hclosed⟩
    · obtain rfl := eq_of_beq harray
      exact .bracket .array h
    · obtain rfl := eq_of_beq hobject
      exact .bracket .object h

theorem skipOpen_scalar {v : Bytes} (hs : skip s = v ++ r) (hv : Scalar v) (hr : Fresh r) :
    skipOpen (n + 1) .value bs s = resume n bs r := by
  cases hv with
  | null => rw [skipOpen_value, hs]; simp [word, Except.map, resumed]
  | true => rw [skipOpen_value, hs]; simp [word, Except.map, resumed]
  | false => rw [skipOpen_value, hs]; simp [word, Except.map, resumed]
  | number h =>
    obtain ⟨b, t, rfl, hb⟩ := unsigned_head h
    have hne : ∀ c : UInt8, isDigit c = false → ¬ (b == c) = true := by
      rintro c hc heq
      rw [eq_of_beq heq, hc] at hb
      cases hb
    have hskip := skipNumber_append h hr
    rw [skipOpen_value, hs, List.cons_append]
    dsimp only
    rw [if_neg (hne 0x6E rfl), if_neg (hne 0x74 rfl), if_neg (hne 0x66 rfl), if_neg (hne 0x2D rfl), if_pos hb,
      ← List.cons_append, hskip]
    rfl
  | negative h =>
    rw [skipOpen_value, hs]
    simp [skipNumber_append h hr, resumed]
  | string h =>
    obtain ⟨body, hbody, -⟩ := id h
    have hskip : skipString (body ++ [0x22] ++ r) = .ok r := skipString_iff.mpr ⟨v, by rw [hbody]; rfl, h⟩
    rw [skipOpen_value, hs, hbody, List.cons_append]
    dsimp only
    rw [hskip]
    rfl

theorem skipOpen_bracket (hs : skip s = k.opening :: r) :
    skipOpen (n + 1) .value bs s = skipOpen n .opened (k :: bs) r := by
  cases k <;> (rw [skipOpen_value, hs]; rfl)

/-- Only what comes behind the blanks before a value matters. -/
theorem skipOpen_congr {t : Bytes} (h : skip s = skip t) : skipOpen n .value bs s = skipOpen n .value bs t := by
  cases n with
  | zero => rfl
  | succ n => rw [skipOpen_value, skipOpen_value, h]

theorem skip_skip (s : Bytes) : skip (skip s) = skip s := by
  obtain ⟨a, hs, ha⟩ := exists_skip s
  calc skip (skip s) = skip (a ++ skip s) := (skip_append ha _).symm
    _ = skip s := by rw [← hs]

theorem enter_skip (k : Bracket) (s : Bytes) :
    (enter k (skip s)).bind (skipOpen n .value bs) = (enter k s).bind (skipOpen n .value bs) := by
  cases k with
  | array => exact skipOpen_congr (skip_skip s)
  | object => simp only [enter, skipName, skip_skip]

theorem closing_iff {b : UInt8} :
    (b == 0x5D && decide (k = .array) || b == 0x7D && decide (k = .object)) = true ↔ b = k.closing := by
  cases k <;> simp [Bracket.closing]

theorem skipOpen_opened (n : Nat) (bs : List Bracket) (k : Bracket) (s : Bytes) :
    skipOpen (n + 1) .opened (k :: bs) s =
      match skip s with
      | [] => .error .ended
      | b :: r => if b = k.closing then resume n bs r else (enter k s).bind (skipOpen n .value (k :: bs)) := by
  rw [← enter_skip, skipOpen.eq_def]
  cases skip s with
  | nil => rfl
  | cons b r =>
    simp only [closing_iff, if_true]
    cases enter k (b :: r) <;> rfl

theorem skipOpen_after (n : Nat) (bs : List Bracket) (k : Bracket) (s : Bytes) :
    skipOpen (n + 1) .after (k :: bs) s =
      match skip s with
      | [] => .error .ended
      | b :: r =>
        if b = k.closing then resume n bs r
        else if b = 0x2C then (enter k r).bind (skipOpen n .value (k :: bs)) else .error .malformed := by
  rw [skipOpen.eq_def]
  cases skip s with
  | nil => rfl
  | cons b r =>
    simp only [closing_iff, reduceCtorEq, if_false, beq_iff_eq]
    cases enter k r <;> rfl

/-! ### What stands before a value -/

theorem lead_of_enter {t : Bytes} (h : enter k s = .ok t) : ∃ l, s = l ++ t ∧ ∀ c, Blanks c → Lead k (l ++ c) := by
  cases k with
  | array =>
    cases h
    exact ⟨[], rfl, fun c hc => hc⟩
  | object =>
    obtain ⟨a, hs, ha⟩ := exists_skip s
    simp only [enter, skipName] at h
    split at h
    · cases h
    · rename_i b u hb
      split_ifs at h with hquote
      split at h
      · rename_i u' hname
        obtain rfl := eq_of_beq hquote
        obtain ⟨q, hq, hclosed⟩ := skipString_iff.mp hname
        obtain ⟨b, hu', hb'⟩ := exists_skip u'
        refine ⟨a ++ q ++ b ++ [0x3A], ?_, fun c hc => ⟨a, q, b, c, by simp, ha, hclosed, hb', hc⟩⟩
        rw [hs, hb, hq, hu', colon_iff.mp h]
        simp
      · cases h

theorem enter_append {l : Bytes} (hl : Lead k l) (s : Bytes) : ∃ c, Blanks c ∧ enter k (l ++ s) = .ok (c ++ s) := by
  cases k with
  | array => exact ⟨l, hl, rfl⟩
  | object =>
    obtain ⟨a, q, b, c, rfl, ha, hq, hb, hc⟩ := hl
    obtain ⟨body, hbody, -⟩ := id hq
    have hskip : skip (a ++ q ++ b ++ 0x3A :: c ++ s) = 0x22 :: (body ++ [0x22] ++ (b ++ 0x3A :: (c ++ s))) := by
      rw [List.append_assoc, List.append_assoc, List.append_assoc, skip_append ha, hbody, List.cons_append,
        skip_of_not_blank rfl]
      simp
    have hname : skipString (body ++ [0x22] ++ (b ++ 0x3A :: (c ++ s))) = .ok (b ++ 0x3A :: (c ++ s)) :=
      skipString_iff.mpr ⟨q, by rw [hbody]; rfl, hq⟩
    have hcolon : colon (b ++ 0x3A :: (c ++ s)) = .ok (c ++ s) :=
      colon_iff.mpr ((skip_append hb _).trans (skip_of_not_blank rfl _))
    refine ⟨c, hc, ?_⟩
    simp only [enter, skipName, hskip, hname, hcolon]
    rfl

theorem skip_form {v : Bytes} (h : Form v) (s : Bytes) : skip (v ++ s) = v ++ s := by
  obtain ⟨b, t, rfl, hb⟩ := form_head h
  exact skip_of_not_blank hb.1 _

theorem skip_lead {l v : Bytes} (hl : Lead k l) (hv : Form v) (s : Bytes) :
    ∃ b t, skip (l ++ (v ++ s)) = b :: t ∧ b ≠ k.closing := by
  cases k with
  | array =>
    obtain ⟨b, t, rfl, hb⟩ := form_head hv
    exact ⟨b, t ++ s, (skip_append hl _).trans (skip_of_not_blank hb.1 _), hb.2⟩
  | object =>
    obtain ⟨a, q, b, c, rfl, ha, ⟨body, rfl, -⟩, hb, hc⟩ := hl
    refine ⟨0x22, body ++ [0x22] ++ b ++ 0x3A :: c ++ (v ++ s), ?_, by decide⟩
    rw [List.append_assoc, List.append_assoc, List.append_assoc, skip_append ha, List.cons_append,
      skip_of_not_blank rfl]
    simp

theorem skip_closing {a : Bytes} (ha : Blanks a) (k : Bracket) (s : Bytes) :
    skip (a ++ [k.closing] ++ s) = k.closing :: s := by
  rw [List.append_assoc, skip_append ha]
  cases k <;> exact skip_of_not_blank rfl s

/-! ### What is passed over has a form -/

/-- What is behind a value within brackets, up to the end of the outermost. -/
def Ends : List Bracket → Bytes → Prop
  | [], s => s = []
  | k :: bs, s => ∃ u w, s = u ++ w ∧ Shape (.later k) u ∧ Ends bs w

/-- What is passed over from some point on. -/
def Rest : Expect → List Bracket → Bytes → Prop
  | .value, bs, s => ∃ a v w, s = a ++ v ++ w ∧ Blanks a ∧ Form v ∧ Ends bs w
  | .opened, k :: bs, s => ∃ u w, s = u ++ w ∧ Shape (.opened k) u ∧ Ends bs w
  | _, bs, s => Ends bs s

/-- What the reader has passed over is what there is from this point on. -/
def Passes (n : Nat) : Prop := ∀ expect bs s r, skipOpen n expect bs s = .ok r → ∃ t, s = t ++ r ∧ Rest expect bs t

theorem Passes.resume (ih : Passes n) (h : Reader.resume n bs s = .ok r) : ∃ t, s = t ++ r ∧ Ends bs t := by
  cases bs with
  | nil =>
    cases h
    exact ⟨[], rfl, rfl⟩
  | cons k bs => exact ih _ _ _ _ h

theorem Passes.value_succ (ih : Passes n) (h : skipOpen (n + 1) .value bs s = .ok r) :
    ∃ t, s = t ++ r ∧ Rest .value bs t := by
  obtain ⟨a, hs, ha⟩ := exists_skip s
  have hbegins := begins_of_skipOpen h
  generalize skip s = u at hs hbegins
  cases hbegins with
  | scalar hv hrest =>
    obtain ⟨w, rfl, hw⟩ := ih.resume hrest
    exact ⟨a ++ _ ++ w, by rw [hs]; simp, a, _, w, rfl, ha, .scalar hv, hw⟩
  | bracket k hrest =>
    obtain ⟨_, rfl, u, w, rfl, hu, hw⟩ := ih _ _ _ _ hrest
    exact ⟨a ++ k.opening :: u ++ w, by rw [hs]; simp, a, _, w, rfl, ha, .bracket hu, hw⟩

/-- A value within a bracket, from what stands before it on. -/
theorem Passes.entered (ih : Passes n) (h : (enter k s).bind (skipOpen n .value (k :: bs)) = .ok r) :
    ∃ l v u w, s = l ++ v ++ u ++ w ++ r ∧ Lead k l ∧ Form v ∧ Shape (.later k) u ∧ Ends bs w := by
  cases hs : enter k s with
  | error e => rw [hs] at h; cases h
  | ok t =>
    rw [hs] at h
    obtain ⟨l, rfl, hl⟩ := lead_of_enter hs
    obtain ⟨_, rfl, a, v, _, rfl, ha, hv, u, w, rfl, hu, hw⟩ := ih _ _ _ _ h
    exact ⟨l ++ a, v, u, w, by simp, hl a ha, hv, hu, hw⟩

theorem Passes.opened_succ (ih : Passes n) (h : skipOpen (n + 1) .opened (k :: bs) s = .ok r) :
    ∃ t, s = t ++ r ∧ Rest .opened (k :: bs) t := by
  rw [skipOpen_opened] at h
  split at h
  · cases h
  · rename_i b t hb
    split_ifs at h with hclose
    · obtain ⟨a, hs, ha⟩ := exists_skip s
      obtain ⟨w, rfl, hw⟩ := ih.resume h
      exact ⟨a ++ [k.closing] ++ w, by rw [hs, hb, hclose]; simp, _, w, rfl, .empty ha, hw⟩
    · obtain ⟨l, v, u, w, rfl, hl, hv, hu, hw⟩ := ih.entered h
      exact ⟨l ++ v ++ u ++ w, rfl, _, w, rfl, .first hl hv hu, hw⟩

theorem Passes.after_succ (ih : Passes n) (h : skipOpen (n + 1) .after (k :: bs) s = .ok r) :
    ∃ t, s = t ++ r ∧ Rest .after (k :: bs) t := by
  rw [skipOpen_after] at h
  obtain ⟨a, hs, ha⟩ := exists_skip s
  split at h
  · cases h
  · rename_i b t hb
    split_ifs at h with hclose hcomma
    · obtain ⟨w, rfl, hw⟩ := ih.resume h
      exact ⟨a ++ [k.closing] ++ w, by rw [hs, hb, hclose]; simp, _, w, rfl, .close ha, hw⟩
    · obtain ⟨l, v, u, w, rfl, hl, hv, hu, hw⟩ := ih.entered h
      exact ⟨a ++ 0x2C :: (l ++ v ++ u) ++ w, by rw [hs, hb, hcomma]; simp, _, w, rfl, .next ha hl hv hu, hw⟩

/-- **What has been passed over has the form of a value**, up to the brackets that are open. -/
theorem passes (n : Nat) : Passes n := by
  induction n with
  | zero => exact fun _ _ _ _ h => nomatch h
  | succ n ih =>
    intro expect bs s r h
    cases expect with
    | value => exact ih.value_succ h
    | opened =>
      cases bs with
      | nil => cases h; exact ⟨[], rfl, rfl⟩
      | cons k bs => exact ih.opened_succ h
    | after =>
      cases bs with
      | nil => cases h; exact ⟨[], rfl, rfl⟩
      | cons k bs => exact ih.after_succ h

/-! ### Every form is passed over -/

/-- What the reader does where a part of a value stands. -/
def passOver (n : Nat) (bs : List Bracket) (s : Bytes) : Part → Except Fault Bytes
  | .whole => skipOpen n .value bs s
  | .opened k => skipOpen n .opened (k :: bs) s
  | .later k => skipOpen n .after (k :: bs) s

theorem fresh_later {u : Bytes} (h : Shape (.later k) u) (s : Bytes) : Fresh (u ++ s) := by
  cases h with
  | close ha =>
    rw [List.append_assoc]
    exact fresh_append ha (by rintro _ ⟨⟩; cases k <;> rfl)
  | next ha =>
    rw [List.append_assoc]
    exact fresh_append ha (by rintro _ ⟨⟩; rfl)

/-- A value within a bracket is passed over, and then the rest of the bracket. -/
theorem entered_append {l v u : Bytes} {m m' : Nat} (hl : Lead k l)
    (hvalue : ∀ n bs, skipOpen (n + m) .value bs (v ++ (u ++ r)) = resume n bs (u ++ r))
    (hlater : ∀ n bs, skipOpen (n + m') .after (k :: bs) (u ++ r) = resume n bs r) (n : Nat) (bs : List Bracket) :
    (enter k (l ++ (v ++ (u ++ r)))).bind (skipOpen (n + m' + m) .value (k :: bs)) = resume n bs r := by
  obtain ⟨c, hc, henter⟩ := enter_append hl (v ++ (u ++ r))
  calc (enter k (l ++ (v ++ (u ++ r)))).bind (skipOpen (n + m' + m) .value (k :: bs))
      = skipOpen (n + m' + m) .value (k :: bs) (c ++ (v ++ (u ++ r))) := by rw [henter]; rfl
    _ = skipOpen (n + m' + m) .value (k :: bs) (v ++ (u ++ r)) := skipOpen_congr (skip_append hc _)
    _ = resume (n + m') (k :: bs) (u ++ r) := hvalue _ _
    _ = resume n bs r := hlater n bs

/-- **Every form is passed over**, in two steps for each byte. -/
theorem exists_steps {p : Part} {t : Bytes} (h : Shape p t) (hr : Fresh r) :
    ∃ m, m + 1 ≤ 2 * t.length ∧ ∀ n bs, passOver (n + m) bs (t ++ r) p = resume n bs r := by
  induction h generalizing r with
  | scalar h =>
    obtain ⟨b, t, rfl, hb⟩ := form_head (.scalar h)
    refine ⟨1, by simp only [List.length_cons]; omega, fun n bs => ?_⟩
    exact skipOpen_scalar (skip_form (.scalar h) r) h hr
  | @bracket k t h ih =>
    obtain ⟨m, hm, hsteps⟩ := ih hr
    refine ⟨m + 1, by simp only [List.length_cons]; omega, fun n bs => ?_⟩
    exact (skipOpen_bracket (skip_form (.bracket h) r)).trans (hsteps n bs)
  | @empty k a ha =>
    refine ⟨1, by simp only [List.length_append, List.length_singleton]; omega, fun n bs => ?_⟩
    simp only [passOver, skipOpen_opened, skip_closing ha, if_true]
  | @first k l v u hl hv hu ihv ihu =>
    -- the value ends where the bracket goes on: no number runs on into what follows it
    obtain ⟨m, hm, hvalue⟩ := ihv (fresh_later hu r)
    obtain ⟨m', hm', hlater⟩ := ihu hr
    refine ⟨m' + m + 1, by simp only [List.length_append]; omega, fun n bs => ?_⟩
    obtain ⟨b, t, hskip, hb⟩ := skip_lead hl hv (u ++ r)
    simp only [passOver, ← Nat.add_assoc, List.append_assoc, skipOpen_opened, hskip, if_neg hb]
    exact entered_append hl hvalue hlater n bs
  | @close k a ha =>
    refine ⟨1, by simp only [List.length_append, List.length_singleton]; omega, fun n bs => ?_⟩
    simp only [passOver, skipOpen_after, skip_closing ha, if_true]
  | @next k a l v u ha hl hv hu ihv ihu =>
    obtain ⟨m, hm, hvalue⟩ := ihv (fresh_later hu r)
    obtain ⟨m', hm', hlater⟩ := ihu hr
    refine ⟨m' + m + 1, by simp only [List.length_append, List.length_cons]; omega, fun n bs => ?_⟩
    have hskip : skip (a ++ 0x2C :: (l ++ (v ++ (u ++ r)))) = 0x2C :: (l ++ (v ++ (u ++ r))) :=
      (skip_append ha _).trans (skip_of_not_blank rfl _)
    have hcomma : 0x2C ≠ k.closing := by cases k <;> decide
    simp only [passOver, ← Nat.add_assoc, List.append_assoc, List.cons_append, skipOpen_after, hskip,
      if_neg hcomma, if_true]
    exact entered_append hl hvalue hlater n bs

/-! ### Whole values -/

theorem form_of_skipValue (h : skipValue s = .ok r) : ∃ t, s = t ++ r ∧ AfterBlanks Form t := by
  obtain ⟨_, rfl, a, v, w, rfl, ha, hv, rfl⟩ := passes _ _ _ _ _ h
  exact ⟨a ++ v ++ [], rfl, a, v, by simp, ha, hv⟩

theorem skipValue_append {t : Bytes} (ht : AfterBlanks Form t) (hr : Fresh r) : skipValue (t ++ r) = .ok r := by
  obtain ⟨a, v, rfl, ha, hv⟩ := ht
  obtain ⟨m, hm, hsteps⟩ := exists_steps hv hr
  obtain ⟨n, hn⟩ : ∃ n, 2 * (a ++ v ++ r).length + 2 = n + m := by
    refine ⟨2 * (a ++ v ++ r).length + 2 - m, ?_⟩
    simp only [List.length_append]
    omega
  calc skipValue (a ++ v ++ r) = skipOpen (n + m) .value [] (a ++ v ++ r) := by rw [skipValue, hn]
    _ = skipOpen (n + m) .value [] (v ++ r) := skipOpen_congr (by rw [List.append_assoc, skip_append ha])
    _ = .ok r := hsteps n []

end Reader

end Parley.Json
