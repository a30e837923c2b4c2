import Mathlib.Tactic.SplitIfs
import Parley.Proofs.Json.Grammar

/-!
# Reading numbers

A number is read as far as it goes. Each part of the reader takes bytes of one part of the shape of a number, and
takes them alike whatever follows that does not go on with the number (`Takes`); they are put together from the end
of a number to its beginning, up to `takes_number`. Of a number alone the reader makes what its parts come to:
`number_eq`.
-/

namespace Parley.Json

open Reader

theorem digits_nil : Digits [] := nofun

theorem Digits.cons {b : UInt8} {t : Bytes} (ht : Digits t) (hb : isDigit b = true) : Digits (b :: t) := by
  intro c hc
  rcases List.mem_cons.mp hc with rfl | hc
  · exact hb
  · exact ht c hc

theorem Digits.head {b : UInt8} {ds : Bytes} (h : Digits (b :: ds)) : isDigit b = true := h b List.mem_cons_self

theorem Digits.tail {b : UInt8} {ds : Bytes} (h : Digits (b :: ds)) : Digits ds :=
  fun c hc => h c (List.mem_cons_of_mem _ hc)

theorem Digits.filter {ds : Bytes} (h : Digits ds) : ds.filter isDigit = ds := List.filter_eq_self.mpr h

namespace Reader

def continuesNumber (b : UInt8) : Bool := isDigit b || b == 0x2E || isExponentMark b

/-- No number goes on with these bytes. -/
def Fresh (r : Bytes) : Prop := ∀ b ∈ r.head?, continuesNumber b = false

theorem fresh_nil : Fresh [] := nofun

theorem Fresh.head {b : UInt8} {t : Bytes} (h : Fresh (b :: t)) :
    isDigit b = false ∧ (b == 0x2E) = false ∧ isExponentMark b = false := by
  have hb := h b rfl
  simpa [continuesNumber, and_assoc] using hb

/-- A part of the reader has taken bytes of some shape, and would take them whatever fresh follows. -/
def Takes (read : Bytes → Read Number) (Shape : Bytes → Prop) (s : Bytes) (x : Number) (r : Bytes) : Prop :=
  ∃ t, s = t ++ r ∧ Shape t ∧ ∀ r', Fresh r' → read (t ++ r') = .ok (x, r')

section Takes

variable {read inner : Bytes → Read Number} {Shape Inner : Bytes → Prop} {b : UInt8} {s r : Bytes} {x : Number}

theorem Takes.cons (h : Takes inner Inner s x r) (hread : ∀ t, read (b :: t) = inner t)
    (hshape : ∀ t, Inner t → Shape (b :: t)) : Takes read Shape (b :: s) x r := by
  obtain ⟨t, rfl, ht, hinner⟩ := h
  exact ⟨b :: t, rfl, hshape t ht, fun r' hr' => (hread _).trans (hinner r' hr')⟩

end Takes

variable {negative up seen : Bool} {significand : Nat} {start e : Int} {s r : Bytes} {x : Number}

/-! ### The number itself -/

/-- The number is made of what has been read, and nothing more is taken. -/
theorem real_ok (h : real negative significand e s = .ok (x, r)) :
    s = r ∧ ∀ r', real negative significand e r' = .ok (x, r') := by
  cases hm : (Parley.Number.Magnitude.ofNat? significand).bind fun x => scale x e 5 with
  | none => simp [real, hm] at h
  | some m =>
    simp only [real, hm, Except.ok.injEq, Prod.mk.injEq] at h ⊢
    exact ⟨h.2, fun r' => ⟨h.1, trivial⟩⟩

theorem whole_ok (h : whole negative significand s = .ok (x, r)) :
    s = r ∧ ∀ r', whole negative significand r' = .ok (x, r') := by
  unfold whole at h ⊢
  split_ifs at h ⊢
  · cases h; exact ⟨rfl, fun _ => rfl⟩
  · exact real_ok h
  · cases h; exact ⟨rfl, fun _ => rfl⟩

theorem takes_nil {read : Bytes → Read Number} {Shape : Bytes → Prop} (hshape : Shape [])
    (hend : s = r ∧ ∀ r', Fresh r' → read r' = .ok (x, r')) : Takes read Shape s x r :=
  ⟨[], hend.1, hshape, hend.2⟩

/-! ### The exponent -/

def NoDigit (s : Bytes) : Prop := ∀ b ∈ s.head?, isDigit b = false

theorem Fresh.noDigit (h : Fresh r) : NoDigit r := by
  cases r with
  | nil => nofun
  | cons b r => rintro _ ⟨⟩; exact h.head.1

theorem skipDigits_append {ds u : Bytes} (hds : Digits ds) (hu : NoDigit u) : skipDigits (ds ++ u) = u := by
  induction ds with
  | nil =>
    cases u with
    | nil => rfl
    | cons b u => rw [List.nil_append, skipDigits, hu b rfl]; rfl
  | cons b ds ih =>
    rw [List.cons_append, skipDigits, if_pos (hds.head)]
    exact ih hds.tail

theorem exists_skipDigits (s : Bytes) : ∃ ds, s = ds ++ skipDigits s ∧ Digits ds := by
  induction s with
  | nil => exact ⟨[], rfl, digits_nil⟩
  | cons b s ih =>
    obtain ⟨ds, hs, hds⟩ := ih
    by_cases hb : isDigit b = true
    · exact ⟨b :: ds, by rw [skipDigits, if_pos hb, List.cons_append, ← hs], hds.cons hb⟩
    · exact ⟨[], by rw [skipDigits, if_neg hb, List.nil_append], digits_nil⟩

theorem takes_exponentDigits {n : Nat} (h : exponentDigits negative significand start up n s = .ok (x, r)) :
    Takes (exponentDigits negative significand start up n) Digits s x r := by
  have hfresh : ∀ n r', Fresh r' → exponentDigits negative significand start up n r' =
      real negative significand (if up then start + n else start - n) r' := by
    intro n r' hr'
    cases r' with
    | nil => rfl
    | cons b r' => rw [exponentDigits, hr'.head.1]; rfl
  induction s generalizing n with
  | nil =>
    obtain ⟨hs, hread⟩ := real_ok h
    exact takes_nil digits_nil ⟨hs, fun r' hr' => (hfresh n r' hr').trans (hread r')⟩
  | cons b s ih =>
    by_cases hb : isDigit b = true
    · by_cases hlarge : maxExponent < n * 10 + digit b
      · -- an exponent beyond all numbers: the digits that remain are passed over
        rw [exponentDigits, if_pos hb, if_pos hlarge] at h
        split_ifs at h with hzero
        cases h
        obtain ⟨ds, hs, hds⟩ := exists_skipDigits s
        refine ⟨b :: ds, by rw [List.cons_append, ← hs], hds.cons hb, fun r' hr' => ?_⟩
        rw [List.cons_append, exponentDigits, if_pos hb, if_pos hlarge, if_neg hzero, skipDigits_append hds hr'.noDigit]
      · rw [exponentDigits, if_pos hb, if_neg hlarge] at h
        refine (ih h).cons (fun t => ?_) fun t ht => ht.cons hb
        rw [exponentDigits, if_pos hb, if_neg hlarge]
    · rw [exponentDigits, if_neg hb] at h
      obtain ⟨hs, hread⟩ := real_ok h
      exact takes_nil digits_nil ⟨hs, fun r' hr' => (hfresh n r' hr').trans (hread r')⟩

theorem takes_power {sign : Bytes} (hsign : sign = [] ∨ sign = [0x2B] ∨ sign = [0x2D])
    (hread : ∀ b t, isDigit b = true → exponent negative significand start (sign ++ b :: t) =
      exponentDigits negative significand start up (digit b) t)
    {b : UInt8} (hb : isDigit b = true) (h : exponentDigits negative significand start up (digit b) s = .ok (x, r)) :
    Takes (exponent negative significand start) Power (sign ++ b :: s) x r := by
  obtain ⟨t, rfl, ht, hdigits⟩ := takes_exponentDigits h
  refine ⟨sign ++ b :: t, by simp, ⟨sign, b :: t, rfl, hsign, ht.cons hb, List.cons_ne_nil _ _⟩, fun r' hr' => ?_⟩
  rw [List.append_assoc, List.cons_append, hread b _ hb, hdigits r' hr']

theorem takes_signed {g : UInt8} (hg : g = 0x2B ∧ up = true ∨ g = 0x2D ∧ up = false)
    (h : exponent negative significand start (g :: s) = .ok (x, r)) :
    Takes (exponent negative significand start) Power (g :: s) x r := by
  have hsign : [g] = [] ∨ [g] = [0x2B] ∨ [g] = [0x2D] := by
    rcases hg with ⟨rfl, -⟩ | ⟨rfl, -⟩
    · exact .inr (.inl rfl)
    · exact .inr (.inr rfl)
  have hread : ∀ b t, isDigit b = true → exponent negative significand start ([g] ++ b :: t) =
      exponentDigits negative significand start up (digit b) t := by
    intro b t hb
    rcases hg with ⟨rfl, rfl⟩ | ⟨rfl, rfl⟩ <;> simp [exponent, hb]
  cases s with
  | nil => rcases hg with ⟨rfl, -⟩ | ⟨rfl, -⟩ <;> cases h
  | cons d s =>
    by_cases hd : isDigit d = true
    · exact takes_power hsign hread hd ((hread d s hd).symm.trans h)
    · rcases hg with ⟨rfl, -⟩ | ⟨rfl, -⟩ <;> simp [exponent, hd] at h

theorem takes_exponent (h : exponent negative significand start s = .ok (x, r)) :
    Takes (exponent negative significand start) Power s x r := by
  cases s with
  | nil => cases h
  | cons b s =>
    by_cases hplus : b = 0x2B
    · exact takes_signed (.inl ⟨hplus, rfl⟩) h
    by_cases hminus : b = 0x2D
    · exact takes_signed (.inr ⟨hminus, rfl⟩) h
    by_cases hb : isDigit b = true
    · have hread : ∀ b t, isDigit b = true → exponent negative significand start ([] ++ b :: t) =
          exponentDigits negative significand start true (digit b) t := by
        intro b t hb
        have hsign : b ≠ 0x2B ∧ b ≠ 0x2D := ⟨(by rintro rfl; cases hb), (by rintro rfl; cases hb)⟩
        simp [exponent, hsign, hb]
      exact takes_power (.inl rfl) hread hb ((hread b s hb).symm.trans h)
    · simp [exponent, hplus, hminus, hb] at h

/-! ### The fraction -/

theorem afterFraction_fresh (hr : Fresh r) :
    afterFraction negative significand e r = real negative significand e r := by
  cases r with
  | nil => rfl
  | cons b r => rw [afterFraction, hr.head.2.2]; rfl

theorem takes_afterFraction (h : afterFraction negative significand e s = .ok (x, r)) :
    Takes (afterFraction negative significand e) Exponent s x r := by
  have hstop : real negative significand e s = .ok (x, r) →
      Takes (afterFraction negative significand e) Exponent s x r := by
    intro h
    obtain ⟨hs, hread⟩ := real_ok h
    exact takes_nil (.inl rfl) ⟨hs, fun r' hr' => (afterFraction_fresh hr').trans (hread r')⟩
  cases s with
  | nil => exact hstop h
  | cons b s =>
    by_cases hmark : isExponentMark b = true
    · rw [afterFraction, if_pos hmark] at h
      refine (takes_exponent h).cons (fun t => ?_) fun t ht => .inr ⟨b, t, rfl, hmark, ht⟩
      rw [afterFraction, if_pos hmark]
    · rw [afterFraction, if_neg hmark] at h
      exact hstop h

/-- What may follow the point, some digits having been read or none. -/
def FractionRest (seen : Bool) (s : Bytes) : Prop :=
  ∃ ds e, s = ds ++ e ∧ Digits ds ∧ (seen = false → ds ≠ []) ∧ Exponent e

theorem FractionRest.cons {b : UInt8} {t : Bytes} (hb : isDigit b = true) (h : FractionRest true t) :
    FractionRest seen (b :: t) := by
  obtain ⟨ds, e, rfl, hds, -, he⟩ := h
  exact ⟨b :: ds, e, rfl, hds.cons hb, fun _ => List.cons_ne_nil _ _, he⟩

theorem not_isDigit_of_mark {b : UInt8} (h : isExponentMark b = true) : isDigit b = false ∧ (b == 0x2E) = false := by
  simp only [isExponentMark, Bool.or_eq_true, beq_iff_eq] at h
  rcases h with rfl | rfl <;> exact ⟨rfl, rfl⟩

theorem noDigit_append {t : Bytes} (ht : Exponent t) (hr : Fresh r) : NoDigit (t ++ r) := by
  rcases ht with rfl | ⟨mark, t, rfl, hmark, -⟩
  · exact hr.noDigit
  · rintro _ ⟨⟩
    exact (not_isDigit_of_mark hmark).1

theorem takes_fractionDigits (h : fractionDigits negative significand e seen s = .ok (x, r)) :
    Takes (fractionDigits negative significand e seen) (FractionRest seen) s x r := by
  -- behind the digits nothing is left but an exponent
  have hstop : ∀ {significand : Nat} {e : Int} {s : Bytes}, afterFraction negative significand e s = .ok (x, r) →
      Takes (fractionDigits negative significand e true) (FractionRest true) s x r := by
    intro significand e s h
    obtain ⟨t, rfl, ht, hread⟩ := takes_afterFraction h
    refine ⟨t, rfl, ⟨[], t, rfl, digits_nil, nofun, ht⟩, fun r' hr' => ?_⟩
    rw [← hread r' hr']
    have hhead := noDigit_append ht hr'
    cases htr : t ++ r' with
    | nil => rfl
    | cons b u => rw [fractionDigits, hhead b (by rw [htr]; rfl)]; rfl
  induction s generalizing significand e seen with
  | nil =>
    cases seen with
    | false => cases h
    | true => exact hstop h
  | cons b s ih =>
    by_cases hb : isDigit b = true
    · by_cases hlarge : maxSignificand < significand * 10 + digit b
      · -- digits for which there is no room are passed over
        rw [fractionDigits, if_pos hb, if_pos hlarge] at h
        obtain ⟨ds, hs, hds⟩ := exists_skipDigits s
        obtain ⟨t, ht, hshape, hread⟩ := takes_afterFraction h
        refine ⟨b :: (ds ++ t), ?_, ⟨b :: ds, t, rfl, hds.cons hb, fun _ => List.cons_ne_nil _ _, hshape⟩,
          fun r' hr' => ?_⟩
        · rw [List.cons_append, List.append_assoc, ← ht, ← hs]
        · rw [List.cons_append, fractionDigits, if_pos hb, if_pos hlarge, List.append_assoc,
            skipDigits_append hds (noDigit_append hshape hr'), hread r' hr']
      · rw [fractionDigits, if_pos hb, if_neg hlarge] at h
        refine (ih h).cons (fun t => ?_) fun t ht => ht.cons hb
        rw [fractionDigits, if_pos hb, if_neg hlarge]
    · cases seen with
      | false => rw [fractionDigits, if_neg hb] at h; cases h
      | true =>
        rw [fractionDigits, if_neg hb] at h
        exact hstop h

/-! ### The digits before the point -/

/-- What may follow the first digit of a number. -/
def IntegerRest (s : Bytes) : Prop := ∃ ds f e, s = ds ++ f ++ e ∧ Digits ds ∧ Fraction f ∧ Exponent e

theorem IntegerRest.cons {b : UInt8} {t : Bytes} (hb : isDigit b = true) (h : IntegerRest t) :
    IntegerRest (b :: t) := by
  obtain ⟨ds, f, e, rfl, hds, hf, he⟩ := h
  exact ⟨b :: ds, f, e, rfl, hds.cons hb, hf, he⟩

theorem integerRest_nil : IntegerRest [] := ⟨[], [], [], rfl, digits_nil, .inl rfl, .inl rfl⟩

theorem integerRest_point {t : Bytes} (h : FractionRest false t) : IntegerRest (0x2E :: t) := by
  obtain ⟨ds, e, rfl, hds, hne, he⟩ := h
  exact ⟨[], 0x2E :: ds, e, rfl, digits_nil, .inr ⟨ds, rfl, hds, hne rfl⟩, he⟩

theorem integerRest_mark {b : UInt8} {t : Bytes} (hb : isExponentMark b = true) (h : Power t) : IntegerRest (b :: t) :=
  ⟨[], [], b :: t, rfl, digits_nil, .inl rfl, .inr ⟨b, t, rfl, hb, h⟩⟩

/-- What stands behind the digits: a point, an exponent, or the end. -/
theorem takes_afterDigits {read : Bytes → Read Number} {finish : Bytes → Read Number}
    (hfinish : finish s = .ok (x, r) → s = r ∧ ∀ r', finish r' = .ok (x, r'))
    (hnil : read [] = finish [])
    (hread : ∀ b t, isDigit b = false → read (b :: t) =
      if b == 0x2E then fractionDigits negative significand e false t
      else if isExponentMark b then exponent negative significand e t
      else finish (b :: t))
    (hs : NoDigit s) (h : read s = .ok (x, r)) : Takes read IntegerRest s x r := by
  have hfresh : ∀ r', Fresh r' → read r' = finish r' := by
    intro r' hr'
    cases r' with
    | nil => exact hnil
    | cons b r' => rw [hread b r' hr'.head.1, hr'.head.2.1, hr'.head.2.2]; rfl
  have hstop : finish s = .ok (x, r) → Takes read IntegerRest s x r := by
    intro h
    obtain ⟨hs, hend⟩ := hfinish h
    exact takes_nil integerRest_nil ⟨hs, fun r' hr' => (hfresh r' hr').trans (hend r')⟩
  cases s with
  | nil => exact hstop (hnil ▸ h)
  | cons b s =>
    have hb : isDigit b = false := hs b rfl
    rw [hread b s hb] at h
    by_cases hpoint : b = 0x2E
    · subst hpoint
      rw [if_pos (by decide)] at h
      exact (takes_fractionDigits h).cons (fun t => by rw [hread _ t hb, if_pos (by decide)]) fun t => integerRest_point
    · have hpoint' : ¬ (b == 0x2E) = true := by simpa using hpoint
      rw [if_neg hpoint'] at h
      by_cases hmark : isExponentMark b = true
      · rw [if_pos hmark] at h
        exact (takes_exponent h).cons (fun t => by rw [hread _ t hb, if_neg hpoint', if_pos hmark]) fun t =>
          integerRest_mark hmark
      · rw [if_neg hmark] at h
        exact hstop h

theorem takes_longDigits {n : Nat} (h : longDigits negative significand n s = .ok (x, r)) :
    Takes (longDigits negative significand n) IntegerRest s x r := by
  induction s generalizing n with
  | nil => exact takes_afterDigits real_ok rfl (fun b t hb => by rw [longDigits, hb]; rfl) nofun h
  | cons b s ih =>
    by_cases hb : isDigit b = true
    · rw [longDigits, if_pos hb] at h
      exact (ih h).cons (fun t => by rw [longDigits, if_pos hb]) fun t ht => ht.cons hb
    · have hs : NoDigit (b :: s) := by rintro _ ⟨⟩; simpa using hb
      exact takes_afterDigits real_ok rfl (fun b t hb => by rw [longDigits, hb]; rfl) hs h

theorem takes_integerDigits (h : integerDigits negative significand s = .ok (x, r)) :
    Takes (integerDigits negative significand) IntegerRest s x r := by
  induction s generalizing significand with
  | nil => exact takes_afterDigits whole_ok rfl (fun b t hb => by rw [integerDigits, hb]; rfl) nofun h
  | cons b s ih =>
    by_cases hb : isDigit b = true
    · by_cases hlarge : maxSignificand < significand * 10 + digit b
      · rw [integerDigits, if_pos hb, if_pos hlarge] at h
        exact (takes_longDigits h).cons (fun t => by rw [integerDigits, if_pos hb, if_pos hlarge]) fun t ht =>
          ht.cons hb
      · rw [integerDigits, if_pos hb, if_neg hlarge] at h
        exact (ih h).cons (fun t => by rw [integerDigits, if_pos hb, if_neg hlarge]) fun t ht => ht.cons hb
    · have hs : NoDigit (b :: s) := by rintro _ ⟨⟩; simpa using hb
      exact takes_afterDigits whole_ok rfl (fun b t hb => by rw [integerDigits, hb]; rfl) hs h

/-! ### A number -/

theorem number_digit {b : UInt8} (hb : isDigit b = true) (hzero : b ≠ 0x30) (s : Bytes) :
    number negative (b :: s) = integerDigits negative (digit b) s := by
  rw [number.eq_def]
  simp [hb, hzero]

theorem number_zero (hs : NoDigit s) : number negative (0x30 :: s) = integerDigits negative 0 s := by
  cases s with
  | nil => rfl
  | cons b s =>
    rw [number.eq_def]
    simp [hs b rfl]

theorem unsigned_of_rest {b : UInt8} {t : Bytes} (hb : isDigit b = true) (hzero : b ≠ 0x30) (h : IntegerRest t) :
    Unsigned (b :: t) := by
  obtain ⟨ds, f, e, rfl, hds, hf, he⟩ := h
  exact ⟨b :: ds, f, e, rfl, ⟨hds.cons hb, List.cons_ne_nil _ _, fun h => absurd (Option.some.inj h) hzero⟩, hf, he⟩

/-- What follows a zero begins with no digit, whatever else comes behind it. -/
theorem IntegerRest.noDigit {t : Bytes} (h : IntegerRest t) (hs : NoDigit (t ++ r)) :
    Unsigned (0x30 :: t) ∧ ∀ r', Fresh r' → NoDigit (t ++ r') := by
  obtain ⟨ds, f, e, rfl, hds, hf, he⟩ := h
  cases ds with
  | cons b ds => exact absurd (hds.head) (by rw [hs b rfl]; exact Bool.false_ne_true)
  | nil =>
    refine ⟨⟨[0x30], f, e, rfl, ⟨digits_nil.cons rfl, List.cons_ne_nil _ _, fun _ => rfl⟩, hf, he⟩, fun r' hr' => ?_⟩
    rcases hf with rfl | ⟨ds, rfl, -, -⟩
    · exact noDigit_append he hr'
    · rintro _ ⟨⟩; rfl

/-- **A number is taken as far as it goes.** -/
theorem takes_number (h : number negative s = .ok (x, r)) : Takes (number negative) Unsigned s x r := by
  cases s with
  | nil => cases h
  | cons b s =>
    by_cases hb : isDigit b = true
    · by_cases hzero : b = 0x30
      · subst hzero
        have hs : NoDigit s := by
          cases s with
          | nil => nofun
          | cons c s =>
            rintro _ ⟨⟩
            cases hc : isDigit c with
            | false => rfl
            | true => rw [number.eq_def] at h; simp [hc] at h
        rw [number_zero hs] at h
        obtain ⟨t, rfl, ht, hread⟩ := takes_integerDigits h
        obtain ⟨hshape, hnext⟩ := ht.noDigit hs
        exact ⟨0x30 :: t, rfl, hshape, fun r' hr' => (number_zero (hnext r' hr')).trans (hread r' hr')⟩
      · rw [number_digit hb hzero] at h
        exact (takes_integerDigits h).cons (fun t => number_digit hb hzero t) fun t => unsigned_of_rest hb hzero
    · have hzero : b ≠ 0x30 := by rintro rfl; exact hb rfl
      rw [number.eq_def] at h
      simp [hb, hzero] at h

/-! ### Which number is read -/

def outcome : Option Number → Read Number
  | some x => .ok (x, [])
  | none => .error .malformed

theorem outcome_eq_ok {o : Option Number} : outcome o = .ok (x, []) ↔ o = some x := by
  cases o <;> simp [outcome]

theorem real_nil : real negative significand e [] = outcome (scaled negative significand e) := by
  unfold real scaled
  cases (Parley.Number.Magnitude.ofNat? significand).bind fun x => scale x e 5 <;> rfl

theorem whole_nil : whole negative significand [] = outcome (signed negative significand) := by
  unfold whole signed
  split_ifs
  · rfl
  · exact real_nil
  · rfl

theorem skipDigits_digits {ds : Bytes} (h : Digits ds) : skipDigits ds = [] := by
  simpa using skipDigits_append h fresh_nil.noDigit

theorem digitsValue_cons (n : Nat) (b : UInt8) (ds : Bytes) :
    digitsValue n (b :: ds) = digitsValue (n * 10 + digit b) ds :=
  List.foldl_cons ..

theorem le_digitsValue (n : Nat) (ds : Bytes) : n ≤ digitsValue n ds := by
  induction ds generalizing n with
  | nil => exact Nat.le_refl n
  | cons b ds ih =>
    have hstep : n ≤ n * 10 + digit b := by omega
    exact Nat.le_trans hstep (ih (n * 10 + digit b))

theorem exponentDigits_eq {n : Nat} {ds : Bytes} (hds : Digits ds) (hn : n ≤ maxExponent) :
    exponentDigits negative significand start up n ds =
      outcome (powered negative significand start up (digitsValue n ds)) := by
  induction ds generalizing n with
  | nil => rw [exponentDigits, powered, digitsValue, List.foldl_nil, if_neg (Nat.not_lt.mpr hn), real_nil]
  | cons b ds ih =>
    rw [exponentDigits, if_pos hds.head, digitsValue_cons]
    by_cases hlarge : maxExponent < n * 10 + digit b
    · -- the digits that remain make it only larger
      rw [if_pos hlarge, powered, if_pos (Nat.lt_of_lt_of_le hlarge (le_digitsValue _ ds)), skipDigits_digits hds.tail]
      split <;> rfl
    · rw [if_neg hlarge]
      exact ih hds.tail (Nat.not_lt.mp hlarge)

theorem exponent_eq {t : Bytes} (ht : Power t) : exponent negative significand start t =
    outcome (powered negative significand start (t.head? != some 0x2D) (digitsValue 0 (t.filter isDigit))) := by
  obtain ⟨sign, ds, rfl, hsign, hds, hne⟩ := ht
  cases ds with
  | nil => exact absurd rfl hne
  | cons b ds =>
    have hsmall : digit b ≤ maxExponent :=
      Nat.le_trans (Nat.sub_le _ _) (Nat.le_of_lt (Nat.lt_trans b.toNat_lt (by decide)))
    have hvalue : digitsValue 0 ((b :: ds).filter isDigit) = digitsValue (digit b) ds := by
      rw [hds.filter, digitsValue_cons, Nat.zero_mul, Nat.zero_add]
    have hb := hds.head
    rcases hsign with rfl | rfl | rfl
    · have hplus : b ≠ 0x2B := by rintro rfl; cases hb
      have hminus : b ≠ 0x2D := by rintro rfl; cases hb
      rw [List.nil_append, hvalue, show ((b :: ds).head? != some 0x2D) =
        true by simpa using hminus, ← exponentDigits_eq hds.tail hsmall]
      simp [exponent, hplus, hminus, hb]
    · rw [show List.filter isDigit ([0x2B] ++ b :: ds) = List.filter isDigit (b :: ds) from rfl, hvalue]
      exact Eq.trans (by simp [exponent, hb]; rfl) (exponentDigits_eq hds.tail hsmall)
    · rw [show List.filter isDigit ([0x2D] ++ b :: ds) = List.filter isDigit (b :: ds) from rfl, hvalue]
      exact Eq.trans (by simp [exponent, hb]) (exponentDigits_eq hds.tail hsmall)

theorem afterFraction_eq {t : Bytes} (ht : Exponent t) :
    afterFraction negative significand e t = outcome (raised negative significand e t) := by
  rcases ht with rfl | ⟨mark, t, rfl, hmark, hpower⟩
  · exact real_nil
  · rw [afterFraction, if_pos hmark]
    exact exponent_eq hpower

theorem fractionDigits_eq {ds t : Bytes} (hds : Digits ds) (ht : Exponent t) (hseen : seen = false → ds ≠ []) :
    fractionDigits negative significand e seen (ds ++ t) =
      outcome (raised negative (absorb significand ds).1 (e - (ds.length - (absorb significand ds).2.length)) t) := by
  have hhead : NoDigit t := by simpa using noDigit_append ht fresh_nil
  induction ds generalizing significand e seen with
  | nil =>
    obtain rfl : seen = true := by cases seen with
      | true => rfl
      | false => exact absurd rfl (hseen rfl)
    have hend : fractionDigits negative significand e true t = afterFraction negative significand e t := by
      cases t with
      | nil => rfl
      | cons b t => rw [fractionDigits, hhead b rfl]; rfl
    simpa [absorb] using hend.trans (afterFraction_eq ht)
  | cons b ds ih =>
    rw [List.cons_append, fractionDigits, if_pos hds.head, absorb]
    by_cases hlarge : maxSignificand < significand * 10 + digit b
    · rw [if_pos hlarge, if_pos hlarge, skipDigits_append hds.tail hhead, afterFraction_eq ht, Int.sub_self,
        Int.sub_zero]
    · rw [if_neg hlarge, if_neg hlarge, ih hds.tail (fun h : true = false => nomatch h), List.length_cons]
      congr 2
      omega

theorem continues {read : Bytes → Read Number} {f t : Bytes}
    (hpoint : ∀ s, read (0x2E :: s) = fractionDigits negative significand e false s)
    (hmark : ∀ b s, isExponentMark b = true → read (b :: s) = exponent negative significand e s)
    (hf : Fraction f) (ht : Exponent t) (hne : f ≠ [] ∨ t ≠ []) :
    read (f ++ t) = outcome (continued negative significand e f t) := by
  rcases hf with rfl | ⟨ds, rfl, hds, hsome⟩
  · rcases ht with rfl | ⟨mark, t, rfl, hm, hpower⟩
    · simp at hne
    · rw [List.nil_append, hmark mark t hm, exponent_eq hpower]
      simp [continued, absorb, raised]
  · rw [List.cons_append, hpoint, fractionDigits_eq hds ht fun _ => hsome, continued,
      show (0x2E :: ds).filter isDigit = ds.filter isDigit from rfl, hds.filter]

theorem longDigits_eq {n : Nat} {ds f t : Bytes} (hds : Digits ds) (hf : Fraction f) (ht : Exponent t) :
    longDigits negative significand n (ds ++ (f ++ t)) =
      outcome (continued negative significand (n + ds.length : Nat) f t) := by
  induction ds generalizing n with
  | nil =>
    by_cases hne : f ≠ [] ∨ t ≠ []
    · exact continues (fun s => rfl) (fun b s hb => by simp [longDigits, not_isDigit_of_mark hb, hb]) hf ht hne
    · obtain ⟨rfl, rfl⟩ : f = [] ∧ t = [] := by simpa using hne
      simpa [longDigits, continued, absorb, raised] using real_nil
  | cons b ds ih =>
    rw [List.cons_append, longDigits, if_pos hds.head, ih hds.tail, List.length_cons, Nat.add_right_comm, Nat.add_assoc]

/-- A digit before the point for which there is room. -/
theorem evaluate_cons {n : Nat} {b : UInt8} {ds f t : Bytes} (h : n * 10 + digit b ≤ maxSignificand) :
    evaluate negative n (b :: ds) f t = evaluate negative (n * 10 + digit b) ds f t := by
  rw [evaluate, absorb, if_neg (Nat.not_lt.mpr h), evaluate]

theorem integerDigits_eq {n : Nat} {ds f t : Bytes} (hds : Digits ds) (hf : Fraction f) (ht : Exponent t) :
    integerDigits negative n (ds ++ (f ++ t)) = outcome (evaluate negative n ds f t) := by
  induction ds generalizing n with
  | nil =>
    by_cases hne : f ≠ [] ∨ t ≠ []
    · have hnot : ¬ (f = [] ∧ t = []) := by exact fun ⟨hf, ht⟩ => hne.elim (absurd hf) (absurd ht)
      rw [evaluate, absorb]
      simp only [true_and, if_neg hnot]
      exact continues (fun s => rfl) (fun b s hb => by simp [integerDigits, not_isDigit_of_mark hb, hb]) hf ht hne
    · obtain ⟨rfl, rfl⟩ : f = [] ∧ t = [] := by simpa using hne
      exact whole_nil
  | cons b ds ih =>
    rw [List.cons_append, integerDigits, if_pos hds.head]
    by_cases hlarge : maxSignificand < n * 10 + digit b
    · rw [if_pos hlarge, longDigits_eq hds.tail hf ht, evaluate, absorb, if_pos hlarge, Nat.add_comm]
      simp
    · rw [if_neg hlarge, ih hds.tail, evaluate_cons (Nat.not_lt.mp hlarge)]

/-- **The number of a numeral is read from it.** -/
theorem number_eq {w f t : Bytes} (hw : Whole w) (hf : Fraction f) (ht : Exponent t) :
    number negative (w ++ f ++ t) = outcome (evaluate negative 0 w f t) := by
  obtain ⟨hdigits, hne, hzero⟩ := hw
  have hhead : NoDigit (f ++ t) := by
    rcases hf with rfl | ⟨ds, rfl, -, -⟩
    · simpa using noDigit_append ht fresh_nil
    · rintro _ ⟨⟩; rfl
  cases w with
  | nil => exact absurd rfl hne
  | cons b ds =>
    have hsmall : 0 * 10 + digit b ≤ maxSignificand := by
      rw [Nat.zero_mul, Nat.zero_add]
      exact Nat.le_trans (Nat.sub_le _ _) (Nat.le_of_lt (Nat.lt_trans b.toNat_lt (by decide)))
    rw [evaluate_cons hsmall, Nat.zero_mul, Nat.zero_add, ← integerDigits_eq hdigits.tail hf ht, List.append_assoc]
    by_cases hb : b = 0x30
    · subst hb
      obtain rfl : ds = [] := (List.cons.inj (hzero rfl)).2
      exact number_zero hhead
    · exact number_digit hdigits.head hb _

/-- A numeral as the reader takes it: without a sign, or behind one. -/
theorem numeral_iff {s : Bytes} : Numeral x s ↔ (Unsigned s ∧ number false s = .ok (x, [])) ∨
    ∃ t, s = 0x2D :: t ∧ Unsigned t ∧ number true t = .ok (x, []) := by
  constructor
  · rintro ⟨negative, w, f, e, rfl, hw, hf, he, hvalue⟩
    have hread := (number_eq hw hf he).trans (outcome_eq_ok.mpr hvalue)
    cases negative with
    | false => exact .inl ⟨⟨w, f, e, rfl, hw, hf, he⟩, hread⟩
    | true => exact .inr ⟨_, rfl, ⟨w, f, e, rfl, hw, hf, he⟩, hread⟩
  · rintro (⟨⟨w, f, e, rfl, hw, hf, he⟩, hread⟩ | ⟨t, rfl, ⟨w, f, e, rfl, hw, hf, he⟩, hread⟩)
    · exact ⟨false, w, f, e, rfl, hw, hf, he, outcome_eq_ok.mp ((number_eq hw hf he).symm.trans hread)⟩
    · exact ⟨true, w, f, e, rfl, hw, hf, he, outcome_eq_ok.mp ((number_eq hw hf he).symm.trans hread)⟩

end Reader

end Parley.Json
