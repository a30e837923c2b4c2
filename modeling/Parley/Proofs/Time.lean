import Mathlib.Algebra.Group.Nat.Defs
import Mathlib.Tactic.SplitIfs
import Parley.Time.Timestamp

/-!
# The text of a time

A time can be told from its text: the date is read off the days, hours, minutes and seconds have two digits each,
and the fraction ends with a letter. So different times have different texts: `text_inj`.
-/

namespace Parley.Timestamp

/-! ### Runs of digits -/

def AllDigits (cs : List Char) : Prop := ∀ c ∈ cs, c.isDigit = true

theorem run_inj {a b u v : List Char} {c d : Char} (ha : AllDigits a) (hb : AllDigits b) (hc : c.isDigit = false)
    (hd : d.isDigit = false) (h : a ++ c :: u = b ++ d :: v) : a = b ∧ c = d ∧ u = v := by
  induction a generalizing b with
  | nil =>
    cases b with
    | nil => exact ⟨rfl, List.cons.inj h⟩
    | cons x b =>
      obtain rfl := (List.cons.inj h).1
      rw [hb c List.mem_cons_self] at hc
      cases hc
  | cons x a ih =>
    cases b with
    | nil =>
      obtain rfl := (List.cons.inj h).1
      rw [ha x List.mem_cons_self] at hd
      cases hd
    | cons y b =>
      obtain ⟨rfl, hrest⟩ := List.cons.inj h
      obtain ⟨rfl, hcd⟩ := ih (fun z hz => ha z (List.mem_cons_of_mem _ hz))
          (fun z hz => hb z (List.mem_cons_of_mem _ hz)) hrest
      exact ⟨rfl, hcd⟩

theorem toList_padded (w n : Nat) :
    (padded w n).toList = List.replicate (w - n.repr.length) '0' ++ Nat.toDigits 10 n := by
  simp [padded]

theorem allDigits_padded (w n : Nat) : AllDigits (padded w n).toList := by
  intro c hc
  rw [toList_padded, List.mem_append] at hc
  rcases hc with hc | hc
  · rw [List.eq_of_mem_replicate hc]
    rfl
  · exact Nat.isDigit_of_mem_toDigits (by decide) (by decide) hc

theorem padded_ne_nil (w n : Nat) : (padded w n).toList ≠ [] := by
  rw [toList_padded]
  exact List.append_ne_nil_of_right_ne_nil _ Nat.toDigits_ne_nil

/-- Zeros in front do not change a number. -/
theorem padded_value (w n : Nat) : Nat.ofDigitChars 10 (padded w n).toList 0 = n := by
  rw [toList_padded, Nat.ofDigitChars_append, Nat.ofDigitChars_replicate_zero, Nat.mul_zero,
    Nat.ofDigitChars_ten_toDigits]

theorem length_padded {w n : Nat} (hw : 0 < w) (hn : n < 10 ^ w) : (padded w n).toList.length = w := by
  have hlen := (Nat.length_repr_le_iff hw).mpr hn
  have hdigits : (Nat.toDigits 10 n).length = n.repr.length := by simp [Nat.repr_eq_ofList_toDigits]
  rw [toList_padded, List.length_append, List.length_replicate, hdigits]
  omega

/-- A number in digits can be told, with what follows it. -/
theorem padded_inj {w w' n m : Nat} {u v : List Char} {c d : Char} (hc : c.isDigit = false) (hd : d.isDigit = false)
    (h : (padded w n).toList ++ c :: u = (padded w' m).toList ++ d :: v) : n = m ∧ c = d ∧ u = v := by
  obtain ⟨hrun, hrest⟩ := run_inj (allDigits_padded w n) (allDigits_padded w' m) hc hd h
  have hvalue := congrArg (Nat.ofDigitChars 10 · 0) hrun
  simp only [padded_value] at hvalue
  exact ⟨hvalue, hrest⟩

/-! ### The date -/

theorem yearOfDay_spec {doe : Nat} (h : doe < 146097) :
    yearStart (yearOfDay doe) ≤ doe ∧ doe ≤ yearStart (yearOfDay doe) + 365 ∧ yearOfDay doe < 400 := by
  by_cases hlast : doe = 146096
  · subst hlast
    decide
  -- the years of a century are counted on their own
  obtain ⟨c, r, hc, hr, rfl⟩ : ∃ c r, c ≤ 3 ∧ r < 36524 ∧ doe = 36524 * c + r :=
    ⟨doe / 36524, doe % 36524, by omega, by omega, by omega⟩
  have hyear : yearOfDay (36524 * c + r) = 100 * c + (r - (24 * c + r) / 1460) / 365 := by
    unfold yearOfDay
    omega
  have hcentury : ∀ q, q = (r - (24 * c + r) / 1460) / 365 → 365 * q + q / 4 ≤ r ∧ r ≤ 365 * q + q / 4 + 365 ∧
      q < 100 := by
    intro q hq
    omega
  obtain ⟨hlow, hhigh, hq⟩ := hcentury _ rfl
  have hstart : ∀ q < 100, yearStart (100 * c + q) = 36524 * c + (365 * q + q / 4) := by
    intro q hq
    unfold yearStart
    omega
  rw [hyear, hstart _ hq]
  omega

/-- A day of a year that begins in March can be told from its month and its day. -/
theorem dayOfYear_inj {doy doy' m m' : Nat} (hdoy : doy ≤ 365) (hdoy' : doy' ≤ 365) (hm : m = (5 * doy + 2) / 153)
    (hm' : m' = (5 * doy' + 2) / 153) (hmonth : (if m < 10 then m + 3 else m - 9) = if m' < 10 then m' + 3 else m' - 9)
    (hday : doy - (153 * m + 2) / 5 + 1 = doy' - (153 * m' + 2) / 5 + 1) : doy = doy' := by
  obtain rfl : m = m' := by
    split at hmonth <;> split at hmonth <;> omega
  omega

theorem dateOfDays_inj {a b : Int} (h : dateOfDays a = dateOfDays b) : a = b := by
  have hdoe : ∀ z : Int, (z % 146097).toNat < 146097 := by omega
  obtain ⟨hlow, hhigh, hyoe⟩ := yearOfDay_spec (hdoe (a + 719468))
  obtain ⟨hlow', hhigh', hyoe'⟩ := yearOfDay_spec (hdoe (b + 719468))
  obtain ⟨hyear, hmonth, hday⟩ := Date.mk.inj h
  have hdoy := dayOfYear_inj (by omega) (by omega) rfl rfl hmonth hday
  rw [hmonth] at hyear
  -- the month being the same, it is the same year of the same era
  have hyears : (yearOfDay ((a + 719468) % 146097).toNat : Int) + (a + 719468) / 146097 * 400 =
      yearOfDay ((b + 719468) % 146097).toNat + (b + 719468) / 146097 * 400 :=
    (Int.add_left_inj _).mp hyear
  obtain ⟨hera, hyoes⟩ : (a + 719468) / 146097 = (b + 719468) / 146097 ∧
      yearOfDay ((a + 719468) % 146097).toNat = yearOfDay ((b + 719468) % 146097).toNat := by omega
  rw [hyoes] at hdoy hlow
  omega

/-! ### The whole text -/

/-- The sign of a year that has not four digits. -/
def yearSign (y : Int) : Option Char := if 0 ≤ y ∧ y ≤ 9999 then none else if y < 0 then some '-' else some '+'

theorem isDigit_yearSign {y : Int} {c : Char} (hc : c ∈ yearSign y) : c.isDigit = false := by
  unfold yearSign at hc
  split_ifs at hc <;> cases hc <;> rfl

theorem toList_yearText (y : Int) : (yearText y).toList = (yearSign y).toList ++ (padded 4 y.natAbs).toList := by
  unfold yearText yearSign
  split_ifs with hy hneg
  · have habs : y.toNat = y.natAbs := by omega
    rw [habs, Option.toList_none, List.nil_append]
  · simp only [String.toList_append, Option.toList_some]
    rfl
  · simp only [String.toList_append, Option.toList_some]
    rfl

theorem sign_inj {a b : Option Char} {w n m : Nat} {u v : List Char} (ha : ∀ c ∈ a, c.isDigit = false)
    (hb : ∀ c ∈ b, c.isDigit = false)
    (h : a.toList ++ ((padded w n).toList ++ u) = b.toList ++ ((padded w m).toList ++ v)) :
    a = b ∧ (padded w n).toList ++ u = (padded w m).toList ++ v := by
  have hne : ∀ {n : Nat} {c : Char} {u v : List Char}, c.isDigit = false → (padded w n).toList ++ u ≠ c :: v := by
    intro n c u v hc h
    cases hp : (padded w n).toList with
    | nil => exact padded_ne_nil w n hp
    | cons d ds =>
      rw [hp] at h
      obtain rfl := (List.cons.inj h).1
      rw [allDigits_padded w n d (hp ▸ List.mem_cons_self)] at hc
      cases hc
  cases a with
  | none =>
    cases b with
    | none => exact ⟨rfl, by simpa only [Option.toList_none, List.nil_append] using h⟩
    | some d =>
      rw [Option.toList_none, Option.toList_some, List.nil_append, List.singleton_append] at h
      exact absurd h (hne (hb d rfl))
  | some c =>
    cases b with
    | none =>
      rw [Option.toList_none, Option.toList_some, List.nil_append, List.singleton_append] at h
      exact absurd h.symm (hne (ha c rfl))
    | some d =>
      simp only [Option.toList_some, List.singleton_append] at h
      obtain ⟨rfl, hrest⟩ := List.cons.inj h
      exact ⟨rfl, hrest⟩

theorem yearText_inj {y z : Int} {u v : List Char}
    (h : (yearText y).toList ++ '-' :: u = (yearText z).toList ++ '-' :: v) :
    y = z ∧ u = v := by
  rw [toList_yearText, toList_yearText, List.append_assoc, List.append_assoc] at h
  obtain ⟨hsign, hdigits⟩ := sign_inj (fun _ => isDigit_yearSign) (fun _ => isDigit_yearSign) h
  obtain ⟨habs, -, huv⟩ := padded_inj rfl rfl hdigits
  refine ⟨?_, huv⟩
  unfold yearSign at hsign
  split_ifs at hsign <;> first | omega | cases hsign

/-- A fraction is nothing, or as many digits as tell it, in units that depend on how many they are. -/
theorem fractionText_cases {micros nanos : Nat} (hmicros : micros < 1000000) (hnanos : nanos < 1000) :
    ((fractionText micros nanos).toList = [] ∧ micros * 1000 + nanos = 0) ∨
    ∃ k x, (fractionText micros nanos).toList = '.' :: (padded k x).toList ∧ 0 < k ∧ x < 10 ^ k ∧
      (k = 3 ∧ micros * 1000 + nanos = x * 1000000 ∨ k = 6 ∧ micros * 1000 + nanos = x * 1000 ∨
        k = 9 ∧ micros * 1000 + nanos = x) := by
  have hpoint : ∀ k x, ("." ++ padded k x).toList = '.' :: (padded k x).toList := fun k x => String.toList_append ..
  unfold fractionText
  split_ifs with hn hz hm
  · exact .inr ⟨9, _, hpoint .., by decide, by omega, by omega⟩
  · exact .inl ⟨rfl, by omega⟩
  · exact .inr ⟨3, _, hpoint .., by decide, by omega, by omega⟩
  · exact .inr ⟨6, _, hpoint .., by decide, by omega, by omega⟩

theorem fractionText_inj {a b m n : Nat} (ha : a < 1000000) (hb : b < 1000000) (hm : m < 1000) (hn : n < 1000)
    (h : (fractionText a m).toList ++ ['Z'] = (fractionText b n).toList ++ ['Z']) : a = b ∧ m = n := by
  suffices a * 1000 + m = b * 1000 + n by omega
  rcases fractionText_cases ha hm with ⟨hs, hzero⟩ | ⟨k, x, hs, hk, hx, hunit⟩ <;>
    rcases fractionText_cases hb hn with ⟨ht, hzero'⟩ | ⟨k', y, ht, hk', hy, hunit'⟩ <;> rw [hs, ht] at h
  · rw [hzero, hzero']
  · exact absurd (List.cons.inj h).1 (by decide)
  · exact absurd (List.cons.inj h).1 (by decide)
  · have hrest := (List.cons.inj h).2
    obtain ⟨hrun, -⟩ := run_inj (allDigits_padded k x) (allDigits_padded k' y) rfl rfl hrest
    obtain ⟨rfl, -⟩ := padded_inj rfl rfl hrest
    obtain rfl : k = k' := by rw [← length_padded hk hx, hrun, length_padded hk' hy]
    omega

theorem fractionText_head {micros nanos : Nat} (hmicros : micros < 1000000) (hnanos : nanos < 1000) :
    ∃ c w, (fractionText micros nanos).toList ++ ['Z'] = c :: w ∧ c.isDigit = false := by
  rcases fractionText_cases hmicros hnanos with ⟨hs, -⟩ | ⟨k, x, hs, -⟩
  · exact ⟨'Z', [], by rw [hs, List.nil_append], rfl⟩
  · exact ⟨'.', _, by rw [hs, List.cons_append], rfl⟩

/-- **Different times have different texts.** -/
theorem text_inj {s t : Timestamp} (h : s.text = t.text) : s = t := by
  have hdash : "-".toList = ['-'] := rfl
  have hT : "T".toList = ['T'] := rfl
  have hcolon : ":".toList = [':'] := rfl
  have hZ : "Z".toList = ['Z'] := rfl
  have hlist := congrArg String.toList h
  simp only [text, String.toList_append, List.append_assoc, hdash, hT, hcolon, hZ, List.cons_append,
    List.nil_append] at hlist
  -- the parts are told one after the other, from the year on
  obtain ⟨hyear, hlist⟩ := yearText_inj hlist
  obtain ⟨hmonth, -, hlist⟩ := padded_inj rfl rfl hlist
  obtain ⟨hday, -, hlist⟩ := padded_inj rfl rfl hlist
  obtain ⟨hhour, -, hlist⟩ := padded_inj rfl rfl hlist
  obtain ⟨hminute, -, hlist⟩ := padded_inj rfl rfl hlist
  have hsub : ∀ n : Nat, n % 1000000 < 1000000 := fun n => Nat.mod_lt _ (by decide)
  obtain ⟨c, u, hu, hc⟩ := fractionText_head (hsub (s.micros % 86400000000).toNat) s.nanos.isLt
  obtain ⟨d, v, hv, hd⟩ := fractionText_head (hsub (t.micros % 86400000000).toNat) t.nanos.isLt
  rw [hu, hv] at hlist
  obtain ⟨hsecond, rfl, rfl⟩ := padded_inj hc hd hlist
  obtain ⟨hmicros, hnanos⟩ := fractionText_inj (hsub _) (hsub _) s.nanos.isLt t.nanos.isLt (hu.trans hv.symm)
  have hdate : dateOfDays (s.micros / 86400000000) = dateOfDays (t.micros / 86400000000) := by
    rw [Date.mk.injEq]
    exact ⟨hyear, hmonth, hday⟩
  have hdays := dateOfDays_inj hdate
  have hofDay : (s.micros % 86400000000).toNat = (t.micros % 86400000000).toNat := by omega
  rw [Timestamp.mk.injEq]
  exact ⟨by omega, Fin.ext hnanos⟩

theorem text_inj_iff {s t : Timestamp} : s.text = t.text ↔ s = t := ⟨text_inj, congrArg text⟩

end Parley.Timestamp
