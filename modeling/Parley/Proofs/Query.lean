import Parley.Http.Query
import Parley.Proofs.Json.Printed

/-!
# What the parts of a query stand for

* `percentDecode_eq_self_iff`: bytes are read as they are exactly if no two digits of base sixteen follow a percent
  sign in them.
* `int64?_toString`: every number of 64 bits can be asked for.
-/

namespace Parley.Http.Query

/-! ### Escapes -/

variable {s : Bytes}

/-- Somewhere two digits of base sixteen follow a percent sign. -/
def Escaped (s : Bytes) : Prop := ∃ a b, [0x25, a, b] <:+: s ∧ (hexValue? a).isSome ∧ (hexValue? b).isSome

theorem length_percentDecode_le (s : Bytes) : (percentDecode s).length ≤ s.length := by
  fun_induction percentDecode s with
  | case1 => exact Nat.le_refl 0
  | case2 a b rest x y hx hy ih =>
    simp only [List.length_cons]
    omega
  | case3 a b rest hno ih => exact Nat.succ_le_succ ih
  | case4 b rest hno ih => exact Nat.succ_le_succ ih

theorem escaped_cons {b : UInt8} : Escaped (b :: s) ↔
    (b = 0x25 ∧ ∃ x y rest, s = x :: y :: rest ∧ (hexValue? x).isSome ∧ (hexValue? y).isSome) ∨ Escaped s := by
  unfold Escaped
  constructor
  · rintro ⟨x, y, hinfix, hx, hy⟩
    rcases List.infix_cons_iff.mp hinfix with ⟨rest, hrest⟩ | hinfix
    · obtain ⟨rfl, rfl⟩ := List.cons.inj hrest
      exact .inl ⟨rfl, x, y, rest, rfl, hx, hy⟩
    · exact .inr ⟨x, y, hinfix, hx, hy⟩
  · rintro (⟨rfl, x, y, rest, rfl, hx, hy⟩ | ⟨x, y, hinfix, hx, hy⟩)
    · exact ⟨x, y, ⟨[], rest, rfl⟩, hx, hy⟩
    · exact ⟨x, y, List.infix_cons hinfix, hx, hy⟩

/-- **Bytes without an escape are read as they are**, and no others. -/
theorem percentDecode_eq_self_iff : percentDecode s = s ↔ ¬ Escaped s := by
  fun_induction percentDecode s with
  | case1 => simp [Escaped]
  | case2 a b rest x y hx hy ih =>
    -- three bytes have become one
    refine iff_of_false (fun heq => ?_) (fun hnot => hnot ?_)
    · have hlength := congrArg List.length heq
      have hle := length_percentDecode_le rest
      simp only [List.length_cons] at hlength
      omega
    · exact escaped_cons.mpr (.inl ⟨rfl, a, b, rest, rfl, by rw [hy]; rfl, by rw [hx]; rfl⟩)
  | case3 a b rest hno ih =>
    have hfirst : Escaped (0x25 :: a :: b :: rest) ↔ Escaped (a :: b :: rest) := by
      rw [escaped_cons (b := 0x25), or_iff_right]
      rintro ⟨-, x, y, rest', heq, hx, hy⟩
      obtain ⟨rfl, rfl, rfl⟩ : a = x ∧ b = y ∧ rest = rest' := by simpa using heq
      obtain ⟨u, hu⟩ := Option.isSome_iff_exists.mp hx
      obtain ⟨v, hv⟩ := Option.isSome_iff_exists.mp hy
      exact hno u v hu hv
    rw [List.cons_inj_right, ih, hfirst]
  | case4 b rest hno ih =>
    have hfirst : Escaped (b :: rest) ↔ Escaped rest := by
      rw [escaped_cons, or_iff_right]
      rintro ⟨rfl, x, y, rest', rfl, -⟩
      exact hno x y rest' rfl rfl
    rw [List.cons_inj_right, ih, hfirst]

/-! ### Numbers -/

theorem int64?_of_sign {n : ℕ} {sign : List Char} {v : ℤ} (hsign : sign = [] ∧ v = n ∨ sign = ['-'] ∧ v = -n)
    (hlow : -(2 ^ 63) ≤ v) (hhigh : v < 2 ^ 63) : int64? (String.ofList (sign ++ Nat.toDigits 10 n)) = some v := by
  have hne : (Nat.toDigits 10 n).isEmpty = false := by simp [Nat.toDigits_ne_nil]
  have hall : ((Nat.toDigits 10 n).all fun c => '0' ≤ c && c ≤ '9') = true := by
    rw [List.all_eq_true]
    intro c hc
    rw [Bool.and_eq_true, decide_eq_true_iff, decide_eq_true_iff]
    show '0'.val ≤ c.val ∧ c.val ≤ '9'.val
    simpa [Char.isDigit] using Json.isDigit_of_mem_toDigits hc
  have hvalue : (Nat.toDigits 10 n).foldl (fun n c => n * 10 + (c.toNat - 48)) 0 = n := by
    refine Eq.trans ?_ (Nat.ofDigitChars_ten_toDigits (n := n))
    unfold Nat.ofDigitChars
    congr 1
    funext n c
    rw [Nat.mul_comm]
    rfl
  have hfits : (decide (-(Nat.pow 2 63 : Nat) ≤ v) && decide (v < (Nat.pow 2 63 : Nat))) = true := by
    rw [Bool.and_eq_true, decide_eq_true_iff, decide_eq_true_iff]
    exact ⟨hlow, hhigh⟩
  unfold int64?
  rw [String.toList_ofList]
  split
  rename_i negative digits hsplit
  obtain ⟨rfl, rfl⟩ : digits = Nat.toDigits 10 n ∧ v = if negative then -(n : ℤ) else n := by
    rcases hsign with ⟨rfl, rfl⟩ | ⟨rfl, rfl⟩
    · have hdigit : ∀ c ds, Nat.toDigits 10 n = c :: ds → c.isDigit = true := fun c ds h =>
        Json.isDigit_of_mem_toDigits (h ▸ List.mem_cons_self)
      split at hsplit
      · exact absurd (hdigit _ _ ‹_›) (by decide)
      · exact absurd (hdigit _ _ ‹_›) (by decide)
      · cases hsplit
        exact ⟨rfl, rfl⟩
    · cases hsplit
      exact ⟨rfl, rfl⟩
  simp only [hne, hall, hvalue, Bool.not_true, Bool.or_false, Bool.false_eq_true, if_false, hfits, if_true]

/-- **Every number of 64 bits is read** from its own text. -/
theorem int64?_toString {n : ℤ} (hlow : -(2 ^ 63) ≤ n) (hhigh : n < 2 ^ 63) : int64? (toString n) = some n := by
  rw [Int.toString_eq_repr, Int.repr_eq_if]
  split
  · rename_i hn
    obtain ⟨m, rfl⟩ := Int.eq_ofNat_of_zero_le hn
    have h := int64?_of_sign (.inl ⟨rfl, rfl⟩) hlow hhigh
    rw [Int.toNat_natCast, Nat.repr_eq_ofList_toDigits]
    exact h
  · rename_i hn
    obtain ⟨m, rfl⟩ : ∃ m : ℕ, n = -m := ⟨(-n).toNat, by omega⟩
    have h := int64?_of_sign (.inr ⟨rfl, rfl⟩) hlow hhigh
    rw [String.ofList_append] at h
    rw [Int.neg_neg, Int.toNat_natCast, Nat.repr_eq_ofList_toDigits]
    exact h

end Parley.Http.Query
