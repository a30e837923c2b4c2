import Parley.Proofs.Json.Grammar
import Parley.Proofs.Reading

/-!
# Reading strings

A string is read from its opening quote to the first quote that no backslash precedes. What stands between is written as
the grammar says (`quoted_of_stringRest`), and whatever is so written is read back (`stringRest_of_quoted`).
-/

namespace Parley

theorem Text.Utf8.encode_of_decode? {b : Bytes} {x : String} (h : decode? b = some x) : encode x = b := by
  simp only [decode?, String.fromUTF8?] at h
  split at h
  · cases h
    simp [encode, String.fromUTF8]
  · cases h

theorem Text.Utf8.decode?_eq_some_iff {b : Bytes} {x : String} : decode? b = some x ↔ encode x = b :=
  ⟨encode_of_decode?, fun h => h ▸ decode?_encode x⟩

namespace Json

open Reader

namespace Reader

variable {acc acc' s r u c : Bytes} {x : String}

/-- The rest of a string, of which `acc` has been read, the last byte first. -/
def StringRest (acc s : Bytes) (x : String) (r : Bytes) : Prop :=
  ∃ body content, s = body ++ 0x22 :: r ∧ Pieces body content ∧ Text.Utf8.encode x = acc.reverse ++ content

theorem StringRest.piece (h : StringRest acc' s x r) (hpiece : Piece u c) (hacc : acc'.reverse = acc.reverse ++ c) :
    StringRest acc (u ++ s) x r := by
  obtain ⟨body, content, rfl, hbody, hx⟩ := h
  refine ⟨u ++ body, c ++ content, (List.append_assoc ..).symm, .cons hpiece hbody, ?_⟩
  rw [hx, hacc, List.append_assoc]

theorem reverse_charBytes_append (n : Nat) (acc : Bytes) :
    (charBytes n ++ acc).reverse = acc.reverse ++ Text.Utf8.encode (Char.ofNat n).toString := by
  rw [List.reverse_append, charBytes, List.reverse_reverse]

/-- What is read of a string is written so. -/
theorem rest_of_stringRest (h : stringRest acc s = .ok (x, r)) : StringRest acc s x r := by
  fun_induction stringRest acc s
  all_goals try cases h
  case case2 acc b hb htext =>
    obtain rfl : b = 0x22 := by simpa using hb
    exact ⟨[], [], rfl, .nil, by simpa using Text.Utf8.encode_of_decode? htext⟩
  case case12 acc b _ hb e he a₁ a₂ a₃ a₄ n hn _ hlead b' hb' e' he' d₁ d₂ d₃ d₄ s m hm htrail ih =>
    obtain rfl : b = 0x5C := by simpa using hb
    obtain rfl : e = 0x75 := by simpa using he
    obtain rfl : b' = 0x5C := by simpa using hb'
    obtain rfl : e' = 0x75 := by simpa using he'
    exact (ih h).piece (.halves a₁ a₂ a₃ a₄ d₁ d₂ d₃ d₄ n m hn hlead hm htrail) (reverse_charBytes_append ..)
  case case15 acc b _ hb e he a₁ a₂ a₃ a₄ s n hn htrail hlead ih =>
    obtain rfl : b = 0x5C := by simpa using hb
    obtain rfl : e = 0x75 := by simpa using he
    exact (ih h).piece (.point a₁ a₂ a₃ a₄ n hn (by simpa using hlead) (by simpa using htrail))
      (reverse_charBytes_append ..)
  case case17 acc b _ hb e s _ c hc ih =>
    obtain rfl : b = 0x5C := by simpa using hb
    exact (ih h).piece (.short e c hc) List.reverse_cons
  case case20 acc b s hquote hslash hcontrol ih =>
    exact (ih h).piece (.plain b (UInt8.not_lt.mp hcontrol) (by simpa using hquote) (by simpa using hslash))
      List.reverse_cons

/-- A piece of a string is read as what it stands for. -/
theorem stringRest_piece (h : Piece u c) (acc s : Bytes) :
    ∃ acc', acc'.reverse = acc.reverse ++ c ∧ stringRest acc (u ++ s) = stringRest acc' s := by
  cases h with
  | plain b hcontrol hquote hslash =>
    refine ⟨b :: acc, List.reverse_cons, ?_⟩
    have hlow : ¬ b < 0x20 := UInt8.not_lt.mpr hcontrol
    rw [List.singleton_append, stringRest.eq_def]
    simp [hquote, hslash, hlow]
  | short e c h =>
    have he : e ≠ 0x75 := by rintro rfl; simp [simpleEscape?] at h
    refine ⟨c :: acc, List.reverse_cons, ?_⟩
    show stringRest acc (0x5C :: e :: s) = _
    rw [stringRest.eq_def]
    simp [he, h]
  | point a₁ a₂ a₃ a₄ n h hlead htrail =>
    refine ⟨charBytes n ++ acc, reverse_charBytes_append .., ?_⟩
    simp [stringRest, h, hlead, htrail]
  | halves a₁ a₂ a₃ a₄ d₁ d₂ d₃ d₄ n m h hlead h' htrail =>
    refine ⟨charBytes (0x10000 + (n - 0xD800) * 1024 + (m - 0xDC00)) ++ acc, reverse_charBytes_append .., ?_⟩
    have hn : isTrail n = false := by
      simp only [isLead, isTrail, Bool.and_eq_true, decide_eq_true_eq, Bool.and_eq_false_iff,
        decide_eq_false_iff_not] at hlead ⊢
      omega
    simp [stringRest, h, hlead, h', htrail, hn]

theorem stringRest_of_rest (h : StringRest acc s x r) : stringRest acc s = .ok (x, r) := by
  obtain ⟨body, content, rfl, hbody, hx⟩ := h
  induction hbody generalizing acc with
  | nil =>
    have htext : Text.Utf8.decode? acc.reverse = some x := Text.Utf8.decode?_eq_some_iff.mpr (by simpa using hx)
    rw [List.nil_append, stringRest.eq_def]
    simp [htext]
  | cons head tail ih =>
    obtain ⟨acc', hacc, hstep⟩ := stringRest_piece head acc (_ ++ 0x22 :: r)
    rw [List.append_assoc, hstep]
    exact ih (by rw [hx, hacc, List.append_assoc])

theorem stringRest_ok_iff : stringRest acc s = .ok (x, r) ↔ StringRest acc s x r :=
  ⟨rest_of_stringRest, stringRest_of_rest⟩

/-- **A string is read where one is written**, after its opening quote. -/
theorem stringRest_nil_iff : stringRest [] s = .ok (x, r) ↔ ∃ q, 0x22 :: s = q ++ r ∧ Quoted x q := by
  rw [stringRest_ok_iff]
  constructor
  · rintro ⟨body, content, rfl, hbody, hx⟩
    exact ⟨0x22 :: (body ++ [0x22]), by simp, body, rfl, by simpa [hx] using hbody⟩
  · rintro ⟨q, hs, body, rfl, hbody⟩
    exact ⟨body, _, by simpa using hs, hbody, rfl⟩

end Reader

end Json

end Parley
