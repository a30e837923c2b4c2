import Mathlib.Tactic.SplitIfs
import Parley.Proofs.Json.Passing

/-!
# Reading fields

The value of a field is read where the grammar has a value of the field's kind, and as that value (`holds_of_readField`,
`readField_append`): a text, a list of texts, a truth value, a natural number, or any value that is not too deep.
-/

namespace Parley.Json

open Reader

/-! ### Kinds of fields -/

def FieldValue.toJson : FieldValue → Json
  | .text x => .string x
  | .absent => .null
  | .flag b => .bool b
  | .texts xs => .array (xs.map .string)
  | .count n => .number (.int n)
  | .json v => v

inductive FieldKind.Admits : FieldKind → FieldValue → Prop
  | text (x : String) : Admits .text (.text x)
  | optionalText (x : String) : Admits .optionalText (.text x)
  | absent : Admits .optionalText .absent
  | flag (b : Bool) : Admits .flag (.flag b)
  | texts (xs : List String) : Admits .texts (.texts xs)
  | count (n : Nat) : Admits .count (.count n)
  | any (v : Json) : Admits .any (.json v)

/-- A value of a kind, as it is written. It stands within the brackets of the record. -/
def FieldKind.Holds (kind : FieldKind) (v : FieldValue) (s : Bytes) : Prop :=
  kind.Admits v ∧ Written (maxDepth - 1) v.toJson s

namespace Record

variable {s r t : Bytes} {v : FieldValue} {kind : FieldKind}

/-! ### Texts -/

theorem skip_quoted {x : String} {q : Bytes} (h : Quoted x q) (s : Bytes) : skip (q ++ s) = q ++ s := by
  obtain ⟨body, rfl, -⟩ := h
  exact skip_of_not_blank rfl _

theorem text_iff {x : String} : text s = .ok (x, r) ↔ ∃ q, skip s = q ++ r ∧ Quoted x q := by
  unfold text
  cases skip s with
  | nil =>
    constructor
    · rintro ⟨⟩
    · rintro ⟨_, h, body, rfl, -⟩
      cases h
  | cons b u =>
    dsimp only
    by_cases hb : b = 0x22
    · subst hb
      exact stringRest_nil_iff
    · rw [if_neg (by simpa using hb)]
      constructor
      · rintro ⟨⟩
      · rintro ⟨_, h, body, rfl, -⟩
        exact absurd (List.cons.inj h).1 hb

/-- What stands between the brackets of an array, from the first item on or behind another. -/
def ItemsAt (d : Nat) : Mark → List Json → Bytes → Prop
  | .first => Items d
  | .later => MoreItems d

theorem itemsAt_close {d : Nat} {a : Bytes} (mark : Mark) (ha : Blanks a) : ItemsAt d mark [] a := by
  cases mark with
  | first => exact ha
  | later =>
    rw [ItemsAt, MoreItems]
    exact ha

theorem items_of_readTexts {d n : Nat} {mark : Mark} {acc xs : List String} (h : readTexts n mark acc s = .ok (xs, r)) :
    ∃ t ys, s = t ++ 0x5D :: r ∧ xs = acc.reverse ++ ys ∧ ItemsAt d mark (ys.map .string) t := by
  induction n generalizing mark acc s with
  | zero => cases h
  | succ n ih =>
    obtain ⟨a, hs, ha⟩ := exists_skip s
    rw [readTexts] at h
    split at h
    · cases h
    · rename_i u hn
      cases h
      exact ⟨a, [], by rw [← nextItem_close_iff.mp hn, ← hs], by simp, itemsAt_close mark ha⟩
    · rename_i u hn
      split at h
      · cases h
      · rename_i x u' hx
        obtain ⟨q, hq, hquoted⟩ := text_iff.mp hx
        obtain ⟨b, hu, hb⟩ := exists_skip u
        obtain ⟨w, ys, rfl, rfl, hmore⟩ := ih h
        have hitem : AfterBlanks (Written d (.string x)) (b ++ q) := ⟨b, q, rfl, hb, by rw [Written]; exact hquoted⟩
        cases mark with
        | first =>
          obtain ⟨hskip, -⟩ := nextItem_first_iff.mp hn
          refine ⟨a ++ (b ++ q) ++ w,
            x :: ys, by rw [hs, hskip, hu, hq]; simp, by simp, a ++ (b ++ q), w, rfl, hitem.of_blanks ha, hmore⟩
        | later =>
          obtain ⟨t, hcomma, hskip, -⟩ := nextItem_later_iff.mp hn
          obtain ⟨c, ht, hc⟩ := exists_skip t
          refine ⟨a ++ 0x2C :: (c ++ (b ++ q) ++ w), x :: ys, by rw [hs, hcomma, ht, hskip, hu, hq]; simp, by simp, ?_⟩
          show MoreItems d (.string x :: ys.map .string) _
          rw [MoreItems]
          exact ⟨a, c ++ (b ++ q), w, rfl, ha, hitem.of_blanks hc, hmore⟩

theorem text_append {d : Nat} {x : String} (h : AfterBlanks (Written d (.string x)) t) (r : Bytes) :
    text (t ++ r) = .ok (x, r) := by
  obtain ⟨a, q, rfl, ha, hq⟩ := h
  rw [Written] at hq
  exact text_iff.mpr ⟨q, by rw [List.append_assoc, skip_append ha, skip_quoted hq], hq⟩

theorem nextItem_append {d : Nat} {mark : Mark} {v : Json} {vs : List Json} (h : ItemsAt d mark (v :: vs) t)
    (r : Bytes) :
    ∃ u w, nextItem mark (t ++ 0x5D :: r) = .ok (.more (u ++ (w ++ 0x5D :: r))) ∧ AfterBlanks (Written d v) u ∧
      ItemsAt d .later vs w ∧ u.length + w.length ≤ t.length := by
  cases mark with
  | first =>
    obtain ⟨t, w, rfl, ht, hw⟩ := h
    obtain ⟨u, hu, hlen, hskip, hhead⟩ := skip_afterBlanks ht (w ++ 0x5D :: r)
    exact ⟨u, w, nextItem_first_iff.mpr ⟨by rw [List.append_assoc, hskip], hhead⟩, hu,
      hw, by rw [List.length_append]; omega⟩
  | later =>
    rw [ItemsAt, MoreItems] at h
    obtain ⟨a, t, w, rfl, ha, ht, hw⟩ := h
    obtain ⟨u, hu, hlen, hskip, hhead⟩ := skip_afterBlanks ht (w ++ 0x5D :: r)
    have hcomma : skip (a ++ 0x2C :: (t ++ w) ++ 0x5D :: r) = 0x2C :: (t ++ (w ++ 0x5D :: r)) := by
      rw [List.append_assoc, skip_append ha, List.cons_append, List.append_assoc]
      exact skip_of_not_blank rfl _
    refine ⟨u, w, nextItem_later_iff.mpr ⟨_, hcomma, hskip, hhead⟩, hu, hw, ?_⟩
    simp only [List.length_append, List.length_cons]
    omega

theorem blanks_of_itemsAt_nil {d : Nat} {mark : Mark} (h : ItemsAt d mark [] t) : Blanks t := by
  cases mark with
  | first => exact h
  | later =>
    rw [ItemsAt, MoreItems] at h
    exact h

theorem length_pos_of_written {d : Nat} {v : Json} (h : AfterBlanks (Written d v) t) : 0 < t.length := by
  obtain ⟨a, t, rfl, -, ht⟩ := h
  obtain ⟨b, w, rfl, -⟩ := written_head ht
  rw [List.length_append, List.length_cons]
  omega

theorem readTexts_append {d n : Nat} {mark : Mark} {acc ys : List String} (h : ItemsAt d mark (ys.map .string) t)
    (hn : t.length + 1 ≤ n) : readTexts n mark acc (t ++ 0x5D :: r) = .ok (acc.reverse ++ ys, r) := by
  induction ys generalizing n mark acc t with
  | nil =>
    obtain ⟨n, rfl⟩ : ∃ m, n = m + 1 := ⟨n - 1, by omega⟩
    have hclose : nextItem mark (t ++ 0x5D :: r) = .ok (.close r) :=
      nextItem_close_iff.mpr ((skip_append (blanks_of_itemsAt_nil h) _).trans (skip_of_not_blank rfl r))
    rw [readTexts, hclose]
    simp
  | cons x ys ih =>
    obtain ⟨n, rfl⟩ : ∃ m, n = m + 1 := ⟨n - 1, by omega⟩
    obtain ⟨u, w, hnext, hu, hw, hlen⟩ := nextItem_append h r
    have hpos := length_pos_of_written hu
    have hrest : readTexts n .later (x :: acc) (w ++ 0x5D :: r) = .ok ((x :: acc).reverse ++ ys, r) := ih hw (by omega)
    rw [readTexts, hnext]
    simp only [text_append hu, hrest]
    simp

/-! ### Numbers -/

theorem scaled_ne_int {negative : Bool} {n : Nat} {e k : Int} : scaled negative n e ≠ some (.int k) := by
  intro h
  obtain ⟨m, -, hm⟩ := Option.map_eq_some_iff.mp h
  cases hm

theorem continued_ne_int {negative : Bool} {n : Nat} {e k : Int} {fraction power : Bytes} :
    continued negative n e fraction power ≠ some (.int k) := by
  intro h
  unfold continued raised at h
  dsimp only at h
  split at h
  · exact scaled_ne_int h
  · unfold powered at h
    split_ifs at h
    · cases h
    · exact scaled_ne_int h
    · exact scaled_ne_int h

theorem signed_int {negative : Bool} {n : Nat} {k : Int} (h : signed negative n = some (.int k)) :
    negative = true ↔ k < 0 := by
  unfold signed at h
  split_ifs at h with hpositive hzero
  · obtain rfl : (n : Int) = k := by simpa using h
    simp_all
  · exact absurd h scaled_ne_int
  · obtain rfl : -(n : Int) = k := by simpa using h
    simp_all
    omega

/-- An integer is negative exactly if a sign stands before its digits. -/
theorem evaluate_int {negative : Bool} {n : Nat} {k : Int} {digits fraction power : Bytes}
    (h : evaluate negative n digits fraction power = some (.int k)) : negative = true ↔ k < 0 := by
  unfold evaluate at h
  dsimp only at h
  split_ifs at h with hplain
  · exact signed_int h
  · exact absurd h continued_ne_int

theorem numeral_nat_iff {n : Nat} {q : Bytes} :
    Numeral (.int n) q ↔ Unsigned q ∧ Reader.number false q = .ok (.int n, []) := by
  constructor
  · rintro ⟨negative, w, f, e, rfl, hw, hf, he, hvalue⟩
    obtain rfl : negative = false := by
      cases negative with
      | false => rfl
      | true => exact absurd ((evaluate_int hvalue).mp rfl) (by omega)
    exact ⟨⟨w, f, e, rfl, hw, hf, he⟩, (number_eq hw hf he).trans (outcome_eq_ok.mpr hvalue)⟩
  · exact fun h => numeral_iff.mpr (.inl h)

theorem numeral_of_number_int {k : Int} (h : Reader.number false s = .ok (.int k, r)) :
    ∃ q, s = q ++ r ∧ Numeral (.int k.toNat) q := by
  obtain ⟨q, hs, hunsigned, hread⟩ := numeral_of_number h
  have hk : 0 ≤ k := by
    obtain ⟨w, f, e, rfl, hw, hf, he⟩ := id hunsigned
    have hsign := evaluate_int (outcome_eq_ok.mp ((number_eq hw hf he).symm.trans hread))
    exact Int.not_lt.mp fun hneg => Bool.false_ne_true (hsign.mpr hneg)
  refine ⟨q, hs, ?_⟩
  rw [Int.toNat_of_nonneg hk]
  exact numeral_iff.mpr (.inl ⟨hunsigned, hread⟩)

/-! ### Fields -/

theorem holds_of_readField (h : readField kind s = .ok (v, r)) : ∃ t, s = t ++ r ∧ AfterBlanks (kind.Holds v) t := by
  obtain ⟨a, hs, ha⟩ := exists_skip s
  suffices ∃ t, skip s = t ++ r ∧ AfterBlanks (kind.Holds v) t by
    obtain ⟨t, ht, hv⟩ := this
    exact ⟨a ++ t, by rw [List.append_assoc, ← ht, ← hs], hv.of_blanks ha⟩
  rw [readField] at h
  generalize hu : skip s = u at h ⊢
  have hself : ∀ q, u = q ++ r → kind.Holds v q → ∃ t, u = t ++ r ∧ AfterBlanks (kind.Holds v) t :=
    fun q hq hv => ⟨q, hq, [], q, rfl, blanks_nil, hv⟩
  have hstring : ∀ {x : String}, text u = .ok (x, r) → ∃ q, u = q ++ r ∧ Written (maxDepth - 1) (.string x) q := by
    intro x hx
    obtain ⟨q, hq, hquoted⟩ := text_iff.mp hx
    exact ⟨q, by rw [← hq, ← hu, skip_skip], by rw [Written]; exact hquoted⟩
  cases u with
  | nil => cases h
  | cons b u =>
    dsimp only at h
    cases kind with
    | text =>
      obtain ⟨x, hx, rfl⟩ := Read.of_to_ok h
      obtain ⟨q, hq, hwritten⟩ := hstring hx
      exact hself q hq ⟨.text _, hwritten⟩
    | optionalText =>
      dsimp only at h
      split_ifs at h with hn
      · obtain ⟨w, hw, rfl⟩ := Read.of_to_ok h
        refine hself [0x6E, 0x75, 0x6C, 0x6C] (by rw [eq_of_beq hn, word_ok hw]; rfl) ⟨.absent, ?_⟩
        rw [FieldValue.toJson, Written]
      · obtain ⟨x, hx, rfl⟩ := Read.of_to_ok h
        obtain ⟨q, hq, hwritten⟩ := hstring hx
        exact hself q hq ⟨.optionalText _, hwritten⟩
    | flag =>
      dsimp only at h
      split_ifs at h with ht hf
      · obtain ⟨w, hw, rfl⟩ := Read.of_to_ok h
        refine hself [0x74, 0x72, 0x75, 0x65] (by rw [eq_of_beq ht, word_ok hw]; rfl) ⟨.flag true, ?_⟩
        rw [FieldValue.toJson, Written]
      · obtain ⟨w, hw, rfl⟩ := Read.of_to_ok h
        refine hself [0x66, 0x61, 0x6C, 0x73, 0x65] (by rw [eq_of_beq hf, word_ok hw]; rfl) ⟨.flag false, ?_⟩
        rw [FieldValue.toJson, Written]
    | texts =>
      dsimp only at h
      split_ifs at h with hopen
      obtain ⟨xs, hxs, rfl⟩ := Read.of_to_ok h
      obtain ⟨t, ys, rfl, rfl, ht⟩ := items_of_readTexts hxs
      refine hself (0x5B :: (t ++ [0x5D])) (by rw [eq_of_beq hopen]; simp) ⟨.texts _, ?_⟩
      exact written_array_iff.mpr ⟨t, rfl, ht⟩
    | count =>
      dsimp only at h
      split_ifs at h with hdigit
      split at h
      · rename_i k u' hk
        cases h
        obtain ⟨q, hq, hnumeral⟩ := numeral_of_number_int hk
        exact hself q hq ⟨.count _, by rw [FieldValue.toJson, Written]; exact hnumeral⟩
      · cases h
      · cases h
    | any =>
      obtain ⟨w, hw, rfl⟩ := Read.of_to_ok h
      obtain ⟨_, ht, a', t, rfl, ha', hwritten⟩ := (sound _).value _ _ _ _ hw
      exact ⟨a' ++ t, ht, a', t, rfl, ha', .any _, hwritten⟩

theorem readField_append (h : AfterBlanks (kind.Holds v) t) (hr : Fresh r) : readField kind (t ++ r) = .ok (v, r) := by
  obtain ⟨a, t, rfl, ha, hadmits, hwritten⟩ := h
  obtain ⟨b, u, rfl, hb⟩ := written_head hwritten
  have hskip : skip (a ++ b :: u ++ r) = b :: (u ++ r) := by
    rw [List.append_assoc, skip_append ha]
    exact skip_of_not_blank hb.1 _
  have hstring : ∀ {x : String}, Written (maxDepth - 1) (.string x) (b :: u) → text (b :: (u ++ r)) = .ok (x, r) :=
    fun hx => text_append ⟨[], _, rfl, blanks_nil, hx⟩ r
  rw [readField, hskip]
  cases hadmits with
  | text x =>
    dsimp only
    rw [hstring hwritten]
    rfl
  | optionalText x =>
    have hn : b ≠ 0x6E := by
      rw [FieldValue.toJson, Written] at hwritten
      obtain ⟨body, hbody, -⟩ := hwritten
      rw [(List.cons.inj hbody).1]
      decide
    dsimp only
    rw [if_neg (by simpa using hn), hstring hwritten]
    rfl
  | absent =>
    rw [FieldValue.toJson, Written] at hwritten
    obtain ⟨rfl, rfl⟩ := List.cons.inj hwritten
    simp [word, Read.to]
  | flag x =>
    cases x <;>
    · rw [FieldValue.toJson, Written] at hwritten
      obtain ⟨rfl, rfl⟩ := List.cons.inj hwritten
      simp [word, Read.to]
  | texts xs =>
    obtain ⟨w, hw, hitems⟩ := written_array_iff.mp hwritten
    obtain ⟨rfl, rfl⟩ := List.cons.inj hw
    have hread : readTexts ((w ++ [0x5D] ++ r).length + 1) .first [] (w ++ [0x5D] ++ r) = .ok (xs, r) := by
      rw [List.append_assoc]
      exact readTexts_append (show ItemsAt 125 .first _ w from hitems) (by simp only [List.length_append]; omega)
    dsimp only
    rw [if_pos (beq_self_eq_true _), hread]
    rfl
  | count n =>
    rw [FieldValue.toJson, Written] at hwritten
    obtain ⟨hunsigned, hread⟩ := numeral_nat_iff.mp hwritten
    obtain ⟨c, w, hc, hdigit⟩ := unsigned_head hunsigned
    obtain ⟨rfl, rfl⟩ := List.cons.inj hc
    have hnumber := number_append hread hr
    rw [List.cons_append] at hnumber
    dsimp only
    rw [if_pos hdigit, hnumber]
    rfl
  | any v =>
    have hvalue := (complete (fuelFor (b :: u ++ r))).value (maxDepth - 1) v (b :: u) r
        ⟨[], _, rfl, blanks_nil, hwritten⟩ hr
      (by rw [fuelFor, List.length_append]; omega)
    rw [List.cons_append] at hvalue
    dsimp only
    rw [hvalue]
    rfl

theorem holds_unique {w : FieldValue} (hv : kind.Holds v s) (hw : kind.Holds w s) : v = w := by
  have hread : ∀ {x}, kind.Holds x s → readField kind (s ++ []) = .ok (x, []) := fun hx =>
    readField_append ⟨[], s, rfl, blanks_nil, hx⟩ fresh_nil
  have hsame := (hread hv).symm.trans (hread hw)
  cases hsame
  rfl

end Record

end Parley.Json
