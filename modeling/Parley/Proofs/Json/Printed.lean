import Mathlib.Algebra.Group.Int.Defs
import Parley.Json.Printer
import Parley.Proofs.Json.Values

/-!
# What is printed is so written

The text of a value is one of the ways in which the value is written, provided its numbers are integers of 64 bits. So a
value is read back from its own text: `parseWithin_print`.
-/

namespace Parley

namespace Text.Utf8

theorem encode_eq (s : String) : encode s = s.toList.flatMap String.utf8EncodeChar := by
  have h : s.toByteArray = s.toList.utf8Encode := String.utf8Encode_toList.symm
  rw [encode, h, List.utf8Encode]
  simp

theorem encode_append (s t : String) : encode (s ++ t) = encode s ++ encode t := by
  simp [encode_eq]

theorem encode_ofList (cs : List Char) : encode (String.ofList cs) = cs.flatMap String.utf8EncodeChar := by
  rw [encode_eq, String.toList_ofList]

theorem utf8EncodeChar_of_lt {c : Char} (h : c.toNat < 0x80) : String.utf8EncodeChar c = [UInt8.ofNat c.toNat] := by
  have hle : c.val.toNat ≤ 0x7f := Nat.le_of_lt_succ h
  rw [String.utf8EncodeChar, if_pos hle]
  rfl

theorem le_of_mem_utf8EncodeChar {c : Char} (h : 0x80 ≤ c.toNat) {b : UInt8} (hb : b ∈ String.utf8EncodeChar c) :
    0x80 ≤ b.toNat := by
  have hlt : ¬ c.val.toNat ≤ 0x7f := Nat.not_le.mpr h
  simp only [String.utf8EncodeChar, if_neg hlt] at hb
  split at hb
  · simp only [List.mem_cons, List.not_mem_nil, or_false] at hb
    rcases hb with rfl | rfl <;> (rw [UInt8.toNat_ofNat']; omega)
  · split at hb
    · simp only [List.mem_cons, List.not_mem_nil, or_false] at hb
      rcases hb with rfl | rfl | rfl <;> (rw [UInt8.toNat_ofNat']; omega)
    · simp only [List.mem_cons, List.not_mem_nil, or_false] at hb
      rcases hb with rfl | rfl | rfl | rfl <;> (rw [UInt8.toNat_ofNat']; omega)

end Text.Utf8

namespace Json

open Reader
open Text.Utf8 (encode encode_append encode_eq encode_ofList)

/-! ### Strings -/

theorem Pieces.append {u c v d : Bytes} (h : Pieces u c) (h' : Pieces v d) : Pieces (u ++ v) (c ++ d) := by
  induction h with
  | nil => exact h'
  | cons head _ ih =>
    rw [List.append_assoc, List.append_assoc]
    exact .cons head ih

theorem Piece.pieces {u c : Bytes} (h : Piece u c) : Pieces u c := by
  simpa using Pieces.cons h .nil

theorem pieces_plain {bs : Bytes} (h : ∀ b ∈ bs, 0x20 ≤ b ∧ b ≠ 0x22 ∧ b ≠ 0x5C) : Pieces bs bs := by
  induction bs with
  | nil => exact .nil
  | cons b bs ih =>
    obtain ⟨hcontrol, hquote, hslash⟩ := h b List.mem_cons_self
    exact .cons (.plain b hcontrol hquote hslash) (ih fun c hc => h c (List.mem_cons_of_mem _ hc))

theorem hex4?_control {n : Nat} (h : n < 32) :
    (['\\', 'u', '0', '0', hexDigit (n / 16), hexDigit (n % 16)].flatMap String.utf8EncodeChar) =
      [0x5C, 0x75, 0x30, 0x30, UInt8.ofNat (hexDigit (n / 16)).toNat, UInt8.ofNat (hexDigit (n % 16)).toNat] ∧
    hex4? 0x30 0x30 (UInt8.ofNat (hexDigit (n / 16)).toNat) (UInt8.ofNat (hexDigit (n % 16)).toNat) = some n := by
  have all : ∀ m < 32,
      (['\\', 'u', '0', '0', hexDigit (m / 16), hexDigit (m % 16)].flatMap String.utf8EncodeChar) =
        [0x5C, 0x75, 0x30, 0x30, UInt8.ofNat (hexDigit (m / 16)).toNat, UInt8.ofNat (hexDigit (m % 16)).toNat] ∧
      hex4? 0x30 0x30 (UInt8.ofNat (hexDigit (m / 16)).toNat) (UInt8.ofNat (hexDigit (m % 16)).toNat) = some m := by
        decide
  exact all n h

theorem plain_of_mem {c : Char} (hquote : c ≠ '"') (hslash : c ≠ '\\') (hcontrol : 32 ≤ c.toNat) {b : UInt8}
    (hb : b ∈ String.utf8EncodeChar c) : 0x20 ≤ b ∧ b ≠ 0x22 ∧ b ≠ 0x5C := by
  by_cases hc : c.toNat < 0x80
  · rw [Text.Utf8.utf8EncodeChar_of_lt hc, List.mem_singleton] at hb
    subst hb
    have hnat : (UInt8.ofNat c.toNat).toNat = c.toNat := by rw [UInt8.toNat_ofNat']; omega
    refine ⟨?_, ?_, ?_⟩
    · rw [UInt8.le_iff_toNat_le, hnat]
      exact hcontrol
    · intro h
      exact hquote (Char.toNat_inj.mp (by rw [← hnat, h]; rfl))
    · intro h
      exact hslash (Char.toNat_inj.mp (by rw [← hnat, h]; rfl))
  · have hle := Text.Utf8.le_of_mem_utf8EncodeChar (Nat.not_lt.mp hc) hb
    refine ⟨?_, ?_, ?_⟩
    · rw [UInt8.le_iff_toNat_le]
      exact Nat.le_trans (by decide) hle
    · rintro rfl
      exact absurd hle (by decide)
    · rintro rfl
      exact absurd hle (by decide)

theorem pieces_escape (c : Char) : Pieces ((escape c).flatMap String.utf8EncodeChar) (String.utf8EncodeChar c) := by
  have hof : ∀ {n}, c.toNat = n → c = Char.ofNat n := fun h => by rw [← h, Char.ofNat_toNat]
  unfold escape
  split
  · rename_i h; subst h; exact (Piece.short 0x22 0x22 rfl).pieces
  split
  · rename_i h; subst h; exact (Piece.short 0x5C 0x5C rfl).pieces
  split
  · rename_i h; obtain rfl := hof h; exact (Piece.short 0x62 0x08 rfl).pieces
  split
  · rename_i h; obtain rfl := hof h; exact (Piece.short 0x74 0x09 rfl).pieces
  split
  · rename_i h; obtain rfl := hof h; exact (Piece.short 0x6E 0x0A rfl).pieces
  split
  · rename_i h; obtain rfl := hof h; exact (Piece.short 0x66 0x0C rfl).pieces
  split
  · rename_i h; obtain rfl := hof h; exact (Piece.short 0x72 0x0D rfl).pieces
  split
  · rename_i h
    obtain ⟨hbytes, hhex⟩ := hex4?_control h
    have hpoint := Piece.point _ _ _ _ _ hhex (by simp [isLead]; omega) (by simp [isTrail]; omega)
    rw [hbytes]
    simpa [Char.ofNat_toNat, encode_eq] using hpoint.pieces
  · rename_i hquote hslash _ _ _ _ _ hcontrol
    rw [List.flatMap_singleton]
    exact pieces_plain fun b hb => plain_of_mem hquote hslash (Nat.not_lt.mp hcontrol) hb

/-- A string is written as it is printed. -/
theorem quoted_quote (s : String) : Quoted s (encode (quote s)) := by
  refine ⟨(s.toList.flatMap escape).flatMap String.utf8EncodeChar, ?_, ?_⟩
  · rw [quote, encode_append, encode_append, show encode "\"" = [0x22] from rfl, encode_ofList]
    rfl
  · rw [encode_eq]
    induction s.toList with
    | nil => exact .nil
    | cons c cs ih =>
      rw [List.flatMap_cons, List.flatMap_append, List.flatMap_cons]
      exact (pieces_escape c).append ih

/-! ### Integers -/

def digitByte (c : Char) : UInt8 := UInt8.ofNat c.toNat

theorem digit_bounds {c : Char} (hc : c.isDigit = true) : 48 ≤ c.toNat ∧ c.toNat ≤ 57 := by
  simpa [Char.isDigit, UInt32.le_iff_toNat_le] using hc

theorem toNat_digitByte {c : Char} (hc : c.isDigit = true) : (digitByte c).toNat = c.toNat := by
  have hbounds := digit_bounds hc
  rw [digitByte, UInt8.toNat_ofNat']
  omega

theorem isDigit_digitByte {c : Char} (hc : c.isDigit = true) : isDigit (digitByte c) = true := by
  have hbounds := digit_bounds hc
  simpa [isDigit, UInt8.le_iff_toNat_le, toNat_digitByte hc] using hbounds

theorem encode_digits {cs : List Char} (hcs : ∀ c ∈ cs, c.isDigit = true) :
    cs.flatMap String.utf8EncodeChar = cs.map digitByte := by
  induction cs with
  | nil => rfl
  | cons c cs ih =>
    have hc := digit_bounds (hcs c List.mem_cons_self)
    rw [List.flatMap_cons, List.map_cons, ih fun d hd => hcs d (List.mem_cons_of_mem _ hd),
      Text.Utf8.utf8EncodeChar_of_lt (by omega)]
    rfl

theorem absorb_map {cs : List Char} (hcs : ∀ c ∈ cs, c.isDigit = true) {acc : Nat}
    (hmax : Nat.ofDigitChars 10 cs acc ≤ maxSignificand) :
    absorb acc (cs.map digitByte) = (Nat.ofDigitChars 10 cs acc, []) := by
  induction cs generalizing acc with
  | nil => rfl
  | cons c cs ih =>
    have hvalue : acc * 10 + digit (digitByte c) = 10 * acc + (c.toNat - '0'.toNat) := by
      rw [digit, toNat_digitByte (hcs c List.mem_cons_self), Nat.mul_comm]
      rfl
    rw [Nat.ofDigitChars_cons] at hmax ⊢
    -- the value only grows from digit to digit
    have hle : 10 * acc + (c.toNat - '0'.toNat) ≤ maxSignificand := by
      refine Nat.le_trans ?_ hmax
      rw [Nat.ofDigitChars_eq_ofDigitChars_zero (l := cs)]
      exact Nat.le_trans (Nat.le_mul_of_pos_left _ (Nat.pow_pos (by decide))) (Nat.le_add_right _ _)
    rw [List.map_cons, absorb, hvalue, if_neg (Nat.not_lt.mpr hle)]
    exact ih (fun d hd => hcs d (List.mem_cons_of_mem _ hd)) hmax

theorem head_toDigits {n : Nat} (hn : 0 < n) : ∃ c cs, Nat.toDigits 10 n = c :: cs ∧ c ≠ '0' := by
  induction n using Nat.base_induction 10 (by decide) with
  | single m hm =>
    rw [Nat.toDigits_of_lt_base hm]
    refine ⟨_, _, rfl, fun h => ?_⟩
    have hzero : m.digitChar.toNat - 48 = 0 := by rw [h]; rfl
    rw [Nat.toNat_digitChar_sub_48_of_lt_ten hm] at hzero
    omega
  | digit m k hk hm ih =>
    obtain ⟨c, cs, hcs, hc⟩ := ih hm
    rw [← Nat.toDigits_append_toDigits (by decide) hm hk, hcs]
    exact ⟨c, cs ++ Nat.toDigits 10 k, rfl, hc⟩

theorem isDigit_of_mem_toDigits {n : Nat} {c : Char} (hc : c ∈ Nat.toDigits 10 n) : c.isDigit = true :=
  Nat.isDigit_of_mem_toDigits (by decide) (by decide) hc

theorem encode_repr (n : Nat) : encode n.repr = (Nat.toDigits 10 n).map digitByte := by
  rw [Nat.repr_eq_ofList_toDigits, encode_ofList, encode_digits fun _ => isDigit_of_mem_toDigits]

/-- The digits of a number begin with no zero before others, -/
theorem whole_repr (n : Nat) : Whole (encode n.repr) := by
  rw [encode_repr]
  rcases Nat.eq_zero_or_pos n with rfl | hpos
  · exact ⟨digits_nil.cons rfl, List.cons_ne_nil _ _, fun _ => rfl⟩
  · obtain ⟨c, cs, hcs, hc⟩ := head_toDigits hpos
    have hdigit : ∀ d ∈ c :: cs, d.isDigit = true := fun d hd => isDigit_of_mem_toDigits (hcs ▸ hd)
    have hzero : digitByte c ≠ 0x30 := by
      intro h
      refine hc (Char.toNat_inj.mp ?_)
      rw [← toNat_digitByte (hdigit c List.mem_cons_self), h]
      rfl
    rw [hcs]
    refine ⟨fun b hb => ?_, List.cons_ne_nil _ _, fun h => absurd (Option.some.inj h) hzero⟩
    obtain ⟨d, hd, rfl⟩ := List.mem_map.mp hb
    exact isDigit_digitByte (hdigit d hd)

/-- and that is the number they are. -/
theorem evaluate_repr {n : Nat} (hn : n ≤ maxSignificand) (negative : Bool) :
    evaluate negative 0 (encode n.repr) [] [] = signed negative n := by
  have hvalue : Nat.ofDigitChars 10 (Nat.toDigits 10 n) 0 = n := Nat.ofDigitChars_ten_toDigits
  have hdigits := absorb_map (fun _ => isDigit_of_mem_toDigits) (hvalue.symm ▸ hn)
  rw [evaluate, encode_repr, hdigits, hvalue]
  simp

/-- An integer that has its place in 64 bits, with a sign or without. -/
def Fits (n : Int) : Prop := -(2 ^ 63) ≤ n ∧ n < 2 ^ 64

theorem numeral_toString {n : Int} (h : Fits n) : Numeral (.int n) (encode (toString n)) := by
  obtain ⟨hlow, hhigh⟩ := h
  have hmax : maxSignificand = 2 ^ 64 - 1 := rfl
  rw [Int.toString_eq_repr, Int.repr_eq_if]
  split
  · rename_i hn
    obtain ⟨m, rfl⟩ := Int.eq_ofNat_of_zero_le hn
    exact ⟨false, _, [], [], by simp, whole_repr m, .inl rfl, .inl rfl, evaluate_repr (n := m) (by omega) false⟩
  · rename_i hn
    obtain ⟨m, hm⟩ : ∃ m : Nat, n = -m := ⟨(-n).toNat, by omega⟩
    have hsigned : signed true m = some (.int n) := by
      have hpos : m ≠ 0 := by omega
      have hle : ¬ Nat.pow 2 63 < m := Nat.not_lt.mpr (show m ≤ 2 ^ 63 by omega)
      simp [signed, hpos, hle, hm]
    refine ⟨true, encode m.repr, [], [], ?_, whole_repr m, .inl rfl, .inl rfl,
      (evaluate_repr (by omega) true).trans hsigned⟩
    rw [encode_append, hm, Int.neg_neg, List.append_nil, List.append_nil]
    rfl

/-! ### Values -/

mutual

/-- The value and all values in it have a property. -/
def Every (P : Json → Prop) : Json → Prop
  | .array items => P (.array items) ∧ EveryItem P items
  | .object members => P (.object members) ∧ EveryMember P members
  | v => P v

def EveryItem (P : Json → Prop) : List Json → Prop
  | [] => True
  | v :: rest => Every P v ∧ EveryItem P rest

def EveryMember (P : Json → Prop) : List (String × Json) → Prop
  | [] => True
  | (_, v) :: rest => Every P v ∧ EveryMember P rest

end

/-- Not a number, unless an integer of 64 bits. -/
def Whole64 : Json → Prop
  | .number (.int n) => Fits n
  | .number (.real _) => False
  | _ => True

mutual

/-- How deep arrays and objects stand inside one another in the value. -/
def levels : Json → Nat
  | .array items => levelsItems items + 1
  | .object members => levelsMembers members + 1
  | _ => 0

def levelsItems : List Json → Nat
  | [] => 0
  | v :: rest => max (levels v) (levelsItems rest)

def levelsMembers : List (String × Json) → Nat
  | [] => 0
  | (_, v) :: rest => max (levels v) (levelsMembers rest)

end

def laterItems : List Json → String
  | [] => ""
  | v :: rest => "," ++ (print v ++ laterItems rest)

theorem printItems_cons (v : Json) (vs : List Json) : printItems (v :: vs) = print v ++ laterItems vs := by
  induction vs generalizing v with
  | nil => simp [printItems, laterItems]
  | cons w vs ih => rw [printItems, ih, laterItems, String.append_assoc]; nofun

def laterMembers : List (String × Json) → String
  | [] => ""
  | (n, v) :: rest => "," ++ (quote n ++ ":" ++ print v ++ laterMembers rest)

theorem printMembers_cons (n : String) (v : Json) (ms : List (String × Json)) :
    printMembers ((n, v) :: ms) = quote n ++ ":" ++ print v ++ laterMembers ms := by
  induction ms generalizing n v with
  | nil => simp [printMembers, laterMembers]
  | cons m ms ih =>
    obtain ⟨n', v'⟩ := m
    rw [printMembers, ih, laterMembers]
    · simp only [String.append_assoc]
    · nofun

theorem afterBlanks_self {P : Bytes → Prop} {s : Bytes} (h : P s) : AfterBlanks P s := ⟨[], s, rfl, blanks_nil, h⟩

theorem member_print {name : String} {v : Json} {d : Nat} (h : Written d v (encode v.print)) :
    Member name (Written d v) (encode (quote name ++ ":" ++ print v)) := by
  refine ⟨encode (quote name), [], encode v.print, ?_, quoted_quote name, blanks_nil, afterBlanks_self h⟩
  rw [encode_append, encode_append, List.append_assoc]
  simp [show encode ":" = [0x3A] from rfl]

mutual

/-- **A value is written as it is printed.** -/
theorem written_print {d : Nat} : ∀ (v : Json), v.Every Whole64 → v.levels ≤ d → Written d v (encode v.print)
  | .null, _, _ => by rw [Written]; rfl
  | .bool true, _, _ => by rw [Written]; rfl
  | .bool false, _, _ => by rw [Written]; rfl
  | .number (.int n), h, _ => by
    rw [Every] at h
    · rw [Written]
      exact numeral_toString h
    · nofun
    · nofun
  | .number (.real x), h, _ => by
    rw [Every] at h
    · exact h.elim
    · nofun
    · nofun
  | .string x, _, _ => by rw [Written]; exact quoted_quote x
  | .array vs, h, hd => by
    rw [Every] at h
    rw [levels] at hd
    obtain ⟨d, rfl⟩ : ∃ e, d = e + 1 := ⟨d - 1, by omega⟩
    refine written_array_iff.mpr ⟨encode (printItems vs), ?_, items_print vs h.2 (by omega)⟩
    rw [print, encode_append, encode_append]
    rfl
  | .object ms, h, hd => by
    rw [Every] at h
    rw [levels] at hd
    obtain ⟨d, rfl⟩ : ∃ e, d = e + 1 := ⟨d - 1, by omega⟩
    refine written_object_iff.mpr ⟨encode (printMembers ms), ?_, members_print ms h.2 (by omega)⟩
    rw [print, encode_append, encode_append]
    rfl

theorem items_print {d : Nat} : ∀ (vs : List Json), EveryItem Whole64 vs → levelsItems vs ≤ d →
    Items d vs (encode (printItems vs))
  | [], _, _ => blanks_nil
  | v :: vs, h, hd => by
    rw [EveryItem] at h
    rw [levelsItems] at hd
    refine ⟨encode v.print, encode (laterItems vs), ?_, afterBlanks_self (written_print v h.1 (by omega)),
      moreItems_print vs h.2 (by omega)⟩
    rw [printItems_cons, encode_append]

theorem moreItems_print {d : Nat} :
    ∀ (vs : List Json), EveryItem Whole64 vs → levelsItems vs ≤ d → MoreItems d vs (encode (laterItems vs))
  | [], _, _ => by rw [MoreItems]; exact blanks_nil
  | v :: vs, h, hd => by
    rw [EveryItem] at h
    rw [levelsItems] at hd
    rw [MoreItems]
    refine ⟨[], encode v.print, encode (laterItems vs), ?_, blanks_nil,
      afterBlanks_self (written_print v h.1 (by omega)), moreItems_print vs h.2 (by omega)⟩
    rw [laterItems, encode_append, encode_append]
    rfl

theorem members_print {d : Nat} :
    ∀ (ms : List (String × Json)), EveryMember Whole64 ms → levelsMembers ms ≤ d →
    Members d ms (encode (printMembers ms))
  | [], _, _ => blanks_nil
  | (n, v) :: ms, h, hd => by
    rw [EveryMember] at h
    rw [levelsMembers] at hd
    refine ⟨encode (quote n ++ ":" ++ print v), encode (laterMembers ms), ?_,
      afterBlanks_self (member_print (written_print v h.1 (by omega))), moreMembers_print ms h.2 (by omega)⟩
    rw [printMembers_cons, encode_append]

theorem moreMembers_print {d : Nat} :
    ∀ (ms : List (String × Json)), EveryMember Whole64 ms → levelsMembers ms ≤ d →
    MoreMembers d ms (encode (laterMembers ms))
  | [], _, _ => by rw [MoreMembers]; exact blanks_nil
  | (n, v) :: ms, h, hd => by
    rw [EveryMember] at h
    rw [levelsMembers] at hd
    rw [MoreMembers]
    refine ⟨[], encode (quote n ++ ":" ++ print v), encode (laterMembers ms), ?_, blanks_nil,
      afterBlanks_self (member_print (written_print v h.1 (by omega))), moreMembers_print ms h.2 (by omega)⟩
    rw [laterMembers, encode_append, encode_append _ (laterMembers ms)]
    rfl

end

/-- **A value is read back from its own text.** -/
theorem parseWithin_print {d : Nat} {v : Json} (h : v.Every Whole64) (hd : v.levels ≤ d) :
    parseWithin d (encode v.print) = .ok v :=
  parseWithin_ok_iff.mpr ⟨encode v.print, [], by simp, afterBlanks_self (written_print v h hd), blanks_nil⟩

theorem print_inj {v w : Json} (hv : v.Every Whole64) (hw : w.Every Whole64) (h : v.print = w.print) : v = w := by
  have hread := parseWithin_print hv (Nat.le_max_left v.levels w.levels)
  rw [h, parseWithin_print hw (Nat.le_max_right ..)] at hread
  exact (Except.ok.inj hread).symm

end Json

end Parley
