import Parley.Json.Record
import Parley.Proofs.Json.Values

/-!
# Forms of values

What is left of the grammar where nobody asks which value is written: strings need not be UTF-8 and may hold halves
of characters, numbers may be as large as they like, and arrays and objects as deep (`Form`). Whatever is a value by
the grammar has the form of one (`Written.form`).
-/

namespace Parley.Json

open Reader

/-! ### Forms -/

/-- One character of a string by its form: what it stands for is left open. -/
inductive Letter : Bytes → Prop
  | plain (b : UInt8) (hcontrol : 0x20 ≤ b) (hquote : b ≠ 0x22) (hslash : b ≠ 0x5C) : Letter [b]
  | short (e c : UInt8) (h : simpleEscape? e = some c) : Letter [0x5C, e]
  | point (a b c d : UInt8) (n : Nat) (h : hex4? a b c d = some n) : Letter [0x5C, 0x75, a, b, c, d]

inductive Letters : Bytes → Prop
  | nil : Letters []
  | cons {u v : Bytes} (head : Letter u) (tail : Letters v) : Letters (u ++ v)

def Closed (s : Bytes) : Prop := ∃ body, s = 0x22 :: (body ++ [0x22]) ∧ Letters body

/-- A value without brackets, by its form. -/
inductive Scalar : Bytes → Prop
  | null : Scalar [0x6E, 0x75, 0x6C, 0x6C]
  | true : Scalar [0x74, 0x72, 0x75, 0x65]
  | false : Scalar [0x66, 0x61, 0x6C, 0x73, 0x65]
  | number {s : Bytes} (h : Unsigned s) : Scalar s
  | negative {s : Bytes} (h : Unsigned s) : Scalar (0x2D :: s)
  | string {s : Bytes} (h : Closed s) : Scalar s

def Reader.Bracket.opening : Bracket → UInt8
  | .array => 0x5B
  | .object => 0x7B

def Reader.Bracket.closing : Bracket → UInt8
  | .array => 0x5D
  | .object => 0x7D

/-- What stands before a value within a bracket: blanks, and in an object a name with its colon. -/
def Lead : Bracket → Bytes → Prop
  | .array, s => Blanks s
  | .object, s => ∃ a q b c, s = a ++ q ++ b ++ 0x3A :: c ∧ Blanks a ∧ Closed q ∧ Blanks b ∧ Blanks c

/-- A part of a value: all of it, a bracket from its opening on, or a bracket from the end of one of its values on. -/
inductive Part where
  | whole
  | opened (bracket : Bracket)
  | later (bracket : Bracket)

/-- The form of a part of a value. -/
inductive Shape : Part → Bytes → Prop
  | scalar {s : Bytes} (h : Scalar s) : Shape .whole s
  | bracket {k : Bracket} {s : Bytes} (h : Shape (.opened k) s) : Shape .whole (k.opening :: s)
  | empty {k : Bracket} {a : Bytes} (ha : Blanks a) : Shape (.opened k) (a ++ [k.closing])
  | first {k : Bracket} {l v u : Bytes} (hl : Lead k l) (hv : Shape .whole v) (hu : Shape (.later k) u) :
      Shape (.opened k) (l ++ v ++ u)
  | close {k : Bracket} {a : Bytes} (ha : Blanks a) : Shape (.later k) (a ++ [k.closing])
  | next {k : Bracket} {a l v u : Bytes} (ha : Blanks a) (hl : Lead k l) (hv : Shape .whole v)
      (hu : Shape (.later k) u) :
      Shape (.later k) (a ++ 0x2C :: (l ++ v ++ u))

abbrev Form : Bytes → Prop := Shape .whole

/-! ### What a form begins with -/

theorem opening_opensValue (k : Bracket) : opensValue k.opening := by cases k <;> exact ⟨rfl, by decide⟩

theorem form_head {v : Bytes} (h : Form v) : ∃ b t, v = b :: t ∧ opensValue b := by
  cases h with
  | bracket h => exact ⟨_, _, rfl, opening_opensValue _⟩
  | scalar h =>
    cases h with
    | null => exact ⟨_, _, rfl, rfl, by decide⟩
    | true => exact ⟨_, _, rfl, rfl, by decide⟩
    | false => exact ⟨_, _, rfl, rfl, by decide⟩
    | number h =>
      obtain ⟨b, t, rfl, hb⟩ := unsigned_head h
      exact ⟨b, t, rfl, opensValue_of_isDigit hb⟩
    | negative h => exact ⟨_, _, rfl, rfl, by decide⟩
    | string h =>
      obtain ⟨body, rfl, -⟩ := h
      exact ⟨_, _, rfl, rfl, by decide⟩

/-! ### What is written has a form -/

theorem Pieces.letters {u c : Bytes} (h : Pieces u c) : Letters u := by
  induction h with
  | nil => exact .nil
  | cons head tail ih =>
    cases head with
    | plain b hcontrol hquote hslash => exact .cons (.plain b hcontrol hquote hslash) ih
    | short e c h => exact .cons (.short e c h) ih
    | point a₁ a₂ a₃ a₄ n h => exact .cons (.point a₁ a₂ a₃ a₄ n h) ih
    | halves a₁ a₂ a₃ a₄ d₁ d₂ d₃ d₄ n m h hlead h' =>
      exact Letters.cons (u := [0x5C, 0x75, a₁, a₂, a₃, a₄]) (.point _ _ _ _ n h) (.cons (.point d₁ d₂ d₃ d₄ m h') ih)

theorem Quoted.closed {x : String} {s : Bytes} (h : Quoted x s) : Closed s := by
  obtain ⟨body, rfl, hbody⟩ := h
  exact ⟨body, rfl, hbody.letters⟩

theorem Numeral.scalar {x : Number} {s : Bytes} (h : Numeral x s) : Scalar s := by
  obtain ⟨negative, w, f, e, rfl, hw, hf, he, -⟩ := h
  cases negative with
  | false => exact .number ⟨w, f, e, rfl, hw, hf, he⟩
  | true => exact .negative ⟨w, f, e, rfl, hw, hf, he⟩

theorem Member.lead {name : String} {P : Bytes → Prop} {s : Bytes} (h : AfterBlanks (Member name P) s) :
    ∃ l v, s = l ++ v ∧ Lead .object l ∧ P v := by
  obtain ⟨a, _, rfl, ha, q, b, _, rfl, hq, hb, c, v, rfl, hc, hv⟩ := h
  exact ⟨a ++ q ++ b ++ 0x3A :: c, v, by simp, ⟨a, q, b, c, rfl, ha, hq.closed, hb, hc⟩, hv⟩

mutual

theorem Written.form {d : Nat} {s : Bytes} : ∀ (v : Json), Written d v s → Form s
  | .null, h => by rw [Written] at h; exact h ▸ .scalar .null
  | .bool true, h => by rw [Written] at h; exact h ▸ .scalar .true
  | .bool false, h => by rw [Written] at h; exact h ▸ .scalar .false
  | .number x, h => by rw [Written] at h; exact .scalar h.scalar
  | .string x, h => by rw [Written] at h; exact .scalar (.string h.closed)
  | .array vs, h => by
    cases d with
    | zero => cases vs <;> rw [Written] at h <;> cases h
    | succ d =>
      obtain ⟨t, rfl, ht⟩ := written_array_iff.mp h
      exact .bracket (k := .array) (Items.shape vs ht)
  | .object ms, h => by
    cases d with
    | zero => rcases ms with _ | ⟨⟨n, v⟩, ms⟩ <;> rw [Written] at h <;> cases h
    | succ d =>
      obtain ⟨t, rfl, ht⟩ := written_object_iff.mp h
      exact .bracket (k := .object) (Members.shape ms ht)

theorem Items.shape {d : Nat} {s : Bytes} : ∀ (vs : List Json), Items d vs s → Shape (.opened .array) (s ++ [0x5D])
  | [], h => .empty (k := .array) h
  | v :: vs, h => by
    obtain ⟨_, u, rfl, ⟨a, t, rfl, ha, ht⟩, hu⟩ := h
    rw [List.append_assoc]
    exact .first (k := .array) ha (Written.form v ht) (MoreItems.shape vs hu)

theorem MoreItems.shape {d : Nat} {s : Bytes} : ∀ (vs : List Json), MoreItems d vs s →
    Shape (.later .array) (s ++ [0x5D])
  | [], h => by rw [MoreItems] at h; exact .close (k := .array) h
  | v :: vs, h => by
    rw [MoreItems] at h
    obtain ⟨b, _, u, rfl, hb, ⟨a, t, rfl, ha, ht⟩, hu⟩ := h
    rw [List.append_assoc, List.cons_append, List.append_assoc]
    exact .next (k := .array) hb ha (Written.form v ht) (MoreItems.shape vs hu)

theorem Members.shape {d : Nat} {s : Bytes} :
    ∀ (ms : List (String × Json)), Members d ms s → Shape (.opened .object) (s ++ [0x7D])
  | [], h => .empty (k := .object) h
  | (n, v) :: ms, h => by
    obtain ⟨t, u, rfl, ht, hu⟩ := h
    obtain ⟨l, w, rfl, hl, hw⟩ := Member.lead ht
    rw [List.append_assoc]
    exact .first hl (Written.form v hw) (MoreMembers.shape ms hu)

theorem MoreMembers.shape {d : Nat} {s : Bytes} :
    ∀ (ms : List (String × Json)), MoreMembers d ms s → Shape (.later .object) (s ++ [0x7D])
  | [], h => by rw [MoreMembers] at h; exact .close (k := .object) h
  | (n, v) :: ms, h => by
    rw [MoreMembers] at h
    obtain ⟨b, t, u, rfl, hb, ht, hu⟩ := h
    obtain ⟨l, w, rfl, hl, hw⟩ := Member.lead ht
    rw [List.append_assoc, List.cons_append, List.append_assoc]
    exact .next hb hl (Written.form v hw) (MoreMembers.shape ms hu)

end

end Parley.Json
