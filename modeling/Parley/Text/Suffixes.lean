/-!
The suffixes of a text, for matching a part that stands for any sequence, and the texts that stand
somewhere in another.
-/

namespace Parley.Text

/-- The text and all that remains of it after some characters, the longest first. -/
def suffixes : List Char → List (List Char)
  | [] => [[]]
  | c :: s => (c :: s) :: suffixes s

theorem mem_suffixes {r s : List Char} : r ∈ suffixes s ↔ ∃ t, s = t ++ r := by
  induction s with
  | nil => simp [suffixes, eq_comm]
  | cons c s ih =>
    simp only [suffixes, List.mem_cons, ih]
    constructor
    · rintro (rfl | ⟨t, rfl⟩)
      · exact ⟨[], rfl⟩
      · exact ⟨c :: t, rfl⟩
    · rintro ⟨t, h⟩
      cases t with
      | nil => exact .inl h.symm
      | cons d t => exact .inr ⟨t, (List.cons.inj h).2⟩

/-- Whether one text stands somewhere in another. -/
def isInfix (needle : List Char) : List Char → Bool
  | [] => needle.isEmpty
  | c :: s => needle.isPrefixOf (c :: s) || isInfix needle s

end Parley.Text
