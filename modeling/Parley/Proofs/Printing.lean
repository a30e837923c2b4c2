import Parley.Envelope

/-!
What the text of an event tells: the type, the room and the person of an envelope can be read off its text,
whatever they are and whatever follows them. A quoted string ends where its closing quote stands.
-/

namespace Parley

namespace Json

/-! ### Quoted strings -/

def hexValue (c : Char) : Nat := if c.toNat < 58 then c.toNat - 48 else c.toNat - 87

theorem hexValue_hexDigit {n : Nat} (h : n < 16) : hexValue (hexDigit n) = n := by
  have all : ∀ m < 16, hexValue (hexDigit m) = m := by decide
  exact all n h

/-- The first character of an escaped text, and the text after it. -/
def unescape : List Char → Option (Char × List Char)
  | '\\' :: 'b' :: rest => some (Char.ofNat 8, rest)
  | '\\' :: 't' :: rest => some (Char.ofNat 9, rest)
  | '\\' :: 'n' :: rest => some (Char.ofNat 10, rest)
  | '\\' :: 'f' :: rest => some (Char.ofNat 12, rest)
  | '\\' :: 'r' :: rest => some (Char.ofNat 13, rest)
  | '\\' :: 'u' :: _ :: _ :: a :: b :: rest => some (Char.ofNat (hexValue a * 16 + hexValue b), rest)
  | '\\' :: c :: rest => some (c, rest)
  | c :: rest => some (c, rest)
  | [] => none

theorem unescape_escape (c : Char) (rest : List Char) : unescape (escape c ++ rest) = some (c, rest) := by
  have back : ∀ {n}, c.toNat = n → some (Char.ofNat n, rest) = some (c, rest) := fun h => by rw [← h, Char.ofNat_toNat]
  unfold escape
  split
  · rename_i h; subst h; rfl
  split
  · rename_i h; subst h; rfl
  split
  · rename_i h; exact back h
  split
  · rename_i h; exact back h
  split
  · rename_i h; exact back h
  split
  · rename_i h; exact back h
  split
  · rename_i h; exact back h
  split
  · rename_i h
    have hc : c.toNat / 16 * 16 + c.toNat % 16 = c.toNat := by omega
    have hd : c.toNat / 16 < 16 := by omega
    have hm : c.toNat % 16 < 16 := by omega
    simp [unescape, hexValue_hexDigit hd, hexValue_hexDigit hm, hc, Char.ofNat_toNat]
  · rename_i hq hs _ _ _ _ _ _
    show unescape (c :: rest) = some (c, rest)
    unfold unescape
    split <;> simp_all

/-- No character is escaped to something that begins with a quote. -/
theorem escape_ne_quote (c : Char) (u v : List Char) : escape c ++ u ≠ '"' :: v := by
  intro h
  have hc := unescape_escape c u
  rw [h] at hc
  have hq : unescape ('"' :: v) = some ('"', v) := rfl
  rw [hq] at hc
  obtain ⟨rfl, -⟩ := Prod.mk.inj (Option.some.inj hc)
  simp [escape] at h

theorem flatMap_escape_inj {cs ds u v : List Char} (h : cs.flatMap escape ++ '"' :: u = ds.flatMap escape ++ '"' :: v) :
    cs = ds ∧ u = v := by
  induction cs generalizing ds with
  | nil =>
    cases ds with
    | nil => exact ⟨rfl, (List.cons.inj h).2⟩
    | cons d ds =>
      rw [List.flatMap_cons, List.append_assoc] at h
      exact absurd h.symm (escape_ne_quote d _ _)
  | cons c cs ih =>
    rw [List.flatMap_cons, List.append_assoc] at h
    cases ds with
    | nil => exact absurd h (escape_ne_quote c _ _)
    | cons d ds =>
      rw [List.flatMap_cons, List.append_assoc] at h
      have hcd := congrArg unescape h
      rw [unescape_escape, unescape_escape] at hcd
      obtain ⟨rfl, hrest⟩ := Prod.mk.inj (Option.some.inj hcd)
      obtain ⟨rfl, huv⟩ := ih hrest
      exact ⟨rfl, huv⟩

theorem toList_quote (s : String) : (quote s).toList = '"' :: (s.toList.flatMap escape ++ ['"']) := by
  simp [quote]

theorem quote_inj {s t : String} {u v : List Char} (h : (quote s).toList ++ u = (quote t).toList ++ v) :
    s = t ∧ u = v := by
  rw [toList_quote, toList_quote] at h
  have hb : s.toList.flatMap escape ++ '"' :: u = t.toList.flatMap escape ++ '"' :: v := by simpa using h
  obtain ⟨hst, huv⟩ := flatMap_escape_inj hb
  exact ⟨String.toList_inj.1 hst, huv⟩

/-! ### Objects -/

/-- A member with a text for its value, at the head of the members of an object, can be read off them. -/
theorem printMembers_inj {n s t : String} {p q : String × Json} {ps qs : List (String × Json)} {u v : List Char}
    (h : (printMembers ((n, .string s) :: p :: ps)).toList ++ u =
      (printMembers ((n, .string t) :: q :: qs)).toList ++ v) :
    s = t ∧ (printMembers (p :: ps)).toList ++ u = (printMembers (q :: qs)).toList ++ v := by
  simp only [printMembers, print, String.toList_append, List.append_assoc, List.append_cancel_left_eq] at h
  obtain ⟨hst, hrest⟩ := quote_inj h
  exact ⟨hst, List.append_cancel_left hrest⟩

theorem print_object_inj {ps qs : List (String × Json)} (h : (object ps).print = (object qs).print) :
    (printMembers ps).toList ++ ['}'] = (printMembers qs).toList ++ ['}'] := by
  have hl := congrArg String.toList h
  simpa [print] using hl

end Json

namespace Envelope

/-- The text of an envelope tells its type, its room and its person. -/
theorem text_inj {d e : Envelope} (h : d.text = e.text) :
    d.type.name = e.type.name ∧ d.room = e.room ∧ d.user = e.user := by
  have h₀ := Json.print_object_inj h
  obtain ⟨htype, h₁⟩ := Json.printMembers_inj h₀
  obtain ⟨hroom, h₂⟩ := Json.printMembers_inj h₁
  obtain ⟨huser, -⟩ := Json.printMembers_inj h₂
  exact ⟨htype, hroom, huser⟩

/-- The text of a stored message is that of no envelope of another type. -/
theorem text_eq_ofMessage {e : Envelope} {m : Message} (h : e.text = (RecordEvent.ofMessage m).print) :
    e.type.name = EventType.message.name :=
  (Json.printMembers_inj (Json.print_object_inj h)).1

end Envelope

end Parley
