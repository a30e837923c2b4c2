import Mathlib.Data.List.Infix
import Mathlib.Tactic.SplitIfs
import Parley.Text.Lowercase
import Parley.Text.Suffixes

/-!
# Texts

* `Pieces` says what the parts of a text between separators are; a text has them in one way only, the way it is split
  (`splitOnP_eq_iff`).
* A text stands somewhere in another exactly if it is an infix of it (`isInfix_iff`).
* Texts of the first 128 characters alone are put in lower case letter by letter (`toList_lowercase`).
-/

namespace Parley.Text

/-! ### Parts between separators -/

variable {d : Char} {cs : List Char} {ps : List (List Char)}

structure Pieces (d : Char) (cs : List Char) (ps : List (List Char)) : Prop where
  nonempty : ps ≠ []
  plain : ∀ p ∈ ps, d ∉ p
  joined : [d].intercalate ps = cs

theorem notMem_of_mem_splitOnP : ∀ p ∈ cs.splitOnP (· == d), d ∉ p := by
  induction cs with
  | nil => simp
  | cons c cs ih =>
    rw [List.splitOnP_cons_eq_if_modifyHead]
    split_ifs with hc
    · exact List.forall_mem_cons.mpr ⟨List.not_mem_nil, ih⟩
    · have hne : d ≠ c := fun h => hc (by simp [h])
      cases hps : cs.splitOnP (· == d) with
      | nil => exact absurd hps (List.splitOnP_ne_nil _ _)
      | cons p ps =>
        rw [hps] at ih
        rw [List.modifyHead_cons]
        refine List.forall_mem_cons.mpr ⟨fun hmem => ?_, fun q hq => ih q (List.mem_cons_of_mem _ hq)⟩
        exact ih p List.mem_cons_self ((List.mem_cons.mp hmem).resolve_left hne)

theorem splitOnP_eq_iff : cs.splitOnP (· == d) = ps ↔ Pieces d cs ps := by
  constructor
  · rintro rfl
    exact ⟨List.splitOnP_ne_nil _ _, notMem_of_mem_splitOnP, List.intercalate_splitOn d⟩
  · rintro ⟨hne, hplain, rfl⟩
    exact List.splitOn_intercalate d hplain hne

/-! ### Texts within others -/

theorem isInfix_iff {needle cs : List Char} : isInfix needle cs = true ↔ needle <:+: cs := by
  induction cs with
  | nil => simp [isInfix]
  | cons c cs ih => rw [isInfix, Bool.or_eq_true, ih, List.isPrefixOf_iff_prefix, List.infix_cons_iff]

/-! ### Lower case -/

def IsAscii (c : Char) : Prop := c.toNat < 0x80

instance : DecidablePred IsAscii := fun c => inferInstanceAs (Decidable (c.toNat < 0x80))

theorem lowerFrom_of_isAscii {before : List Char} (h : ∀ c ∈ cs, IsAscii c) :
    lowerFrom before cs = cs.map lowerChar := by
  induction cs generalizing before with
  | nil => rfl
  | cons c cs ih =>
    obtain ⟨hc, hcs⟩ := List.forall_mem_cons.mp h
    have hdotted : (c == '\u0130') = false := by
      refine beq_eq_false_iff_ne.mpr ?_
      rintro rfl
      exact absurd hc (by decide)
    have hsigma : (c == '\u03a3') = false := by
      refine beq_eq_false_iff_ne.mpr ?_
      rintro rfl
      exact absurd hc (by decide)
    rw [lowerFrom, hdotted, hsigma, ih hcs]
    rfl

theorem toList_lowercase {s : String} (h : ∀ c ∈ s.toList, IsAscii c) :
    (lowercase s).toList = s.toList.map lowerChar := by
  rw [lowercase, String.toList_ofList, lowerFrom_of_isAscii h]

end Parley.Text
