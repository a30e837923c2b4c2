import Mathlib.Data.List.Forall2
import Mathlib.Tactic.SplitIfs
import Parley.Text.Base64Url

/-!
# Bytes in letters

Every sequence of bytes is written in one way only: letters are read as the bytes whose letters they are, and as no
others (`decode?_eq_some_iff`).
-/

namespace Parley.Text.Base64Url

/-! ### Letters -/

theorem index?_letter {n : Nat} (h : n < 64) : index? (letter n) = some n := by
  have htable : ∀ k : Fin 64, index? (letter k) = some k.val := by decide +kernel
  exact htable ⟨n, h⟩

theorem letter_ne_dot {n : Nat} (h : n < 64) : letter n ≠ '.' := by
  rintro hdot
  have hindex := index?_letter h
  rw [hdot] at hindex
  cases hindex

theorem letter_of_index? {c : Char} {n : Nat} (h : index? c = some n) : n < 64 ∧ letter n = c := by
  unfold index? at h
  split_ifs at h with hupper hlower hdigit hdash hscore <;> cases h
  · have h₁ : 65 ≤ c.toNat := hupper.1
    have h₂ : c.toNat ≤ 90 := hupper.2
    refine ⟨by omega, ?_⟩
    rw [letter, if_pos (by omega), show 65 + (c.toNat - 65) = c.toNat by omega, Char.ofNat_toNat]
  · have h₁ : 97 ≤ c.toNat := hlower.1
    have h₂ : c.toNat ≤ 122 := hlower.2
    refine ⟨by omega, ?_⟩
    rw [letter, if_neg (by omega), if_pos (by omega), show 71 + (c.toNat - 71) = c.toNat by omega, Char.ofNat_toNat]
  · have h₁ : 48 ≤ c.toNat := hdigit.1
    have h₂ : c.toNat ≤ 57 := hdigit.2
    refine ⟨by omega, ?_⟩
    rw [letter, if_neg (by omega), if_neg (by omega), if_pos (by omega), show c.toNat + 4 - 4 = c.toNat by omega,
      Char.ofNat_toNat]
  · exact ⟨by omega, hdash.symm⟩
  · exact ⟨by omega, hscore.symm⟩

theorem mapM_index?_iff {cs : List Char} {ns : List Nat} :
    cs.mapM index? = some ns ↔ (∀ n ∈ ns, n < 64) ∧ cs = ns.map letter := by
  induction cs generalizing ns with
  | nil => cases ns <;> simp
  | cons c cs ih =>
    rw [List.mapM_cons]
    constructor
    · intro h
      obtain ⟨n, hn, ms, hms, rfl⟩ : ∃ n, index? c = some n ∧ ∃ ms, cs.mapM index? = some ms ∧ n :: ms = ns := by
        simpa [Option.bind_eq_some_iff] using h
      obtain ⟨hlt, hletter⟩ := letter_of_index? hn
      obtain ⟨hall, rfl⟩ := ih.mp hms
      exact ⟨List.forall_mem_cons.mpr ⟨hlt, hall⟩, by rw [List.map_cons, hletter]⟩
    · rintro ⟨hall, hcs⟩
      obtain ⟨n, ms, rfl⟩ : ∃ n ms, ns = n :: ms := by
        cases ns with
        | nil => cases hcs
        | cons n ms => exact ⟨n, ms, rfl⟩
      obtain ⟨hlt, hms⟩ := List.forall_mem_cons.mp hall
      obtain ⟨rfl, rfl⟩ := List.cons.inj hcs
      simp [index?_letter hlt, ih.mpr ⟨hms, rfl⟩]

/-! ### Groups of bytes -/

/-- The numbers of bytes, three bytes in four numbers. -/
def sextets : Bytes → List Nat
  | [] => []
  | [a] => [a.toNat / 4, a.toNat % 4 * 16]
  | [a, b] => [a.toNat / 4, a.toNat % 4 * 16 + b.toNat / 16, b.toNat % 16 * 4]
  | a :: b :: c :: rest =>
    a.toNat / 4 :: (a.toNat % 4 * 16 + b.toNat / 16) :: (b.toNat % 16 * 4 + c.toNat / 64) :: c.toNat % 64 ::
      sextets rest

theorem encode_eq_map (bs : Bytes) : encode bs = (sextets bs).map letter := by
  fun_induction sextets bs with
  | case1 => rfl
  | case2 a => rfl
  | case3 a b => rfl
  | case4 a b c rest ih => rw [encode, ih]; rfl

theorem lt_of_mem_sextets (bs : Bytes) : ∀ n ∈ sextets bs, n < 64 := by
  fun_induction sextets bs with
  | case1 => nofun
  | case2 a =>
    have ha := a.toNat_lt
    simp only [List.forall_mem_cons]
    exact ⟨by omega, by omega, nofun⟩
  | case3 a b =>
    have ha := a.toNat_lt
    have hb := b.toNat_lt
    simp only [List.forall_mem_cons]
    exact ⟨by omega, by omega, by omega, nofun⟩
  | case4 a b c rest ih =>
    have ha := a.toNat_lt
    have hb := b.toNat_lt
    have hc := c.toNat_lt
    simp only [List.forall_mem_cons]
    exact ⟨by omega, by omega, by omega, by omega, ih⟩

theorem ofNat_eq {n : Nat} {b : UInt8} (h : n = b.toNat) : UInt8.ofNat n = b := by rw [h, UInt8.ofNat_toNat]

theorem pack_sextets (bs : Bytes) : pack (sextets bs) = some bs := by
  fun_induction sextets bs with
  | case1 => rfl
  | case2 a =>
    rw [pack, if_pos (by omega), ofNat_eq (b := a) (by omega)]
  | case3 a b =>
    have hb := b.toNat_lt
    rw [pack, if_pos (by omega), ofNat_eq (b := a) (by omega), ofNat_eq (b := b) (by omega)]
  | case4 a b c rest ih =>
    have hb := b.toNat_lt
    have hc := c.toNat_lt
    rw [pack, ih, ofNat_eq (b := a) (by omega), ofNat_eq (b := b) (by omega), ofNat_eq (b := c) (by omega)]
    rfl

/-- Numbers with bits left over are not packed, so packed numbers are those of their bytes. -/
theorem sextets_of_pack {ns : List Nat} (hns : ∀ n ∈ ns, n < 64) {bs : Bytes} (h : pack ns = some bs) :
    sextets bs = ns := by
  fun_induction pack ns generalizing bs with
  | case1 => cases h; rfl
  | case2 => cases h
  | case3 a b hrest =>
    cases h
    simp only [List.forall_mem_cons] at hns
    simp only [sextets, UInt8.toNat_ofNat', List.cons.injEq, and_true]
    omega
  | case4 => cases h
  | case5 a b c hrest =>
    cases h
    simp only [List.forall_mem_cons] at hns
    simp only [sextets, UInt8.toNat_ofNat', List.cons.injEq, and_true]
    omega
  | case6 => cases h
  | case7 a b c d rest ih =>
    obtain ⟨tail, htail, rfl⟩ : ∃ tail, pack rest = some tail ∧ UInt8.ofNat (a * 4 + b / 16) ::
        UInt8.ofNat (b % 16 * 16 + c / 4) :: UInt8.ofNat (c % 4 * 64 + d) :: tail = bs := by
      simpa [Option.bind_eq_some_iff] using h
    simp only [List.forall_mem_cons] at hns
    obtain ⟨ha, hb, hc, hd, hrest⟩ := hns
    simp only [sextets, UInt8.toNat_ofNat', List.cons.injEq, ih hrest htail, and_true]
    omega

/-! ### Reading -/

/-- **Letters are read as the bytes whose letters they are.** -/
theorem decode?_eq_some_iff {cs : List Char} {bs : Bytes} : decode? cs = some bs ↔ cs = encode bs := by
  rw [decode?, encode_eq_map]
  constructor
  · intro h
    obtain ⟨ns, hns, hpack⟩ := Option.bind_eq_some_iff.mp h
    obtain ⟨hlt, rfl⟩ := mapM_index?_iff.mp hns
    rw [sextets_of_pack hlt hpack]
  · rintro rfl
    exact Option.bind_eq_some_iff.mpr ⟨sextets bs, mapM_index?_iff.mpr ⟨lt_of_mem_sextets bs, rfl⟩, pack_sextets bs⟩

theorem encode_inj {as bs : Bytes} (h : encode as = encode bs) : as = bs :=
  Option.some.inj ((decode?_eq_some_iff.mpr rfl).symm.trans (decode?_eq_some_iff.mpr h))

theorem dot_notMem_encode (bs : Bytes) : '.' ∉ encode bs := by
  rw [encode_eq_map]
  intro h
  obtain ⟨n, hn, hdot⟩ := List.mem_map.mp h
  exact letter_ne_dot (lt_of_mem_sextets bs n hn) hdot

end Parley.Text.Base64Url
