import Mathlib.Data.List.Infix
import Mathlib.Data.Option.Basic
import Parley.Like

/-!
# What patterns of text search match

`Matches` says by the characters of a pattern what it matches, and `accepts_iff` that this is what is accepted. The
pattern for a text anywhere inside another has the parts that it should have, whatever characters the text is of
(`parts?_containing`), and matches the texts in which it stands: `accepts_containing`, for every way of comparing
characters by what is made of them.
-/

namespace Parley.Like

/-- A pattern matches a text: an escaped character and one without a meaning of its own match one that is the same,
`_` any one, and `%` any sequence. -/
inductive Matches (same : Char → Char → Bool) : List Char → List Char → Prop
  | nil : Matches same [] []
  | escaped {c d : Char} {p s : List Char} (h : same c d = true) (rest : Matches same p s) :
      Matches same ('\\' :: c :: p) (d :: s)
  | plain {c d : Char} {p s : List Char} (hplain : isSpecial c = false) (h : same c d = true)
      (rest : Matches same p s) :
      Matches same (c :: p) (d :: s)
  | anyChar {p s : List Char} (d : Char) (rest : Matches same p s) : Matches same ('_' :: p) (d :: s)
  | anySequence {p s : List Char} (t : List Char) (rest : Matches same p s) : Matches same ('%' :: p) (t ++ s)

variable {same : Char → Char → Bool} {p s : List Char} {ps : List Part}

/-! ### Parts -/

theorem matchParts_char {c : Char} : matchParts same (.char c :: ps) s = true ↔
    ∃ d t, s = d :: t ∧ same c d = true ∧ matchParts same ps t = true := by
  cases s <;> simp [matchParts]

theorem matchParts_anyChar :
    matchParts same (.anyChar :: ps) s = true ↔ ∃ d t, s = d :: t ∧ matchParts same ps t = true := by
  cases s <;> simp [matchParts]

theorem matchParts_anySequence :
    matchParts same (.anySequence :: ps) s = true ↔ ∃ t r, s = t ++ r ∧ matchParts same ps r = true := by
  simp only [matchParts, List.any_eq_true, Text.mem_suffixes]
  exact ⟨fun ⟨r, ⟨t, hs⟩, h⟩ => ⟨t, r, hs, h⟩, fun ⟨t, r, hs, h⟩ => ⟨r, ⟨t, hs⟩, h⟩⟩

theorem parts?_plain {c : Char} (h : isSpecial c = false) (p : List Char) :
    parts? (c :: p) = (parts? p).map (.char c :: ·) := by
  have hne : c ≠ '%' ∧ c ≠ '_' ∧ c ≠ '\\' := by simpa [isSpecial, and_assoc] using h
  obtain ⟨hpercent, hunderscore, hslash⟩ := hne
  cases p <;> simp_all [parts?]

/-- What the parts of a pattern match, the pattern matches. -/
theorem matches_of_matchParts (hp : parts? p = some ps) (h : matchParts same ps s = true) : Matches same p s := by
  fun_induction parts? p generalizing ps s with
  | case1 =>
    cases hp
    obtain rfl : s = [] := by simpa [matchParts] using h
    exact .nil
  | case2 c p ih =>
    obtain ⟨qs, hqs, rfl⟩ := Option.map_eq_some_iff.mp hp
    obtain ⟨d, t, rfl, hsame, hrest⟩ := matchParts_char.mp h
    exact .escaped hsame (ih hqs hrest)
  | case3 => cases hp
  | case4 p ih =>
    obtain ⟨qs, hqs, rfl⟩ := Option.map_eq_some_iff.mp hp
    obtain ⟨t, r, rfl, hrest⟩ := matchParts_anySequence.mp h
    exact .anySequence t (ih hqs hrest)
  | case5 p ih =>
    obtain ⟨qs, hqs, rfl⟩ := Option.map_eq_some_iff.mp hp
    obtain ⟨d, t, rfl, hrest⟩ := matchParts_anyChar.mp h
    exact .anyChar d (ih hqs hrest)
  | case6 c p hescape hdangling hpercent hunderscore ih =>
    obtain ⟨qs, hqs, rfl⟩ := Option.map_eq_some_iff.mp hp
    obtain ⟨d, t, rfl, hsame, hrest⟩ := matchParts_char.mp h
    have hslash : c ≠ '\\' := by
      rintro rfl
      cases p with
      | nil => exact hdangling rfl rfl
      | cons d p => exact hescape d p rfl rfl
    exact .plain (by simp [isSpecial, hslash, show c ≠ '%' from hpercent, show c ≠ '_' from hunderscore]) hsame
      (ih hqs hrest)

theorem matchParts_of_matches (h : Matches same p s) : ∃ ps, parts? p = some ps ∧ matchParts same ps s = true := by
  induction h with
  | nil => exact ⟨[], rfl, rfl⟩
  | escaped h _ ih =>
    obtain ⟨ps, hps, hmatch⟩ := ih
    exact ⟨_, by rw [parts?, hps]; rfl, matchParts_char.mpr ⟨_, _, rfl, h, hmatch⟩⟩
  | plain hplain h _ ih =>
    obtain ⟨ps, hps, hmatch⟩ := ih
    exact ⟨_, by rw [parts?_plain hplain, hps]; rfl, matchParts_char.mpr ⟨_, _, rfl, h, hmatch⟩⟩
  | anyChar d _ ih =>
    obtain ⟨ps, hps, hmatch⟩ := ih
    exact ⟨_, by rw [parts?, hps]; rfl, matchParts_anyChar.mpr ⟨_, _, rfl, hmatch⟩⟩
  | anySequence t _ ih =>
    obtain ⟨ps, hps, hmatch⟩ := ih
    exact ⟨_, by rw [parts?, hps]; rfl, matchParts_anySequence.mpr ⟨_, _, rfl, hmatch⟩⟩

/-- **A pattern accepts what it matches.** -/
theorem accepts_iff {pattern text : String} :
    accepts same pattern text = true ↔ Matches same pattern.toList text.toList := by
  unfold accepts
  constructor
  · intro h
    cases hp : parts? pattern.toList with
    | none => simp [hp] at h
    | some ps => exact matches_of_matchParts hp (by simpa [hp] using h)
  · intro h
    obtain ⟨ps, hp, hmatch⟩ := matchParts_of_matches h
    rw [hp]
    exact hmatch

/-! ### A text anywhere inside another -/

theorem parts?_escape (cs p : List Char) : parts? (escape cs ++ p) = (parts? p).map (cs.map .char ++ ·) := by
  induction cs with
  | nil => simp [escape]
  | cons c cs ih =>
    have hcons : escape (c :: cs) ++ p = (if isSpecial c then ['\\', c] else [c]) ++ (escape cs ++ p) := by
      simp [escape]
    rw [hcons]
    split_ifs with hspecial
    · simp [parts?, ih, Function.comp_def]
    · rw [List.singleton_append, parts?_plain (by simpa using hspecial), ih]
      simp [Function.comp_def]

/-- The pattern for a text is any sequence, the characters of the text, and any sequence: none of them has a meaning of
its own, and no backslash at the end of the text takes the last part away. -/
theorem parts?_containing (query : String) :
    parts? (containing query).toList = some (.anySequence :: (query.toList.map .char ++ [.anySequence])) := by
  have hlist : (containing query).toList = '%' :: (escape query.toList ++ ['%']) := by
    simp [containing, show "%".toList = ['%'] from rfl]
  rw [hlist, parts?, parts?_escape]
  rfl

variable {α : Type} [DecidableEq α] (f : Char → α)

theorem matchParts_chars (cs : List Char) : matchParts (fun a b => f a == f b) (cs.map .char ++ ps) s = true ↔
    ∃ t r, s = t ++ r ∧ cs.map f = t.map f ∧ matchParts (fun a b => f a == f b) ps r = true := by
  induction cs generalizing s with
  | nil => exact ⟨fun h => ⟨[], s, rfl, rfl, h⟩, by rintro ⟨t, r, rfl, ht, h⟩; simp_all⟩
  | cons c cs ih =>
    rw [List.map_cons, List.cons_append, matchParts_char]
    constructor
    · rintro ⟨d, u, rfl, hsame, hrest⟩
      obtain ⟨t, r, rfl, ht, hr⟩ := ih.mp hrest
      exact ⟨d :: t, r, rfl, by simp [ht, eq_of_beq hsame], hr⟩
    · rintro ⟨t, r, rfl, ht, hr⟩
      cases t with
      | nil => cases ht
      | cons d t =>
        obtain ⟨hsame, ht⟩ := List.cons.inj ht
        exact ⟨d, t ++ r, rfl, by simp [hsame], ih.mpr ⟨t, r, rfl, ht, hr⟩⟩

/-- **The pattern for a text matches the texts in which it stands**, characters being compared by what `f` makes of
them. -/
theorem accepts_containing (query text : String) : accepts (fun a b => f a == f b) (containing query) text = true ↔
    query.toList.map f <:+: text.toList.map f := by
  rw [accepts, parts?_containing]
  simp only [matchParts_anySequence, matchParts_chars]
  constructor
  · rintro ⟨t, r, htext, u, v, rfl, hu, -⟩
    exact ⟨t.map f, v.map f, by simp [htext, hu]⟩
  · rintro ⟨before, after, h⟩
    obtain ⟨t, u, htext, ht, hu⟩ := List.map_eq_append_iff.mp h.symm
    obtain ⟨t, v, rfl, rfl, hv⟩ := List.map_eq_append_iff.mp ht
    exact ⟨t, v ++ u, by rw [htext, List.append_assoc], v, u, rfl, hv.symm, u, [], (List.append_nil u).symm, rfl⟩

end Parley.Like
