import Parley.Proofs.Admission.Answers
import Parley.Proofs.Json.Printed

/-!
# The secret of an upgrade

Without a token key an upgrade names its person itself, and presents a secret where one is configured: in the
authorization header or as the token of the query.

* `Presents` is what the header says, and `bearer_eq_some_iff` that this is what is read of it.
* `Lets` is what should let an upgrade in: the secret in either place. `secret_guards` says what does, in every
  case, and where this differs: a header with anything else than the secret hides the right token.
  `wrong_header_hides` is such a case.
-/

namespace Parley

open Text (isBlank trimChars)

/-! ### White space -/

namespace Text

variable {before cs after : List Char}

theorem trimChars_append (hbefore : ∀ c ∈ before, isBlank c = true) (hafter : ∀ c ∈ after, isBlank c = true) :
    trimChars (before ++ cs ++ after) = trimChars cs := by
  have hback : ∀ c ∈ after.reverse, isBlank c = true := fun c hc => hafter c (List.mem_reverse.mp hc)
  simp only [trimChars, List.append_assoc, List.dropWhile_append, List.dropWhile_eq_nil_iff.mpr hbefore,
    List.isEmpty_nil, if_true]
  -- what is trimmed away at the front may go on into the end, if there is nothing else between
  split_ifs with hempty
  · simp [List.isEmpty_iff.mp hempty, List.dropWhile_eq_nil_iff.mpr hafter]
  · simp [List.dropWhile_append, List.dropWhile_eq_nil_iff.mpr hback]

theorem exists_eq_append_trimChars (cs : List Char) : ∃ before after, (∀ c ∈ before, isBlank c = true) ∧
    (∀ c ∈ after, isBlank c = true) ∧ cs = before ++ trimChars cs ++ after := by
  refine ⟨cs.takeWhile isBlank, (cs.dropWhile isBlank).rtakeWhile isBlank, fun c => List.mem_takeWhile_imp,
    fun c => List.mem_rtakeWhile_imp, ?_⟩
  rw [trimChars_eq, List.append_assoc, List.rdropWhile_append_rtakeWhile, List.takeWhile_append_dropWhile]

end Text

/-! ### The header -/

/-- A value of characters that can be read is read as its text. -/
theorem readable?_encode {text : String} (h : ∀ c ∈ text.toList, ' ' ≤ c ∧ c ≤ '~') :
    readable? (Text.Utf8.encode text) = some text.toList := by
  have hbounds : ∀ c ∈ text.toList, 32 ≤ c.toNat ∧ c.toNat ≤ 126 := h
  have hbyte : ∀ c ∈ text.toList, (UInt8.ofNat c.toNat).toNat = c.toNat := by
    intro c hc
    have hc := hbounds c hc
    rw [UInt8.toNat_ofNat']
    omega
  have hbytes : Text.Utf8.encode text = text.toList.map fun c => UInt8.ofNat c.toNat := by
    rw [Text.Utf8.encode_eq, List.map_eq_flatMap]
    refine List.flatMap_congr fun c hc => Text.Utf8.utf8EncodeChar_of_lt ?_
    have hc := hbounds c hc
    omega
  rw [readable?, hbytes, if_pos]
  · rw [List.map_map, List.map_congr_left (g := id) fun c hc => ?_, List.map_id]
    rw [Function.comp_apply, hbyte c hc, Char.ofNat_toNat]
    rfl
  · simp only [List.all_map, List.all_eq_true, Function.comp_apply, Bool.or_eq_true, Bool.and_eq_true,
      decide_eq_true_eq]
    intro c hc
    have hc' := hbounds c hc
    refine .inr ⟨?_, ?_⟩
    · rw [UInt8.le_iff_toNat_le, hbyte c hc]
      exact hc'.1
    · rw [UInt8.lt_iff_toNat_lt, hbyte c hc]
      exact Nat.lt_succ_of_le hc'.2

def Config.guardedBy (config : Config) (s : String) : Config := { config with jwtSecret := none, wsSecret := some s }

namespace Identity

variable {hs : Headers} {text other s : String} {token user : Option String}

/-- The first authorization header presents this text: it has the scheme and then the text, which is not empty and
may have white space about it. -/
structure Presents (hs : Headers) (text : String) : Prop where
  nonempty : text ≠ ""
  trimmed : Text.trim text = text
  value : ∃ value before after, (hs.all "authorization").head? = some value ∧
    (∀ c ∈ before, isBlank c = true) ∧ (∀ c ∈ after, isBlank c = true) ∧
    readable? value = some ("Bearer ".toList ++ (before ++ text.toList ++ after))

theorem bearer_eq_some_iff : bearer hs = some text ↔ Presents hs text := by
  have hread : bearer hs = some text ↔ ∃ value, (hs.all "authorization").head? = some value ∧ ∃ chars,
      readable? value = some chars ∧ bearerScheme <+: chars ∧ trimChars (chars.drop bearerScheme.length) ≠ [] ∧
        String.ofList (trimChars (chars.drop bearerScheme.length)) = text := by
    unfold bearer
    simp [Option.bind_eq_some_iff, guard]
  rw [hread]
  constructor
  · rintro ⟨value, hvalue, _, hchars, ⟨rest, rfl⟩, hne, rfl⟩
    rw [List.drop_left] at hne ⊢
    obtain ⟨before, after, hbefore, hafter, hrest⟩ := Text.exists_eq_append_trimChars rest
    refine ⟨?_, ?_, value, before, after, hvalue, hbefore, hafter, ?_⟩
    · simpa using hne
    · rw [Text.trim, String.toList_ofList, Text.trimChars_trimChars]
    · rw [hchars, show (String.ofList (trimChars rest)).toList = trimChars rest from String.toList_ofList, ← hrest]
      rfl
  · rintro ⟨hne, htrim, value, before, after, hvalue, hbefore, hafter, hchars⟩
    have htrim := congrArg String.toList htrim
    rw [Text.trim, String.toList_ofList] at htrim
    refine ⟨value, hvalue, _, hchars, List.prefix_append _ _, ?_⟩
    rw [show bearerScheme = "Bearer ".toList from rfl, List.drop_left, Text.trimChars_append hbefore hafter, htrim]
    exact ⟨by simpa using hne, String.ofList_toList⟩

theorem Presents.unique (h : Presents hs text) (h' : Presents hs other) : text = other :=
  Option.some.inj ((bearer_eq_some_iff.mpr h).symm.trans (bearer_eq_some_iff.mpr h'))

/-- The scheme, a blank and a text that can be read, as one sends them. -/
theorem presents_of_value (hne : text ≠ "") (htrim : Text.trim text = text)
    (hread : ∀ c ∈ text.toList, ' ' ≤ c ∧ c ≤ '~')
    (h : (hs.all "authorization").head? = some (Text.Utf8.encode ("Bearer " ++ text))) : Presents hs text := by
  refine ⟨hne, htrim, _, [], [], h, nofun, nofun, ?_⟩
  rw [readable?_encode]
  · simp
  · rw [String.toList_append]
    exact List.forall_mem_append.mpr ⟨by simp, hread⟩

/-! ### The upgrade -/

/-- An upgrade carries the secret: in the header or as the token of the query. -/
def Carries (hs : Headers) (token : Option String) (s : String) : Prop := Presents hs s ∨ token = some s

/-- What should let an upgrade in: its person and the secret, in either place. -/
def Lets (hs : Headers) (token user : Option String) (s : String) (result : Except Fault String) : Prop :=
  (∀ u, result = .ok u ↔ user = some u ∧ u ≠ "" ∧ Carries hs token s) ∧
    (¬ Carries hs token s → result = .error .badSecret)

/-- The header does not present anything else. -/
def Undisputed (hs : Headers) (s : String) : Prop := ∀ other, Presents hs other → other = s

theorem presented_eq_iff : (bearer hs).or token = some s ↔ Carries hs token s ∧ Undisputed hs s := by
  cases hbearer : bearer hs with
  | none =>
    have hnone : ∀ other, ¬ Presents hs other := by
      intro other h
      rw [bearer_eq_some_iff.mpr h] at hbearer
      cases hbearer
    simp [Carries, Undisputed, hnone]
  | some other =>
    have hother := bearer_eq_some_iff.mp hbearer
    rw [Option.some_or, Option.some.injEq]
    constructor
    · rintro rfl
      exact ⟨.inl hother, fun _ h => h.unique hother⟩
    · exact fun h => h.2 other hother

/-- What an upgrade comes to where a secret is to be presented. -/
structure Guarded (hs : Headers) (token user : Option String) (s : String) (result : Except Fault String) : Prop where
  /-- The header as one sends it presents the secret. -/
  sent : s ≠ "" → Text.trim s = s → (∀ c ∈ s.toList, ' ' ≤ c ∧ c ≤ '~') →
    (hs.all "authorization").head? = some (Text.Utf8.encode ("Bearer " ++ s)) → Presents hs s
  ok_iff : ∀ u, result = .ok u ↔ user = some u ∧ u ≠ "" ∧ Carries hs token s ∧ Undisputed hs s
  badSecret_iff : result = .error .badSecret ↔ ¬ (Carries hs token s ∧ Undisputed hs s)
  missingUserId_iff : result = .error .missingUserId ↔
    (Carries hs token s ∧ Undisputed hs s) ∧ ∀ u, user = some u → u = ""
  /-- Either place is enough, but for the token of somebody who names a person and has something else in the header. -/
  lets_iff : Lets hs token user s result ↔
    ¬ (token = some s ∧ (∃ other, Presents hs other ∧ other ≠ s) ∧ ∃ u, user = some u ∧ u ≠ "")

/-- The secret is looked at first, and then the person. -/
theorem ofUpgrade_cases (now : ℕ) (config : Config) (hs : Headers) (token user : Option String) (s : String) :
    (¬ (Carries hs token s ∧ Undisputed hs s) ∧ ofUpgrade now (config.guardedBy s) hs token user = .error .badSecret) ∨
    (Carries hs token s ∧ Undisputed hs s) ∧
      ((∃ u, user = some u ∧ u ≠ "" ∧ ofUpgrade now (config.guardedBy s) hs token user = .ok u) ∨
        ((∀ u, user = some u → u = "") ∧ ofUpgrade now (config.guardedBy s) hs token user =
          .error .missingUserId)) := by
  rw [← presented_eq_iff]
  by_cases h : (bearer hs).or token = some s
  · refine .inr ⟨h, ?_⟩
    cases user with
    | none => exact .inr ⟨nofun, by simp [ofUpgrade, Config.guardedBy, h]⟩
    | some u =>
      by_cases hu : u = ""
      · exact .inr ⟨by simp [hu], by simp [ofUpgrade, Config.guardedBy, h, hu, Option.filter]⟩
      · exact .inl ⟨u, rfl, hu, by simp [ofUpgrade, Config.guardedBy, h, hu, Option.filter]⟩
  · exact .inl ⟨h, by simp [ofUpgrade, Config.guardedBy, h]⟩

/-- **The secret guards every upgrade**, whatever its headers and its query. -/
theorem secret_guards (now : ℕ) (config : Config) (hs : Headers) (token user : Option String) (s : String) :
    Guarded hs token user s (ofUpgrade now (config.guardedBy s) hs token user) := by
  have hcases := ofUpgrade_cases now config hs token user s
  generalize ofUpgrade now (config.guardedBy s) hs token user = result at hcases ⊢
  have hok : ∀ u, result = .ok u ↔ user = some u ∧ u ≠ "" ∧ Carries hs token s ∧ Undisputed hs s := by
    intro u
    obtain ⟨h, rfl⟩ | ⟨h, ⟨v, rfl, hv, rfl⟩ | ⟨hnone, rfl⟩⟩ := hcases
    · simp [h]
    · simp only [Except.ok.injEq, Option.some.injEq]
      exact ⟨fun heq => ⟨heq, heq ▸ hv, h⟩, fun h => h.1⟩
    · exact ⟨nofun, fun hu => absurd (hnone u hu.1) hu.2.1⟩
  have hbad : result = .error .badSecret ↔ ¬ (Carries hs token s ∧ Undisputed hs s) := by
    obtain ⟨h, rfl⟩ | ⟨h, ⟨v, rfl, hv, rfl⟩ | ⟨hnone, rfl⟩⟩ := hcases <;> simp [h]
  refine ⟨presents_of_value, hok, hbad, ?missing, ?lets⟩
  case missing =>
    obtain ⟨h, rfl⟩ | ⟨h, ⟨v, rfl, hv, rfl⟩ | ⟨hnone, rfl⟩⟩ := hcases
    · simp [h]
    · simp [hv]
    · exact iff_of_true rfl ⟨h, hnone⟩
  case lets =>
    constructor
    · rintro ⟨hlets, -⟩ ⟨htoken, ⟨other, hother, hne⟩, u, hu, hnonempty⟩
      obtain ⟨-, -, -, hundisputed⟩ := (hok u).mp ((hlets u).mpr ⟨hu, hnonempty, .inr htoken⟩)
      exact hne (hundisputed other hother)
    · intro hnot
      refine ⟨fun u => (hok u).trans ⟨fun h => ⟨h.1, h.2.1, h.2.2.1⟩, ?_⟩, fun h => hbad.mpr fun h' => h h'.1⟩
      rintro ⟨hu, hnonempty, hcarries⟩
      refine ⟨hu, hnonempty, hcarries, fun other hother => ?_⟩
      by_contra hne
      -- so it is the token that has the secret, and the header hides it
      obtain hheader | htoken := hcarries
      · exact hne (hother.unique hheader)
      · exact hnot ⟨htoken, ⟨other, hother, hne⟩, u, hu, hnonempty⟩

/-- Who knocks with the right token, and with another secret in the header. -/
def strayHeader : Headers := [("authorization", Text.Utf8.encode "Bearer nope")]

/-- Though the secret is there the upgrade is not let in. -/
theorem wrong_header_hides : Carries strayHeader (some "s3cret") "s3cret" ∧
    ofUpgrade 0 { wsSecret := some "s3cret" } strayHeader (some "s3cret") (some "u1") = .error .badSecret ∧
    ¬ Lets strayHeader (some "s3cret") (some "u1") "s3cret"
      (ofUpgrade 0 { wsSecret := some "s3cret" } strayHeader (some "s3cret") (some "u1")) := by
  have hresult : ofUpgrade 0 { wsSecret := some "s3cret" } strayHeader (some "s3cret") (some "u1") =
      .error .badSecret := by
    decide +kernel
  refine ⟨.inr rfl, hresult, fun hlets => ?_⟩
  have hlet := (hlets.1 "u1").mpr ⟨rfl, by decide, .inr rfl⟩
  rw [hresult] at hlet
  cases hlet

end Identity

end Parley
