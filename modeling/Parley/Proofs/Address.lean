import Mathlib.Data.List.DropRight
import Mathlib.Data.List.Flatten
import Parley.Config
import Parley.Proofs.Query

/-!
# The address of the broker

The password of the broker stands in its address as it is. `Endpoint.ofAddress` reads an address as any client does:
the authority ends where a path, a query or a fragment begins, the credentials end at its last at sign, and their
escapes are put back.

* `Endpoint.ofAuthority_of_at` and `Endpoint.password_sublist` say what an authority with credentials comes to, and
  that no more can come of one than is written there.
* `redisUrl_read` is the result: place and password are read back exactly where every character of the password
  stands for itself, and an address that was made is made into itself.
-/

namespace Parley

open Text.Utf8 (encode encode_ofList)

open Http.Query (percentDecode Escaped length_percentDecode_le percentDecode_eq_self_iff)

/-! ### Reading an address -/

/-- Where an address leads, and with which password. -/
structure Endpoint where
  place : String
  password : Option Bytes
deriving DecidableEq, Repr

namespace Endpoint

/-- What stands behind the two slashes of an address. -/
def afterSlashes : List Char → List Char
  | '/' :: '/' :: cs => cs
  | _ :: cs => afterSlashes cs
  | [] => []

def EndsAuthority (c : Char) : Prop := c = '/' ∨ c = '?' ∨ c = '#'

instance : DecidablePred EndsAuthority := fun _ => inferInstanceAs (Decidable (_ ∨ _))

def authority (cs : List Char) : List Char := (afterSlashes cs).takeWhile fun c => ¬ EndsAuthority c

/-- The place stands behind the last at sign, and the credentials before it; the password is what follows their first
colon. -/
def ofAuthority (cs : List Char) : Endpoint where
  place := String.ofList (cs.rtakeWhile (· ≠ '@'))
  password := match (cs.rdropWhile (· ≠ '@')).dropLast.dropWhile (· ≠ ':') with
    | _ :: secret => some (percentDecode (encode (String.ofList secret)))
    | [] => none

def ofAddress (address : String) : Endpoint := ofAuthority (authority address.toList)

variable {cs ds : List Char}

theorem ofAuthority_of_at (h : '@' ∉ ds) : ofAuthority (':' :: cs ++ '@' :: ds) =
    ⟨String.ofList ds, some (percentDecode (encode (String.ofList cs)))⟩ := by
  have hds : ∀ c ∈ ds.reverse, decide (c ≠ '@') = true := by
    intro c hc
    refine decide_eq_true fun heq => h ?_
    exact heq ▸ List.mem_reverse.mp hc
  have hreverse : (':' :: cs ++ '@' :: ds).reverse = ds.reverse ++ '@' :: (':' :: cs).reverse := by simp
  have hplace : (':' :: cs ++ '@' :: ds).rtakeWhile (· ≠ '@') = ds := by
    rw [List.rtakeWhile, hreverse, List.takeWhile_append_of_pos hds, List.takeWhile_cons_of_neg (by simp),
      List.append_nil, List.reverse_reverse]
  have hcredentials : (':' :: cs ++ '@' :: ds).rdropWhile (· ≠ '@') = ':' :: cs ++ ['@'] := by
    rw [List.rdropWhile, hreverse, List.dropWhile_append_of_pos hds, List.dropWhile_cons_of_neg (by simp),
      List.reverse_cons, List.reverse_reverse]
  rw [ofAuthority, hplace, hcredentials, List.dropLast_concat, List.dropWhile_cons_of_neg (by simp)]

theorem password_sublist {b : Bytes} (h : (ofAuthority cs).password = some b) :
    ∃ secret, (':' :: secret).Sublist cs ∧ b = percentDecode (encode (String.ofList secret)) := by
  unfold ofAuthority at h
  simp only at h
  split at h
  · rename_i c secret hdrop
    obtain rfl := Option.some.inj h
    have hcolon : c = ':' := by
      have hhead := List.head?_dropWhile_not (fun c => decide (c ≠ ':')) (cs.rdropWhile (· ≠ '@')).dropLast
      rw [hdrop] at hhead
      simpa using hhead
    refine ⟨secret, ?_, rfl⟩
    rw [← hcolon, ← hdrop]
    have hprefix : cs.rdropWhile (· ≠ '@') <+: cs := List.rdropWhile_prefix _ _
    exact (List.dropWhile_sublist _).trans ((List.dropLast_sublist _).trans hprefix.sublist)
  · cases h

theorem length_encode_lt (hs : cs.Sublist ds) (c : Char) (rest : List Char) :
    (encode (String.ofList cs)).length < (encode (String.ofList (ds ++ c :: rest))).length := by
  have hle := (hs.flatMap String.utf8EncodeChar).length_le
  have hpos := c.utf8Size_pos
  rw [encode_ofList, encode_ofList, List.flatMap_append, List.flatMap_cons, List.length_append, List.length_append,
    String.length_utf8EncodeChar]
  omega

end Endpoint

/-! ### The address that is made -/

namespace Config

open Endpoint

variable {c : Config} {place password : String}

/-- An address that names a place, with its scheme or without: nothing in it means anything else. -/
structure Leads (address place : String) : Prop where
  written : address = place ∨ address = "redis://" ++ place
  plain : ∀ ch ∈ place.toList, ch ≠ '@' ∧ ¬ EndsAuthority ch

/-- Every character of a password stands for itself in an address: none ends the authority, and there is no escape. -/
structure Literal (password : String) : Prop where
  open_ : ∀ ch ∈ password.toList, ¬ EndsAuthority ch
  unescaped : ¬ Escaped (encode password)

theorem stripScheme_append (cs : List Char) : stripScheme (scheme ++ cs) = cs := by
  have h : scheme.isPrefixOf (scheme ++ cs) = true := List.isPrefixOf_iff_prefix.mpr (List.prefix_append _ _)
  rw [stripScheme, if_pos h, List.drop_left]

theorem Leads.stripScheme_eq {address : String} (h : Leads address place) :
    stripScheme address.toList = place.toList := by
  rcases h.written with rfl | rfl
  · refine if_neg fun hprefix => ?_
    have hmem : '/' ∈ address.toList := (List.isPrefixOf_iff_prefix.mp hprefix).subset (by decide)
    exact (h.plain _ hmem).2 (.inl rfl)
  · rw [String.toList_append]
    exact stripScheme_append _

/-- The address has its scheme, and an at sign if there is a password. -/
theorem redisUrl_eq (c : Config) : ∃ rest, c.redisUrl = String.ofList (scheme ++ rest) ∧
    (c.redisPassword.isSome → rest.contains '@' = true) := by
  unfold redisUrl
  cases c.redisPassword with
  | none => exact ⟨_, rfl, by simp⟩
  | some password =>
    dsimp only
    split
    · exact ⟨_, rfl, fun _ => ‹_›⟩
    · exact ⟨_, rfl, fun _ => by simp⟩

theorem toList_redisUrl (h : Leads c.redisAddr place) (hpassword : c.redisPassword = some password) :
    c.redisUrl.toList = scheme ++ (':' :: password.toList ++ '@' :: place.toList) := by
  have hat : place.toList.contains '@' = false := by
    rw [← Bool.not_eq_true, List.contains_iff_mem]
    exact fun hmem => (h.plain _ hmem).1 rfl
  simp only [redisUrl, h.stripScheme_eq, hpassword, hat, Bool.false_eq_true, if_false, String.toList_ofList]
  rfl

/-- Where no character of the password ends the authority, the authority is all there is. -/
theorem ofAddress_of_open (h : Leads c.redisAddr place) (hpassword : c.redisPassword = some password)
    (hopen : ∀ ch ∈ password.toList, ¬ EndsAuthority ch) :
    ofAddress c.redisUrl = ⟨place, some (percentDecode (encode password))⟩ := by
  have hall : ∀ ch ∈ ':' :: password.toList ++ '@' :: place.toList, decide (¬ EndsAuthority ch) = true := by
    intro ch hch
    rw [decide_eq_true_iff]
    rcases List.mem_append.mp hch with hch | hch <;> rcases List.mem_cons.mp hch with rfl | hch
    · decide
    · exact hopen ch hch
    · decide
    · exact (h.plain ch hch).2
  have hauthority : authority c.redisUrl.toList = ':' :: password.toList ++ '@' :: place.toList := by
    rw [authority, toList_redisUrl h hpassword]
    exact List.takeWhile_eq_self_iff.mpr hall
  rw [ofAddress, hauthority, ofAuthority_of_at fun hmem => (h.plain _ hmem).1 rfl, String.ofList_toList,
    String.ofList_toList]

/-- Where one does, only what stands before it can be read as a password. -/
theorem password_ofAddress_ne (h : Leads c.redisAddr place) (hpassword : c.redisPassword = some password) {ch : Char}
    (hmem : ch ∈ password.toList) (hends : EndsAuthority ch) :
    (ofAddress c.redisUrl).password ≠ some (encode password) := by
  intro hread
  let p : Char → Bool := fun c => ¬ EndsAuthority c
  obtain ⟨last, rest, hrest⟩ : ∃ last rest, password.toList.dropWhile p = last :: rest := by
    refine List.ne_nil_iff_exists_cons.mp fun hnil => ?_
    have hall := List.dropWhile_eq_nil_iff.mp hnil ch hmem
    simp [p, hends] at hall
  have hlast : p last = false := by
    have hhead := List.head?_dropWhile_not p password.toList
    rw [hrest] at hhead
    simpa using hhead
  have hsplit : password.toList = password.toList.takeWhile p ++ last :: rest := by
    rw [← hrest, List.takeWhile_append_dropWhile]
  have hauthority : authority c.redisUrl.toList = ':' :: password.toList.takeWhile p := by
    have hbefore : ∀ c ∈ ':' :: password.toList.takeWhile p, p c = true := by
      intro c hc
      rcases List.mem_cons.mp hc with rfl | hc
      · decide
      · exact List.mem_takeWhile_imp hc
    have hbehind : ':' :: password.toList ++ '@' :: place.toList =
        (':' :: password.toList.takeWhile p) ++ last :: (rest ++ '@' :: place.toList) := by
      conv_lhs => rw [hsplit]
      simp
    rw [authority, toList_redisUrl h hpassword, hbehind]
    show List.takeWhile p (':' :: password.toList.takeWhile p ++ last :: (rest ++ '@' :: place.toList)) = _
    rw [List.takeWhile_append_of_pos hbefore, List.takeWhile_cons_of_neg (by simp [hlast]), List.append_nil]
  rw [ofAddress, hauthority] at hread
  obtain ⟨secret, hsublist, heq⟩ := password_sublist hread
  have hlt := length_encode_lt (List.cons_sublist_cons.mp hsublist) last rest
  have hle := length_percentDecode_le (encode (String.ofList secret))
  rw [← hsplit, String.ofList_toList, heq] at hlt
  omega

/-- What the address of the broker holds. -/
structure Addressed (c : Config) : Prop where
  /-- The place and the password are read back from it exactly if the password is literal. -/
  read_iff : ∀ place password, Leads c.redisAddr place → c.redisPassword = some password →
    (ofAddress c.redisUrl = ⟨place, some (encode password)⟩ ↔ Literal password)
  /-- An address that was made is made into itself. -/
  again : { c with redisAddr := c.redisUrl }.redisUrl = c.redisUrl

/-- **The broker's address gives its place and its password back** exactly where every character of the password
stands for itself: it is not written with escapes. -/
theorem redisUrl_read (c : Config) : Addressed c where
  read_iff place password h hpassword := by
    by_cases hopen : ∀ ch ∈ password.toList, ¬ EndsAuthority ch
    · rw [ofAddress_of_open h hpassword hopen, Endpoint.mk.injEq, Option.some.injEq, percentDecode_eq_self_iff]
      exact ⟨fun heq => ⟨hopen, heq.2⟩, fun hliteral => ⟨rfl, hliteral.unescaped⟩⟩
    · refine iff_of_false (fun heq => ?_) fun hliteral => hopen hliteral.open_
      obtain ⟨ch, hmem, hends⟩ : ∃ ch ∈ password.toList, EndsAuthority ch := by simpa using hopen
      exact password_ofAddress_ne h hpassword hmem hends (congrArg Endpoint.password heq)
  again := by
    obtain ⟨rest, hrest, hat⟩ := redisUrl_eq c
    rw [hrest]
    unfold redisUrl
    rw [String.toList_ofList, stripScheme_append]
    cases hpassword : c.redisPassword with
    | none => rfl
    | some password => exact if_pos (hat (by rw [hpassword]; rfl))

/-- A slash in the password ends the authority: neither the place nor the password is read. -/
theorem password_cut_off :
    let c : Config := { redisAddr := "cache:6379", redisPassword := some "s3/cret" }
    c.redisUrl = "redis://:s3/cret@cache:6379" ∧ Leads c.redisAddr "cache:6379" ∧
      ofAddress c.redisUrl = ⟨":s3", none⟩ ∧ ofAddress c.redisUrl ≠ ⟨"cache:6379", some (encode "s3/cret")⟩ := by
  refine ⟨by decide +kernel, ⟨.inl rfl, by simp [EndsAuthority]⟩, by decide +kernel, by decide +kernel⟩

end Config

end Parley
