import Mathlib.Data.List.Forall2
import Parley.Proofs.Admission.Secret
import Parley.Proofs.Requests.Preflight
import Parley.Proofs.Text

/-!
# The tokens of a request

With a token key configured, a request may present a token in three places: the authorization header, a cookie, and the
query. They are tried in this order, and one that is not valid hides none of those behind it.

* `Presents`, `Keeps` and `Offers` say what stands in which place, in terms of the header lines as they were sent;
  `bearer_eq_some_iff` and `cookie_eq_some_iff` that this is what is read of them.
* `Aside` is a change of the headers that concerns none of the three.
* `first_valid_token` says who makes a request, in every case.
-/

namespace Parley

open Text (trimChars Pieces)

def Config.keyedBy (config : Config) (secret : String) : Config := { config with jwtSecret := some secret }

namespace Identity

variable {hs hs' : Headers} {name text : String} {piece n v : List Char} {ps ps' vs : List (List Char)}
  {token : Option String}

/-! ### One cookie -/

/-- A piece of a header sets a name to a value: without the white space at its ends it is the name, the first equals
sign, and the value. -/
structure Sets (piece name value : List Char) : Prop where
  plain : '=' ∉ name
  trimmed : trimChars piece = name ++ '=' :: value

theorem cookiePair_of_sets (h : Sets piece n v) : cookiePair piece = some (n, v) := by
  have hname : ∀ c ∈ n, (c != '=') = true := fun c hc => bne_iff_ne.mpr (ne_of_mem_of_not_mem hc h.plain)
  have hmem : '=' ∈ n ++ '=' :: v := by simp
  simp only [cookiePair, h.trimmed]
  rw [if_pos (List.contains_iff_mem.mpr hmem), List.takeWhile_append_of_pos hname, List.dropWhile_append_of_pos hname]
  simp

theorem sets_of_cookiePair (h : cookiePair piece = some (n, v)) : Sets piece n v := by
  by_cases hmem : '=' ∈ trimChars piece
  · obtain ⟨n', v', hpiece, hplain⟩ := List.eq_append_cons_of_mem hmem
    have hsets : Sets piece n' v' := ⟨hplain, hpiece⟩
    rw [cookiePair_of_sets hsets] at h
    cases h
    exact hsets
  · simp [cookiePair, hmem] at h

/-! ### All cookies -/

/-- The values that pieces set a name to, in order. A piece that sets another name, or none, is passed over. -/
inductive Values (name : List Char) : List (List Char) → List (List Char) → Prop
  | nil : Values name [] []
  | here {piece value : List Char} {ps vs : List (List Char)} (h : Sets piece name value) (rest : Values name ps vs) :
      Values name (piece :: ps) (value :: vs)
  | other {piece : List Char} {ps vs : List (List Char)} (h : ∀ value, ¬ Sets piece name value)
      (rest : Values name ps vs) :
      Values name (piece :: ps) vs

/-- The values of a name among pieces, as they are read. -/
def valuesIn (name : List Char) (ps : List (List Char)) : List (List Char) :=
  ((ps.filterMap cookiePair).filter (·.1 == name)).map (·.2)

theorem valuesIn_append (name : List Char) (ps ps' : List (List Char)) :
    valuesIn name (ps ++ ps') = valuesIn name ps ++ valuesIn name ps' := by
  simp [valuesIn]

theorem values_valuesIn (name : List Char) (ps : List (List Char)) : Values name ps (valuesIn name ps) := by
  induction ps with
  | nil => exact .nil
  | cons piece ps ih =>
    cases hpair : cookiePair piece with
    | none =>
      have hnone : ∀ value, ¬ Sets piece name value := fun value h => by
        rw [cookiePair_of_sets h] at hpair
        cases hpair
      simpa [valuesIn, hpair] using Values.other hnone ih
    | some pair =>
      obtain ⟨m, value⟩ := pair
      have hsets := sets_of_cookiePair hpair
      by_cases hm : m = name
      · subst hm
        simpa [valuesIn, hpair] using Values.here hsets ih
      · have hnone : ∀ value, ¬ Sets piece name value := fun value h => by
          rw [cookiePair_of_sets h] at hpair
          cases hpair
          exact hm rfl
        simpa [valuesIn, hpair, hm] using Values.other hnone ih

theorem values_iff : Values n ps vs ↔ valuesIn n ps = vs := by
  constructor
  · intro h
    induction h with
    | nil => rfl
    | here h _ ih => simpa [valuesIn, cookiePair_of_sets h] using ih
    | @other piece ps vs h _ ih =>
      cases hpair : cookiePair piece with
      | none => simpa [valuesIn, hpair] using ih
      | some pair =>
        have hne : pair.1 ≠ n := by
          rintro rfl
          exact h pair.2 (sets_of_cookiePair hpair)
        simpa [valuesIn, hpair, hne] using ih
  · rintro rfl
    exact values_valuesIn n ps

/-- The values that a request sets a cookie to, in order: in all cookie headers that can be read, between the
semicolons. -/
def Jar (hs : Headers) (name : String) (vs : List (List Char)) : Prop :=
  ∃ pss, List.Forall₂ (Pieces ';') ((hs.all "cookie").filterMap readable?) pss ∧ Values name.toList pss.flatten vs

/-- The pieces of all cookie headers that can be read. -/
def cookiePieces (hs : Headers) : List (List Char) :=
  ((hs.all "cookie").filterMap readable?).flatMap (·.splitOnP (· == ';'))

theorem jar_iff : Jar hs name vs ↔ valuesIn name.toList (cookiePieces hs) = vs := by
  have hsplit : ∀ texts pss, List.Forall₂ (Pieces ';') texts pss ↔ texts.map (·.splitOnP (· == ';')) = pss := by
    intro texts pss
    rw [← List.forall₂_eq_eq_eq, List.forall₂_map_left_iff]
    simp only [Text.splitOnP_eq_iff]
  simp [Jar, hsplit, values_iff, cookiePieces, List.flatMap_def]

/-- A cookie keeps a text: it is the first of its values that is not empty. -/
def Keeps (hs : Headers) (name text : String) : Prop :=
  text ≠ "" ∧ ∃ earlier later, Jar hs name (earlier ++ text.toList :: later) ∧ ∀ v ∈ earlier, v = []

theorem cookie_eq (hs : Headers) (name : String) :
    cookie hs name = ((valuesIn name.toList (cookiePieces hs)).find? (!·.isEmpty)).map String.ofList := by
  unfold cookie valuesIn cookiePieces
  rw [List.find?_map, List.find?_filter, List.filterMap_flatMap]
  simp only [Option.map_map, Function.comp_def, Bool.decide_and, Bool.decide_eq_true]

theorem cookie_eq_some_iff : cookie hs name = some text ↔ Keeps hs name text := by
  rw [cookie_eq]
  constructor
  · intro h
    obtain ⟨v, hv, rfl⟩ := Option.map_eq_some_iff.mp h
    obtain ⟨hne, earlier, later, hvalues, hearlier⟩ := List.find?_eq_some_iff_append.mp hv
    refine ⟨by simpa using hne, earlier, later, jar_iff.mpr ?_, fun w hw => by simpa using hearlier w hw⟩
    rw [hvalues, String.toList_ofList]
  · rintro ⟨hne, earlier, later, hjar, hearlier⟩
    have hfind : (earlier ++ text.toList :: later).find? (!·.isEmpty) = some text.toList :=
      List.find?_eq_some_iff_append.mpr ⟨by simpa using hne, earlier, later, rfl, fun w hw => by simp [hearlier w hw]⟩
    rw [jar_iff.mp hjar, hfind, Option.map_some, String.ofList_toList]

/-- Neither the empty value counts, nor the one behind. -/
example :
    Keeps [("Cookie", Text.Utf8.encode "theme=dark; access_token="),
      ("cookie", Text.Utf8.encode " access_token=t=1 ;access_token=u")] tokenCookie "t=1" :=
  cookie_eq_some_iff.mp (by decide +kernel)

/-! ### The three places -/

/-- What stands in the three places where a token is looked for, the first to be tried first. -/
def Offers (hs : Headers) (token : Option String) : Fin 3 → String → Prop
  | 0, text => Presents hs text
  | 1, text => Keeps hs tokenCookie text
  | 2, text => token = some text

/-- Where a text is looked for and what is found there first of which something can be made. -/
theorem findSome?_candidates {f : String → Option String} {u : String} :
    (candidates hs token).findSome? f = some u ↔
      ∃ place text, Offers hs token place text ∧ f text = some u ∧
        ∀ earlier < place, ∀ other, Offers hs token earlier other → f other = none := by
  have hslots : (candidates hs token).findSome? f =
      ((bearer hs).bind f).or (((cookie hs tokenCookie).bind f).or (token.bind f)) := by
    have hcons : ∀ (x : Option String) (xs : List (Option String)),
        ((x :: xs).filterMap id).findSome? f = (x.bind f).or ((xs.filterMap id).findSome? f) := by
      intro x xs
      cases x with
      | none => rfl
      | some text => cases hf : f text <;> simp [hf]
    rw [candidates, hcons, hcons, hcons, List.filterMap_nil, List.findSome?_nil, Option.or_none]
  rw [hslots]
  simp only [Option.or_eq_some_iff, Option.bind_eq_some_iff, Option.bind_eq_none_iff, bearer_eq_some_iff,
    cookie_eq_some_iff]
  constructor
  · rintro (⟨text, h, hu⟩ | ⟨hheader, ⟨text, h, hu⟩ | ⟨hcookie, text, h, hu⟩⟩)
    · exact ⟨0, text, h, hu, nofun⟩
    · refine ⟨1, text, h, hu, fun earlier hlt => ?_⟩
      obtain rfl : earlier = 0 := by omega
      exact hheader
    · refine ⟨2, text, h, hu, fun earlier hlt => ?_⟩
      obtain rfl | rfl : earlier = 0 ∨ earlier = 1 := by omega
      · exact hheader
      · exact hcookie
  · rintro ⟨place, text, h, hu, hearlier⟩
    match place, h, hearlier with
    | 0, h, _ => exact .inl ⟨text, h, hu⟩
    | 1, h, hearlier => exact .inr ⟨hearlier 0 (by decide), .inl ⟨text, h, hu⟩⟩
    | 2, h, hearlier => exact .inr ⟨hearlier 0 (by decide), .inr ⟨hearlier 1 (by decide), text, h, hu⟩⟩

theorem mem_candidates_iff : text ∈ candidates hs token ↔ ∃ place, Offers hs token place text := by
  simp only [candidates, List.mem_filterMap, id, exists_eq_right, List.mem_cons, List.not_mem_nil, or_false]
  constructor
  · rintro (h | h | h)
    · exact ⟨0, bearer_eq_some_iff.mp h.symm⟩
    · exact ⟨1, cookie_eq_some_iff.mp h.symm⟩
    · exact ⟨2, h.symm⟩
  · rintro ⟨place, h⟩
    match place, h with
    | 0, h => exact .inl (bearer_eq_some_iff.mpr h).symm
    | 1, h => exact .inr (.inl (cookie_eq_some_iff.mpr h).symm)
    | 2, h => exact .inr (.inr h.symm)

/-! ### What is not looked at -/

/-- A change of the headers that concerns none of the three places. -/
inductive Aside : Headers → Headers → Prop
  /-- A header of another name goes. -/
  | line (before after : Headers) (line : String × Bytes) (hauth : lowerName line.1 ≠ "authorization")
      (hcookie : lowerName line.1 ≠ "cookie") : Aside (before ++ line :: after) (before ++ after)
  /-- An authorization header goes that stood behind another. -/
  | behind (before after : Headers) (line : String × Bytes) (hname : lowerName line.1 = "authorization")
      (hbefore : before.all "authorization" ≠ []) : Aside (before ++ line :: after) (before ++ after)
  /-- A cookie header goes that could not be read. -/
  | unreadable (before after : Headers) (line : String × Bytes) (hname : lowerName line.1 = "cookie")
      (hread : readable? line.2 = none) : Aside (before ++ line :: after) (before ++ after)
  /-- Cookies of other names come, go and change places in a header. The values of the token's cookie stay, in their
  order. -/
  | cookies (before after : Headers) (key : String) (value value' : Bytes) {text text' : List Char}
      {ps ps' : List (List Char)}
      (hname : lowerName key = "cookie") (hread : readable? value = some text) (hread' : readable? value' = some text')
      (hpieces : Pieces ';' text ps) (hpieces' : Pieces ';' text' ps')
      (hvalues : ∀ vs, Values tokenCookie.toList ps vs ↔ Values tokenCookie.toList ps' vs) :
      Aside (before ++ (key, value) :: after) (before ++ (key, value') :: after)

structure Alike (hs hs' : Headers) : Prop where
  authorization : (hs.all "authorization").head? = (hs'.all "authorization").head?
  cookies : valuesIn tokenCookie.toList (cookiePieces hs) = valuesIn tokenCookie.toList (cookiePieces hs')

theorem Alike.candidates (h : Alike hs hs') (token : Option String) : candidates hs token = candidates hs' token := by
  unfold Identity.candidates bearer
  rw [h.authorization, cookie_eq, cookie_eq, h.cookies]

theorem all_insert (before after : Headers) (line : String × Bytes) (name : String) :
    Headers.all (before ++ line :: after) name =
      before.all name ++ ((if lowerName line.1 = name then [line.2] else []) ++ after.all name) := by
  by_cases h : lowerName line.1 = name <;> simp [Headers.all, h]

theorem cookiePieces_append (before after : Headers) :
    cookiePieces (before ++ after) = cookiePieces before ++ cookiePieces after := by
  simp [cookiePieces, Headers.all_append]

theorem cookiePieces_insert (before after : Headers) (line : String × Bytes) :
    cookiePieces (before ++ line :: after) = cookiePieces before ++ (cookiePieces [line] ++ cookiePieces after) := by
  rw [cookiePieces_append, ← cookiePieces_append [line]]
  rfl

theorem cookiePieces_of_ne {line : String × Bytes} (h : lowerName line.1 ≠ "cookie") : cookiePieces [line] = [] := by
  simp [cookiePieces, Headers.all, h]

theorem cookiePieces_of_eq (line : String × Bytes) (h : lowerName line.1 = "cookie") :
    cookiePieces [line] = (readable? line.2).toList.flatMap (·.splitOnP (· == ';')) := by
  cases hread : readable? line.2 <;> simp [cookiePieces, Headers.all, h, hread]

theorem Aside.alike (h : Aside hs hs') : Alike hs hs' := by
  cases h with
  | line before after line hauth hcookie =>
    refine ⟨?_, ?_⟩
    · rw [all_insert, if_neg hauth, Headers.all_append, List.nil_append]
    · rw [cookiePieces_insert, cookiePieces_of_ne hcookie, cookiePieces_append, List.nil_append]
  | behind before after line hname hbefore =>
    obtain ⟨value, values, hvalues⟩ := List.exists_cons_of_ne_nil hbefore
    refine ⟨?_, ?_⟩
    · rw [all_insert, Headers.all_append, hvalues]
      rfl
    · rw [cookiePieces_insert, cookiePieces_of_ne (by rw [hname]; decide), cookiePieces_append, List.nil_append]
  | unreadable before after line hname hread =>
    refine ⟨?_, ?_⟩
    · rw [all_insert, if_neg (by rw [hname]; decide), Headers.all_append, List.nil_append]
    · rw [cookiePieces_insert, cookiePieces_of_eq _ hname, hread, cookiePieces_append]
      rfl
  | @cookies before after key value value' text text' ps ps' hname hread hread' hpieces hpieces' hvalues =>
    have hother : ¬ lowerName key = "authorization" := by
      rw [hname]
      decide
    refine ⟨?_, ?_⟩
    · rw [all_insert, all_insert, if_neg hother, if_neg hother]
    · have hsame : valuesIn tokenCookie.toList ps = valuesIn tokenCookie.toList ps' :=
        (values_iff.mp ((hvalues _).mp (values_valuesIn _ _))).symm
      simp only [cookiePieces_insert, cookiePieces_of_eq (key, _) hname, hread, hread', Option.toList_some,
        List.flatMap_singleton, Text.splitOnP_eq_iff.mpr hpieces, Text.splitOnP_eq_iff.mpr hpieces',
          valuesIn_append, hsame]

/-! ### Who makes a request -/

/-- What a request comes to where a token is asked for. -/
structure Identified (now : ℕ) (secret : String) (hs : Headers) (token : Option String)
    (result : Except Fault String) : Prop where
  /-- It is the person of the first place with a valid token: no place tried earlier has one. -/
  ok_iff : ∀ u, result = .ok u ↔ ∃ place text, Offers hs token place text ∧ Token.verify now secret text = some u ∧
    ∀ earlier < place, ∀ other, Offers hs token earlier other → Token.verify now secret other = none
  /-- A valid token in any place is enough. -/
  exists_ok_iff : (∃ u, result = .ok u) ↔ ∃ place text, Offers hs token place text ∧
    (Token.verify now secret text).isSome
  refused : (¬ ∃ u, result = .ok u) → result = .error .invalidToken
  /-- No other setting counts, and nothing else in the headers. -/
  aside : ∀ (config : Config) (hs' : Headers), hs' = hs ∨ Aside hs hs' ∨ Aside hs' hs →
    ofRequest now (config.keyedBy secret) hs' token = result
  /-- An upgrade comes to the same, whoever it names itself. -/
  upgrade : ∀ (config : Config) (user : Option String), ofUpgrade now (config.keyedBy secret) hs token user = result

theorem ofRequest_keyedBy (now : ℕ) (config : Config) (secret : String) (hs : Headers) (token : Option String) :
    ofRequest now (config.keyedBy secret) hs token =
      match (candidates hs token).findSome? (Token.verify now secret) with
      | some user => .ok user
      | none => .error .invalidToken := rfl

/-- **The first valid token says who makes a request**, and none that is not valid stands in its way. -/
theorem first_valid_token (now : ℕ) (config : Config) (secret : String) (hs : Headers) (token : Option String) :
    Identified now secret hs token (ofRequest now (config.keyedBy secret) hs token) := by
  have hok : ∀ u, ofRequest now (config.keyedBy secret) hs token = .ok u ↔
      (candidates hs token).findSome? (Token.verify now secret) = some u := by
    intro u
    rw [ofRequest_keyedBy]
    cases (candidates hs token).findSome? (Token.verify now secret) <;> simp
  refine ⟨fun u => (hok u).trans findSome?_candidates, ?anyone, ?refused, ?aside, fun config user => rfl⟩
  case anyone =>
    simp only [hok, ← Option.isSome_iff_exists, List.findSome?_isSome_iff, mem_candidates_iff]
    exact ⟨fun ⟨text, ⟨place, h⟩, hv⟩ => ⟨place, text, h, hv⟩, fun ⟨place, text, h, hv⟩ => ⟨text, ⟨place, h⟩, hv⟩⟩
  case refused =>
    intro hnone
    rw [ofRequest_keyedBy] at hnone ⊢
    cases hfind : (candidates hs token).findSome? (Token.verify now secret) with
    | none => rfl
    | some user => exact absurd ⟨user, by rw [hfind]⟩ hnone
  case aside =>
    intro config' hs' h
    have hsame : candidates hs' token = candidates hs token := by
      obtain rfl | h | h := h
      · rfl
      · exact (h.alike.candidates token).symm
      · exact h.alike.candidates token
    rw [ofRequest_keyedBy, ofRequest_keyedBy, hsame]

end Identity

end Parley
