import Mathlib.Data.Option.Basic
import Parley.Access.Token
import Parley.Proofs.Base64Url
import Parley.Proofs.Json.Printed
import Parley.Proofs.Json.Records
import Parley.Proofs.Text

/-!
# Access tokens

A token is good exactly if it has three parts with dots between them: a header that names the one method, claims
that name a person and have not run out, and the code of these two parts as they stand, under the secret (`Good`).
So nobody makes a good token without the code of its own text, and whatever header and claims there are, with their
code they make one (`verify_eq_some_iff`). In particular the tokens that are issued are good until their claims run
out (`verify_issue_iff`).
-/

namespace Parley.Token

open Json Text

/-! ### Headers -/

/-- A header of the one method, by its members: one of them names the method, and no other stands in the way. -/
structure IsHeader (ms : List (String × Json)) (raw : Bytes) : Prop where
  document : Document maxDepth (.object ms) raw
  names : valuesUnder "alg" ms = [.string "HS256"] ∨ valuesUnder "alg" ms = [.object [("HS256", .null)]]
  allowed : ∀ m ∈ ms, memberOk m.1 m.2 = true
  once : ∀ name ∈ singleMembers, (valuesUnder name ms).length ≤ 1

theorem memberOk_alg_iff {v : Json} :
    memberOk "alg" v = true ↔ v = .string "HS256" ∨ v = .object [("HS256", .null)] := by
  unfold memberOk method
  rw [if_pos (beq_self_eq_true _)]
  split
  · simp
  · simp
  · rename_i h
    simp_all

theorem headerOk_iff {raw : Bytes} : headerOk raw = true ↔ ∃ ms, IsHeader ms raw := by
  unfold headerOk
  constructor
  · intro h
    split at h
    · rename_i ms hparse
      simp only [Bool.and_eq_true, List.any_eq_true, List.all_eq_true, beq_iff_eq, decide_eq_true_eq] at h
      obtain ⟨⟨⟨m, hm, halg⟩, hall⟩, honce⟩ := h
      refine ⟨ms, parse_ok_iff.mp hparse, ?_, hall,
        fun name hname => by rw [length_valuesUnder]; exact honce name hname⟩
      obtain ⟨v, hv⟩ : ∃ v, valuesUnder "alg" ms = [v] := by
        have hlength : (valuesUnder "alg" ms).length ≤ 1 := by
          rw [length_valuesUnder]
          exact honce "alg" (by decide)
        have hmem : m.2 ∈ valuesUnder "alg" ms := mem_valuesUnder.mpr (halg ▸ hm)
        exact List.length_eq_one_iff.mp (Nat.le_antisymm hlength (List.length_pos_of_mem hmem))
      have hok : memberOk "alg" v = true := hall ("alg", v) (mem_valuesUnder.mp (hv ▸ List.mem_singleton_self v))
      rw [hv]
      exact (memberOk_alg_iff.mp hok).imp (fun h => by rw [h]) fun h => by rw [h]
    · cases h
  · rintro ⟨ms, hdocument, hnames, hall, honce⟩
    rw [parse_ok_iff.mpr hdocument]
    simp only [Bool.and_eq_true, List.any_eq_true, List.all_eq_true, beq_iff_eq, decide_eq_true_eq]
    refine ⟨⟨?_, hall⟩, fun name hname => by rw [← length_valuesUnder]; exact honce name hname⟩
    obtain ⟨v, hv⟩ : ∃ v, valuesUnder "alg" ms = [v] := hnames.elim (fun h => ⟨_, h⟩) fun h => ⟨_, h⟩
    exact ⟨("alg", v), mem_valuesUnder.mp (hv ▸ List.mem_singleton_self v), rfl⟩

/-! ### Claims -/

def NoReceiver (v : Json) : Prop := (∀ x, v ≠ .string x) ∧ ∀ xs : List String, v ≠ .array (xs.map .string)

def NotFilled (v : Json) : Prop := (∀ x xs, v ≠ .array (x :: xs)) ∧ ∀ m ms, v ≠ .object (m :: ms)

theorem isText_iff {v : Json} : isText v = true ↔ ∃ x, v = .string x := by
  cases v <;> simp [isText]

theorem all_isText_iff {vs : List Json} : vs.all isText = true ↔ ∃ xs : List String, vs = xs.map .string := by
  induction vs with
  | nil => exact ⟨fun _ => ⟨[], rfl⟩, fun _ => rfl⟩
  | cons v vs ih =>
    rw [List.all_cons, Bool.and_eq_true, ih, isText_iff]
    constructor
    · rintro ⟨⟨x, rfl⟩, xs, rfl⟩
      exact ⟨x :: xs, rfl⟩
    · rintro ⟨xs, hxs⟩
      cases xs with
      | nil => cases hxs
      | cons x xs =>
        obtain ⟨rfl, rfl⟩ := List.cons.inj hxs
        exact ⟨⟨x, rfl⟩, xs, rfl⟩

theorem namesReceivers_eq_false_iff {v : Json} : namesReceivers v = false ↔ NoReceiver v := by
  cases v with
  | string x => simp [namesReceivers, NoReceiver]
  | array vs =>
    rw [namesReceivers, ← Bool.not_eq_true, all_isText_iff]
    simp [NoReceiver]
  | null => simp [namesReceivers, NoReceiver]
  | bool b => simp [namesReceivers, NoReceiver]
  | number x => simp [namesReceivers, NoReceiver]
  | object ms => simp [namesReceivers, NoReceiver]

theorem isFilled_eq_false_iff {v : Json} : isFilled v = false ↔ NotFilled v := by
  cases v with
  | array vs => cases vs <;> simp [isFilled, NotFilled]
  | object ms => cases ms <;> simp [isFilled, NotFilled]
  | null => simp [isFilled, NotFilled]
  | bool b => simp [isFilled, NotFilled]
  | number x => simp [isFilled, NotFilled]
  | string x => simp [isFilled, NotFilled]

/-- The one value under a name, if there is any. -/
def AtMostOne (name : String) (es : List (String × Bytes)) (P : Json → Prop) : Prop :=
  valuesUnder name es = [] ∨ ∃ q v, valuesUnder name es = [q] ∧ Written (maxDepth - 1) v q ∧ P v

/-- What claims say, by the members as they are written. -/
structure Claimed (es : List (String × Bytes)) (c : Claims) : Prop where
  subject : ∃ q, valuesUnder "sub" es = [q] ∧ Quoted c.subject q
  expiry : ∃ q, valuesUnder "exp" es = [q] ∧ Numeral (.int c.expiry) q
  audience : AtMostOne "aud" es NoReceiver
  start : AtMostOne "nbf" es NotFilled
  issuer : AtMostOne "iss" es fun _ => True

/-! ### Reading claims -/

section Reading

variable {es : List (String × Bytes)} {c : Claims} {main checked : Record.Fields} {raw : Bytes} {name : String}

theorem toOption_eq_some_iff {α : Type} {x : Except Fault α} {a : α} : x.toOption = some a ↔ x = .ok a := by
  cases x <;> simp [Except.toOption]

theorem claims?_eq_some_iff : claims? raw = some c ↔ ∃ main checked, Record.read claimFields raw = .ok main ∧
    Record.readObject checkedFields raw = .ok checked ∧ (checked.json? "aud").any namesReceivers = false ∧
    (checked.json? "nbf").any isFilled = false ∧ main.text? "sub" = some c.subject ∧
    main.count? "exp" = some c.expiry := by
  obtain ⟨subject, expiry⟩ := c
  simp only [claims?, Option.bind_eq_bind, Option.bind_eq_some_iff, Option.guard_eq_some', toOption_eq_some_iff,
    Bool.not_eq_true', Option.pure_def, Option.some.injEq, Claims.mk.injEq, exists_eq_right_right, exists_const]
  simp only [exists_and_left]

theorem json?_any_iff {P : Json → Prop} {p : Json → Bool} (hp : ∀ v, p v = false ↔ P v)
    (h : Field.Found ⟨name, .any, true⟩ es (checked.lookup name)) :
    (checked.json? name).any p = false ↔ AtMostOne name es P := by
  unfold Record.Fields.json?
  cases hlookup : checked.lookup name with
  | none =>
    rw [hlookup] at h
    exact ⟨fun _ => .inl h, fun _ => rfl⟩
  | some w =>
    rw [hlookup] at h
    obtain ⟨q, hq, hadmits, hwritten⟩ := h
    obtain ⟨v, rfl⟩ : ∃ v, w = .json v := by
      cases hadmits with
      | any v => exact ⟨v, rfl⟩
    constructor
    · exact fun hv => .inr ⟨q, v, hq, hwritten, (hp v).mp hv⟩
    · rintro (hnone | ⟨q', v', hq', hwritten', hv'⟩)
      · cases hq.symm.trans hnone
      · obtain rfl : q = q' := List.head_eq_of_cons_eq (hq.symm.trans hq')
        cases Record.holds_unique ⟨.any v, hwritten⟩ ⟨.any v', hwritten'⟩
        exact (hp v).mpr hv'

theorem AtMostOne.found {P : Json → Prop} (h : AtMostOne name es P) : ∃ o, Field.Found ⟨name, .any, true⟩ es o := by
  obtain hnone | ⟨q, v, hq, hwritten, -⟩ := h
  · exact ⟨none, hnone⟩
  · exact ⟨some (.json v), q, hq, .any v, hwritten⟩

theorem Claimed.exists_main (h : Claimed es c) : ∃ main, Record.Taken claimFields [] es main := by
  refine Record.exists_taken_nil fun field hfield => ?_
  obtain ⟨p, hp, hsub⟩ := h.subject
  obtain ⟨q, hq, hexp⟩ := h.expiry
  simp only [claimFields, List.mem_cons, List.not_mem_nil, or_false] at hfield
  obtain rfl | rfl := hfield
  · exact ⟨some (.text c.subject), p, hp, .text _, by rw [FieldValue.toJson, Written]; exact hsub⟩
  · exact ⟨some (.count c.expiry), q, hq, .count _, by rw [FieldValue.toJson, Written]; exact hexp⟩

theorem Claimed.exists_checked (h : Claimed es c) : ∃ checked, Record.Taken checkedFields [] es checked := by
  refine Record.exists_taken_nil fun field hfield => ?_
  simp only [checkedFields, List.mem_cons, List.not_mem_nil, or_false] at hfield
  obtain rfl | rfl | rfl := hfield
  · exact h.audience.found
  · exact h.start.found
  · exact h.issuer.found

/-- **The claims that are read are those that the members say.** -/
theorem claims?_iff : claims? raw = some c ↔ ∃ es, Outline es raw ∧ Claimed es c := by
  rw [claims?_eq_some_iff]
  constructor
  · rintro ⟨main, checked, hmain, hchecked, haud, hnbf, hsub, hexp⟩
    obtain ⟨es, houtline, htaken, -⟩ := Record.readObject_ok_iff.mp hchecked
    rw [Record.read_eq_readObject houtline] at hmain
    obtain ⟨es', houtline', htaken', -⟩ := Record.readObject_ok_iff.mp hmain
    -- the bytes are read twice, but they have one outline
    obtain rfl := houtline.unique houtline'
    refine ⟨es, houtline, ?_⟩
    exact {
      subject := (Record.text?_iff (htaken'.field_found rfl rfl)).mp hsub
      expiry := (Record.count?_iff (htaken'.field_found rfl rfl)).mp hexp
      audience := (json?_any_iff (fun _ => namesReceivers_eq_false_iff) (htaken.field_found rfl rfl)).mp haud
      start := (json?_any_iff (fun _ => isFilled_eq_false_iff) (htaken.field_found rfl rfl)).mp hnbf
      issuer := by
        have hany : (checked.json? "iss").any (fun _ => false) = false := by cases checked.json? "iss" <;> rfl
        exact (json?_any_iff (fun _ => iff_of_true rfl trivial) (htaken.field_found rfl rfl)).mp hany }
  · rintro ⟨es, houtline, hclaimed⟩
    obtain ⟨main, hmain⟩ := hclaimed.exists_main
    obtain ⟨checked, hchecked⟩ := hclaimed.exists_checked
    have hsub : main.text? "sub" = some c.subject := (Record.text?_iff (hmain.field_found rfl rfl)).mpr hclaimed.subject
    have hexp : main.count? "exp" = some c.expiry := (Record.count?_iff (hmain.field_found rfl rfl)).mpr hclaimed.expiry
    have hcomplete : Record.Fields.complete claimFields main = true := by
      simp [Record.Fields.complete, claimFields, Record.text?_eq_some_iff.mp hsub, Record.count?_eq_some_iff.mp hexp]
    refine ⟨main, checked, ?_, Record.readObject_ok_iff.mpr ⟨es, houtline, hchecked, rfl⟩, ?_, ?_, hsub, hexp⟩
    · rw [Record.read_eq_readObject houtline]
      exact Record.readObject_ok_iff.mpr ⟨es, houtline, hmain, hcomplete⟩
    · exact (json?_any_iff (fun _ => namesReceivers_eq_false_iff) (hchecked.field_found rfl rfl)).mpr hclaimed.audience
    · exact (json?_any_iff (fun _ => isFilled_eq_false_iff) (hchecked.field_found rfl rfl)).mpr hclaimed.start

end Reading

/-! ### Good tokens -/

open Base64Url (encode encode_inj decode?_eq_some_iff dot_notMem_encode)

/-- A good token at the second `now`, with what its parts stand for. -/
structure Good (now : Nat) (secret token subject : String) (header claims : Bytes) (ms : List (String × Json))
    (es : List (String × Bytes)) (expiry : Nat) : Prop where
  /-- There are three parts, and the last is the code of the two before it as they stand. -/
  parts : Text.Pieces '.' token.toList
    [encode header, encode claims, encode (code secret (encode header) (encode claims))]
  header : IsHeader ms header
  outline : Outline es claims
  claimed : Claimed es ⟨subject, expiry⟩
  somebody : subject ≠ ""
  timely : now ≤ expiry + 60

variable {now : Nat} {secret token subject : String}

theorem verify_iff_of_pieces {h c g : List Char} (hpieces : Text.Pieces '.' token.toList [h, c, g]) :
    verify now secret token = some subject ↔ ∃ header claims expiry, h = encode header ∧ headerOk header = true ∧
      g = encode (code secret h c) ∧ c = encode claims ∧ claims? claims = some ⟨subject, expiry⟩ ∧ subject ≠ "" ∧
      now ≤ expiry + 60 := by
  rw [verify, segments, Text.splitOnP_eq_iff.mpr hpieces]
  simp only [Option.bind_eq_bind, Option.bind_eq_some_iff, Option.guard_eq_some', exists_const, decode?_eq_some_iff,
    Bool.and_eq_true, beq_iff_eq, bne_iff_ne, decide_eq_true_eq, Option.pure_def, Option.some.injEq]
  constructor
  · rintro ⟨header, hheader, hok, _, hcode, rfl, claims, hclaims, ⟨subject, expiry⟩, hread, ⟨htimely, hsomebody⟩, rfl⟩
    exact ⟨header, claims, expiry, hheader, hok, hcode, hclaims, hread, hsomebody, htimely⟩
  · rintro ⟨header, claims, expiry, hheader, hok, hcode, hclaims, hread, hsomebody, htimely⟩
    exact ⟨header, hheader, hok, _, hcode, rfl, claims, hclaims, ⟨subject, expiry⟩, hread, ⟨htimely, hsomebody⟩, rfl⟩

theorem exists_pieces_of_verify (h : verify now secret token = some subject) :
    ∃ a b c, Text.Pieces '.' token.toList [a, b, c] := by
  unfold verify at h
  split at h
  · rename_i hparts
    exact ⟨_, _, _, Text.splitOnP_eq_iff.mp hparts⟩
  · cases h

/-- **A token is good exactly if its parts are.** -/
theorem verify_eq_some_iff : verify now secret token = some subject ↔
    ∃ header claims ms es expiry, Good now secret token subject header claims ms es expiry := by
  constructor
  · intro h
    obtain ⟨a, b, c, hpieces⟩ := exists_pieces_of_verify h
    obtain ⟨header, claims, expiry, rfl, hok, rfl, rfl, hread, hsomebody, htimely⟩ :=
      (verify_iff_of_pieces hpieces).mp h
    obtain ⟨ms, hms⟩ := headerOk_iff.mp hok
    obtain ⟨es, houtline, hclaimed⟩ := claims?_iff.mp hread
    exact ⟨header, claims, ms, es, expiry, hpieces, hms, houtline, hclaimed, hsomebody, htimely⟩
  · rintro ⟨header, claims, ms, es, expiry, h⟩
    exact (verify_iff_of_pieces h.parts).mpr ⟨header, claims, expiry, rfl, headerOk_iff.mpr ⟨ms, h.header⟩, rfl, rfl,
      claims?_iff.mpr ⟨es, h.outline, h.claimed⟩, h.somebody, h.timely⟩

/-! ### Tokens that are issued -/

def bytes (ms : List (String × Json)) : Bytes := Utf8.encode (Json.print (.object ms))

theorem document_bytes {d : Nat} {ms : List (String × Json)} (hms : EveryMember Whole64 ms)
    (hd : levelsMembers ms ≤ d) :
    Document (d + 1) (.object ms) (bytes ms) := by
  refine parseWithin_ok_iff.mp (parseWithin_print ?_ ?_)
  · rw [Every]
    exact ⟨trivial, hms⟩
  · rw [levels]
    omega

def issuedHeader : List (String × Json) := [("typ", .string "JWT"), ("alg", .string method)]

def issuedClaims (c : Claims) : List (String × Json) := [("sub", .string c.subject), ("exp", .number (.int c.expiry))]

theorem isHeader_issued : IsHeader issuedHeader (bytes issuedHeader) where
  document := document_bytes (d := 126) (by simp [issuedHeader, EveryMember, Every, Whole64])
    (by simp [issuedHeader, levelsMembers, levels])
  names := .inl rfl
  allowed := by decide
  once := by decide

theorem claims?_issued (subject : String) (expiry : UInt64) :
    claims? (bytes (issuedClaims ⟨subject, expiry.toNat⟩)) = some ⟨subject, expiry.toNat⟩ := by
  have hdocument : Document (126 + 1) (.object (issuedClaims ⟨subject, expiry.toNat⟩))
      (bytes (issuedClaims ⟨subject, expiry.toNat⟩)) := by
    refine document_bytes ?_ ?_
    · have := expiry.toNat_lt
      simp only [issuedClaims, EveryMember, Every, Whole64, Fits, true_and, and_true]
      omega
    · simp [issuedClaims, levelsMembers, levels]
  obtain ⟨es, houtline, hwrites⟩ := hdocument.outline
  obtain ⟨p, q, rfl, hp, hq⟩ : ∃ p q, es = [("sub", p), ("exp", q)] ∧ Quoted subject p ∧
      Numeral (.int expiry.toNat) q := by
    cases hwrites with
    | cons hsub hwrites =>
      cases hwrites with
      | cons hexp hwrites =>
        cases hwrites
        obtain ⟨p, rfl, hp⟩ := hsub
        obtain ⟨q, rfl, hq⟩ := hexp
        simp only [Written] at hp hq
        exact ⟨p, q, rfl, hp, hq⟩
  refine claims?_iff.mpr ⟨_, houtline, ?_⟩
  exact {
    subject := ⟨p, rfl, hp⟩
    expiry := ⟨q, rfl, hq⟩
    audience := .inl rfl
    start := .inl rfl
    issuer := .inl rfl }

theorem pieces_issue (secret : String) (c : Claims) : Text.Pieces '.' (issue secret c).toList
    [encode (bytes issuedHeader), encode (bytes (issuedClaims c)),
      encode (code secret (encode (bytes issuedHeader)) (encode (bytes (issuedClaims c))))] := by
  refine ⟨List.cons_ne_nil _ _, ?_, ?_⟩
  · simp [dot_notMem_encode]
  · rw [issue, String.toList_ofList]
    simp [List.intercalate]
    rfl

/-- **A token that is issued is good until it runs out.** -/
theorem verify_issue_iff (expiry : UInt64) :
    verify now secret (issue secret ⟨subject, expiry.toNat⟩) = some subject ↔
      subject ≠ "" ∧ now ≤ expiry.toNat + 60 := by
  rw [verify_iff_of_pieces (pieces_issue secret _)]
  constructor
  · rintro ⟨header, claims, expiry', -, -, -, hclaims, hread, hsomebody, htimely⟩
    rw [← encode_inj hclaims, claims?_issued] at hread
    cases hread
    exact ⟨hsomebody, htimely⟩
  · rintro ⟨hsomebody, htimely⟩
    exact ⟨_, _, expiry.toNat, rfl, headerOk_iff.mpr ⟨_, isHeader_issued⟩, rfl, rfl, claims?_issued subject expiry,
      hsomebody, htimely⟩

/-- **Access tokens are complete, and unforgeable up to their code**: one that is issued for somebody is good until
a minute after it runs out, and a token is good for somebody only if it is the code of its own header and claims
under the secret. -/
theorem complete_and_unforgeable (now : Nat) (secret : String) :
    (∀ subject (expiry : UInt64),
      verify now secret (issue secret ⟨subject, expiry.toNat⟩) = some subject ↔
        subject ≠ "" ∧ now ≤ expiry.toNat + 60) ∧
    ∀ token subject, verify now secret token = some subject ↔
      ∃ header claims ms es expiry, Good now secret token subject header claims ms es expiry :=
  ⟨fun _ => verify_issue_iff, fun _ _ => verify_eq_some_iff⟩

end Parley.Token
