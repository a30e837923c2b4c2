import Mathlib.Data.List.Forall2
import Parley.Proofs.Json.Fields

/-!
# Reading records

An object is seen here by its members only, each with its name and with its value as it is written (`Outline`): in
one way at most (`Outline.unique`). A record is read from an object whose members under the names of its fields are
of the kinds of these fields, and which has each of them once; the other members have the form of a value and are
passed over: `readObject_ok_iff`. What is read for a field is the one value under its name (`Taken.field_found`).
-/

namespace Parley.Json

open Reader

/-! ### Objects by their members -/

def Entry (name : String) (value : Bytes) : Bytes → Prop := Member name fun t => t = value ∧ Form value

def MoreEntries : List (String × Bytes) → Bytes → Prop
  | [], s => Blanks s
  | (n, v) :: es, s => ∃ a t u, s = a ++ 0x2C :: (t ++ u) ∧ Blanks a ∧ AfterBlanks (Entry n v) t ∧ MoreEntries es u

def Entries : Mark → List (String × Bytes) → Bytes → Prop
  | .first, [], s => Blanks s
  | .first, (n, v) :: es, s => ∃ t u, s = t ++ u ∧ AfterBlanks (Entry n v) t ∧ MoreEntries es u
  | .later, es, s => MoreEntries es s

/-- An object with these members, and nothing else but blanks. -/
def Outline (es : List (String × Bytes)) (s : Bytes) : Prop :=
  ∃ a t b, s = a ++ 0x7B :: (t ++ 0x7D :: b) ∧ Blanks a ∧ Entries .first es t ∧ Blanks b

def valuesUnder {α : Type} (name : String) (es : List (String × α)) : List α := (es.filter (·.1 == name)).map (·.2)

theorem mem_valuesUnder {α : Type} {name : String} {es : List (String × α)} {v : α} :
    v ∈ valuesUnder name es ↔ (name, v) ∈ es := by
  simp [valuesUnder]

theorem length_valuesUnder {α : Type} (name : String) (es : List (String × α)) :
    (valuesUnder name es).length = (es.filter (·.1 == name)).length := List.length_map _

theorem valuesUnder_cons_self {α : Type} (name : String) (q : α) (es : List (String × α)) :
    valuesUnder name ((name, q) :: es) = q :: valuesUnder name es := by simp [valuesUnder]

theorem valuesUnder_cons_of_ne {α : Type} {n : String} (h : n ≠ name) (q : α) (es : List (String × α)) :
    valuesUnder name ((n, q) :: es) = valuesUnder name es := by simp [valuesUnder, h]

/-- What an object has for a field: no member under its name, or one of its kind. -/
def Field.Found (field : Field) (es : List (String × Bytes)) : Option FieldValue → Prop
  | none => valuesUnder field.name es = []
  | some v => ∃ q, valuesUnder field.name es = [q] ∧ field.kind.Holds v q

namespace Record

variable {s r t : Bytes}

/-! ### Members -/

variable {fields : List Field} {acc acc' found : Fields} {es : List (String × Bytes)} {name : String} {q : Bytes}

/-- What a member adds to the fields. -/
inductive Take (fields : List Field) (acc : Fields) (name : String) (q : Bytes) : Fields → Prop
  | field {f : Field} {v : FieldValue} (hf : fields.find? (·.name == name) = some f) (hnew : acc.lookup name = none)
      (hv : f.kind.Holds v q) : Take fields acc name q ((name, v) :: acc)
  | other (hf : fields.find? (·.name == name) = none) : Take fields acc name q acc

/-- What members add to the fields, one after the other. -/
inductive Taken (fields : List Field) : Fields → List (String × Bytes) → Fields → Prop
  | nil (acc : Fields) : Taken fields acc [] acc
  | cons {acc acc' found : Fields} {name : String} {q : Bytes} {es : List (String × Bytes)}
      (head : Take fields acc name q acc') (tail : Taken fields acc' es found) :
      Taken fields acc ((name, q) :: es) found

/-- The reading of one member after its name. -/
def readMember (fields : List Field) (acc : Fields) (name : String) (s : Bytes) : Read Fields :=
  match fields.find? (·.name == name) with
  | some field =>
    if (acc.lookup name).isSome then .error .mismatched
    else match colon s with
      | .error e => .error e
      | .ok s => (readField field.kind s).to fun v => (name, v) :: acc
  | none =>
    match colon s with
    | .error e => .error e
    | .ok s => (skipValue s).map (acc, ·)

theorem readMembers_succ (n : Nat) (mark : Mark) (acc : Fields) (s : Bytes) :
    readMembers fields (n + 1) mark acc s =
      match nextName mark s with
      | .error e => .error e
      | .ok (.close s) => .ok (acc, s)
      | .ok (.more s) =>
        match stringRest [] s with
        | .error e => .error e
        | .ok (name, s) =>
          match readMember fields acc name s with
          | .error e => .error e
          | .ok (acc, s) => readMembers fields n .later acc s := by
  rw [readMembers]
  cases nextName mark s with
  | error e => rfl
  | ok next =>
    cases next with
    | close u => rfl
    | more u =>
      dsimp only
      cases stringRest [] u with
      | error e => rfl
      | ok named =>
        obtain ⟨name, w⟩ := named
        dsimp only [readMember]
        cases fields.find? (·.name == name) with
        | none =>
          dsimp only
          cases colon w with
          | error e => rfl
          | ok w => dsimp only; cases skipValue w <;> rfl
        | some field =>
          dsimp only
          split_ifs
          · rfl
          · cases colon w with
            | error e => rfl
            | ok w => dsimp only; cases readField field.kind w <;> rfl

/-- What stands behind the name of a member: a colon and a value. -/
theorem take_of_readMember (h : readMember fields acc name s = .ok (acc', r)) :
    ∃ a t q, s = a ++ 0x3A :: (t ++ r) ∧ Blanks a ∧ AfterBlanks (fun t => t = q ∧ Form q) t ∧
    Take fields acc name q acc' := by
  obtain ⟨a, hs, ha⟩ := exists_skip s
  unfold readMember at h
  split at h
  · rename_i field hfield
    split_ifs at h with hfound
    split at h
    · cases h
    · rename_i u hu
      obtain ⟨v, hv, rfl⟩ := Read.of_to_ok h
      obtain ⟨_, rfl, c, q, rfl, hc, hq⟩ := holds_of_readField hv
      refine ⟨a, c ++ q, q, by rw [hs, colon_iff.mp hu], ha, ⟨c, q, rfl, hc, rfl, Written.form _ hq.2⟩, ?_⟩
      exact .field hfield (Option.not_isSome_iff_eq_none.mp hfound) hq
  · rename_i hfield
    split at h
    · cases h
    · rename_i u hu
      obtain ⟨u', hu', hpair⟩ : ∃ u', skipValue u = .ok u' ∧ (acc, u') = (acc', r) := by
        cases hskip : skipValue u with
        | error e => rw [hskip] at h; cases h
        | ok u' => rw [hskip] at h; exact ⟨u', rfl, Except.ok.inj h⟩
      cases hpair
      obtain ⟨_, rfl, c, q, rfl, hc, hq⟩ := form_of_skipValue hu'
      exact ⟨a, c ++ q, q, by rw [hs, colon_iff.mp hu], ha, ⟨c, q, rfl, hc, rfl, hq⟩, .other hfield⟩

theorem readMember_append {a : Bytes} (ha : Blanks a) (ht : AfterBlanks (fun t => t = q ∧ Form q) t) (hr : Fresh r)
    (h : Take fields acc name q acc') : readMember fields acc name (a ++ 0x3A :: (t ++ r)) = .ok (acc', r) := by
  obtain ⟨c, v, rfl, hc, rfl, hq⟩ := ht
  have hcolon : colon (a ++ 0x3A :: (c ++ v ++ r)) = .ok (c ++ v ++ r) :=
    colon_iff.mpr ((skip_append ha _).trans (skip_of_not_blank rfl _))
  unfold readMember
  cases h with
  | field hf hnew hv =>
    have hread := readField_append ⟨c, _, rfl, hc, hv⟩ hr
    simp only [hf, hnew, hcolon, hread]
    rfl
  | other hf =>
    have hskip := skipValue_append ⟨c, _, rfl, hc, hq⟩ hr
    simp only [hf, hcolon, hskip]
    rfl

theorem entries_close {mark : Mark} {a : Bytes} (ha : Blanks a) : Entries mark [] a := by cases mark <;> exact ha

theorem taken_of_readMembers {n : Nat} {mark : Mark} (h : readMembers fields n mark acc s = .ok (found, r)) :
    ∃ es t, s = t ++ 0x7D :: r ∧ Entries mark es t ∧ Taken fields acc es found := by
  induction n generalizing mark acc s with
  | zero => cases h
  | succ n ih =>
    obtain ⟨a, hs, ha⟩ := exists_skip s
    rw [readMembers_succ] at h
    split at h
    · cases h
    · rename_i u hn
      cases h
      exact ⟨[], a, by rw [← nextName_close_iff.mp hn, ← hs], entries_close ha, .nil _⟩
    · rename_i u hn
      split at h
      · cases h
      · rename_i name u₁ hname
        split at h
        · cases h
        · rename_i acc' u₂ hmember
          obtain ⟨qn, hqn, hquoted⟩ := stringRest_nil_iff.mp hname
          obtain ⟨b, t, q, rfl, hb, ht, htake⟩ := take_of_readMember hmember
          obtain ⟨es, w, rfl, hw, htaken⟩ := ih h
          have hentry : AfterBlanks (Entry name q) (qn ++ b ++ 0x3A :: t) :=
            ⟨[], _, rfl, blanks_nil, qn, b, t, rfl, hquoted, hb, ht⟩
          refine ⟨(name, q) :: es, ?_⟩
          cases mark with
          | first =>
            refine ⟨a ++ (qn ++ b ++ 0x3A :: t) ++ w, ?_, ⟨_, w, rfl, hentry.of_blanks ha, hw⟩, .cons htake htaken⟩
            rw [hs, nextName_first_iff.mp hn, hqn]
            simp
          | later =>
            obtain ⟨t', hcomma, hquote⟩ := nextName_later_iff.mp hn
            obtain ⟨c, ht', hc⟩ := exists_skip t'
            refine ⟨a ++ 0x2C :: (c ++ (qn ++ b ++ 0x3A :: t) ++ w), ?_, ⟨a, _, w, rfl, ha, hentry.of_blanks hc, hw⟩,
              .cons htake htaken⟩
            rw [hs, hcomma, ht', hquote, hqn]
            simp

theorem nextName_close {mark : Mark} (h : Entries mark [] t) (r : Bytes) :
    nextName mark (t ++ 0x7D :: r) = .ok (.close r) := by
  have ht : Blanks t := by cases mark <;> exact h
  exact nextName_close_iff.mpr ((skip_append ht _).trans (skip_of_not_blank rfl r))

theorem entry_head {e : Bytes} (h : Entry name q e) : ∃ u, e = 0x22 :: u := by
  obtain ⟨_, b, v, rfl, ⟨body, rfl, -⟩, -, -⟩ := h
  exact ⟨_, rfl⟩

/-- The next member of an object is where its name stands. -/
theorem nextName_append {mark : Mark} (h : Entries mark ((name, q) :: es) t) (r : Bytes) :
    ∃ u e w, nextName mark (t ++ 0x7D :: r) = .ok (.more u) ∧ 0x22 :: u = e ++ (w ++ 0x7D :: r) ∧ Entry name q e ∧
      Entries .later es w ∧ w.length < t.length := by
  cases mark with
  | first =>
    obtain ⟨_, w, rfl, ⟨a, e, rfl, ha, he⟩, hw⟩ := h
    obtain ⟨u, rfl⟩ := entry_head he
    refine ⟨u ++ (w ++ 0x7D :: r), 0x22 :: u, w, nextName_first_iff.mpr ?_, rfl, he, hw, ?_⟩
    · rw [List.append_assoc, List.append_assoc, skip_append ha]
      exact skip_of_not_blank rfl _
    · simp only [List.length_append, List.length_cons]
      omega
  | later =>
    obtain ⟨a, _, w, rfl, ha, ⟨b, e, rfl, hb, he⟩, hw⟩ := h
    obtain ⟨u, rfl⟩ := entry_head he
    refine ⟨u ++ (w ++ 0x7D :: r), 0x22 :: u, w,
      nextName_later_iff.mpr ⟨b ++ (0x22 :: u ++ (w ++ 0x7D :: r)), ?_, ?_⟩, rfl, he, hw, ?_⟩
    · rw [List.append_assoc, skip_append ha, List.cons_append, List.append_assoc, List.append_assoc]
      exact skip_of_not_blank rfl _
    · rw [skip_append hb]
      exact skip_of_not_blank rfl _
    · simp only [List.length_append, List.length_cons]
      omega

theorem fresh_entries {w : Bytes} (h : Entries .later es w) (r : Bytes) : Fresh (w ++ 0x7D :: r) := by
  rcases es with _ | ⟨⟨name, q⟩, es⟩
  · exact fresh_append h (by rintro _ ⟨⟩; rfl)
  · obtain ⟨a, t, u, rfl, ha, -, -⟩ := h
    rw [List.append_assoc]
    exact fresh_append ha (by rintro _ ⟨⟩; rfl)

theorem readMembers_append {n : Nat} {mark : Mark} (h : Entries mark es t) (htaken : Taken fields acc es found)
    (hn : t.length + 1 ≤ n) : readMembers fields n mark acc (t ++ 0x7D :: r) = .ok (found, r) := by
  induction htaken generalizing n mark t with
  | nil acc =>
    obtain ⟨n, rfl⟩ : ∃ m, n = m + 1 := ⟨n - 1, by omega⟩
    rw [readMembers_succ, nextName_close h]
  | cons head tail ih =>
    obtain ⟨n, rfl⟩ : ∃ m, n = m + 1 := ⟨n - 1, by omega⟩
    obtain ⟨u, e, w, hnext, hu, ⟨qn, b, v, rfl, hquoted, hb, hv⟩, hw, hlen⟩ := nextName_append h r
    have hname : stringRest [] u = .ok (_, b ++ 0x3A :: (v ++ (w ++ 0x7D :: r))) :=
      stringRest_nil_iff.mpr ⟨qn, by rw [hu]; simp, hquoted⟩
    have hmember := readMember_append hb hv (fresh_entries hw r) head
    have hrest := ih hw (n := n) (by omega)
    rw [readMembers_succ, hnext]
    simp only [hname, hmember, hrest]

end Record

/-! ### One outline -/

section Unique

variable {s r t q : Bytes} {es es' : List (String × Bytes)} {name : String}

/-- Where a member stands, its name, its colon and its value are found one after the other. -/
theorem Entry.read {e : Bytes} (h : Entry name q e) (hr : Fresh r) :
    ∃ u u₁ u₂, e ++ r = 0x22 :: u ∧ stringRest [] u = .ok (name, u₁) ∧ colon u₁ = .ok u₂ ∧ skipValue u₂ = .ok r ∧
      skip u₂ = q ++ r := by
  obtain ⟨qn, a, _, rfl, hqn, ha, c, v, rfl, hc, rfl, hv⟩ := h
  obtain ⟨body, hbody, -⟩ := id hqn
  refine ⟨body ++ [0x22] ++ (a ++ 0x3A :: (c ++ v ++ r)), a ++ 0x3A :: (c ++ v ++ r), c ++ v ++ r, ?_, ?_, ?_, ?_, ?_⟩
  · rw [hbody]
    simp
  · exact stringRest_nil_iff.mpr ⟨qn, by rw [hbody]; simp, hqn⟩
  · exact colon_iff.mpr ((skip_append ha _).trans (skip_of_not_blank rfl _))
  · exact skipValue_append ⟨c, v, rfl, hc, hv⟩ hr
  · rw [List.append_assoc, skip_append hc, skip_form hv]

theorem Entry.unique {name' : String} {q' e e' r' : Bytes} (h : Entry name q e) (h' : Entry name' q' e') (hr : Fresh r)
    (hr' : Fresh r') (hsame : e ++ r = e' ++ r') : name = name' ∧ q = q' ∧ r = r' := by
  obtain ⟨u, u₁, u₂, hu, hname, hcolon, hvalue, hskip⟩ := h.read hr
  obtain ⟨w, w₁, w₂, hw, hname', hcolon', hvalue', hskip'⟩ := h'.read hr'
  obtain rfl : u = w := by simpa [hu, hw] using hsame
  obtain ⟨rfl, rfl⟩ : name = name' ∧ u₁ = w₁ := by simpa [hname] using hname'
  obtain rfl : u₂ = w₂ := by simpa [hcolon] using hcolon'
  obtain rfl : r = r' := by simpa [hvalue] using hvalue'
  exact ⟨rfl, List.append_cancel_right (hskip.symm.trans hskip'), rfl⟩

theorem Entries.unique {mark : Mark} {t' r' : Bytes} (h : Entries mark es t)
    (h' : Entries mark es' t') (hsame : t ++ 0x7D :: r = t' ++ 0x7D :: r') : es = es' := by
  induction es generalizing mark t es' t' with
  | nil =>
    have hnext := Record.nextName_close h r
    rcases es' with _ | ⟨⟨name, q⟩, es'⟩
    · rfl
    · obtain ⟨u, e, w, hmore, -⟩ := Record.nextName_append h' r'
      rw [hsame, hmore] at hnext
      cases hnext
  | cons entry es ih =>
    obtain ⟨name, q⟩ := entry
    obtain ⟨u, e, w, hmore, hu, he, hw, -⟩ := Record.nextName_append h r
    rw [hsame] at hmore
    rcases es' with _ | ⟨⟨name', q'⟩, es'⟩
    · rw [Record.nextName_close h' r'] at hmore
      cases hmore
    · obtain ⟨u', e', w', hmore', hu', he', hw', -⟩ := Record.nextName_append h' r'
      obtain rfl : u' = u := by
        rw [hmore'] at hmore
        cases hmore
        rfl
      obtain ⟨rfl, rfl, hrest⟩ :=
        he.unique he' (Record.fresh_entries hw r) (Record.fresh_entries hw' r') (hu.symm.trans hu')
      rw [ih hw hw' hrest]

/-- **An object has these members in one way.** -/
theorem Outline.unique (h : Outline es s) (h' : Outline es' s) : es = es' := by
  obtain ⟨a, t, b, rfl, ha, ht, hb⟩ := h
  obtain ⟨a', t', b', hs, ha', ht', hb'⟩ := h'
  have hskip := congrArg skip hs
  rw [skip_append ha, skip_append ha', skip_of_not_blank rfl, skip_of_not_blank rfl] at hskip
  exact Entries.unique ht ht' (List.cons.inj hskip).2

end Unique

/-! ### Whole records -/

namespace Record

variable {s : Bytes} {fields : List Field} {acc found : Fields} {es : List (String × Bytes)} {field : Field}
  {name : String}

/-- **A record is read from an object that has its fields.** -/
theorem readObject_ok_iff :
    readObject fields s = .ok found ↔ ∃ es, Outline es s ∧ Taken fields [] es found ∧
      Fields.complete fields found = true := by
  obtain ⟨a, hs, ha⟩ := exists_skip s
  unfold readObject readFields
  constructor
  · intro h
    split at h
    · cases h
    · rename_i b u hskip
      split_ifs at h with hopen
      split at h
      · cases h
      · rename_i members r hfields
        obtain ⟨rfl, hr⟩ := finish_ok_iff.mp h
        split at hfields
        · cases hfields
        · rename_i hmembers
          split_ifs at hfields with hcomplete
          cases hfields
          obtain ⟨es, t, rfl, ht, htaken⟩ := taken_of_readMembers hmembers
          refine ⟨es, ⟨a, t, r, ?_, ha, ht, skip_eq_nil_iff.mp (List.isEmpty_iff.mp hr)⟩, htaken, hcomplete⟩
          rw [hs, hskip, eq_of_beq hopen]
  · rintro ⟨es, ⟨a', t, b, rfl, ha', ht, hb⟩, htaken, hcomplete⟩
    have hskip : skip (a' ++ 0x7B :: (t ++ 0x7D :: b)) = 0x7B :: (t ++ 0x7D :: b) :=
      (skip_append ha' _).trans (skip_of_not_blank rfl _)
    have hmembers : readMembers fields ((t ++ 0x7D :: b).length + 1) .first [] (t ++ 0x7D :: b) = .ok (found, b) :=
      readMembers_append ht htaken (by rw [List.length_append]; omega)
    simp only [hskip, beq_self_eq_true, if_true, hmembers, hcomplete]
    exact finish_ok_iff.mpr ⟨rfl, List.isEmpty_iff.mpr (skip_eq_nil_iff.mpr hb)⟩

theorem read_eq_readObject (h : Outline es s) : read fields s = readObject fields s := by
  obtain ⟨a, t, b, rfl, ha, -, -⟩ := h
  have hskip : skip (a ++ 0x7B :: (t ++ 0x7D :: b)) = 0x7B :: (t ++ 0x7D :: b) :=
    (skip_append ha _).trans (skip_of_not_blank rfl _)
  unfold read readObject
  rw [hskip]
  rfl

/-! ### Each field -/

theorem lookup_cons_of_ne {n : String} (h : n ≠ name) (v : FieldValue) (acc : Fields) :
    List.lookup name ((n, v) :: acc) = acc.lookup name := by
  rw [List.lookup_cons, beq_eq_false_iff_ne.mpr h.symm]

theorem found_cons_self {q : Bytes} {o : Option FieldValue} :
    field.Found ((field.name, q) :: es) o ↔ ∃ v, o = some v ∧ field.kind.Holds v q ∧
      valuesUnder field.name es = [] := by
  cases o with
  | none => simp [Field.Found, valuesUnder_cons_self]
  | some v =>
    simp only [Field.Found, valuesUnder_cons_self, List.cons.injEq, Option.some.injEq]
    constructor
    · rintro ⟨_, ⟨rfl, hrest⟩, hv⟩
      exact ⟨v, rfl, hv, hrest⟩
    · rintro ⟨_, rfl, hv, hrest⟩
      exact ⟨q, ⟨rfl, hrest⟩, hv⟩

theorem found_cons_of_ne {n : String} {q : Bytes} {o : Option FieldValue} (hn : n ≠ field.name) :
    field.Found ((n, q) :: es) o ↔ field.Found es o := by
  cases o <;> simp only [Field.Found, valuesUnder_cons_of_ne hn]

/-- A field that has been found is found no more. -/
theorem Taken.once {v : FieldValue} (h : Taken fields acc es found)
    (hfield : fields.find? (·.name == name) = some field)
    (hv : acc.lookup name = some v) : valuesUnder name es = [] ∧ found.lookup name = some v := by
  induction h with
  | nil acc => exact ⟨rfl, hv⟩
  | @cons acc acc' found n q es head tail ih =>
    have hn : n ≠ name := by
      rintro rfl
      cases head with
      | field _ hnew => rw [hnew] at hv; cases hv
      | other hnone => rw [hnone] at hfield; cases hfield
    rw [valuesUnder_cons_of_ne hn]
    cases head with
    | field => exact ih (by rw [lookup_cons_of_ne hn, hv])
    | other => exact ih hv

/-- A field is found exactly if a member has its name. -/
theorem Taken.field_found (h : Taken fields acc es found) (hfield : fields.find? (·.name == name) = some field)
    (hnew : acc.lookup name = none) : field.Found es (found.lookup name) := by
  obtain rfl : field.name = name := by simpa using List.find?_some hfield
  induction h with
  | nil acc =>
    rw [hnew]
    rfl
  | @cons acc acc' found n q es head tail ih =>
    by_cases hn : n = field.name
    · subst hn
      cases head with
      | @field f v hf _ hv =>
        obtain rfl : f = field := by simpa [hf] using hfield
        obtain ⟨hnone, hfound⟩ := tail.once hfield (List.lookup_cons_self)
        rw [hfound]
        exact found_cons_self.mpr ⟨v, rfl, hv, hnone⟩
      | other hnone => rw [hnone] at hfield; cases hfield
    · refine (found_cons_of_ne hn).mpr ?_
      cases head with
      | field => exact ih (by rw [lookup_cons_of_ne hn, hnew])
      | other => exact ih hnew

/-- The fields of an object are taken from it if each can be found that has not been. -/
theorem exists_taken (h : ∀ name field, fields.find? (·.name == name) = some field →
    ∃ o, field.Found es o ∧ (o.isSome → acc.lookup name = none)) : ∃ found, Taken fields acc es found := by
  induction es generalizing acc with
  | nil => exact ⟨acc, .nil acc⟩
  | cons entry es ih =>
    obtain ⟨n, q⟩ := entry
    have hname : ∀ {name field}, fields.find? (·.name == name) = some field → field.name = name := fun hfield => by
      simpa using List.find?_some hfield
    cases hf : fields.find? (·.name == n) with
    | none =>
      obtain ⟨found, htaken⟩ : ∃ found, Taken fields acc es found := by
        refine ih fun name field hfield => ?_
        have hn : n ≠ field.name := by
          rintro rfl
          rw [hname hfield, hfield] at hf
          cases hf
        exact (h name field hfield).imp fun o ho => ⟨(found_cons_of_ne hn).mp ho.1, ho.2⟩
      exact ⟨found, .cons (.other hf) htaken⟩
    | some f =>
      obtain rfl := hname hf
      obtain ⟨o, ho, hnew⟩ := h _ f hf
      obtain ⟨v, rfl, hv, hnone⟩ := found_cons_self.mp ho
      -- the field is found here, and then no later member has its name
      obtain ⟨found, htaken⟩ : ∃ found, Taken fields ((f.name, v) :: acc) es found := by
        refine ih fun name field hfield => ?_
        obtain rfl := hname hfield
        by_cases hn : f.name = field.name
        · exact ⟨none, show valuesUnder field.name es = [] from hn ▸ hnone, nofun⟩
        · obtain ⟨o, ho, hlookup⟩ := h _ field hfield
          exact ⟨o, (found_cons_of_ne hn).mp ho, fun hsome => (lookup_cons_of_ne hn v acc).trans (hlookup hsome)⟩
      exact ⟨found, .cons (.field hf (hnew rfl) hv) htaken⟩

theorem exists_taken_nil (h : ∀ field ∈ fields, ∃ o, field.Found es o) : ∃ found, Taken fields [] es found := by
  refine exists_taken fun name field hfield => ?_
  obtain ⟨o, ho⟩ := h field (List.mem_of_find?_eq_some hfield)
  exact ⟨o, ho, fun _ => rfl⟩

theorem eq_some_iff_found {o : Option FieldValue} {v : FieldValue} (h : field.Found es o) :
    o = some v ↔ field.Found es (some v) := by
  constructor
  · rintro rfl
    exact h
  · rintro ⟨q, hq, hv⟩
    cases o with
    | none => cases hq.symm.trans h
    | some w =>
      obtain ⟨q', hq', hw⟩ := h
      obtain rfl : q = q' := List.head_eq_of_cons_eq (hq.symm.trans hq')
      rw [holds_unique hw hv]

theorem text?_eq_some_iff {x : String} : found.text? name = some x ↔ found.lookup name = some (.text x) := by
  unfold Record.Fields.text?
  split <;> simp_all

theorem count?_eq_some_iff {n : Nat} : found.count? name = some n ↔ found.lookup name = some (.count n) := by
  unfold Record.Fields.count?
  split <;> simp_all

theorem text?_iff {x : String} {optional : Bool} (h : Field.Found ⟨name, .text, optional⟩ es (found.lookup name)) :
    found.text? name = some x ↔ ∃ q, valuesUnder name es = [q] ∧ Quoted x q := by
  rw [text?_eq_some_iff, eq_some_iff_found h]
  refine exists_congr fun q => and_congr_right fun _ => ?_
  exact ⟨fun hv => by simpa only [FieldValue.toJson, Written] using hv.2,
    fun hv => ⟨.text x, by simpa only [FieldValue.toJson, Written] using hv⟩⟩

theorem count?_iff {n : Nat} {optional : Bool} (h : Field.Found ⟨name, .count, optional⟩ es (found.lookup name)) :
    found.count? name = some n ↔ ∃ q, valuesUnder name es = [q] ∧ Numeral (.int n) q := by
  rw [count?_eq_some_iff, eq_some_iff_found h]
  refine exists_congr fun q => and_congr_right fun _ => ?_
  exact ⟨fun hv => by simpa only [FieldValue.toJson, Written] using hv.2,
    fun hv => ⟨.count n, by simpa only [FieldValue.toJson, Written] using hv⟩⟩

end Record

/-! ### Documents -/

def Writes (d : Nat) (m : String × Json) (e : String × Bytes) : Prop := ∃ q, e = (m.1, q) ∧ Written d m.2 q

theorem entry_of_member {d : Nat} {name : String} {v : Json} {t : Bytes}
    (h : AfterBlanks (Member name (Written d v)) t) :
    ∃ q, Written d v q ∧ AfterBlanks (Entry name q) t := by
  obtain ⟨a, _, rfl, ha, qn, b, _, rfl, hqn, hb, c, q, rfl, hc, hq⟩ := h
  exact ⟨q, hq, a, _, rfl, ha, qn, b, _, rfl, hqn, hb, c, q, rfl, hc, rfl, Written.form v hq⟩

theorem moreEntries_of_moreMembers {d : Nat} {ms : List (String × Json)} {t : Bytes} (h : MoreMembers d ms t) :
    ∃ es, MoreEntries es t ∧ List.Forall₂ (Writes d) ms es := by
  induction ms generalizing t with
  | nil =>
    rw [MoreMembers] at h
    exact ⟨[], h, .nil⟩
  | cons m ms ih =>
    obtain ⟨name, v⟩ := m
    rw [MoreMembers] at h
    obtain ⟨a, t, u, rfl, ha, ht, hu⟩ := h
    obtain ⟨q, hq, hentry⟩ := entry_of_member ht
    obtain ⟨es, hes, hwrites⟩ := ih hu
    exact ⟨(name, q) :: es, ⟨a, t, u, rfl, ha, hentry, hes⟩, .cons ⟨q, rfl, hq⟩ hwrites⟩

/-- **The members of an object in a document are those of its outline.** -/
theorem Document.outline {d : Nat} {ms : List (String × Json)} {s : Bytes} (h : Document (d + 1) (.object ms) s) :
    ∃ es, Outline es s ∧ List.Forall₂ (Writes d) ms es := by
  obtain ⟨_, b, rfl, ⟨a, t, rfl, ha, ht⟩, hb⟩ := h
  obtain ⟨t, rfl, hmembers⟩ := written_object_iff.mp ht
  suffices ∃ es, Entries .first es t ∧ List.Forall₂ (Writes d) ms es by
    obtain ⟨es, hes, hwrites⟩ := this
    exact ⟨es, ⟨a, t, b, by simp, ha, hes, hb⟩, hwrites⟩
  rcases ms with _ | ⟨⟨name, v⟩, ms⟩
  · exact ⟨[], hmembers, .nil⟩
  · obtain ⟨t, u, rfl, ht, hu⟩ := hmembers
    obtain ⟨q, hq, hentry⟩ := entry_of_member ht
    obtain ⟨es, hes, hwrites⟩ := moreEntries_of_moreMembers hu
    exact ⟨(name, q) :: es, ⟨t, u, rfl, hentry, hes⟩, .cons ⟨q, rfl, hq⟩ hwrites⟩

end Parley.Json
