import Parley.Proofs.Admission.Answers

/-!
# The stages of a request

A request that is handled passes stages, each of which lets it through with what it has read or refuses it.

* `RefusesWith` says with which statuses a stage may refuse. Those of a handling are those of its stages together
  (`RefusesWith.bind`).
* `requester_ok_iff` and its like say what lets a request through a stage.
-/

namespace Parley.Http

/-! ### Refusals -/

@[simp] theorem Response.status_ofJson (status : ℕ) (v : Json) : (Response.ofJson status v).status = status := rfl
@[simp] theorem Problem.status_response (p : Problem) : p.response.status = p.status := rfl

/-- Whatever is refused here is refused with one of these statuses. -/
def RefusesWith (statuses : List ℕ) {α : Type} (x : Except Response α) : Prop :=
  ∀ response, x = .error response → response.status ∈ statuses

section RefusesWith

variable {α β : Type} {ss ts : List ℕ}

theorem refuses_ok (a : α) : RefusesWith [] (.ok a : Except Response α) := nofun

theorem RefusesWith.mono {x : Except Response α} (h : RefusesWith ss x) (hsub : ss ⊆ ts) : RefusesWith ts x :=
  fun response hx => hsub (h response hx)

/-- What follows a stage is only reached where the stage lets through. -/
theorem RefusesWith.bind {x : Except Response α} {f : α → Except Response β} (h : RefusesWith ss x)
    (hf : ∀ a, x = .ok a → RefusesWith ts (f a)) : RefusesWith (ss ++ ts) (x >>= f) := by
  intro response hx
  cases x with
  | error response' =>
    cases hx
    exact List.mem_append_left _ (h response rfl)
  | ok a => exact List.mem_append_right _ (hf a rfl response hx)

end RefusesWith

variable {s : Service} {r : Request} {user room : String} {conversation : Option String}

/-! ### The person -/

/-- The token of the query, where it comes once. -/
def Request.queryToken? (r : Request) : Option String :=
  if Query.once ["token"] r.query then r.query.lookup "token" else none

theorem requester_eq (r : Request) (now : ℕ) (config : Config) : r.requester now config =
    match Identity.ofRequest now config r.headers r.queryToken? with
    | .ok user => .ok user
    | .error fault => .error (Problem.unauthorized fault.message).response := rfl

def Request.tokens (r : Request) : List String := Identity.candidates r.headers r.queryToken?

def Request.Bears (r : Request) (s : Service) (user : String) : Prop :=
  ∃ secret, s.config.jwtSecret = some secret ∧ r.tokens.findSome? (Token.verify s.seconds secret) = some user

/-- A request is somebody's exactly where a valid token is presented. -/
theorem exists_bears_iff : (∃ user, r.Bears s user) ↔
    ∃ secret, s.config.jwtSecret = some secret ∧ ∃ t ∈ r.tokens, (Token.verify s.seconds secret t).isSome := by
  constructor
  · rintro ⟨user, secret, hsecret, hfind⟩
    obtain ⟨t, ht, hverify⟩ := List.exists_of_findSome?_eq_some hfind
    exact ⟨secret, hsecret, t, ht, by rw [hverify]; rfl⟩
  · rintro ⟨secret, hsecret, t, ht, hverify⟩
    obtain ⟨user, hfind⟩ := Option.isSome_iff_exists.mp (List.findSome?_isSome_iff.mpr ⟨t, ht, hverify⟩)
    exact ⟨user, secret, hsecret, hfind⟩

theorem requester_ok_iff : r.requester s.seconds s.config = .ok user ↔ r.Bears s user := by
  rw [requester_eq, Request.Bears, Request.tokens, Identity.ofRequest]
  cases s.config.jwtSecret with
  | none => simp
  | some secret =>
    simp only [Option.some.injEq, exists_eq_left']
    cases List.findSome? (Token.verify s.seconds secret) (Identity.candidates r.headers r.queryToken?) <;> simp

theorem requester_refuses (r : Request) (now : ℕ) (config : Config) : RefusesWith [401] (r.requester now config) := by
  intro response h
  rw [requester_eq] at h
  cases hid : Identity.ofRequest now config r.headers r.queryToken? with
  | ok user =>
    rw [hid] at h
    cases h
  | error fault =>
    rw [hid] at h
    cases h
    exact List.mem_singleton_self _

/-! ### The body -/

theorem readFields_refuses (r : Request) (fields : List Json.Field) :
    RefusesWith [415, 413, 422, 400] (r.readFields fields) := by
  intro response h
  unfold Request.readFields at h
  split at h
  · cases h
    simp [Request.refused]
  · split at h
    · cases h
      simp [Request.refused]
    · split at h <;> cases h <;> simp [Request.refused]

/-! ### The room -/

theorem roomOf?_eq_some_iff : Access.roomOf? conversation = some room ↔
    room = Text.trim (conversation.getD "") ∧ room ≠ "" := by
  cases conversation with
  | none =>
    have hblank : Text.trim "" = "" := by decide
    simp [Access.roomOf?, hblank]
  | some name =>
    simp only [Access.roomOf?, Option.map_some, Option.filter_eq_some_iff, Option.some.injEq, bne_iff_ne,
      Option.getD_some]
    exact and_congr_left fun _ => eq_comm

/-- Whom the service does not let into a room, and with which status. -/
theorem enter_refuses (s : Service) (user : String) (conversation : Option String) :
    RefusesWith [400, 403, 500] (enter s user conversation) := by
  intro response h
  unfold enter Access.requireParticipant at h
  cases hroom : Access.roomOf? conversation with
  | none =>
    rw [hroom] at h
    cases h
    simp [Problem.badRequest]
  | some room =>
    simp only [hroom] at h
    cases hpart : s.store.isParticipant room user with
    | error e =>
      rw [hpart] at h
      cases h
      simp [Problem.internal]
    | ok takesPart =>
      rw [hpart] at h
      cases takesPart <;> cases h
      simp [Problem.forbidden]

/-! ### The store -/

theorem fromStore_refuses {α : Type} (x : Except Store.Error α) : RefusesWith [400, 409, 500] (fromStore x) := by
  intro response h
  cases x with
  | ok a => cases h
  | error e =>
    cases h
    rcases e with ⟨_ | _ | _ | _, detail⟩ <;>
      simp [Problem.ofStore, Problem.badRequest, Problem.conflict, Problem.internal]

end Parley.Http
