import Parley.Proofs.Admission.Participants
import Parley.Proofs.Admission.Tokens
import Parley.Proofs.Requests.Posting

/-!
# The check before an upgrade

Whether a person may open a session can be asked before it is opened. The check and the upgrade let in by one and the
same rule (`letIn`), but they find out the person in different ways: the check knows tokens only, an upgrade also takes
the person's word where no token key is configured.

* `check_eq` and `authorize_eq` give both the common form, `opens_iff` and `check_fst` what they answer.
* `Mirrors` is what is expected of the check. `check_mirrors_upgrade_iff` says when it is so: always with a token
  key, and without one as long as nobody is found out; `check_mirrors_not_open` is a service where it is not so.
-/

namespace Parley

open Hub Deployment

/-! ### Headers -/

section Headers

variable (hs hs' : Headers) (name : String)

theorem Headers.all_append : (hs ++ hs').all name = hs.all name ++ hs'.all name := by
  simp [Headers.all]

theorem Headers.all_map (f : Bytes → Bytes) :
    Headers.all (hs.map fun p => (p.1, f p.2)) name = (hs.all name).map f := by
  simp [Headers.all, List.filter_map, Function.comp_def]

theorem Identity.candidates_congr {hs hs' : Headers} (hauth : hs.all "authorization" = hs'.all "authorization")
    (hcookie : hs.all "cookie" = hs'.all "cookie") (token : Option String) :
    Identity.candidates hs token = Identity.candidates hs' token := by
  unfold Identity.candidates Identity.bearer Identity.cookie
  rw [hauth, hcookie]

theorem Identity.ofRequest_congr {hs hs' : Headers} (hauth : hs.all "authorization" = hs'.all "authorization")
    (hcookie : hs.all "cookie" = hs'.all "cookie") (now : ℕ) (config : Config) (token : Option String) :
    Identity.ofRequest now config hs token = Identity.ofRequest now config hs' token := by
  unfold Identity.ofRequest
  rw [Identity.candidates_congr hauth hcookie]

theorem Identity.ofRequest_of_candidates {now : ℕ} {config : Config} {token : Option String} {secret text user : String}
    (hsecret : config.jwtSecret = some secret) (hcandidates : Identity.candidates hs token = [text])
    (hgood : Token.verify now secret text = some user) : Identity.ofRequest now config hs token = .ok user := by
  unfold Identity.ofRequest
  rw [hsecret]
  dsimp only
  rw [hcandidates, List.findSome?_cons, hgood]

end Headers

namespace Http

variable {s : Service} {r : Request} {user room : String} {person : Except Identity.Fault String}
  {conversation : Option String}

/-! ### One rule for both -/

/-- The room and the person of a request, if the person has been found out and takes part in the room. -/
def letIn (s : Service) (person : Except Identity.Fault String) (conversation : Option String) :
    Except Response (String × String) :=
  match person with
  | .ok user => (enter s user conversation).map (·, user)
  | .error fault => .error (Problem.unauthorized fault.message).response

theorem letIn_refuses (s : Service) (person : Except Identity.Fault String) (conversation : Option String) :
    RefusesWith [400, 401, 403, 500] (letIn s person conversation) := by
  intro response h
  cases person with
  | error fault =>
    cases h
    simp [Problem.unauthorized]
  | ok user =>
    cases henter : enter s user conversation with
    | ok room => simp [letIn, henter, Except.map] at h
    | error response' =>
      simp only [letIn, henter, Except.map, Except.error.injEq] at h
      subst h
      exact (enter_refuses s user conversation).mono (by decide) response' henter

def Lookup.passed (room user : String) : Json :=
  .object [("ok", .bool true), ("conversation_id", .string room), ("user_id", .string user)]

theorem Lookup.passed_inj {room' user' : String}
    (h : (Lookup.passed room user).print = (Lookup.passed room' user').print) :
    room = room' ∧ user = user' := by
  have hmembers := Json.print_object_inj h
  simp only [Json.printMembers, Json.print, String.toList_append, List.append_assoc,
    List.append_cancel_left_eq] at hmembers
  obtain ⟨hroom, hrest⟩ := Json.quote_inj hmembers
  simp only [List.append_cancel_left_eq] at hrest
  exact ⟨hroom, (Json.quote_inj hrest).1⟩

def Query.Plain (query : Query.Pairs) : Prop := Query.once ["conversation_id", "user_id", "token"] query = true

theorem known_of_plain (h : Query.Plain r.query) {names : List String}
    (hnames : names ⊆ ["conversation_id", "user_id", "token"]) :
    Query.once names r.query = true := by
  unfold Query.Plain Query.once at h
  rw [List.all_eq_true] at h
  exact List.all_eq_true.mpr fun n hn => h n (hnames hn)

theorem check_eq (h : Query.Plain r.query) (s : Service) : Lookup.check s r =
    (letIn s (Identity.ofRequest s.seconds s.config r.headers (r.query.lookup "token"))
      (r.query.lookup "conversation_id")).map
      fun p => reply s (Lookup.passed p.1 p.2) := by
  have htoken : r.queryToken? = r.query.lookup "token" := if_pos (known_of_plain h (by decide))
  have hknown : r.known ["conversation_id"] = .ok r.query := known_ok_iff.mpr ⟨known_of_plain h (by decide), rfl⟩
  rw [Lookup.check, requester_eq, htoken]
  cases Identity.ofRequest s.seconds s.config r.headers (r.query.lookup "token") with
  | error fault => rfl
  | ok user =>
    simp only [hknown, letIn, bind, Except.bind]
    cases enter s user (r.query.lookup "conversation_id") <;> rfl

theorem authorize_eq (h : Query.Plain r.query) (s : Service) : Upgrade.authorize s r =
    letIn s (Identity.ofUpgrade s.seconds s.config r.headers (r.query.lookup "token") (r.query.lookup "user_id"))
      (r.query.lookup "conversation_id") := by
  have hknown : r.known ["conversation_id", "user_id", "token"] = .ok r.query := known_ok_iff.mpr ⟨h, rfl⟩
  rw [Upgrade.authorize, hknown]
  simp only [bind, Except.bind]
  cases Identity.ofUpgrade s.seconds s.config r.headers (r.query.lookup "token") (r.query.lookup "user_id") with
  | error fault => rfl
  | ok user =>
    simp only [pure, Except.pure, letIn]
    cases enter s user (r.query.lookup "conversation_id") <;> rfl

end Http

/-! ### The check and the upgrade -/

namespace Gateway

open Http

def opening (query : Query.Pairs) (headers : Headers) : Request := { path := "/ws", query, headers }

/-- A person who wants to be let in: with one query, and with the same headers for the check as for the upgrade,
beside those of the handshake. -/
structure Knock where
  query : Query.Pairs
  handshake : Headers
  headers : Headers
  plain : Query.Plain query
  wellFormed : Upgrade.notUpgrade? (arriving (opening query (handshake ++ headers))) = none
  /-- The handshake tells of nobody. -/
  authorization : handshake.all "authorization" = []
  cookie : handshake.all "cookie" = []

namespace Knock

def check (k : Knock) : Request := { path := "/api/ws_check", query := k.query, headers := k.headers }

def upgrade (k : Knock) : Request := opening k.query (k.handshake ++ k.headers)

def conversation (k : Knock) : Option String := k.query.lookup "conversation_id"

end Knock

def tokenPerson (s : Service) (r : Request) : Except Identity.Fault String :=
  Identity.ofRequest s.seconds s.config (arriving r).headers (r.query.lookup "token")

/-- An upgrade is let in, and the first thing that its session does is to register the connection for this room and this
person. -/
def Opens (x : Schedule) (hub : ℕ) (r : Request) (room user : String) : Prop :=
  ∃ conn n, (upgrade x hub r).1 = .ok (conn, n) ∧
    (upgrade x hub r).2.deployment.task n = .session { hub, conn, room, user } ∧
    ∀ choice, ∃ y, (upgrade x hub r).2.deployment.step n choice = some y ∧
      y.service.registry hub = (x.service.registry hub).add room ⟨conn, user⟩

variable {x : Schedule} {hub : ℕ} {k : Knock} {room user : String} {fault fault' : Identity.Fault}

theorem step_openSession (y : Deployment) {hub : ℕ} (hhub : hub < y.service.hubs.size) (room user : String)
    (sink : Sink) (choice : Choice) : ∃ y',
    (y.openSession hub room user sink).2.2.step (y.openSession hub room user sink).2.1 choice = some y' ∧
      y'.service.registry hub = (y.service.registry hub).add room ⟨y.service.connections.size, user⟩ := by
  obtain ⟨hroom, huser, -⟩ := y.service.connection_connect room user sink
  have hn : (y.openSession hub room user sink).2.1 = y.tasks.size + 1 := size_spawn _ _
  have htask := y.task_openSession hub room user sink (y.tasks.size + 1)
  rw [if_pos rfl] at htask
  rw [hn, Deployment.step, htask]
  refine ⟨_, rfl, ?_⟩
  show ((y.service.connect room user sink).2.register hub y.service.connections.size).registry hub = _
  rw [Service.register, Service.registry_setRegistry (y.service.connect room user sink).2 _ hhub, hroom, huser]
  rfl

/-- An upgrade begins a session for whom it lets in, and nothing else. -/
theorem upgrade_eq (x : Schedule) (hub : ℕ) (k : Knock) : upgrade x hub k.upgrade =
    match letIn x.service (person x.service k.upgrade) k.conversation with
    | .error response => (.error response, x)
    | .ok (room, user) =>
      let opened := x.deployment.openSession hub room user openSink
      (.ok (opened.1, opened.2.1), { x with deployment := opened.2.2 }) := by
  have hpath : Route.Path.ofText? (arriving k.upgrade).path = some .upgrade := rfl
  have hform : Upgrade.notUpgrade? (arriving k.upgrade) = none := k.wellFormed
  unfold upgrade
  dsimp only
  rw [if_pos hpath, hform, authorize_eq (r := arriving k.upgrade) k.plain]
  rfl

theorem opens_iff (hhub : hub < x.service.hubs.size) : Opens x hub k.upgrade room user ↔
    letIn x.service (person x.service k.upgrade) k.conversation = .ok (room, user) := by
  unfold Opens
  rw [upgrade_eq]
  cases letIn x.service (person x.service k.upgrade) k.conversation with
  | error response => simp
  | ok p =>
    obtain ⟨room', user'⟩ := p
    have hn : (x.deployment.openSession hub room' user' openSink).2.1 = x.deployment.tasks.size + 1 := size_spawn _ _
    have htask := x.deployment.task_openSession hub room' user' openSink (x.deployment.tasks.size + 1)
    rw [if_pos rfl, ← hn] at htask
    constructor
    · rintro ⟨conn, n, hok, hsession, -⟩
      cases hok
      rw [htask] at hsession
      cases hsession
      rfl
    · intro heq
      cases heq
      exact ⟨_, _, rfl, htask, step_openSession x.deployment hhub room user openSink⟩

theorem exists_all_arriving : ∃ f : Bytes → Bytes, ∀ (r : Request) (name : String),
    (arriving r).headers.all name = (r.headers.all name).map f :=
  ⟨_, fun r name => r.headers.all_map name fun v =>
    ((v.dropWhile fun b => b == 0x20 || b == 0x09).reverse.dropWhile fun b => b == 0x20 || b == 0x09).reverse⟩

theorem tokenPerson_check (s : Service) (k : Knock) : tokenPerson s k.check = tokenPerson s k.upgrade := by
  obtain ⟨f, hf⟩ := exists_all_arriving
  refine Identity.ofRequest_congr ?_ ?_ _ _ _ <;> rw [hf, hf, Knock.check, Knock.upgrade, opening, Headers.all_append]
  · rw [k.authorization, List.nil_append]
  · rw [k.cookie, List.nil_append]

/-- A check answers with the room and the person, if the person is let in. -/
theorem check_fst (x : Schedule) (hub : ℕ) (k : Knock) : (request x hub (arriving k.check)).1 =
    match letIn x.service (tokenPerson x.service k.upgrade) k.conversation with
    | .ok (room, user) => .ofJson 200 (Lookup.passed room user)
    | .error response => response := by
  have hanswer : Route.answer x.service hub (arriving k.check) =
      Route.settled x.service (Lookup.check x.service (arriving k.check)) := rfl
  rw [request_fst, hanswer, check_eq (r := arriving k.check) k.plain, ← tokenPerson_check]
  show (Route.settled x.service ((letIn x.service (tokenPerson x.service k.check) k.conversation).map _)).1.response = _
  cases letIn x.service (tokenPerson x.service k.check) k.conversation <;> rfl

/-! ### What is expected of the check -/

/-- The check answers as the upgrade would: it is passed, for a room and a person, exactly where the upgrade would
register a connection for them, and where nobody is let in both are refused with one status. -/
structure Mirrors (x : Schedule) (hub : ℕ) (k : Knock) : Prop where
  passed_iff : ∀ room user, (request x hub (arriving k.check)).1 = .ofJson 200 (Lookup.passed room user) ↔
    Opens x hub k.upgrade room user
  refused : (∀ room user, ¬ Opens x hub k.upgrade room user) →
    ∃ response, (upgrade x hub k.upgrade).1 = .error response ∧
    (request x hub (arriving k.check)).1.status = response.status ∧ response.status ∈ [400, 401, 403, 500]

theorem ne_passed {response : Response} (h : response.status ∈ [400, 401, 403, 500]) (room user : String) :
    response ≠ .ofJson 200 (Lookup.passed room user) := by
  rintro rfl
  have hstatus : (200 : ℕ) ∈ [400, 401, 403, 500] := h
  exact absurd hstatus (by decide)

/-- Where both find out the same person the check mirrors the upgrade. -/
theorem mirrors_of_eq (hhub : hub < x.service.hubs.size)
    (h : tokenPerson x.service k.upgrade = person x.service k.upgrade) :
    Mirrors x hub k where
  passed_iff room user := by
    rw [opens_iff hhub, check_fst, h]
    cases hlet : letIn x.service (person x.service k.upgrade) k.conversation with
    | error response => simpa using ne_passed (letIn_refuses _ _ _ response hlet) room user
    | ok p =>
      constructor
      · intro heq
        obtain ⟨hroom, huser⟩ := Lookup.passed_inj (Body.json.inj (congrArg Response.body heq))
        exact congrArg Except.ok (Prod.ext hroom huser)
      · intro heq
        cases heq
        rfl
  refused hnone := by
    cases hlet : letIn x.service (person x.service k.upgrade) k.conversation with
    | error response =>
      refine ⟨response, ?_, ?_, letIn_refuses _ _ _ response hlet⟩
      · rw [upgrade_eq, hlet]
      · rw [check_fst, h, hlet]
    | ok p => exact absurd ((opens_iff hhub).mpr hlet) (hnone p.1 p.2)

/-- And where neither finds out anybody. -/
theorem mirrors_of_faults (hhub : hub < x.service.hubs.size) (htoken : tokenPerson x.service k.upgrade = .error fault)
    (hperson : person x.service k.upgrade = .error fault') : Mirrors x hub k where
  passed_iff room user := by
    rw [opens_iff hhub, check_fst, htoken, hperson]
    have hstatus : (Problem.unauthorized fault.message).response.status ∈ [400, 401, 403, 500] := by
      simp [Problem.unauthorized]
    simpa [letIn] using ne_passed hstatus room user
  refused _ := by
    refine ⟨(Problem.unauthorized fault'.message).response, ?_, ?_, by simp [Problem.unauthorized]⟩
    · rw [upgrade_eq, hperson]
      rfl
    · rw [check_fst, htoken]
      rfl

/-- But not where only the upgrade finds out somebody: whatever it goes on to do, the check says that nobody is
there. -/
theorem not_mirrors (hhub : hub < x.service.hubs.size) (htoken : tokenPerson x.service k.upgrade = .error fault)
    (hperson : person x.service k.upgrade = .ok user) : ¬ Mirrors x hub k := by
  intro hmirrors
  have hcheck : (request x hub (arriving k.check)).1 = (Problem.unauthorized fault.message).response := by
    rw [check_fst, htoken]
    rfl
  cases henter : enter x.service user k.conversation with
  | ok room =>
    have hlet : letIn x.service (person x.service k.upgrade) k.conversation = .ok (room, user) := by
      rw [hperson, letIn, henter]
      rfl
    have hpassed := (hmirrors.passed_iff room user).mpr ((opens_iff hhub).mpr hlet)
    rw [hcheck] at hpassed
    exact ne_passed (by simp [Problem.unauthorized]) room user hpassed
  | error response =>
    have hlet : letIn x.service (person x.service k.upgrade) k.conversation = .error response := by
      rw [hperson, letIn, henter]
      rfl
    obtain ⟨response', hupgrade, hstatus, -⟩ := hmirrors.refused fun room user' hopens => by
      rw [opens_iff hhub, hlet] at hopens
      cases hopens
    rw [upgrade_eq, hlet] at hupgrade
    cases hupgrade
    have hmem := enter_refuses x.service user _ response henter
    rw [← hstatus, hcheck] at hmem
    simp [Problem.unauthorized] at hmem

/-- **When the check mirrors the upgrade**: always where a token key is configured, and elsewhere exactly as long as the
upgrade finds out nobody either. -/
theorem check_mirrors_upgrade_iff (k : Knock) (hhub : hub < x.service.hubs.size) : Mirrors x hub k ↔
    x.service.config.jwtSecret.isSome = true ∨ ∃ fault, person x.service k.upgrade = .error fault := by
  by_cases hjwt : x.service.config.jwtSecret.isSome = true
  · have hperson : tokenPerson x.service k.upgrade = person x.service k.upgrade := by
      rw [person, Identity.ofUpgrade, if_pos hjwt]
      rfl
    exact ⟨fun _ => .inl hjwt, fun _ => mirrors_of_eq hhub hperson⟩
  · have htoken : tokenPerson x.service k.upgrade = .error .notConfigured := by
      rw [tokenPerson, Identity.ofRequest, Option.not_isSome_iff_eq_none.mp hjwt]
    cases hperson : person x.service k.upgrade with
    | error fault => exact ⟨fun _ => .inr ⟨fault, rfl⟩, fun _ => mirrors_of_faults hhub htoken hperson⟩
    | ok user =>
      constructor
      · exact fun hmirrors => absurd hmirrors (not_mirrors hhub htoken hperson)
      · rintro (hsome | ⟨fault, hfault⟩)
        · exact absurd hsome hjwt
        · cases hfault

/-- Ann at the door of `r`, without a token. -/
def ann : Knock where
  query := [("conversation_id", "r"), ("user_id", "ann")]
  handshake := [("connection", "Upgrade"), ("upgrade", "websocket"), ("sec-websocket-key", "x"),
    ("sec-websocket-version", "13")].map fun p => (p.1, Text.Utf8.encode p.2)
  headers := []
  plain := rfl
  wellFormed := by decide +kernel
  authorization := by decide +kernel
  cookie := by decide +kernel

/-- A service with these settings and one hub, where Ann takes part in `r`. -/
def annsRoom (config : Config) : Schedule :=
  { deployment := { service := { config, store := { participants := [("r", "ann")] } } } }

/-- A token for Ann that is good for an hour. -/
def annsToken : String := Token.issue "key" ⟨"ann", (3600 : UInt64).toNat⟩

/-- Ann at the door of `r`, with her token. -/
def annWithToken : Knock where
  query := [("conversation_id", "r"), ("user_id", "ann"), ("token", annsToken)]
  handshake := ann.handshake
  headers := []
  plain := rfl
  wellFormed := by decide +kernel
  authorization := ann.authorization
  cookie := ann.cookie

theorem person_annWithToken :
    person (annsRoom { jwtSecret := some "key" }).service annWithToken.upgrade = .ok "ann" := by
  have hgood : Token.verify (annsRoom { jwtSecret := some "key" }).service.seconds "key" annsToken = some "ann" :=
    (Token.verify_issue_iff 3600).mpr ⟨by decide, by decide⟩
  have hbearer : Identity.bearer (arriving annWithToken.upgrade).headers = none := by decide +kernel
  have hcookie : Identity.cookie (arriving annWithToken.upgrade).headers Identity.tokenCookie = none := by
    decide +kernel
  have hkeyed : (annsRoom { jwtSecret := some "key" }).service.config.jwtSecret = some "key" := rfl
  have htoken : annWithToken.upgrade.query.lookup "token" = some annsToken := rfl
  rw [person, Identity.ofUpgrade, hkeyed, if_pos Option.isSome_some, htoken]
  refine Identity.ofRequest_of_candidates _ hkeyed ?_ hgood
  change [Identity.bearer _, Identity.cookie _ Identity.tokenCookie, some annsToken].filterMap id = [annsToken]
  rw [hbearer, hcookie]
  rfl

/-- With a token key both ask Ann for her token, and with a good one both let her in. -/
theorem check_mirrors_upgrade_iff_tokenKey : 0 < (annsRoom { jwtSecret := some "key" }).service.hubs.size ∧
    Mirrors (annsRoom { jwtSecret := some "key" }) 0 ann ∧
      (request (annsRoom { jwtSecret := some "key" }) 0 (arriving ann.check)).1.status = 401 ∧
    Mirrors (annsRoom { jwtSecret := some "key" }) 0 annWithToken ∧
      (request (annsRoom { jwtSecret := some "key" }) 0 (arriving annWithToken.check)).1 =
        .ofJson 200 (Lookup.passed "r" "ann") ∧
      Opens (annsRoom { jwtSecret := some "key" }) 0 annWithToken.upgrade "r" "ann" := by
  have hhub : 0 < (annsRoom { jwtSecret := some "key" }).service.hubs.size := by decide
  have hlet : letIn (annsRoom { jwtSecret := some "key" }).service (.ok "ann") annWithToken.conversation =
      .ok ("r", "ann") := by decide +kernel
  have hopens : Opens (annsRoom { jwtSecret := some "key" }) 0 annWithToken.upgrade "r" "ann" := by
    rw [opens_iff hhub, person_annWithToken, hlet]
  have hmirrors := (check_mirrors_upgrade_iff annWithToken hhub).mpr (.inl rfl)
  exact ⟨hhub, (check_mirrors_upgrade_iff ann hhub).mpr (.inl rfl), by decide +kernel, hmirrors,
    (hmirrors.passed_iff "r" "ann").mpr hopens, hopens⟩

/-- Where nothing is configured the check turns Ann away, and the upgrade lets her in. -/
theorem check_mirrors_not_open : (request (annsRoom {}) 0 (arriving ann.check)).1.status = 401 ∧
    Opens (annsRoom {}) 0 ann.upgrade "r" "ann" ∧ ¬ Mirrors (annsRoom {}) 0 ann := by
  have hhub : 0 < (annsRoom {}).service.hubs.size := by decide
  have hperson : person (annsRoom {}).service ann.upgrade = .ok "ann" := by decide +kernel
  have hlet : letIn (annsRoom {}).service (.ok "ann") ann.conversation = .ok ("r", "ann") := by decide +kernel
  have htoken : tokenPerson (annsRoom {}).service ann.upgrade = .error .notConfigured := rfl
  refine ⟨by decide +kernel, (opens_iff hhub).mpr ?_, not_mirrors hhub htoken hperson⟩
  rw [hperson, hlet]

end Gateway

end Parley
