import AquaTimestamp.Model.Config
import AquaTimestamp.Model.Routes
import AquaTimestamp.Model.Server

/-!
# The front door

`auth.rs` of the service and the routes behind the bearer token, over the world of
the server: a request is answered in one step, between two steps of the sealer or of
other requests.

The stores of challenges and sessions and the check of signatures are the auth
crate's; they are a parameter, with what the service relies on as laws.  The reading
of JSON bodies and queries is not modelled, but for the refusal of a body.
-/

namespace AquaTimestamp

open Support

variable {sdk : Sdk}

/-! ## The auth crate -/

/-- `Challenge`. -/
structure Challenge where
  did : String
  nonce : String
  message : String
  expiresAt : Nat
  deriving DecidableEq

/-- `Session`. -/
structure Session where
  token : String
  did : String
  validUntil : Nat
  createdAt : Nat
  deriving DecidableEq

/-- `AuthError`, as far as the service tells its variants apart. -/
inductive AuthError where
  | sessionStoreFull
  | other

/-- The two stores, the signature check and the time that passes for them. -/
structure AuthHost where
  State : Type
  /-- `build_stores`. -/
  buildStores (challengeTtlSecs sessionTtlSecs : Nat) (domain uri : String) : State
  createChallenge : State → String → Except String Challenge × State
  validateChallenge : State → String → Except String Challenge × State
  verifyCaip122 : String → String → List UInt8 → Except String Bool
  createSession : State → String → Except AuthError Session × State
  validateSession : State → String → Except String String × State
  /-- Time passes, and the cleanup task runs. -/
  elapses : State → State → Prop
  /-- The challenge is outstanding. -/
  issued : State → Challenge → Prop
  /-- The token stands for the DID. -/
  holds : State → String → String → Prop

namespace AuthHost

/-- No challenge and no session has come to the stores. -/
structure Keeps (host : AuthHost) (s s' : host.State) : Prop where
  issued : ∀ c, host.issued s' c → host.issued s c
  holds : ∀ token did, host.holds s' token did → host.holds s token did

/-- What the service relies on: challenges and sessions are the ones it created. -/
structure Lawful (host : AuthHost) : Prop where
  noneIssued : ∀ ttl ttl' domain uri c,
    ¬ host.issued (host.buildStores ttl ttl' domain uri) c
  noneHeld : ∀ ttl ttl' domain uri token did,
    ¬ host.holds (host.buildStores ttl ttl' domain uri) token did
  createChallenge_issued : ∀ s did c, host.issued (host.createChallenge s did).2 c →
    host.issued s c ∨ (c.did = did ∧ (host.createChallenge s did).1 = .ok c)
  createChallenge_holds : ∀ s did token did',
    host.holds (host.createChallenge s did).2 token did' → host.holds s token did'
  validateChallenge_ok : ∀ s nonce c, (host.validateChallenge s nonce).1 = .ok c →
    host.issued s c ∧ c.nonce = nonce
  validateChallenge_keeps : ∀ s nonce, host.Keeps s (host.validateChallenge s nonce).2
  createSession_issued : ∀ s did c,
    host.issued (host.createSession s did).2 c → host.issued s c
  createSession_holds : ∀ s did token did',
    host.holds (host.createSession s did).2 token did' → host.holds s token did' ∨
      (did' = did ∧ ∃ x, (host.createSession s did).1 = .ok x ∧ x.token = token)
  validateSession_ok : ∀ s token did, (host.validateSession s token).1 = .ok did →
    host.holds s token did
  validateSession_keeps : ∀ s token, host.Keeps s (host.validateSession s token).2
  elapses_keeps : ∀ s s', host.elapses s s' → host.Keeps s s'

end AuthHost

/-! ## Errors -/

/-- `JsonRejection`: a body that the `Json` extractor refuses, with its status and text. -/
structure JsonRejection where
  status : Nat
  text : String
  deriving DecidableEq

/-- `AuthApiError`, by the constructors the front door uses; the fetch routes have
their own, and so has the extractor of bodies. -/
inductive FrontError where
  | unauthorized (msg : String)
  | forbidden (msg : String)
  | badRequest (msg : String)
  | unavailable (msg : String)
  | internal (msg : String)
  | route (e : AuthApiError)
  | rejection (r : JsonRejection)
  deriving DecidableEq

namespace FrontError

/-- The status `into_response` answers with. -/
def status : FrontError → Nat
  | .unauthorized _ => 401
  | .forbidden _ => 403
  | .badRequest _ => 400
  | .unavailable _ => 503
  | .internal _ => 500
  | .route e => e.status.asU16
  | .rejection r => r.status

def msg : FrontError → String
  | .unauthorized msg => msg
  | .forbidden msg => msg
  | .badRequest msg => msg
  | .unavailable msg => msg
  | .internal msg => msg
  | .route e => e.msg
  | .rejection r => r.text

end FrontError

/-! ## The handshake -/

section Routes

variable (host : AuthHost)

/-- `GET /auth/challenge`. -/
def challenge (auth : host.State) (did : String) :
    Except FrontError Challenge × host.State :=
  match host.createChallenge auth did with
  | (.ok c, auth) => (.ok c, auth)
  | (.error e, auth) => (.error (.badRequest ("challenge: " ++ e)), auth)

/-- The signature a request carries. -/
def decodeSignature (signature : String) : Except FrontError (List UInt8) :=
  match Hex.decode (trimStart0x signature.toList) with
  | .ok bytes => .ok bytes
  | .error e => .error (.badRequest ("signature hex: " ++ e.display))

/-- The session of a DID whose signature was accepted. -/
def openSession (auth : host.State) (did : String) :
    Except FrontError Session × host.State :=
  match host.createSession auth did with
  | (.ok s, auth) => (.ok s, auth)
  | (.error .sessionStoreFull, auth) =>
      (.error (.unavailable "session store at capacity, retry later"), auth)
  | (.error .other, auth) => (.error (.internal "could not create session"), auth)

/-- The check of the signature over the challenge. -/
def checkSignature (did message signature : String) : Except FrontError Unit :=
  match decodeSignature signature with
  | .error e => .error e
  | .ok bytes =>
      match host.verifyCaip122 did message bytes with
      | .error e => .error (.badRequest ("signature: " ++ e))
      | .ok false => .error (.unauthorized "signature verification failed")
      | .ok true => .ok ()

/-- `POST /auth/session`. -/
def session (auth : host.State) (did nonce signature : String) :
    Except FrontError Session × host.State :=
  match host.validateChallenge auth nonce with
  | (.error e, auth) => (.error (.unauthorized ("challenge: " ++ e)), auth)
  | (.ok c, auth) =>
      if c.did ≠ did then
        (.error (.unauthorized "did does not match challenge"), auth)
      else
        match checkSignature host did c.message signature with
        | .error e => (.error e, auth)
        | .ok () => openSession host auth did

/-! ## The bearer token -/

def bearerPrefix : List Char :=
  ['B', 'e', 'a', 'r', 'e', 'r', ' ']

/-- The token of an `Authorization` header; `none` is a header that is missing or is
no text. -/
def bearerToken : Option String → Except FrontError String
  | none => .error (.unauthorized "missing authorization header")
  | some value =>
      if bearerPrefix.isPrefixOf value.toList then
        let token := trimText (value.toList.drop bearerPrefix.length)
        if token.isEmpty then .error (.unauthorized "empty bearer token")
        else .ok (String.ofList token)
      else .error (.unauthorized "authorization scheme must be Bearer")

/-- `BearerDid::from_request_parts`. -/
def bearerDid (auth : host.State) (authorization : Option String) :
    Except FrontError String × host.State :=
  match bearerToken authorization with
  | .error e => (.error e, auth)
  | .ok token =>
      match host.validateSession auth token with
      | (.ok did, auth) => (.ok did, auth)
      | (.error e, auth) => (.error (.unauthorized ("bearer: " ++ e)), auth)

end Routes

/-! ## Submissions -/

/-- `is_allowed`: an empty list allows everybody. -/
def Config.isAllowed (cfg : Config) (did : String) : Bool :=
  cfg.auth.allowedDids.isEmpty || cfg.auth.allowedDids.any (· = did)

/-- The loop over the leaves of a request. -/
def decodeLeaves : Nat → List String → Except FrontError (List Hash32)
  | _, [] => .ok []
  | i, raw :: rest =>
      match parseLeafHex raw with
      | .error (.badLength len) =>
          .error (.badRequest ("leaves[" ++ toString i ++
            "]: expected 64 hex chars (optionally 0x-prefixed), got " ++ toString len))
      | .error (.badHex e) =>
          .error (.badRequest ("leaves[" ++ toString i ++ "]: non-hex character (" ++
            e.display ++ ")"))
      | .ok leaf =>
          match decodeLeaves (i + 1) rest with
          | .error e => .error e
          | .ok leaves => .ok (leaf :: leaves)

/-- The batch of a request, checked before it is decoded. -/
def readBatch (cfg : Config) (did : String) (leaves : List String) :
    Except FrontError (List Hash32) :=
  if !cfg.isAllowed did then .error (.forbidden "did not on allowlist")
  else if leaves.length = 0 then
    .error (.badRequest "leaves must contain at least one hash")
  else if leaves.length > cfg.epoch.maxLeavesPerRequest then
    .error (.badRequest ("leaves: " ++ toString leaves.length ++
      " exceeds max_leaves_per_request " ++ toString cfg.epoch.maxLeavesPerRequest))
  else decodeLeaves 0 leaves

/-- The refusal of a batch that does not fit the open epoch. -/
def EpochFull.refusal (full : EpochFull) : FrontError :=
  .unavailable ("epoch " ++ toString full.epochId ++ " is full (" ++ toString full.cap ++
    " leaves, the timestamp template maximum); nothing of this batch was accepted, " ++
    "resubmit after epoch_closes_at " ++ toString full.epochClosesAt)

/-- `LeavesResponse`. -/
structure LeavesResponse where
  accepted : Nat
  duplicates : Nat
  epochId : Nat
  epochClosesAt : Nat
  submitterDid : String
  deriving DecidableEq

/-- `submit_leaves`, behind the bearer token. -/
def submitLeaves (cfg : Config) (w : World sdk) (did : String) (leaves : List String) :
    Except FrontError LeavesResponse × World sdk :=
  match readBatch cfg did leaves with
  | .error e => (.error e, w)
  | .ok batch =>
      match (w.accumulator.appendBatch batch did).1 with
      | .error full => (.error full.refusal, w.append batch did)
      | .ok o =>
          (.ok ⟨o.accepted, o.duplicates, o.epochId, o.epochClosesAt, did⟩,
            w.append batch did)

/-! ## Requests -/

/-- A request that reaches a handler, or a submission whose body is refused before. -/
inductive FrontRequest where
  | challenge (did : String)
  | session (did nonce signature : String)
  | submitLeaves (authorization : Option String) (leaves : List String)
  | submitUnread (authorization : Option String) (rejection : JsonRejection)
  | getTreeByTip (authorization : Option String) (tipHex : String)
  | getTreeByLeaf (authorization : Option String) (leafHex : String)
      (method : Option String)
  | listOrQueryTrees (authorization : Option String) (epoch : Option Nat)
      (method : Option String)
  deriving DecidableEq

/-- What a handler answers with. -/
inductive Reply (sdk : Sdk) where
  | challenge (c : Challenge)
  | session (s : Session)
  | leaves (receipt : LeavesResponse)
  | trees (r : Response sdk)

/-- An answered request. -/
structure Exchange (sdk : Sdk) where
  request : FrontRequest
  answer : Except FrontError (Reply sdk)

/-- The service: the world of its server, the auth stores and the requests it has
answered, newest first. -/
structure Front (sdk : Sdk) (host : AuthHost) where
  world : World sdk
  auth : host.State
  trail : List (Exchange sdk)

namespace Front

variable {host : AuthHost}

/-- The state after an answer that leaves the world alone. -/
def answered (s : Front sdk host) (auth : host.State) (req : FrontRequest)
    (answer : Except FrontError (Reply sdk)) : Front sdk host :=
  ⟨s.world, auth, ⟨req, answer⟩ :: s.trail⟩

/-- A fetch route behind the token. -/
def fetch (s : Front sdk host) (req : FrontRequest) (authorization : Option String)
    (handler : String → Except AuthApiError (Response sdk)) : Front sdk host :=
  match bearerDid host s.auth authorization with
  | (.error e, auth) => s.answered auth req (.error e)
  | (.ok did, auth) =>
      match handler did with
      | .error e => s.answered auth req (.error (.route e))
      | .ok r => s.answered auth req (.ok (.trees r))

/-- A body is refused, behind the token. -/
def reject (s : Front sdk host) (req : FrontRequest) (authorization : Option String)
    (rejection : JsonRejection) : Front sdk host :=
  match bearerDid host s.auth authorization with
  | (.error e, auth) => s.answered auth req (.error e)
  | (.ok _, auth) => s.answered auth req (.error (.rejection rejection))

/-- The service answers a request. -/
def serve (cfg : Config) (maxAnchorFaults : UInt32) (s : Front sdk host)
    (req : FrontRequest) : Front sdk host :=
  match req with
  | .challenge did =>
      s.answered (AquaTimestamp.challenge host s.auth did).2 req
        ((AquaTimestamp.challenge host s.auth did).1.map .challenge)
  | .session did nonce signature =>
      s.answered (AquaTimestamp.session host s.auth did nonce signature).2 req
        ((AquaTimestamp.session host s.auth did nonce signature).1.map .session)
  | .submitLeaves authorization leaves =>
      match bearerDid host s.auth authorization with
      | (.error e, auth) => s.answered auth req (.error e)
      | (.ok did, auth) =>
          ⟨(AquaTimestamp.submitLeaves cfg s.world did leaves).2, auth,
            ⟨req, (AquaTimestamp.submitLeaves cfg s.world did leaves).1.map .leaves⟩ ::
              s.trail⟩
  | .submitUnread authorization rejection => s.reject req authorization rejection
  | .getTreeByTip authorization tipHex =>
      s.fetch req authorization fun did =>
        AquaTimestamp.getTreeByTip s.world.store did tipHex
  | .getTreeByLeaf authorization leafHex method =>
      s.fetch req authorization fun did =>
        AquaTimestamp.getTreeByLeaf s.world.store maxAnchorFaults did leafHex method
  | .listOrQueryTrees authorization epoch method =>
      s.fetch req authorization fun did =>
        AquaTimestamp.listOrQueryTrees s.world.store maxAnchorFaults did epoch method

end Front

/-! ## Runs of the service -/

/-- What stays the same while the process runs. -/
structure FrontParams where
  cfg : Config
  witnessCtx : WitnessContext

/-- The sealer's calls, with requests answered and time passing in between. -/
def frontSemantics (sdk : Sdk) (host : AuthHost) (params : FrontParams) :
    Semantics (Call sdk) (@Answer sdk) (Front sdk host) where
  step c answer s s' :=
    Permitted s.world c answer ∧ s' = { s with world := s.world.after c answer }
  interferes s s' :=
    (∃ req, s' = s.serve params.cfg params.witnessCtx.maxAnchorFaults req) ∨
      ∃ auth, host.elapses s.auth auth ∧ s' = { s with auth := auth }

namespace Front

variable {host : AuthHost}

/-- The auth stores of a process that starts. -/
def freshAuth (host : AuthHost) (cfg : Config) : host.State :=
  host.buildStores cfg.auth.challengeTtlSecs cfg.auth.sessionTtlSecs cfg.identity.dns
    ("https://" ++ cfg.identity.dns)

/-- A process that starts on a store; the requests before are history. -/
def boot (params : FrontParams) (st : Store sdk) (now : Nat) : Front sdk host where
  world := World.boot st [] now params.cfg.epoch.durationSecs
  auth := freshAuth host params.cfg
  trail := []

/-- The process ends, at whatever point, and starts again: sessions and challenges
are gone. -/
def restart (s : Front sdk host) (params : FrontParams) (now : Nat) : Front sdk host where
  world := s.world.restart now params.cfg.epoch.durationSecs
  auth := freshAuth host params.cfg
  trail := s.trail

/-- A seal cycle of the service, from `s`. -/
def SealCycle (params : FrontParams) (s : Front sdk host) (now durationSecs : Nat)
    (s' : Front sdk host)
    (result : Option (Except SealError (EpochRecord × List (MintedWitness sdk)))) :
    Prop :=
  (frontSemantics sdk host params).Run (sealOnce now durationSecs (some params.witnessCtx))
    { s with world := s.world.tick (some params.witnessCtx) now durationSecs } s' result

/-- The states of the service between two seal cycles, started on `st`. -/
inductive Reachable (params : FrontParams) (st : Store sdk) : Front sdk host → Prop where
  | boot (now : Nat) : Reachable params st (Front.boot params st now)
  | request {s : Front sdk host} (req : FrontRequest) :
      Reachable params st s →
        Reachable params st (s.serve params.cfg params.witnessCtx.maxAnchorFaults req)
  | elapse {s : Front sdk host} {auth : host.State} :
      Reachable params st s → host.elapses s.auth auth →
        Reachable params st { s with auth := auth }
  | cycle {s s' : Front sdk host} {now durationSecs : Nat}
      {result : Except SealError (EpochRecord × List (MintedWitness sdk))} :
      Reachable params st s →
        SealCycle params s now durationSecs s' (some result) → Reachable params st s'
  | restart {s : Front sdk host} (now : Nat) :
      Reachable params st s → Reachable params st (s.restart params now)
  | crash {s s' : Front sdk host} {now durationSecs : Nat} (now' : Nat) :
      Reachable params st s → SealCycle params s now durationSecs s' none →
        Reachable params st (s'.restart params now')

/-- The states of the service at any moment. -/
inductive Visited (params : FrontParams) (st : Store sdk) (s : Front sdk host) : Prop where
  | between : Reachable params st s → Visited params st s
  | during {s₀ : Front sdk host} {now durationSecs : Nat} :
      Reachable params st s₀ → SealCycle params s₀ now durationSecs s none →
        Visited params st s

end Front

/-! ## What an answer tells -/

section Answers

variable {host : AuthHost} {auth auth' : host.State} {did : String}

/-- Whoever passes the token's check holds a session for the DID. -/
theorem bearerDid_eq_ok {authorization : Option String}
    (h : bearerDid host auth authorization = (.ok did, auth')) :
    ∃ token, bearerToken authorization = .ok token ∧
      (host.validateSession auth token).1 = .ok did := by
  unfold bearerDid at h
  cases htoken : bearerToken authorization with
  | error e => simp [htoken] at h
  | ok token =>
      refine ⟨token, rfl, ?_⟩
      cases hsession : host.validateSession auth token with
      | mk result auth'' =>
          cases result with
          | error e => simp [htoken, hsession] at h
          | ok did' =>
              simp only [htoken, hsession, Prod.mk.injEq, Except.ok.injEq] at h
              rw [h.1]

/-- A session is opened for the DID of a challenge that was signed. -/
theorem session_eq_ok {nonce signature : String} {x : Session}
    (h : session host auth did nonce signature = (.ok x, auth')) :
    ∃ c bytes, (host.validateChallenge auth nonce).1 = .ok c ∧ c.did = did ∧
      decodeSignature signature = .ok bytes ∧
      host.verifyCaip122 did c.message bytes = .ok true ∧
      openSession host (host.validateChallenge auth nonce).2 did = (.ok x, auth') := by
  unfold session at h
  cases hchallenge : host.validateChallenge auth nonce with
  | mk result auth₁ =>
      cases result with
      | error e => simp [hchallenge] at h
      | ok c =>
          simp only [hchallenge] at h
          by_cases hdid : c.did = did
          · simp only [hdid, ne_eq, not_true_eq_false, if_false] at h
            cases hcheck : checkSignature host did c.message signature with
            | error e => simp [hcheck] at h
            | ok u =>
                simp only [hcheck] at h
                unfold checkSignature at hcheck
                split at hcheck
                · cases hcheck
                · rename_i bytes hbytes
                  split at hcheck
                  · cases hcheck
                  · cases hcheck
                  · rename_i hverified
                    exact ⟨c, bytes, rfl, hdid, hbytes, hverified, h⟩
          · simp [hdid] at h

/-- A batch that is read is allowed, neither empty nor too long, and its leaves are
the texts of the request. -/
theorem readBatch_eq_ok_iff {cfg : Config} {leaves : List String} {batch : List Hash32} :
    readBatch cfg did leaves = .ok batch ↔
      cfg.isAllowed did = true ∧ leaves ≠ [] ∧
        leaves.length ≤ cfg.epoch.maxLeavesPerRequest ∧ decodeLeaves 0 leaves = .ok batch := by
  unfold readBatch
  by_cases hallowed : cfg.isAllowed did = true
  · by_cases hempty : leaves.length = 0
    · simp [hallowed, List.eq_nil_of_length_eq_zero hempty]
    · by_cases hmax : leaves.length > cfg.epoch.maxLeavesPerRequest
      · simp [hallowed, hempty, hmax, Nat.not_le.mpr hmax]
      · have hsome : leaves ≠ [] := fun hnil => hempty (by simp [hnil])
        simp [hallowed, hmax, hsome, Nat.not_lt.mp hmax]
  · simp [hallowed]

theorem decodeLeaves_eq_ok_iff {i : Nat} {leaves : List String} {batch : List Hash32} :
    decodeLeaves i leaves = .ok batch ↔
      List.Forall₂ (fun raw leaf => parseLeafHex raw = .ok leaf) leaves batch := by
  induction leaves generalizing i batch with
  | nil => simp [decodeLeaves, eq_comm]
  | cons raw leaves ih =>
      rw [List.forall₂_cons_left_iff]
      unfold decodeLeaves
      cases hparse : parseLeafHex raw with
      | error e => cases e <;> simp
      | ok leaf =>
          cases hrest : decodeLeaves (i + 1) leaves with
          | error e =>
              have hnone : ∀ rest, ¬ List.Forall₂
                  (fun raw leaf => parseLeafHex raw = .ok leaf) leaves rest := by
                intro rest hall
                rw [ih.mpr hall] at hrest
                cases hrest
              simp [hnone]
          | ok rest =>
              have hiff := ih.mp hrest
              constructor
              · intro h
                obtain rfl := Except.ok.inj h
                exact ⟨leaf, rest, rfl, hiff, rfl⟩
              · rintro ⟨leaf', rest', hleaf, hall, rfl⟩
                rw [ih.mpr hall] at hrest
                rw [Except.ok.inj hleaf, Except.ok.inj hrest]

end Answers

end AquaTimestamp
