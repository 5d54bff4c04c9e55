import AquaTimestamp.Model.Client
import AquaTimestamp.Model.Events
import AquaTimestamp.Model.Front
import AquaTimestamp.Support.JsonText

/-!
# A client at the service

`submit` and `submit_many` of `client.rs`, and what goes over the wire between a client
and the service: the JSON of the requests, the answers of the handlers as HTTP answers,
and the service as the server a client submits to and fetches from.

The handshake of a client is the auth crate's; a client comes with a token.
-/

namespace AquaTimestamp

open Support

variable {sdk : Sdk} {host : AuthHost}

/-! ## Answers on the wire -/

/-- `LeavesResponse`, serialised. -/
def LeavesResponse.wire (r : LeavesResponse) : Wire sdk :=
  .object [("accepted", .number r.accepted), ("duplicates", .number r.duplicates),
    ("epoch_id", .number r.epochId), ("epoch_closes_at", .number r.epochClosesAt),
    ("submitter_did", .text r.submitterDid)]

/-- `ChallengeResponse`, serialised. -/
def Challenge.wire (c : Challenge) : Wire sdk :=
  .object [("nonce", .text c.nonce), ("message", .text c.message),
    ("expires_at", .number c.expiresAt)]

/-- `SessionResponse`, serialised. -/
def Session.wire (x : Session) : Wire sdk :=
  .object [("token", .text x.token), ("did", .text x.did),
    ("valid_until", .number x.validUntil), ("created_at", .number x.createdAt)]

/-- An `Option<u64>`, serialised. -/
def Wire.ofOptionU64 : Option Nat → Wire sdk
  | some n => .number n
  | none => .null

/-- `ScheduleResponse`, serialised. -/
def ScheduleResponse.wire (r : ScheduleResponse) : Wire sdk :=
  .object [("current_epoch_id", .number r.currentEpochId),
    ("current_epoch_opened_at", .number r.currentEpochOpenedAt),
    ("current_epoch_closes_at", .number r.currentEpochClosesAt),
    ("epoch_duration_secs", .number r.epochDurationSecs),
    ("last_sealed_epoch_id", .ofOptionU64 r.lastSealedEpochId),
    ("last_sealed_at", .ofOptionU64 r.lastSealedAt),
    ("anchor_methods", .array (r.anchorMethods.map .text)),
    ("epochs_total", .number r.epochsTotal), ("leaves_total", .number r.leavesTotal),
    ("uptime_secs", .number r.uptimeSecs)]

/-- `into_response` of an error; that of a rejection is no JSON. -/
def FrontError.wire : FrontError → HttpAnswer sdk
  | .rejection r => ⟨r.status, none⟩
  | e => ⟨e.status, some (.object [("error", .text e.msg)])⟩

def Reply.wire : Reply sdk → HttpAnswer sdk
  | .challenge c => ⟨200, some c.wire⟩
  | .session x => ⟨200, some x.wire⟩
  | .leaves r => ⟨202, some r.wire⟩
  | .trees r => r.wire

def Exchange.wire (x : Exchange sdk) : HttpAnswer sdk :=
  match x.answer with
  | .ok reply => reply.wire
  | .error e => e.wire

/-! ## The client's side -/

/-- The body of a request: its bytes and its JSON. -/
structure RequestBody (sdk : Sdk) where
  length : Nat
  json : Wire sdk

/-- A service as a client submits to it at one time. -/
structure Intake (sdk : Sdk) where
  ensureToken : Except (ClientError sdk) String
  /-- `POST /v1/leaves` with a token and a body. -/
  post : String → RequestBody sdk → Except (ClientError sdk) (HttpAnswer sdk)

namespace TimestampClient

/-- A hash as the client sends it. -/
def leafText (h : Hash32) : String :=
  "0x" ++ formatHash32Bare h

/-- The text of a `LeavesRequest`, which is written without blanks. -/
def leavesRequestText (leaves : List String) : List Char :=
  '{' :: (CompactJson.printString "leaves" ++
    ':' :: (CompactJson.printStrings leaves ++ ['}']))

/-- `LeavesRequest`, serialised. -/
def leavesRequest (hashes : List Hash32) : RequestBody sdk where
  length := Hex.byteLength (leavesRequestText (hashes.map leafText))
  json := .object [("leaves", .array ((hashes.map leafText).map .text))]

def decodeLeavesResponse (body : Wire sdk) : Except String LeavesResponse := do
  match ← body.struct ["accepted", "duplicates", "epoch_id", "epoch_closes_at",
      "submitter_did"] 5 with
  | [accepted, duplicates, epochId, epochClosesAt, submitterDid] =>
      let accepted ← (← Wire.need "accepted" accepted).asU64
      let duplicates ← (← Wire.need "duplicates" duplicates).asU64
      let epochId ← (← Wire.need "epoch_id" epochId).asU64
      let epochClosesAt ← (← Wire.need "epoch_closes_at" epochClosesAt).asU64
      let submitterDid ← (← Wire.need "submitter_did" submitterDid).asText
      .ok ⟨accepted, duplicates, epochId, epochClosesAt, submitterDid⟩
  | _ => .error "unreachable"

/-- The receipts of a batch: all with the epoch of the response. -/
def receiptsOf (hashes : List Hash32) (body : LeavesResponse) : List SubmissionReceipt :=
  hashes.map fun h => ⟨h, body.epochId, body.epochClosesAt, body.submitterDid⟩

/-- `submit_many`. -/
def submitMany (net : Intake sdk) (hashes : List Hash32) :
    Except (ClientError sdk) (List SubmissionReceipt) :=
  if hashes.isEmpty then .error (.invalid "hashes must be non-empty")
  else do
    let token ← net.ensureToken
    let answer ← net.post token (leavesRequest hashes)
    if answer.isSuccess then do
      let body ← json decodeLeavesResponse answer
      .ok (receiptsOf hashes body)
    else .error (.server answer.status answer.body)

/-- `submit`. -/
def submit (net : Intake sdk) (hash : Hash32) :
    Except (ClientError sdk) SubmissionReceipt := do
  let receipts ← submitMany net [hash]
  match receipts.getLast? with
  | some receipt => .ok receipt
  | none => .error (.invalid "server returned empty receipt set")

end TimestampClient

/-! ## The service as a client's server -/

/-- The `leaves` of a request body. -/
def decodeLeavesRequest (body : Wire sdk) : Except String (List String) := do
  match ← body.struct ["leaves"] 1 with
  | [leaves] => (← Wire.need "leaves" leaves).asTexts
  | _ => .error "unreachable"

/-- The limit of `Json` on bodies where no other is set: 2 MB. -/
def defaultBodyLimit : Nat := 2097152

/-- What the `Json` extractor makes of the body of a submission. -/
def readLeavesRequest (body : RequestBody sdk) : Except JsonRejection (List String) :=
  if defaultBodyLimit < body.length then
    .error ⟨413, "Failed to buffer the request body: length limit exceeded"⟩
  else
    match decodeLeavesRequest body.json with
    | .ok leaves => .ok leaves
    | .error e =>
        .error ⟨422, "Failed to deserialize the JSON body into the target type: " ++ e⟩

/-- The submission of a body. -/
def FrontRequest.submission (authorization : Option String) (body : RequestBody sdk) :
    FrontRequest :=
  match readLeavesRequest body with
  | .ok leaves => .submitLeaves authorization leaves
  | .error rejection => .submitUnread authorization rejection

/-- The header of a token. -/
def bearer (token : String) : String :=
  String.ofList bearerPrefix ++ token

namespace Front

variable (cfg : Config) (maxAnchorFaults : UInt32) (s : Front sdk host)

/-- The HTTP answer to a request. -/
def reply (req : FrontRequest) : Except (ClientError sdk) (HttpAnswer sdk) :=
  match (s.serve cfg maxAnchorFaults req).trail with
  | x :: _ => .ok x.wire
  | [] => .error (.http "no answer")

/-- The service as a client submits to it. -/
def intake (token : String) : Intake sdk where
  ensureToken := .ok token
  post token body :=
    s.reply cfg maxAnchorFaults (.submission (some (bearer token)) body)

/-- The service as a client fetches from it.  A handler that panics closes the
connection. -/
def network (checks : OverflowChecks) (uptimeSecs : Nat) (token : String) : Network sdk where
  ensureToken := .ok token
  send
    | _, .schedule =>
        match schedule checks s.world cfg.epoch.durationSecs uptimeSecs with
        | some sched => .ok ⟨200, some sched.wire⟩
        | none => .error (.http "connection closed before message completed")
    | authorization, .treeByLeaf leafHex method =>
        s.reply cfg maxAnchorFaults
          (.getTreeByLeaf (authorization.map bearer) leafHex (some method))

/-- The service after a client's submission; an empty batch is not sent. -/
def submitted (token : String) (hashes : List Hash32) : Front sdk host :=
  if hashes.isEmpty then s
  else s.serve cfg maxAnchorFaults
    (.submission (some (bearer token)) (TimestampClient.leavesRequest hashes : RequestBody sdk))

end Front

/-- The service answers requests and time passes, from one state to another. -/
inductive Front.Serves (params : FrontParams) (s : Front sdk host) :
    Front sdk host → Prop where
  | refl : Serves params s s
  | request {s' : Front sdk host} (req : FrontRequest) : Serves params s s' →
      Serves params s (s'.serve params.cfg params.witnessCtx.maxAnchorFaults req)
  | elapse {s' : Front sdk host} {auth : host.State} : Serves params s s' →
      host.elapses s'.auth auth → Serves params s { s' with auth := auth }

end AquaTimestamp
