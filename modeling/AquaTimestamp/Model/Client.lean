import AquaTimestamp.Model.Routes

/-!
# The client

`client.rs` of the client crate: fetching a witness once, and polling for it.
The client sees a server only through HTTP answers, a status and a JSON
document.  The server of this development answers as its routes do; the client
is defined against any server.

The deserialisation of a revision, the test for timestamp objects and the check
of a signature belong to the SDK and are fields of `TimestampClient`.
-/

namespace AquaTimestamp

open Support

variable {sdk : Sdk}

/-! ## What goes over the wire -/

/-- A JSON document; values the SDK serialised are its leaves. -/
inductive Wire (sdk : Sdk) where
  | null
  | text (s : String)
  | number (n : Nat)
  | value (json : sdk.Json)
  | array (items : List (Wire sdk))
  | object (fields : List (String × Wire sdk))

/-- An HTTP answer; the body is `none` when it is no JSON. -/
structure HttpAnswer (sdk : Sdk) where
  status : Nat
  body : Option (Wire sdk)

/-- `StatusCode::is_success`. -/
def HttpAnswer.isSuccess (a : HttpAnswer sdk) : Bool :=
  200 ≤ a.status ∧ a.status < 300

/-- The fields of a status body; what is absent is left out. -/
def StatusBody.fields (b : StatusBody) : List (String × Wire sdk) :=
  [("status", .text b.status)] ++
    (b.reason.toList.map fun r => ("reason", .text r)) ++
    (b.method.toList.map fun m => ("method", .text m)) ++
    [("epoch", .number b.epoch)] ++
    (b.leaf.toList.map fun l => ("leaf", .text l)) ++
    [("detail", .text b.detail)]

/-- A body as the routes serialise it. -/
def Body.wire : Body sdk → Wire sdk
  | .error msg => .object [("error", .text msg)]
  | .status b => .object b.fields
  | .tips list => .array (list.map .text)
  | .tree revisions fileIndex =>
      .object [
        ("revisions", .object (revisions.toList.map fun x => (x.1, .value x.2))),
        ("file_index", .object (fileIndex.toList.map fun x => (x.1, .text x.2)))]

def Response.wire (r : Response sdk) : HttpAnswer sdk :=
  ⟨r.status.asU16, some r.body.wire⟩

/-! ## Decoding -/

/-- A field of a derived struct: at most one entry of its name. -/
def Wire.fieldOf (fields : List (String × Wire sdk)) (name : String) :
    Except String (Option (Wire sdk)) :=
  match fields.filter fun x => x.1 = name with
  | [] => .ok none
  | [x] => .ok (some x.2)
  | _ => .error ("duplicate field " ++ name)

/-- The fields of a derived struct, by name from an object or in order from an
array with at least the fields that have no default. -/
def Wire.struct (names : List String) (required : Nat) :
    Wire sdk → Except String (List (Option (Wire sdk)))
  | .object fields => names.mapM (fieldOf fields)
  | .array items =>
      if required ≤ items.length ∧ items.length ≤ names.length then
        .ok ((List.range names.length).map fun i => items[i]?)
      else .error ("invalid length " ++ toString items.length)
  | _ => .error "invalid type: expected a struct"

def Wire.asText : Wire sdk → Except String String
  | .text s => .ok s
  | _ => .error "invalid type: expected a string"

/-- A `u64`. -/
def Wire.asU64 : Wire sdk → Except String Nat
  | .number n => if n ≤ u64Max then .ok n else .error "number out of range"
  | _ => .error "invalid type: expected u64"

/-- An `Option<u64>`: absent and `null` are `None`. -/
def Wire.asOptionU64 : Option (Wire sdk) → Except String (Option Nat)
  | none | some .null => .ok none
  | some x => (asU64 x).map some

/-- A field without a default. -/
def Wire.need (name : String) : Option (Wire sdk) → Except String (Wire sdk)
  | some x => .ok x
  | none => .error ("missing field " ++ name)

/-- A map from strings; of two entries with one key the later is kept. -/
def Wire.asMap {α : Type} (decode : Wire sdk → Except String α) :
    Wire sdk → Except String (Partition String α)
  | .object fields =>
      (fields.mapM fun x => (decode x.2).map fun a => (x.1, a)).map fun entries =>
        (∅ : Partition String α).insertMany entries
  | _ => .error "invalid type: expected a map"

def Wire.asTexts : Wire sdk → Except String (List String)
  | .array items => items.mapM asText
  | _ => .error "invalid type: expected a sequence"

/-! ## The client's types -/

/-- The errors of fetching and polling. -/
inductive ClientError (sdk : Sdk) where
  /-- Transport, or a body that does not decode. -/
  | http (text : String)
  | auth (text : String)
  | server (status : Nat) (body : Option (Wire sdk))
  | signatureMismatch
  | timeout (elapsed : Nat)
  | invalid (text : String)

/-- `EpochSchedule`. -/
structure EpochSchedule where
  currentEpochId : Nat
  currentEpochOpenedAt : Nat
  currentEpochClosesAt : Nat
  epochDurationSecs : Nat
  lastSealedEpochId : Option Nat
  lastSealedAt : Option Nat
  anchorMethods : List String

structure SubmissionReceipt where
  leaf : Hash32
  epochId : Nat
  epochClosesAt : Nat
  submitterDid : String

/-- A witness as the client returns it. -/
structure WitnessPair (sdk : Sdk) where
  objectRevision : AnyRevision sdk
  signatureRevision : AnyRevision sdk
  objectHash : String
  signatureHash : String
  anchorMethod : AnchorMethod

/-- `TreeWire`. -/
structure TreeWire (sdk : Sdk) where
  revisions : Partition String (AnyRevision sdk)
  fileIndex : Partition String String

/-- The requests of fetching and polling. -/
inductive Request where
  | schedule
  | treeByLeaf (leafHex method : String)
  deriving DecidableEq

/-- A server as a client reaches it at one time. -/
structure Network (sdk : Sdk) where
  ensureToken : Except (ClientError sdk) String
  send : Option String → Request → Except (ClientError sdk) (HttpAnswer sdk)

/-- A client with what it takes from the SDK. -/
structure TimestampClient (sdk : Sdk) where
  /-- The DID pinned when the client was built. -/
  serverDid : String
  pollInterval : Nat
  /-- Deserialisation of `AnyRevision`. -/
  decodeRevision : Wire sdk → Except String (AnyRevision sdk)
  /-- `is_timestamp_object`. -/
  isTimestampObject : sdk.Object → Bool
  /-- `verify_signature_sync` of a revision and its key. -/
  verifySignatureSync : AnyRevision sdk → String → Bool
  /-- The order in which the hash map of revisions is iterated. -/
  iterate : Partition String (AnyRevision sdk) → List (String × AnyRevision sdk)
  iterate_perm : ∀ revisions, (iterate revisions).Perm revisions.toList

namespace TimestampClient

variable (client : TimestampClient sdk)

def decodeTree (body : Wire sdk) : Except String (TreeWire sdk) := do
  match ← body.struct ["revisions", "file_index"] 1 with
  | [revisions, fileIndex] =>
      let revisions ← (← Wire.need "revisions" revisions).asMap client.decodeRevision
      let fileIndex ←
        match fileIndex with
        | some x => x.asMap Wire.asText
        | none => .ok ∅
      .ok ⟨revisions, fileIndex⟩
  | _ => .error "unreachable"

def decodeSchedule (body : Wire sdk) : Except String EpochSchedule := do
  match ← body.struct ["current_epoch_id", "current_epoch_opened_at",
      "current_epoch_closes_at", "epoch_duration_secs", "last_sealed_epoch_id",
      "last_sealed_at", "anchor_methods"] 7 with
  | [id, openedAt, closesAt, durationSecs, lastId, lastAt, methods] =>
      let id ← (← Wire.need "current_epoch_id" id).asU64
      let openedAt ← (← Wire.need "current_epoch_opened_at" openedAt).asU64
      let closesAt ← (← Wire.need "current_epoch_closes_at" closesAt).asU64
      let durationSecs ← (← Wire.need "epoch_duration_secs" durationSecs).asU64
      let lastId ← Wire.asOptionU64 lastId
      let lastAt ← Wire.asOptionU64 lastAt
      let methods ← (← Wire.need "anchor_methods" methods).asTexts
      .ok ⟨id, openedAt, closesAt, durationSecs, lastId, lastAt, methods⟩
  | _ => .error "unreachable"

/-- `Response::json`. -/
def json {α : Type} (decode : Wire sdk → Except String α)
    (answer : HttpAnswer sdk) : Except (ClientError sdk) α :=
  match answer.body with
  | none => .error (.http "error decoding response body: expected value")
  | some body =>
      match decode body with
      | .ok a => .ok a
      | .error e => .error (.http ("error decoding response body: " ++ e))

/-! ## Witness extraction -/

/-- The loop over the revisions: the signature and the timestamp object. -/
def locate : List (String × AnyRevision sdk) →
    Option (String × sdk.Signature) → Option (String × sdk.Object) →
      Except (ClientError sdk)
        (Option (String × sdk.Signature) × Option (String × sdk.Object))
  | [], signature, object => .ok (signature, object)
  | (hash, .signature sig) :: rest, signature, object =>
      if signature.isSome then
        .error (.invalid
          "witness tree contains more than one Signature revision")
      else locate rest (some (hash, sig)) object
  | (hash, .typed obj) :: rest, signature, object =>
      if client.isTimestampObject obj then
        if object.isSome then
          .error (.invalid
            "witness tree contains more than one timestamp object")
        else locate rest signature (some (hash, obj))
      else locate rest signature object
  | (_, .other _) :: rest, signature, object => locate rest signature object

/-- `extract_witness_pair`. -/
def extractWitnessPair (tree : TreeWire sdk) (method : AnchorMethod) :
    Except (ClientError sdk) (WitnessPair sdk) :=
  match client.locate (client.iterate tree.revisions) none none with
  | .error e => .error e
  | .ok (none, _) =>
      .error (.invalid "witness tree has no Signature revision")
  | .ok (some _, none) =>
      .error (.invalid "witness tree has no timestamp Object revision")
  | .ok (some (sigHash, sig), some (objHash, object)) =>
      if sdk.linkToString (sdk.signaturePrevious sig) ≠ objHash then
        .error (.invalid ("witness Signature.previous_revision does not " ++
          "point to the timestamp Object"))
      else if sdk.signatureSigner sig ≠ client.serverDid then
        .error .signatureMismatch
      else if client.verifySignatureSync (.signature sig) sigHash then
        .ok ⟨.typed object, .signature sig, objHash, sigHash, method⟩
      else .error .signatureMismatch

/-! ## Fetching and polling -/

/-- `format_hash32_bare`. -/
def formatHash32Bare (h : Hash32) : String :=
  String.ofList (Hex.encode h.toList)

/-- `schedule`. -/
def schedule (net : Network sdk) : Except (ClientError sdk) EpochSchedule := do
  let answer ← net.send none .schedule
  if answer.isSuccess then json decodeSchedule answer
  else .error (.server answer.status answer.body)

/-- `try_fetch_witness`. -/
def tryFetchWitness (net : Network sdk) (leaf : Hash32) (method : AnchorMethod) :
    Except (ClientError sdk) (Option (WitnessPair sdk)) := do
  let token ← net.ensureToken
  let answer ← net.send (some token)
    (.treeByLeaf (formatHash32Bare leaf) method.asStr)
  if answer.status = 404 then .ok none
  else if answer.isSuccess then do
    let tree ← json client.decodeTree answer
    let pair ← client.extractWitnessPair tree method
    .ok (some pair)
  else .error (.server answer.status answer.body)

/-- One turn of the polling loop: the server it reaches, and the clock at the
start of the turn, before the nap and when a missed nap is reported. -/
structure Poll (sdk : Sdk) where
  elapsed : Nat
  network : Network sdk
  elapsedAfter : Nat
  elapsedAtEnd : Nat

/-- Whether the receipt's epoch is sealed by a schedule. -/
def sealedBy (sched : EpochSchedule) (receipt : SubmissionReceipt) : Bool :=
  match sched.lastSealedEpochId with
  | some id => receipt.epochId ≤ id
  | none => false

/-- `await_witness`, on the turns its loop makes; `none` when it would take
another turn. -/
def awaitWitness (receipt : SubmissionReceipt) (method : AnchorMethod)
    (timeout : Nat) :
    List (Poll sdk) → Option (Except (ClientError sdk) (WitnessPair sdk))
  | [] => none
  | poll :: later =>
      if timeout ≤ poll.elapsed then some (.error (.timeout poll.elapsed))
      else
        match schedule poll.network with
        | .error e => some (.error e)
        | .ok sched =>
            let fetched :=
              if sealedBy sched receipt then
                client.tryFetchWitness poll.network receipt.leaf method
              else .ok none
            match fetched with
            | .error e => some (.error e)
            | .ok (some pair) => some (.ok pair)
            | .ok none =>
                -- A nap of zero length is reported as the timeout.
                if min client.pollInterval (timeout - poll.elapsedAfter) = 0 then
                  some (.error (.timeout poll.elapsedAtEnd))
                else awaitWitness receipt method timeout later

end TimestampClient

end AquaTimestamp
