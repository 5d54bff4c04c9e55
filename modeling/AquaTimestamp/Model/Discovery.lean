import AquaTimestamp.Model.Sdk
import AquaTimestamp.Support.JsonCodec

/-!
# Discovering a server's identity

`identity.rs` of the client crate: the well-known response is fetched and read, the
tree of its claim is walked, and the caller's policy decides when the server's DID is
not the one known before.

The parser of JSON texts, the deserialisation of a revision and the check of a
signature are not in the repository; they are the fields of `IdentityHost`.
-/

namespace AquaTimestamp

open Support JsonCodec

variable {sdk : Sdk}

/-- What discovery takes from `serde_json` and from the SDK. -/
structure IdentityHost (sdk : Sdk) where
  /-- `serde_json::from_str`. -/
  fromStr : String → Except String JsonValue
  /-- Deserialisation of `AnyRevision`. -/
  decodeRevision : JsonValue → Except String (AnyRevision sdk)
  /-- `verify_signature_sync` of a revision and its key. -/
  verifySignatureSync : AnyRevision sdk → String → Bool

/-- The variants of `ClientError` that discovery gives. -/
inductive DiscoveryError where
  | url (text : String)
  | identityDiscovery (baseUrl source : String)
  | serverIdentityRotated (prior discovered : String)
  deriving DecidableEq

/-- `IdentityWire`. -/
structure IdentityWire where
  serverDid : String
  ethereumAddress : Option String
  identityClaim : JsonValue

/-- A value kept as it is. -/
def jsonItself : JsonCodec JsonValue :=
  ⟨id, .ok⟩

def IdentityWire.decode (j : JsonValue) : Except String IdentityWire := do
  let names := ["server_did", "ethereum_address", "identity_claim"]
  let serverDid ← j.required names "server_did" string
  let ethereumAddress ← j.defaulted names "ethereum_address" (option string) none
  let identityClaim ← j.required names "identity_claim" jsonItself
  .ok ⟨serverDid, ethereumAddress, identityClaim⟩

/-- `Value::as_object`: the members in the order of iteration. -/
def asObject : JsonValue → Option (List (String × JsonValue))
  | .obj members => some members
  | _ => none

/-! ## The claim -/

/-- The errors of the claim's verification. -/
def unverified (source : String) : DiscoveryError :=
  .identityDiscovery "" source

/-- The loop over the revisions, with `signature_seen` and `signature_verified`. -/
def walkRevisions (host : IdentityHost sdk) (serverDid : String) :
    List (String × JsonValue) → Bool → Bool → Except DiscoveryError (Bool × Bool)
  | [], seen, verified => .ok (seen, verified)
  | (hash, value) :: rest, seen, verified =>
      match host.decodeRevision value with
      | .error e =>
          .error (unverified ("revision " ++ hash ++ " did not parse as AnyRevision: " ++ e))
      | .ok (.signature sig) =>
          if sdk.signatureSigner sig ≠ serverDid then
            .error (unverified ("signature revision signer " ++ sdk.signatureSigner sig ++
              " does not match advertised server_did " ++ serverDid))
          else if host.verifySignatureSync (.signature sig) hash then
            walkRevisions host serverDid rest true true
          else .error (unverified "identity_claim signature failed verification")
      | .ok _ => walkRevisions host serverDid rest seen verified

/-- `verify_identity_claim`. -/
def verifyIdentityClaim (host : IdentityHost sdk) (parsed : IdentityWire) :
    Except DiscoveryError Unit :=
  match asObject parsed.identityClaim with
  | none => .error (unverified "identity_claim is not a JSON object")
  | some tree =>
      match (tree.lookup "revisions").bind asObject with
      | none => .error (unverified "identity_claim has no `revisions` object")
      | some revisions =>
          match walkRevisions host parsed.serverDid revisions false false with
          | .error e => .error e
          | .ok (seen, verified) =>
              if !seen then .error (unverified "identity_claim has no Signature revision")
              else if !verified then
                .error (unverified "identity_claim signature was not verified")
              else .ok ()

/-! ## Rotation -/

/-- `ServerIdentity`. -/
structure ServerIdentity where
  did : String
  address : String
  identityResponseJson : JsonValue

/-- `ServerRotation`. -/
structure ServerRotation where
  priorDid : String
  discoveredDid : String
  discoveredIdentityResponse : JsonValue

/-- `RotationDecision`. -/
inductive RotationDecision where
  | accept
  | reject
  deriving DecidableEq

/-- `OnRotation`. -/
inductive OnRotation where
  | refuse
  | warn
  | custom (decide : ServerRotation → RotationDecision)

/-- `apply_rotation_policy`. -/
def applyRotationPolicy (identity : ServerIdentity) (prior : Option (String × OnRotation)) :
    Except DiscoveryError (Option ServerRotation) :=
  match prior with
  | none => .ok none
  | some (priorDid, policy) =>
      if priorDid = identity.did then .ok none
      else
        let rotation : ServerRotation :=
          ⟨priorDid, identity.did, identity.identityResponseJson⟩
        match policy with
        | .refuse => .error (.serverIdentityRotated rotation.priorDid rotation.discoveredDid)
        | .warn => .ok (some rotation)
        | .custom decide =>
            match decide rotation with
            | .accept => .ok (some rotation)
            | .reject =>
                .error (.serverIdentityRotated rotation.priorDid rotation.discoveredDid)

/-- `address_from_did`. -/
def addressFromDid (did : String) : Option String :=
  let start := "did:pkh:eip155:".toList
  if start.isPrefixOf did.toList then
    match (did.toList.drop start.length).dropWhile (· ≠ ':') with
    | ':' :: addr =>
        if (String.ofList addr).utf8ByteSize = 42 ∧ ['0', 'x'].isPrefixOf addr then
          some (String.ofList addr)
        else none
    | _ => none
  else none

/-! ## Discovery -/

/-- The answer to the request: a status, its text and the body. -/
structure IdentityReply where
  status : Nat
  statusText : String
  body : Except String String

/-- `discover`.  The URL is the base joined with the well-known path; `send` is the
request. -/
def discover (host : IdentityHost sdk) (baseUrl : String) (url : Except String String)
    (send : String → Except String IdentityReply) (prior : Option (String × OnRotation)) :
    Except DiscoveryError (ServerIdentity × Option ServerRotation) := do
  let url ← url.mapError .url
  let reply ← (send url).mapError (.identityDiscovery baseUrl)
  let bodyText ← reply.body.mapError (.identityDiscovery baseUrl)
  if ¬ (200 ≤ reply.status ∧ reply.status < 300) then
    throw (.identityDiscovery baseUrl ("HTTP " ++ reply.statusText ++ ": " ++ bodyText))
  let value ← (host.fromStr bodyText).mapError (.identityDiscovery baseUrl)
  let parsed ← (IdentityWire.decode value).mapError (.identityDiscovery baseUrl)
  verifyIdentityClaim host parsed
  let address :=
    parsed.ethereumAddress.getD ((addressFromDid parsed.serverDid).getD "")
  let identity : ServerIdentity := ⟨parsed.serverDid, address, value⟩
  let rotation ← applyRotationPolicy identity prior
  .ok (identity, rotation)

end AquaTimestamp
