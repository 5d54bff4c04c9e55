import AquaTimestamp.Model.Discovery
import AquaTimestamp.Model.Front

/-!
# The identity of the service

`identity.rs` of the service: the key behind the mnemonic, the signed tree of the
service's claim, and the response under `/.well-known/aqua-identity`.

The wallet, the building and the signing of trees and the JSON of revisions are not in
the repository; they are the fields of `IdentityMaker`.
-/

namespace AquaTimestamp

open Support

variable {sdk : Sdk}

/-- `ServiceClaimServer`. -/
structure ServiceClaimServer where
  signerDid : String
  serviceKind : String
  validFrom : Nat
  validUntil : Option Nat
  dns : String
  ip : String
  deployVersion : Option String

/-- `Tree`. -/
structure IdentityTree (sdk : Sdk) where
  revisions : List (String × AnyRevision sdk)
  fileIndex : List (String × String)

/-- What the identity takes from the wallet crate and from the SDK. -/
structure IdentityMaker (sdk : Sdk) where
  /-- `get_wallet`: the EIP-55 address and the private key. -/
  getWallet : String → Except String (String × String)
  /-- `ServiceClaimServer::validate`. -/
  validate : ServiceClaimServer → Except String Unit
  /-- `serde_json::to_value` of a claim. -/
  claimJson : ServiceClaimServer → Except String JsonValue
  /-- `create_object_util` of a payload, linked to the template of the claim. -/
  createObjectUtil : JsonValue → Except String (IdentityTree sdk)
  /-- `sign_aqua_tree_with_signer` with a key. -/
  signAquaTreeWithSigner : IdentityTree sdk → List UInt8 → Except String (IdentityTree sdk)
  /-- `derive_did_pkh` of a key. -/
  deriveDidPkh : List UInt8 → Option String
  /-- `serde_json::to_value` of a revision. -/
  revisionJson : AnyRevision sdk → Except String JsonValue
  /-- The version of the package the service was built from. -/
  deployVersion : Option String

/-! ## The key -/

/-- `MNEMONIC_ENV`. -/
def mnemonicEnv : String := "AQUA_TIMESTAMP_ANCHOR_MNEMONIC"

structure ServiceIdentity where
  addressEip55 : String
  serverDid : String
  chainId : Nat
  trustDomain : String
  dns : String
  ip : String
  privateKey : List UInt8
  mnemonic : String

/-- The DID of an account on a chain. -/
def didPkh (chainId : Nat) (address : String) : String :=
  "did:pkh:eip155:" ++ toString chainId ++ ":" ++ address

namespace ServiceIdentity

/-- `from_mnemonic`. -/
def fromMnemonic (maker : IdentityMaker sdk) (mnemonic : String) (cfg : IdentityConfig) :
    Except String ServiceIdentity := do
  let (addressEip55, privateKeyHex) ← (maker.getWallet mnemonic).mapError
    ("failed to derive secp256k1 wallet: " ++ ·)
  let privateKey ← (Hex.decode (trimStart0x privateKeyHex.toList)).mapError
    fun e => "alloy returned a non-hex private key string: " ++ e.display
  .ok {
    addressEip55 := addressEip55
    serverDid := didPkh cfg.chainId addressEip55
    chainId := cfg.chainId
    trustDomain := cfg.trustDomain
    dns := cfg.dns
    ip := cfg.ip
    privateKey := privateKey
    mnemonic := String.ofList (trimText mnemonic.toList) }

/-- `from_env`, with the variable's value. -/
def fromEnv (maker : IdentityMaker sdk) (var : Option String) (cfg : IdentityConfig) :
    Except String ServiceIdentity :=
  match var with
  | none => .error (mnemonicEnv ++ " is not set; refusing to start")
  | some mnemonic =>
      if isBlank mnemonic then .error (mnemonicEnv ++ " is empty; refusing to start")
      else fromMnemonic maker mnemonic cfg

end ServiceIdentity

/-- The address with one `0x` before it. -/
def address0x (addressEip55 : String) : String :=
  "0x" ++ String.ofList (trimStart0x addressEip55.toList)

/-! ## The signed claim -/

/-- `IdentityClaimOverrides`. -/
structure IdentityClaimOverrides where
  validFrom : Option Nat := none

/-- `build_identity_tree`, at a time. -/
def buildIdentityTree (maker : IdentityMaker sdk) (identity : ServiceIdentity)
    (overrides : IdentityClaimOverrides) (now : Nat) : Except String (IdentityTree sdk) := do
  let claim : ServiceClaimServer := {
    signerDid := identity.serverDid
    serviceKind := "server"
    validFrom := overrides.validFrom.getD now
    validUntil := none
    dns := identity.dns
    ip := identity.ip
    deployVersion := maker.deployVersion }
  (maker.validate claim).mapError ("invalid service_claim_server payload: " ++ ·)
  let payload ← (maker.claimJson claim).mapError
    ("failed to serialise service_claim_server payload: " ++ ·)
  let tree ← (maker.createObjectUtil payload).mapError
    ("failed to build identity object: " ++ ·)
  (maker.signAquaTreeWithSigner tree identity.privateKey).mapError
    ("failed to sign identity tree: " ++ ·)

/-! ## The response -/

structure Endpoints where
  auth : String
  trees : String
  submit : String
  verify : String
  docs : String
  wellKnownSkill : String
  wellKnownSkillAuth : String

structure IdentityResponse where
  protocol : String
  version : String
  serverDid : String
  ethereumAddress : String
  trustLevel : Nat
  trustDomain : String
  supportedClaims : List String
  authMethod : String
  endpoints : Endpoints
  identityClaim : JsonValue

/-- `IdentityResponse::new`. -/
def IdentityResponse.new (identity : ServiceIdentity) (identityClaim : JsonValue) :
    IdentityResponse where
  protocol := "aqua"
  version := "4.0"
  serverDid := identity.serverDid
  ethereumAddress := address0x identity.addressEip55
  trustLevel := 2
  trustDomain := identity.trustDomain
  supportedClaims := ["timestamp_anchor"]
  authMethod := "siwe"
  endpoints := {
    auth := "/auth"
    trees := "/trees"
    submit := "/v1/leaves"
    verify := "/api/explorer/trees/\x7btip\x7d/verify"
    docs := "/docs"
    wellKnownSkill := "/.well-known/aqua-skill.md"
    wellKnownSkillAuth := "/.well-known/aqua-skill-auth.md" }
  identityClaim := identityClaim

def Endpoints.toJson (e : Endpoints) : JsonValue :=
  .obj [("auth", .str e.auth), ("trees", .str e.trees), ("submit", .str e.submit),
    ("verify", .str e.verify), ("docs", .str e.docs),
    ("well_known_skill", .str e.wellKnownSkill),
    ("well_known_skill_auth", .str e.wellKnownSkillAuth)]

def IdentityResponse.toJson (r : IdentityResponse) : JsonValue :=
  .obj [("protocol", .str r.protocol), ("version", .str r.version),
    ("server_did", .str r.serverDid), ("ethereum_address", .str r.ethereumAddress),
    ("trust_level", .num r.trustLevel), ("trust_domain", .str r.trustDomain),
    ("supported_claims", .arr (r.supportedClaims.map .str)),
    ("auth_method", .str r.authMethod), ("endpoints", r.endpoints.toJson),
    ("identity_claim", r.identityClaim)]

/-- The revisions of a tree, each under its link. -/
def IdentityTree.revisionsJson (maker : IdentityMaker sdk) (tree : IdentityTree sdk) :
    Except String (List (String × JsonValue)) :=
  tree.revisions.mapM fun x => (maker.revisionJson x.2).map (Prod.mk x.1)

/-- `serde_json::to_value` of a tree, from the JSON of its revisions. -/
def IdentityTree.toJson (tree : IdentityTree sdk) (revisions : List (String × JsonValue)) :
    JsonValue :=
  .obj [("revisions", .obj revisions),
    ("file_index", .obj (tree.fileIndex.map fun x => (x.1, .str x.2)))]

/-- `build_response`.  The response around the tree is of strings and numbers, which
serialise. -/
def buildResponse (maker : IdentityMaker sdk) (identity : ServiceIdentity)
    (tree : IdentityTree sdk) : Except String JsonValue :=
  match tree.revisionsJson maker with
  | .ok revisions => .ok (IdentityResponse.new identity (tree.toJson revisions)).toJson
  | .error e => .error ("serialise identity tree: " ++ e)

end AquaTimestamp
