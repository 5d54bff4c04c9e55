import AquaTimestamp.Model.Basic

/-!
# The SDK behind the aggregator

`aqua-rs-sdk`, `serde_json` values and the SHA3 digest are code outside this
repository.  Their types and pure functions are the fields of `Sdk`; nothing
is assumed about them here.  Calls of the SDK that sign, draw nonces or ask a
host are not pure and appear as calls of the sealer instead.

Texts the SDK produces (debug forms of its errors and verdicts) are strings.
-/

namespace AquaTimestamp

/-- The hash types the link decoder distinguishes. -/
inductive HashType where
  | sha3_256
  | other (code : Nat)
  deriving DecidableEq, Repr

/-- `classify_signature_leaf`: verified, or another verdict by its debug form. -/
inductive LeafVerdict where
  | verified
  | other (debug : String)
  deriving DecidableEq, Repr

/-- The SDK types and pure functions the aggregator uses. -/
structure Sdk where
  /-- `RevisionLink`: the multihash that names a revision. -/
  RevisionLink : Type
  linkDecEq : DecidableEq RevisionLink
  /-- `RevisionLink::from_bytes`. -/
  linkFromBytes : Hash32 → RevisionLink
  /-- The `Display` form of a link. -/
  linkToString : RevisionLink → String
  /-- The byte length of a link and `multihash_decode` of its bytes. -/
  linkLength : RevisionLink → Nat
  multihashDecode : RevisionLink → Option (HashType × List UInt8)
  /-- `serde_json::Value` with its accessors. -/
  Json : Type
  jsonDecEq : DecidableEq Json
  jsonGet : Json → String → Option Json
  jsonAsStr : Json → Option String
  jsonAsU64 : Json → Option Nat
  /-- A typed revision (`Object<Value>`). -/
  Object : Type
  objectPrevious : Object → Option RevisionLink
  objectPayloads : Object → Json
  objectCalculateLink : Object → Except String RevisionLink
  /-- A signature revision. -/
  Signature : Type
  signaturePrevious : Signature → RevisionLink
  signatureSigner : Signature → String
  signatureCalculateLink : Signature → Except String RevisionLink
  classifySignatureLeaf : Signature → RevisionLink → Except String LeafVerdict
  /-- Every other kind of revision. -/
  OtherRevision : Type
  /-- The JSON of a revision as the store keeps and the routes serve it. -/
  objectJson : Object → Json
  signatureJson : Signature → Json
  otherJson : OtherRevision → Json
  /-- `PreparedBatch` and the root it fixes. -/
  PreparedBatch : Type
  merkleRoot : PreparedBatch → String
  /-- The public merkle primitives the self-check composes. -/
  BatchProof : Type
  parseBatchDigest : String → Except String Hash32
  parseBatchProof : Json → Except String BatchProof
  parseBatchRoot : String → Except String Hash32
  shieldedLeaf : RevisionLink → Hash32 → Except String Hash32
  verifyBatchInclusion :
    Hash32 → Nat → Nat → BatchProof → Hash32 → Except String Unit
  /-- `EvmAnchorClaim::from_payload`. -/
  EvmAnchorClaim : Type
  claimFromPayload : Json → EvmAnchorClaim
  /-- SHA3-256 of the empty string. -/
  sha3Empty : Hash32

attribute [instance] Sdk.linkDecEq Sdk.jsonDecEq

/-- `AnyRevision`: a revision of any kind. -/
inductive AnyRevision (sdk : Sdk) where
  | typed (object : sdk.Object)
  | signature (sig : sdk.Signature)
  | other (revision : sdk.OtherRevision)

/-- The JSON of a revision. -/
def AnyRevision.json {sdk : Sdk} : AnyRevision sdk → sdk.Json
  | .typed object => sdk.objectJson object
  | .signature sig => sdk.signatureJson sig
  | .other revision => sdk.otherJson revision

/-- `TimestampValue`: what an anchor provider returns. -/
structure TimestampValue where
  merkleProof : List String
  senderAccountAddress : String
  tsaProvider : String
  transactionHash : String
  smartContractAddress : String
  network : String
  merkleRoot : String
  timestamp : Nat
  batchTreeSize : Nat
  batchLeafIndex : Nat
  shieldingNonce : String
  deriving DecidableEq, Repr

/-! ## Answers of the self-check hosts -/

/-- Levels `verify_tsa_token` answers; the rest by its debug form. -/
inductive QualifiedVerifyLevel where
  | qualifiedVerified
  | verified
  | other (debug : String)
  deriving DecidableEq, Repr

/-- `EvmAnchorInvalidReason`. -/
inductive EvmAnchorInvalidReason where
  | malformedClaim
  | contractMismatch
  | senderMismatch
  | inputMismatch
  | reverted
  deriving DecidableEq, Repr

/-- `EvmAnchorNotEvaluableReason`; the reasons the self-check does not tell
apart (not included, not final, host unavailable) by their text. -/
inductive EvmAnchorNotEvaluableReason where
  | unsupportedNetwork
  | networkNotConfigured
  | notFound
  | other (text : String)
  deriving DecidableEq, Repr

/-- `EvmAnchorVerdict`, with the reason's text and the finality's debug form. -/
inductive EvmAnchorVerdict where
  | verified
  | invalid (reason : EvmAnchorInvalidReason) (text : String)
  | notEvaluable (reason : EvmAnchorNotEvaluableReason) (text finality : String)
  deriving DecidableEq, Repr

/-- `BlockchainHost` as `judge_evm_anchor` uses it: the judgement of a claim. -/
abbrev BlockchainHost (sdk : Sdk) := sdk.EvmAnchorClaim → EvmAnchorVerdict

/-- `WebHost::verify_tsa_token`: token, root and time to level and message. -/
abbrev WebHost :=
  String → String → Nat → Except String (QualifiedVerifyLevel × String)

end AquaTimestamp
