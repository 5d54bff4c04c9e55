import AquaTimestamp.Model.Replay

/-!
# A small SDK to execute the model with

Links are digests, and a digest is the start of what it digests, long enough
to tell the revisions of a small run apart.  Providers, signing and the batch
producer are honest unless a run says otherwise.
-/

namespace AquaTimestamp

open Support

namespace Sample

/-- The JSON values the self-check and the routes look at. -/
inductive Json where
  | text (s : String)
  | number (n : Nat)
  | payload (value : TimestampValue)
  | object (previous : Hash32) (value : TimestampValue)
  | signature (previous : Hash32) (signer : String)
  deriving DecidableEq

/-- A timestamp object on a leaf. -/
structure Object where
  previous : Hash32
  payload : TimestampValue

/-- A signature over an object. -/
structure Signature where
  previous : Hash32
  signer : String

/-- The field of a payload. -/
def field : Json → String → Option Json
  | .payload v, key =>
      if key = "transaction_hash" then some (.text v.transactionHash)
      else if key = "merkle_root" then some (.text v.merkleRoot)
      else if key = "merkle_proof" then some (.text "")
      else if key = "shielding_nonce" then some (.text v.shieldingNonce)
      else if key = "network" then some (.text v.network)
      else if key = "smart_contract_address" then
        some (.text v.smartContractAddress)
      else if key = "sender_account_address" then
        some (.text v.senderAccountAddress)
      else if key = "tsa_provider" then some (.text v.tsaProvider)
      else if key = "timestamp" then some (.number v.timestamp)
      else if key = "batch_tree_size" then some (.number v.batchTreeSize)
      else if key = "batch_leaf_index" then some (.number v.batchLeafIndex)
      else none
  | _, _ => none

def textOf : Json → Option String
  | .text s => some s
  | _ => none

def numberOf : Json → Option Nat
  | .number n => some n
  | _ => none

/-- The first 32 bytes, filled up with zeros. -/
def digest (bytes : List UInt8) : Hash32 :=
  (toHash32 ((bytes ++ List.replicate 32 0).take 32)).getD
    (Vector.replicate 32 0)

def bytesOf (s : String) : List UInt8 :=
  s.toList.map fun c => UInt8.ofNat c.toNat

def objectLink (o : Object) : Hash32 :=
  digest (1 :: o.previous.toList.take 4 ++ bytesOf o.payload.transactionHash)

def signatureLink (s : Signature) : Hash32 :=
  digest (2 :: s.previous.toList.take 31)

def linkText (h : Hash32) : String :=
  String.ofList ("0x1620".toList ++ Hex.encode h.toList)

/-- The text of a root, by the first byte of each target. -/
def rootText (targets : List Hash32) : String :=
  String.ofList ('r' :: targets.map fun t => Char.ofNat (t.toList.headD 0).toNat)

/-- The fields of the small SDK. -/
def sdk : Sdk where
  RevisionLink := Hash32
  linkDecEq := inferInstance
  linkFromBytes := id
  linkToString := linkText
  linkLength _ := 34
  multihashDecode link := some (.sha3_256, link.toList)
  Json := Json
  jsonDecEq := inferInstance
  jsonGet := field
  jsonAsStr := textOf
  jsonAsU64 := numberOf
  Object := Object
  objectPrevious o := some o.previous
  objectPayloads o := .payload o.payload
  objectCalculateLink o := .ok (objectLink o)
  Signature := Signature
  signaturePrevious := Signature.previous
  signatureSigner := Signature.signer
  signatureCalculateLink s := .ok (signatureLink s)
  classifySignatureLeaf s link :=
    .ok (if link = signatureLink s then .verified else .other "HashMismatch")
  OtherRevision := Empty
  objectJson o := .object o.previous o.payload
  signatureJson s := .signature s.previous s.signer
  otherJson := nofun
  PreparedBatch := List Hash32
  merkleRoot := rootText
  BatchProof := Unit
  parseBatchDigest _ := .ok (Vector.replicate 32 0)
  parseBatchProof _ := .ok ()
  parseBatchRoot text := .ok (digest (3 :: bytesOf text))
  shieldedLeaf link _ := .ok link
  verifyBatchInclusion _ _ _ _ _ := .ok ()
  EvmAnchorClaim := Option String
  claimFromPayload json := (field json "transaction_hash").bind textOf
  sha3Empty := digest [4]

/-- The anchor a provider returns for the root of an epoch; `mark` tells the
transactions of different calls apart. -/
def anchored (mark : String) (m : AnchorMethod) (root : String) :
    TimestampValue where
  merkleProof := []
  senderAccountAddress := "0xservice"
  tsaProvider := match m with | .evm => "" | .qtsa => "tsa.example"
  transactionHash := m.asStr ++ mark
  smartContractAddress := "0xcontract"
  network := match m with | .evm => "sepolia" | .qtsa => "tsa"
  merkleRoot := root
  timestamp := 7
  batchTreeSize := 0
  batchLeafIndex := 0
  shieldingNonce := ""

/-- The witness objects of a finished batch, one for each target. -/
def finished (targets : List Hash32) (facts : TimestampValue) :
    List (List (Hash32 × AnyRevision sdk)) :=
  targets.mapIdx fun i target =>
    let object : Object := ⟨target, { facts with
      batchTreeSize := targets.length
      batchLeafIndex := i
      shieldingNonce := "00" }⟩
    [(objectLink object, .typed object)]

/-- Hosts that verify everything. -/
def verifying : HostAnswers sdk where
  blockchain _ := .verified
  tsa _ _ _ := .ok (.qualifiedVerified, "")

/-- A chain host that gives one answer, beside a TSA host that verifies. -/
def chainAnswers (verdict : EvmAnchorVerdict) : HostAnswers sdk where
  blockchain _ := verdict
  tsa := verifying.tsa

/-- The chain host knows the transaction and it is not final. -/
def notFinal : HostAnswers sdk :=
  chainAnswers (.notEvaluable (.other "not final") "not final" "safe")

/-- The chain host does not know the transaction. -/
def unknown : HostAnswers sdk :=
  chainAnswers (.notEvaluable .notFound "not found" "none")

/-- Surroundings in which everything succeeds; `mark` as in `anchored`. -/
def honest (mark : String) : Surroundings sdk where
  prepare targets := .ok targets
  anchor _ m root := .ok (anchored mark m root)
  finish _ targets facts := .ok (finished targets facts)
  sign link := .ok ⟨link, "did:service"⟩
  check _ _ _ := .ok verifying
  sealing := .ok
  serving _ _ := .ok
  saving _ := .ok
  stops _ := false

/-- Every provider refuses. -/
def noProvider : Surroundings sdk :=
  { honest "" with anchor := fun _ _ _ => .error "unreachable" }

/-- A server with the given methods, a timeout of 100 seconds and a cap of
three faults. -/
def ctx (methods : List AnchorMethod) : WitnessContext where
  methods := methods
  evmAnchor := true
  qtsaAnchor := true
  selfCheck := ⟨true, true⟩
  evmNotFoundTimeoutSecs := 100
  maxAnchorFaults := 3
  serviceDid := "did:service"

/-- A leaf. -/
def leaf (n : UInt8) : Hash32 :=
  Vector.replicate 32 n

/-- A seal cycle with the given methods. -/
def cycle (methods : List AnchorMethod) (now : Nat) (out : Surroundings sdk) :
    Move sdk :=
  .cycle (some (ctx methods)) now 60 out

end Sample

end AquaTimestamp
