import AquaTimestamp.Model.Pending

/-!
# The pre-serve self-check

`selfcheck.rs`: before a minted witness is written for serving it is checked
for content hash and batch inclusion, its anchor is judged by the method's
host, and its service signature is verified.  The batch check judges the
anchor of the first witness once and holds the others to the same anchor
fields.
-/

namespace AquaTimestamp

variable {sdk : Sdk}

/-- The self-check's answer for one witness. -/
inductive SelfCheckVerdict where
  | verified
  | notYet (reason : String)
  | missing (reason : String)
  | failed (reason : String) (anchorAtFault : Bool)
  deriving DecidableEq, Repr

/-- The hosts the self-check asks for external facts. -/
structure SelfCheckHosts (sdk : Sdk) where
  blockchain : Option (BlockchainHost sdk)
  tsa : Option WebHost

namespace SelfCheck

/-- A failure that is not the anchor's. -/
def failed (reason : String) : SelfCheckVerdict := .failed reason false

/-- A failure of the anchor itself. -/
def anchorFailed (reason : String) : SelfCheckVerdict := .failed reason true

/-! ## Content and inclusion -/

/-- A text field of the payloads. -/
def textField (payloads : sdk.Json) (field : String) : Except String String :=
  match (sdk.jsonGet payloads field).bind sdk.jsonAsStr with
  | some s => .ok s
  | none => .error ("missing " ++ field)

/-- An integer field of the payloads. -/
def integerField (payloads : sdk.Json) (field : String) : Except String Nat :=
  match (sdk.jsonGet payloads field).bind sdk.jsonAsU64 with
  | some n => .ok n
  | none => .error ("missing " ++ field)

/-- Prefix an error of the SDK with what was being read. -/
def naming {α : Type} (what : String) : Except String α → Except String α
  | .ok a => .ok a
  | .error e => .error (what ++ ": " ++ e)

/-- `batch_inclusion`: the SDK's inclusion check over its public parts, with
the template's bound on the tree size. -/
def batchInclusion (payloads : sdk.Json) (target : sdk.RevisionLink) :
    Except String Unit := do
  let merkleRoot ← textField payloads "merkle_root"
  let size ← integerField payloads "batch_tree_size"
  if size > maxLeavesPerEpoch then
    .error ("batch_tree_size " ++ toString size ++
      " exceeds the template maximum " ++ toString maxLeavesPerEpoch)
  else do
    let index ← integerField payloads "batch_leaf_index"
    let proof ←
      match sdk.jsonGet payloads "merkle_proof" with
      | some proof => .ok proof
      | none => .error "missing merkle_proof"
    let nonce ← textField payloads "shielding_nonce"
    let nonce ← naming "shielding_nonce" (sdk.parseBatchDigest nonce)
    let proof ← naming "merkle_proof" (sdk.parseBatchProof proof)
    let root ← naming "merkle_root" (sdk.parseBatchRoot merkleRoot)
    let leaf ← naming "leaf" (sdk.shieldedLeaf target nonce)
    naming "the inclusion proof"
      (sdk.verifyBatchInclusion leaf index size proof root)

/-- Checks 1 and 2: the timestamp revision hashes to its key, chains to the
leaf, and proves it into the payload's root; the payloads on success. -/
def contentAndInclusion (w : MintedWitness sdk) :
    Except SelfCheckVerdict sdk.Json :=
  match w.objectRevision with
  | .typed object =>
      match sdk.objectCalculateLink object with
      | .error e => .error (failed ("timestamp revision hash: " ++ e))
      | .ok link =>
          if link ≠ sdk.linkFromBytes w.objectHash then
            .error (failed "timestamp revision does not hash to its key")
          else if sdk.objectPrevious object ≠ some (sdk.linkFromBytes w.leaf) then
            .error (failed "timestamp revision does not chain to the leaf")
          else
            match batchInclusion (sdk.objectPayloads object)
                (sdk.linkFromBytes w.leaf) with
            | .error reason => .error (failed ("batch inclusion: " ++ reason))
            | .ok () => .ok (sdk.objectPayloads object)
  | _ => .error (failed "timestamp revision is not a typed object")

/-! ## The anchor -/

/-- `check_tsa`: every answer of the TSA host that is not a verified level is
put on the anchor, an error of the host included. -/
def checkTsa (payloads : sdk.Json) (hosts : SelfCheckHosts sdk) :
    SelfCheckVerdict :=
  match hosts.tsa with
  | none => failed "no TSA host configured for the self-check"
  | some host =>
      match (sdk.jsonGet payloads "transaction_hash").bind sdk.jsonAsStr,
          (sdk.jsonGet payloads "merkle_root").bind sdk.jsonAsStr,
          (sdk.jsonGet payloads "timestamp").bind sdk.jsonAsU64 with
      | some response, some root, some time =>
          match host response root time with
          | .ok (.qualifiedVerified, _) => .verified
          | .ok (.verified, _) => .verified
          | .ok (.other level, message) =>
              anchorFailed ("TSA token " ++ level ++ ": " ++ message)
          | .error e => anchorFailed ("TSA token: " ++ e)
      | _, _, _ =>
          failed "qTSA payload lacks transaction_hash, merkle_root or timestamp"

/-- `check_evm`: the SDK's judgement of the claim, mapped to a verdict. -/
def checkEvm (payloads : sdk.Json) (hosts : SelfCheckHosts sdk) :
    SelfCheckVerdict :=
  match hosts.blockchain with
  | none => failed "no chain host configured for the self-check"
  | some host =>
      match host (sdk.claimFromPayload payloads) with
      | .verified => .verified
      | .invalid reason text =>
          match reason with
          | .malformedClaim => failed ("EVM anchor invalid: " ++ text)
          | _ => anchorFailed ("EVM anchor invalid: " ++ text)
      | .notEvaluable reason text finality =>
          let message :=
            "EVM anchor not evaluable: " ++ text ++ " (" ++ finality ++ ")"
          match reason with
          | .unsupportedNetwork => failed message
          | .networkNotConfigured => failed message
          | .notFound => .missing message
          | .other _ => .notYet message

/-- Check 3: the anchor, judged by the method's host. -/
def judgeAnchor (method : AnchorMethod) (payloads : sdk.Json)
    (hosts : SelfCheckHosts sdk) : SelfCheckVerdict :=
  match method with
  | .qtsa => checkTsa payloads hosts
  | .evm => checkEvm payloads hosts

/-! ## The signature -/

/-- Check 4: the service signature over the timestamp revision. -/
def serviceSignature (w : MintedWitness sdk) (serviceDid : String) :
    SelfCheckVerdict :=
  match w.signatureRevision with
  | .signature sig =>
      match sdk.classifySignatureLeaf sig (sdk.linkFromBytes w.signatureHash) with
      | .error e => failed ("signature: " ++ e)
      | .ok (.other verdict) => failed ("signature: " ++ verdict)
      | .ok .verified =>
          if sdk.signaturePrevious sig ≠ sdk.linkFromBytes w.objectHash then
            failed "signature does not sign the timestamp revision"
          else if sdk.signatureSigner sig ≠ serviceDid then
            failed ("signature signer " ++ sdk.signatureSigner sig ++
              " is not the service DID " ++ serviceDid)
          else .verified
  | _ => failed "signature revision is not a signature"

/-! ## One witness and one batch -/

/-- `verify_minted_witness`. -/
def verifyMintedWitness (w : MintedWitness sdk) (serviceDid : String)
    (hosts : SelfCheckHosts sdk) : SelfCheckVerdict :=
  match contentAndInclusion w with
  | .error v => v
  | .ok payloads =>
      match judgeAnchor w.method payloads hosts with
      | .verified => serviceSignature w serviceDid
      | anchor => anchor

/-- The payload fields a witness takes from its anchor and the batch root. -/
def anchorFieldNames : List String :=
  ["network", "transaction_hash", "merkle_root", "smart_contract_address",
    "sender_account_address", "tsa_provider", "timestamp"]

def anchorFields (payloads : sdk.Json) : List (Option sdk.Json) :=
  anchorFieldNames.map (sdk.jsonGet payloads)

/-- The check of one witness of a batch whose anchor was judged. -/
def verifyAgainst (method : AnchorMethod) (judged : List (Option sdk.Json))
    (serviceDid : String) (w : MintedWitness sdk) : SelfCheckVerdict :=
  match contentAndInclusion w with
  | .error v => v
  | .ok payloads =>
      if w.method ≠ method ∨ anchorFields payloads ≠ judged then
        failed "anchor fields differ from the judged anchor"
      else serviceSignature w serviceDid

/-- `verify_minted_batch`: the anchor of the first witness settles the batch
unless it is verified. -/
def verifyMintedBatch (ws : List (MintedWitness sdk)) (serviceDid : String)
    (hosts : SelfCheckHosts sdk) : List SelfCheckVerdict :=
  match ws with
  | [] => []
  | first :: _ =>
      match contentAndInclusion first with
      | .error v => List.replicate ws.length v
      | .ok payloads =>
          match judgeAnchor first.method payloads hosts with
          | .verified =>
              ws.map (verifyAgainst first.method (anchorFields payloads)
                serviceDid)
          | anchor => List.replicate ws.length anchor

/-- Always one verdict per witness. -/
theorem length_verifyMintedBatch (ws : List (MintedWitness sdk))
    (serviceDid : String) (hosts : SelfCheckHosts sdk) :
    (verifyMintedBatch ws serviceDid hosts).length = ws.length := by
  unfold verifyMintedBatch
  split
  · rfl
  · split
    · simp
    · split <;> simp

end SelfCheck

end AquaTimestamp
