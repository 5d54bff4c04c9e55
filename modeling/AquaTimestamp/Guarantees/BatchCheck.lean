import AquaTimestamp.Model.Sample

/-!
# The batch check refines the check of one witness

The batch check judges the anchor of its first witness and holds the others to
the same anchor fields.  The fields cover everything the two judges read, so a
witness that passes in a batch passes alone; and a batch whose witnesses share
their method and anchor fields passes exactly when every witness passes alone.
-/

namespace AquaTimestamp

variable {sdk : Sdk}

namespace SelfCheck

/-- The claim of an EVM anchor is read from the anchor fields only. -/
def ClaimFromAnchorFields (sdk : Sdk) : Prop :=
  ∀ payloads payloads' : sdk.Json, anchorFields payloads = anchorFields payloads' →
    sdk.claimFromPayload payloads = sdk.claimFromPayload payloads'

/-- The payloads of a witness whose timestamp revision is a typed object. -/
def payloadsOf (w : MintedWitness sdk) : Option sdk.Json :=
  match w.objectRevision with
  | .typed object => some (sdk.objectPayloads object)
  | _ => none

/-- The witnesses have one method and one anchor. -/
def SameAnchorFields (ws : List (MintedWitness sdk)) : Prop :=
  ∀ w ∈ ws, ∀ w' ∈ ws, w.method = w'.method ∧
    ∀ payloads ∈ payloadsOf w, ∀ payloads' ∈ payloadsOf w',
      anchorFields payloads = anchorFields payloads'

/-! ## The parts of a verdict -/

theorem payloadsOf_of_content {w : MintedWitness sdk} {payloads : sdk.Json}
    (h : contentAndInclusion w = .ok payloads) : payloadsOf w = some payloads := by
  unfold contentAndInclusion at h
  unfold payloadsOf
  cases hobject : w.objectRevision with
  | typed object =>
      rw [hobject] at h
      dsimp only at h
      repeat' split at h
      all_goals cases h
      rfl
  | signature | other =>
      rw [hobject] at h
      cases h

theorem content_error_ne_verified {w : MintedWitness sdk} {v : SelfCheckVerdict}
    (h : contentAndInclusion w = .error v) : v ≠ .verified := by
  unfold contentAndInclusion at h
  repeat' split at h
  all_goals
    cases h
    try nofun

/-- A witness alone is verified when all four checks pass. -/
theorem verifyMintedWitness_eq_verified {w : MintedWitness sdk} {did : String}
    {hosts : SelfCheckHosts sdk} :
    verifyMintedWitness w did hosts = .verified ↔
      ∃ payloads, contentAndInclusion w = .ok payloads ∧
        judgeAnchor w.method payloads hosts = .verified ∧
        serviceSignature w did = .verified := by
  unfold verifyMintedWitness
  cases hcontent : contentAndInclusion w with
  | error v =>
      have hne := content_error_ne_verified hcontent
      simp [hne]
  | ok payloads =>
      cases hjudge : judgeAnchor w.method payloads hosts <;> simp [hjudge]

/-- A witness of a batch is verified when its own checks pass and its anchor
fields are the judged ones. -/
theorem verifyAgainst_eq_verified {m : AnchorMethod}
    {judged : List (Option sdk.Json)} {did : String} {w : MintedWitness sdk} :
    verifyAgainst m judged did w = .verified ↔
      ∃ payloads, contentAndInclusion w = .ok payloads ∧ w.method = m ∧
        anchorFields payloads = judged ∧ serviceSignature w did = .verified := by
  unfold verifyAgainst
  cases hcontent : contentAndInclusion w with
  | error v =>
      have hne := content_error_ne_verified hcontent
      simp [hne]
  | ok payloads =>
      by_cases hmethod : w.method = m
      · by_cases hfields : anchorFields payloads = judged
        · simp [hmethod, hfields]
        · simp [hfields, failed]
      · simp [hmethod, failed]

theorem jsonGet_of_anchorFields {payloads payloads' : sdk.Json}
    (h : anchorFields payloads = anchorFields payloads') (field : String)
    (hfield : field ∈ anchorFieldNames) :
    sdk.jsonGet payloads field = sdk.jsonGet payloads' field :=
  List.map_inj_left.mp h field hfield

/-- Both judges read nothing but the anchor fields. -/
theorem judgeAnchor_of_anchorFields (hclaim : ClaimFromAnchorFields sdk)
    {payloads payloads' : sdk.Json}
    (h : anchorFields payloads = anchorFields payloads') (m : AnchorMethod)
    (hosts : SelfCheckHosts sdk) :
    judgeAnchor m payloads hosts = judgeAnchor m payloads' hosts := by
  cases m with
  | evm =>
      simp only [judgeAnchor, checkEvm]
      rw [hclaim payloads payloads' h]
  | qtsa =>
      simp only [judgeAnchor, checkTsa]
      rw [jsonGet_of_anchorFields h "transaction_hash" (by decide),
        jsonGet_of_anchorFields h "merkle_root" (by decide),
        jsonGet_of_anchorFields h "timestamp" (by decide)]

/-! ## The batch -/

/-- The batch check of a batch whose first witness has a verified anchor. -/
theorem verifyMintedBatch_of_verified {first : MintedWitness sdk}
    {rest : List (MintedWitness sdk)} {did : String}
    {hosts : SelfCheckHosts sdk} {payloads : sdk.Json}
    (hcontent : contentAndInclusion first = .ok payloads)
    (hjudge : judgeAnchor first.method payloads hosts = .verified) :
    verifyMintedBatch (first :: rest) did hosts =
      (first :: rest).map
        (verifyAgainst first.method (anchorFields payloads) did) := by
  simp only [verifyMintedBatch, hcontent, hjudge]

/-- A batch in which some witness is verified has a first witness with a
verified anchor. -/
theorem exists_judged {ws : List (MintedWitness sdk)} {did : String}
    {hosts : SelfCheckHosts sdk}
    (h : .verified ∈ verifyMintedBatch ws did hosts) :
    ∃ first rest payloads, ws = first :: rest ∧
      contentAndInclusion first = .ok payloads ∧
      judgeAnchor first.method payloads hosts = .verified := by
  unfold verifyMintedBatch at h
  split at h
  · cases h
  · rename_i first rest
    split at h
    · rename_i v hcontent
      have heq := List.eq_of_mem_replicate h
      exact absurd heq.symm (content_error_ne_verified hcontent)
    · rename_i payloads hcontent
      split at h
      · rename_i hjudge
        exact ⟨first, rest, payloads, rfl, hcontent, hjudge⟩
      · rename_i hne
        have heq := List.eq_of_mem_replicate h
        exact absurd heq.symm hne

/-- What the batch check verifies is verified alone. -/
theorem verified_alone_of_batch (hclaim : ClaimFromAnchorFields sdk)
    {ws : List (MintedWitness sdk)} {did : String} {hosts : SelfCheckHosts sdk}
    {i : Nat} {w : MintedWitness sdk} (hw : ws[i]? = some w)
    (h : (verifyMintedBatch ws did hosts)[i]? = some .verified) :
    verifyMintedWitness w did hosts = .verified := by
  obtain ⟨first, rest, payloads, rfl, hcontent, hjudge⟩ :=
    exists_judged (List.mem_of_getElem? h)
  rw [verifyMintedBatch_of_verified hcontent hjudge, List.getElem?_map, hw] at h
  obtain ⟨payloads', hcontent', hmethod, hfields, hsignature⟩ :=
    verifyAgainst_eq_verified.mp (Option.some.inj h)
  refine verifyMintedWitness_eq_verified.mpr ⟨payloads', hcontent', ?_, hsignature⟩
  rw [judgeAnchor_of_anchorFields hclaim hfields, hmethod]
  exact hjudge

/-- Witnesses with one method and one anchor that are verified alone are
verified in a batch. -/
theorem batch_verified_of_alone {ws : List (MintedWitness sdk)} {did : String}
    {hosts : SelfCheckHosts sdk} (hsame : SameAnchorFields ws)
    (h : ∀ w ∈ ws, verifyMintedWitness w did hosts = .verified) :
    ∀ v ∈ verifyMintedBatch ws did hosts, v = .verified := by
  cases ws with
  | nil => nofun
  | cons first rest =>
      obtain ⟨payloads, hcontent, hjudge, -⟩ :=
        verifyMintedWitness_eq_verified.mp (h first (List.mem_cons_self ..))
      rw [verifyMintedBatch_of_verified hcontent hjudge]
      intro v hv
      obtain ⟨w, hw, rfl⟩ := List.mem_map.mp hv
      obtain ⟨payloads', hcontent', -, hsignature⟩ :=
        verifyMintedWitness_eq_verified.mp (h w hw)
      obtain ⟨hmethod, hfields⟩ := hsame w hw first (List.mem_cons_self ..)
      apply verifyAgainst_eq_verified.mpr
      exact ⟨payloads', hcontent', hmethod,
        hfields _ (payloadsOf_of_content hcontent') _
          (payloadsOf_of_content hcontent), hsignature⟩

end SelfCheck

open SelfCheck

/-- The batch check gives one verdict per witness; it verifies no witness that
is not verified alone; and on witnesses with one method and one anchor it
verifies all exactly when each is verified alone. -/
theorem batch_check_refines_single_check (hclaim : ClaimFromAnchorFields sdk)
    (ws : List (MintedWitness sdk)) (did : String) (hosts : SelfCheckHosts sdk) :
    (verifyMintedBatch ws did hosts).length = ws.length ∧
      (∀ (i : Nat) w, ws[i]? = some w →
        (verifyMintedBatch ws did hosts)[i]? = some SelfCheckVerdict.verified →
          verifyMintedWitness w did hosts = .verified) ∧
      (SameAnchorFields ws →
        ((∀ v ∈ verifyMintedBatch ws did hosts, v = .verified) ↔
          ∀ w ∈ ws, verifyMintedWitness w did hosts = .verified)) := by
  have hlength := length_verifyMintedBatch ws did hosts
  refine ⟨hlength, fun i w hw h => verified_alone_of_batch hclaim hw h, ?_⟩
  intro hsame
  constructor
  · intro hall w hw
    obtain ⟨i, hi, hget⟩ := List.getElem_of_mem hw
    have hi' : i < (verifyMintedBatch ws did hosts).length := by
      rw [hlength]
      exact hi
    apply verified_alone_of_batch hclaim (i := i)
    · rw [List.getElem?_eq_getElem hi, hget]
    · rw [List.getElem?_eq_getElem hi', hall _ (List.getElem_mem hi')]
  · exact batch_verified_of_alone hsame

/-- A witness of the small SDK for a leaf, with an anchor told apart by
`mark`. -/
def Sample.witness (n : UInt8) (mark : String) : MintedWitness Sample.sdk :=
  let object : Sample.Object :=
    ⟨Sample.leaf n, { Sample.anchored mark .evm "r" with
      batchTreeSize := 2
      shieldingNonce := "00" }⟩
  let signature : Sample.Signature := ⟨Sample.objectLink object, "did:service"⟩
  { objectHash := Sample.objectLink object
    signatureHash := Sample.signatureLink signature
    leaf := Sample.leaf n
    method := .evm
    epochId := 1
    submitterDid := "did:a"
    objectFileName := "witness"
    signatureFileName := "witness_sig"
    objectRevision := .typed object
    signatureRevision := .signature signature }

instance decidableSameAnchorFields (ws : List (MintedWitness sdk)) :
    Decidable (SameAnchorFields ws) :=
  inferInstanceAs (Decidable (∀ w ∈ ws, ∀ w' ∈ ws, _ ∧
    ∀ payloads ∈ payloadsOf w, ∀ payloads' ∈ payloadsOf w', _))

theorem Sample.claimFromAnchorFields : ClaimFromAnchorFields Sample.sdk := by
  intro payloads payloads' h
  have hhash := jsonGet_of_anchorFields h "transaction_hash" (by decide)
  exact congrArg (fun json => json.bind Sample.textOf) hhash

/-- The hosts of the small SDK when everything verifies. -/
def Sample.hosts : SelfCheckHosts Sample.sdk :=
  ⟨some Sample.verifying.blockchain, some Sample.verifying.tsa⟩

theorem batch_check_refines_single_check_two :
    SameAnchorFields [Sample.witness 1 "1", Sample.witness 2 "1"] ∧
      (∀ v ∈ verifyMintedBatch [Sample.witness 1 "1", Sample.witness 2 "1"]
        "did:service" Sample.hosts, v = .verified) ∧
      ∀ w ∈ [Sample.witness 1 "1", Sample.witness 2 "1"],
        verifyMintedWitness w "did:service" Sample.hosts = .verified := by
  have hsame : SameAnchorFields [Sample.witness 1 "1", Sample.witness 2 "1"] := by
    decide +kernel
  have hall : ∀ v ∈ verifyMintedBatch [Sample.witness 1 "1", Sample.witness 2 "1"]
      "did:service" Sample.hosts, v = .verified := by
    decide +kernel
  exact ⟨hsame, hall, ((batch_check_refines_single_check
    Sample.claimFromAnchorFields _ _ _).2.2 hsame).mp hall⟩

end AquaTimestamp
