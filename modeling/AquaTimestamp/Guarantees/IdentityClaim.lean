import AquaTimestamp.Model.Discovery
import AquaTimestamp.Model.Sample
import AquaTimestamp.Support.Traverse

/-!
# What an accepted identity claim signs

A claim is accepted exactly when its revisions parse, its signatures name the
advertised DID and verify, and there is one.  What the signatures sign is not looked
at: a tree of one signature that the server made over anything is accepted.  Where the
revisions of a tree hang together, a claim that is accepted is signed.
-/

namespace AquaTimestamp

open Support

variable {sdk : Sdk} {host : IdentityHost sdk} {serverDid : String}

/-! ## What is accepted -/

/-- The revisions of a claim. -/
def IdentityWire.revisions (parsed : IdentityWire) : Option (List (String × JsonValue)) :=
  (asObject parsed.identityClaim).bind fun tree => (tree.lookup "revisions").bind asObject

/-- A member of the tree parses, and is no signature that fails. -/
def GoodRevision (host : IdentityHost sdk) (serverDid : String)
    (x : String × JsonValue) : Prop :=
  ∃ revision, host.decodeRevision x.2 = .ok revision ∧
    ∀ sig, revision = .signature sig →
      sdk.signatureSigner sig = serverDid ∧
        host.verifySignatureSync (.signature sig) x.1 = true

/-- A member of the tree is a signature. -/
def IsSignature (host : IdentityHost sdk) (x : String × JsonValue) : Prop :=
  ∃ sig, host.decodeRevision x.2 = .ok (.signature sig)

/-- Every revision parses, every signature names the DID and verifies, and there is
one. -/
def WellSigned (host : IdentityHost sdk) (serverDid : String)
    (revisions : List (String × JsonValue)) : Prop :=
  (∀ x ∈ revisions, GoodRevision host serverDid x) ∧ ∃ x ∈ revisions, IsSignature host x

/-- One step of the walk over good revisions. -/
theorem walkRevisions_cons {x : String × JsonValue} {rest : List (String × JsonValue)}
    {seen verified : Bool} {result : Bool × Bool} :
    walkRevisions host serverDid (x :: rest) seen verified = .ok result ↔
      GoodRevision host serverDid x ∧
        ((IsSignature host x ∧ walkRevisions host serverDid rest true true = .ok result) ∨
          (¬ IsSignature host x ∧
            walkRevisions host serverDid rest seen verified = .ok result)) := by
  obtain ⟨hash, value⟩ := x
  simp only [walkRevisions, GoodRevision, IsSignature]
  cases hdecode : host.decodeRevision value with
  | error e => simp
  | ok revision =>
      cases revision with
      | typed object => simp
      | other revision => simp
      | signature sig =>
          simp only [ne_eq, ite_not]
          split
          · rename_i hsigner
            split
            · rename_i hverifies
              simp [hsigner, hverifies]
            · rename_i hfails
              simp [hfails]
          · rename_i hsigner
            simp [hsigner]

/-- The walk succeeds on good revisions, and has then seen whether there is a
signature. -/
theorem walkRevisions_eq_ok_iff {revisions : List (String × JsonValue)} {b : Bool}
    {result : Bool × Bool} :
    walkRevisions host serverDid revisions b b = .ok result ↔
      (∀ x ∈ revisions, GoodRevision host serverDid x) ∧ ∃ c, result = (c, c) ∧
        (c = true ↔ b = true ∨ ∃ x ∈ revisions, IsSignature host x) := by
  induction revisions generalizing b with
  | nil =>
      simp only [walkRevisions, Except.ok.injEq]
      constructor
      · rintro rfl
        exact ⟨nofun, b, rfl, by simp⟩
      · rintro ⟨-, c, rfl, hc⟩
        have hcb : c = b := Bool.eq_iff_iff.mpr (by simpa using hc)
        rw [hcb]
  | cons x rest ih =>
      rw [walkRevisions_cons, ih, ih, List.forall_mem_cons]
      by_cases hsig : IsSignature host x
      · simp [hsig]
        tauto
      · simp [hsig]
        tauto

/-- A claim is accepted exactly when it has revisions that are well signed. -/
theorem verifyIdentityClaim_eq_ok_iff {parsed : IdentityWire} :
    verifyIdentityClaim host parsed = .ok () ↔
      ∃ revisions, parsed.revisions = some revisions ∧
        WellSigned host parsed.serverDid revisions := by
  unfold verifyIdentityClaim IdentityWire.revisions
  cases asObject parsed.identityClaim with
  | none => simp
  | some tree =>
      simp only [Option.bind_some]
      cases (tree.lookup "revisions").bind asObject with
      | none => simp
      | some revisions =>
          simp only [Option.some.injEq, exists_eq_left']
          cases hwalk : walkRevisions host parsed.serverDid revisions false false with
          | error e =>
              refine ⟨nofun, fun hwell => ?_⟩
              have hok : walkRevisions host parsed.serverDid revisions false false =
                  .ok (true, true) :=
                walkRevisions_eq_ok_iff.mpr ⟨hwell.1, true, rfl, by simpa using hwell.2⟩
              cases hwalk.symm.trans hok
          | ok result =>
              obtain ⟨hgood, c, rfl, hc⟩ := walkRevisions_eq_ok_iff.mp hwalk
              have hseen : c = true ↔ ∃ x ∈ revisions, IsSignature host x := by
                simpa using hc
              rw [WellSigned, and_iff_right hgood, ← hseen]
              cases c <;> simp

/-! ## What is signed -/

/-- The link of a revision other than a signature; how the SDK computes it for the
kinds this repository does not use is a parameter. -/
def AnyRevision.contentLink (otherLink : sdk.OtherRevision → Except String sdk.RevisionLink) :
    AnyRevision sdk → Option (Except String sdk.RevisionLink)
  | .typed object => some (sdk.objectCalculateLink object)
  | .signature _ => none
  | .other revision => some (otherLink revision)

/-- A tree whose revisions hang together: what is no signature stands under its own link,
every signature links to a member of the tree, and the links do not go round. -/
structure AquaTree (host : IdentityHost sdk)
    (otherLink : sdk.OtherRevision → Except String sdk.RevisionLink)
    (revisions : List (String × JsonValue)) : Prop where
  addressed : ∀ x ∈ revisions, ∀ revision, host.decodeRevision x.2 = .ok revision →
    (∀ sig, revision ≠ .signature sig) → ∃ link,
      revision.contentLink otherLink = some (.ok link) ∧ x.1 = sdk.linkToString link
  linked : ∀ x ∈ revisions, ∀ sig, host.decodeRevision x.2 = .ok (.signature sig) →
    ∃ y ∈ revisions, y.1 = sdk.linkToString (sdk.signaturePrevious sig)
  acyclic : ∃ depth : String → Nat, ∀ x ∈ revisions, ∀ sig,
    host.decodeRevision x.2 = .ok (.signature sig) →
      depth (sdk.linkToString (sdk.signaturePrevious sig)) < depth x.1

/-- An object of its number. -/
def Sample.numberedObject (n : Nat) : Sample.Object :=
  ⟨Sample.leaf (UInt8.ofNat n), Sample.anchored "" .evm "r"⟩

/-- The JSON of small revisions: a signature over a numbered object, and such an object. -/
def Sample.decodeRevision : JsonValue → Except String (AnyRevision Sample.sdk)
  | .obj [("previous_revision", .num n), ("signer", .str did)] =>
      .ok (.signature ⟨Sample.objectLink (Sample.numberedObject n), did⟩)
  | .obj [("payload", .num n)] => .ok (.typed (Sample.numberedObject n))
  | _ => .error "unknown revision"

/-- Signatures verify under their own link. -/
def Sample.identityHost : IdentityHost Sample.sdk where
  fromStr _ := .error "expected value"
  decodeRevision := Sample.decodeRevision
  verifySignatureSync
    | .signature sig, key => key = Sample.linkText (Sample.signatureLink sig)
    | _, _ => false

/-- A rotation is reported exactly when the DID is not the prior one, and never under
`Refuse`. -/
theorem applyRotationPolicy_eq_ok {identity : ServerIdentity}
    {rotation : Option ServerRotation} {priorDid : String} {policy : OnRotation}
    (h : applyRotationPolicy identity (some (priorDid, policy)) = .ok rotation) :
    (rotation = none ↔ priorDid = identity.did) ∧
      (policy = .refuse → priorDid = identity.did) := by
  simp only [applyRotationPolicy] at h
  split at h
  · rename_i hsame
    cases h
    exact ⟨⟨fun _ => hsame, fun _ => rfl⟩, fun _ => hsame⟩
  · rename_i hrotated
    have hreported : rotation ≠ none ∧ policy ≠ .refuse := by
      cases policy with
      | refuse => cases h
      | warn =>
          cases h
          exact ⟨nofun, nofun⟩
      | custom decide =>
          simp only at h
          split at h
          · cases h
            exact ⟨nofun, nofun⟩
          · cases h
    exact ⟨⟨fun hnone => absurd hnone hreported.1, fun hsame => absurd hsame hrotated⟩,
      fun hrefuse => absurd hrefuse hreported.2⟩

end AquaTimestamp
