import AquaTimestamp.Guarantees.Delivery
import AquaTimestamp.Guarantees.IdentityClaim
import AquaTimestamp.Guarantees.Startup
import AquaTimestamp.Support.Projection
import Mathlib.Data.String.Basic

/-!
# The identity a client pins is the one the service signs with

The service publishes one DID and signs with a key; the DID of the key is what the
self-check of every tick asks for.  A client accepts the published identity exactly when
both are the same, so the DID it pins is the one its witnesses are checked against.
-/

namespace AquaTimestamp

open Support JsonValue

variable {sdk : Sdk} {maker : IdentityMaker sdk} {host : IdentityHost sdk}

/-! ## The published tree -/

/-- What the service and its clients rely on: an object that is created has no signature
yet, signing adds one in the name of the key, and what is published can be read. -/
structure IdentityMaker.Signs (maker : IdentityMaker sdk) (host : IdentityHost sdk) :
    Prop where
  unsigned : ∀ payload tree, maker.createObjectUtil payload = .ok tree →
    ∀ x ∈ tree.revisions, ∀ sig, x.2 ≠ .signature sig
  signed : ∀ payload tree key signedTree, maker.createObjectUtil payload = .ok tree →
    maker.signAquaTreeWithSigner tree key = .ok signedTree →
      ∃ link sig, signedTree.revisions.Perm ((link, .signature sig) :: tree.revisions) ∧
        maker.deriveDidPkh key = some (sdk.signatureSigner sig) ∧
        host.verifySignatureSync (.signature sig) link = true
  read : ∀ payload tree key signedTree, maker.createObjectUtil payload = .ok tree →
    maker.signAquaTreeWithSigner tree key = .ok signedTree →
      ∀ x ∈ signedTree.revisions, ∀ json, maker.revisionJson x.2 = .ok json →
        host.decodeRevision json = .ok x.2

/-- What the trees of the SDK are: a created object stands under its link with what it
links to, the signature that is added links to one of these revisions, and no key occurs
twice. -/
structure IdentityMaker.Chains (maker : IdentityMaker sdk)
    (otherLink : sdk.OtherRevision → Except String sdk.RevisionLink) : Prop where
  addressed : ∀ payload tree, maker.createObjectUtil payload = .ok tree →
    ∀ x ∈ tree.revisions, ∃ link,
      x.2.contentLink otherLink = some (.ok link) ∧ x.1 = sdk.linkToString link
  signed : ∀ payload tree key signedTree, maker.createObjectUtil payload = .ok tree →
    maker.signAquaTreeWithSigner tree key = .ok signedTree →
      (signedTree.revisions.map Prod.fst).Nodup ∧ ∃ link sig,
        signedTree.revisions.Perm ((link, .signature sig) :: tree.revisions) ∧
        ∃ y ∈ tree.revisions, y.1 = sdk.linkToString (sdk.signaturePrevious sig)

section Tree

variable {identity : ServiceIdentity} {overrides : IdentityClaimOverrides} {now : Nat}
variable {tree : IdentityTree sdk} {did : String} {revisions : List (String × JsonValue)}

/-- An identity tree is an object with a signature of the service. -/
theorem buildIdentityTree_eq_ok
    (h : buildIdentityTree maker identity overrides now = .ok tree) :
    ∃ payload object, maker.createObjectUtil payload = .ok object ∧
      maker.signAquaTreeWithSigner object identity.privateKey = .ok tree := by
  obtain ⟨-, -, h⟩ := bind_eq_ok_iff.mp h
  obtain ⟨payload, -, h⟩ := bind_eq_ok_iff.mp h
  obtain ⟨object, hobject, h⟩ := bind_eq_ok_iff.mp h
  exact ⟨payload, object, mapError_eq_ok_iff.mp hobject, mapError_eq_ok_iff.mp h⟩

/-- Each member of the published tree is read as a revision of the tree. -/
theorem revision_of_published
    (hread : ∀ x ∈ tree.revisions, ∀ json, maker.revisionJson x.2 = .ok json →
      host.decodeRevision json = .ok x.2)
    (hjson : tree.revisionsJson maker = .ok revisions) {x : String × JsonValue}
    (hx : x ∈ revisions) :
    ∃ y ∈ tree.revisions, x.1 = y.1 ∧ host.decodeRevision x.2 = .ok y.2 := by
  obtain ⟨y, hy, hyx⟩ := exists_of_mem_mapM hjson hx
  obtain ⟨json, hrevision, rfl⟩ := map_eq_ok_iff.mp hyx
  exact ⟨y, hy, rfl, hread y hy json hrevision⟩

/-- Each revision of the tree is published and read back. -/
theorem published_of_revision
    (hread : ∀ x ∈ tree.revisions, ∀ json, maker.revisionJson x.2 = .ok json →
      host.decodeRevision json = .ok x.2)
    (hjson : tree.revisionsJson maker = .ok revisions) {y : String × AnyRevision sdk}
    (hy : y ∈ tree.revisions) :
    ∃ x ∈ revisions, x.1 = y.1 ∧ host.decodeRevision x.2 = .ok y.2 := by
  obtain ⟨x, hx, hyx⟩ := exists_image_of_mapM hjson hy
  obtain ⟨json, hrevision, rfl⟩ := map_eq_ok_iff.mp hyx
  exact ⟨_, hx, rfl, hread y hy json hrevision⟩

/-- The published tree is well signed for the DID of the key and for no other. -/
theorem wellSigned_iff (hsdk : maker.Signs host)
    (htree : buildIdentityTree maker identity overrides now = .ok tree)
    (hjson : tree.revisionsJson maker = .ok revisions) :
    WellSigned host did revisions ↔ maker.deriveDidPkh identity.privateKey = some did := by
  obtain ⟨payload, object, hobject, hsigned⟩ := buildIdentityTree_eq_ok htree
  obtain ⟨link, sig, hperm, hderive, hverifies⟩ := hsdk.signed _ _ _ _ hobject hsigned
  have hread := hsdk.read _ _ _ _ hobject hsigned
  have hown : (link, AnyRevision.signature sig) ∈ tree.revisions :=
    hperm.mem_iff.mpr (List.mem_cons_self ..)
  obtain ⟨x₀, hmember, -, hdecoded⟩ := published_of_revision hread hjson hown
  constructor
  · rintro ⟨hgood, -⟩
    obtain ⟨revision, hdecode, hnames⟩ := hgood _ hmember
    cases hdecoded.symm.trans hdecode
    rw [hderive, (hnames sig rfl).1]
  · intro hdid
    obtain rfl := Option.some.inj (hderive.symm.trans hdid)
    refine ⟨fun x hx => ?_, x₀, hmember, sig, hdecoded⟩
    obtain ⟨y, hy, hkey, hrevision⟩ := revision_of_published hread hjson hx
    refine ⟨y.2, hrevision, fun sig' hsig' => ?_⟩
    -- The signature that was added is the only one.
    rcases List.mem_cons.mp (hperm.mem_iff.mp hy) with rfl | hold
    · cases hsig'
      rw [hkey]
      exact ⟨rfl, hverifies⟩
    · exact absurd hsig' (hsdk.unsigned _ _ hobject y hold sig')

/-- The revisions of the published tree hang together. -/
theorem aquaTree_of_built {otherLink : sdk.OtherRevision → Except String sdk.RevisionLink}
    (hsdk : maker.Signs host) (hchains : maker.Chains otherLink)
    (htree : buildIdentityTree maker identity overrides now = .ok tree)
    (hjson : tree.revisionsJson maker = .ok revisions) :
    AquaTree host otherLink revisions := by
  obtain ⟨payload, object, hobject, hsigned⟩ := buildIdentityTree_eq_ok htree
  have hread := hsdk.read _ _ _ _ hobject hsigned
  obtain ⟨hdistinct, link, sig, hperm, y₀, hy₀, hprevious⟩ :=
    hchains.signed _ _ _ _ hobject hsigned
  have hapart : ∀ y ∈ object.revisions, y.1 ≠ link := by
    have hkeys := (hperm.map Prod.fst).nodup_iff.mp hdistinct
    intro y hy hsame
    exact (List.nodup_cons.mp hkeys).1 (List.mem_map.mpr ⟨y, hy, hsame⟩)
  -- A member that is a signature is the one that was added.
  have honly : ∀ x ∈ revisions, ∀ sig', host.decodeRevision x.2 = .ok (.signature sig') →
      x.1 = link ∧ sig' = sig := by
    intro x hx sig' hsig'
    obtain ⟨y, hy, hkey, hrevision⟩ := revision_of_published hread hjson hx
    have hkind : y.2 = .signature sig' := Except.ok.inj (hrevision.symm.trans hsig')
    rcases List.mem_cons.mp (hperm.mem_iff.mp hy) with rfl | hold
    · cases hkind
      exact ⟨hkey, rfl⟩
    · exact absurd hkind (hsdk.unsigned _ _ hobject y hold sig')
  refine ⟨fun x hx revision hrevision hkind => ?_, fun x hx sig' hsig' => ?_,
    fun key => if key = link then 1 else 0, fun x hx sig' hsig' => ?_⟩
  · obtain ⟨y, hy, hkey, hdecoded⟩ := revision_of_published hread hjson hx
    obtain rfl := Except.ok.inj (hdecoded.symm.trans hrevision)
    rcases List.mem_cons.mp (hperm.mem_iff.mp hy) with rfl | hold
    · exact absurd rfl (hkind sig)
    · rw [hkey]
      exact hchains.addressed _ _ hobject y hold
  · obtain ⟨-, rfl⟩ := honly x hx sig' hsig'
    obtain ⟨x₀, hx₀, hkey, -⟩ := published_of_revision hread hjson
      (hperm.mem_iff.mpr (List.mem_cons_of_mem _ hy₀))
    exact ⟨x₀, hx₀, hkey.trans hprevious⟩
  · obtain ⟨hkey, rfl⟩ := honly x hx sig' hsig'
    dsimp only
    rw [if_pos hkey, ← hprevious, if_neg (hapart y₀ hy₀)]
    exact Nat.one_pos

end Tree

/-! ## The published address -/

/-- The address of a DID that the service makes is read back. -/
theorem addressFromDid_didPkh {address : String} (chainId : Nat)
    (hlength : address.utf8ByteSize = 42) (hstart : ['0', 'x'].isPrefixOf address.toList) :
    addressFromDid (didPkh chainId address) = some address := by
  have htext : (didPkh chainId address).toList =
      "did:pkh:eip155:".toList ++ (Nat.toDigits 10 chainId ++ ':' :: address.toList) := by
    simp only [didPkh, String.toList_append, toString, Nat.repr, String.toList_ofList,
      List.append_assoc]
    rfl
  have hdigits : ∀ c ∈ Nat.toDigits 10 chainId, decide (c ≠ ':') = true := by
    intro c hc
    have hdigit : c.isDigit = true :=
      Nat.isDigit_of_mem_toDigits (by decide) (by decide) hc
    apply decide_eq_true
    rintro rfl
    cases hdigit
  have hrest : ((didPkh chainId address).toList.drop "did:pkh:eip155:".toList.length).dropWhile
      (fun c => decide (c ≠ ':')) = ':' :: address.toList := by
    rw [htext, List.drop_left, List.dropWhile_append_of_pos hdigits,
      List.dropWhile_cons_of_neg (by decide)]
  have hprefix : "did:pkh:eip155:".toList.isPrefixOf (didPkh chainId address).toList = true := by
    rw [htext, List.isPrefixOf_iff_prefix]
    exact List.prefix_append _ _
  simp only [addressFromDid, hprefix, if_true, hrest, String.ofList_toList, hlength, hstart,
    and_self]

/-- The text of an address: forty digits after `0x`. -/
structure IsEip55 (address : String) : Prop where
  digits : ∃ ds : List Char, address.toList = '0' :: 'x' :: ds ∧ ds.length = 40 ∧
    Hex.AllDigits ds

theorem IsEip55.address0x_eq {address : String} (h : IsEip55 address) :
    address0x address = address := by
  obtain ⟨ds, htext, hlength, hdigits⟩ := h.digits
  have hrest : trimStart0x ds = ds := trimStart0x_of_digits hdigits
  apply String.toList_injective
  rw [address0x, String.toList_append, htext, trimStart0x, hrest]
  simp only [String.toList_ofList]
  rfl

theorem IsEip55.utf8ByteSize_eq {address : String} (h : IsEip55 address) :
    address.utf8ByteSize = 42 := by
  obtain ⟨ds, htext, hlength, hdigits⟩ := h.digits
  have hsize : ∀ cs : List Char, Hex.AllDigits cs → String.utf8Len cs = cs.length := by
    intro cs hcs
    induction cs with
    | nil => rfl
    | cons c cs ih =>
        rw [String.utf8Len_cons, ih fun c' hc' => hcs c' (List.mem_cons_of_mem _ hc'),
          Hex.utf8Size_of_digitValue (hcs c (List.mem_cons_self ..)), List.length_cons]
  rw [← String.utf8Len_toList, htext, String.utf8Len_cons, String.utf8Len_cons,
    hsize ds hdigits, hlength]
  rfl

/-- A DID and an address that the service publishes together belong together. -/
theorem IsEip55.addressFromDid_eq {address : String} (h : IsEip55 address) (chainId : Nat) :
    addressFromDid (didPkh chainId address) = some (address0x address) := by
  obtain ⟨ds, htext, -⟩ := h.digits
  rw [h.address0x_eq]
  exact addressFromDid_didPkh chainId h.utf8ByteSize_eq (by rw [htext]; rfl)

/-! ## Discovery -/

section Discovery

variable {names : EvmNames} {cfg : Config} {identity : ServiceIdentity}
variable {var : Option String} {overrides : IdentityClaimOverrides} {driver : SealDriver}
variable {anchors : AnchorOverrides} {env : Environment sdk} {app : Started sdk}
variable {baseUrl : String} {url : Except String String}
variable {send : String → Except String IdentityReply} {prior : Option (String × OnRotation)}

/-- The request of a client gets the response of the identity route, and reads it. -/
def Publishes (host : IdentityHost sdk) (url : Except String String)
    (send : String → Except String IdentityReply) (app : Started sdk) : Prop :=
  ∃ target text statusText, url = .ok target ∧
    send target = .ok ⟨200, statusText, .ok text⟩ ∧
    host.fromStr text = .ok app.identityResponseJson

/-- A response that is built holds the tree, and is read as it was written. -/
theorem decode_buildResponse {tree : IdentityTree sdk} {response : JsonValue}
    (h : buildResponse maker identity tree = .ok response) :
    ∃ revisions, tree.revisionsJson maker = .ok revisions ∧
      IdentityWire.decode response = .ok ⟨identity.serverDid,
        some (address0x identity.addressEip55), tree.toJson revisions⟩ := by
  unfold buildResponse at h
  cases hjson : tree.revisionsJson maker with
  | error e =>
      rw [hjson] at h
      cases h
  | ok revisions =>
      rw [hjson] at h
      cases h
      exact ⟨revisions, rfl, rfl⟩

/-- What discovery makes of a published identity: the claim is checked, and then the
policy. -/
theorem discover_published {claim : JsonValue} (hpublishes : Publishes host url send app)
    (hdecode : IdentityWire.decode app.identityResponseJson = .ok ⟨identity.serverDid,
      some (address0x identity.addressEip55), claim⟩) :
    discover host baseUrl url send prior =
      (verifyIdentityClaim host ⟨identity.serverDid, some (address0x identity.addressEip55),
        claim⟩ >>= fun _ =>
          applyRotationPolicy ⟨identity.serverDid, address0x identity.addressEip55,
            app.identityResponseJson⟩ prior >>= fun rotation =>
              .ok (⟨identity.serverDid, address0x identity.addressEip55,
                app.identityResponseJson⟩, rotation)) := by
  obtain ⟨target, text, statusText, rfl, hsend, hread⟩ := hpublishes
  simp only [discover, Except.mapError, hsend, hread, hdecode, bind, Except.bind]
  rfl

/-- The DID of an identity that was loaded is that of its address. -/
theorem serverDid_of_fromEnv {cfg : IdentityConfig}
    (h : ServiceIdentity.fromEnv maker var cfg = .ok identity) :
    identity.serverDid = didPkh cfg.chainId identity.addressEip55 := by
  unfold ServiceIdentity.fromEnv at h
  split at h
  · cases h
  · split at h
    · cases h
    · obtain ⟨wallet, -, h⟩ := bind_eq_ok_iff.mp h
      obtain ⟨privateKey, -, h⟩ := bind_eq_ok_iff.mp h
      cases h
      rfl

/-- Every tick of a started service runs with its own context. -/
theorem serviceDid_of_serves {w : World sdk} (h : Serves app w)
    (hboot : ∃ st now durationSecs, app.world = World.boot st [] now durationSecs) :
    ∀ ev ∈ w.log, ∀ signer ∈ ev.serviceDid, signer = app.witnessCtx.serviceDid := by
  induction h with
  | start =>
      obtain ⟨st, now, durationSecs, hworld⟩ := hboot
      rw [hworld]
      intro ev hev
      cases List.mem_singleton.mp hev
      exact nofun
  | append batch did _ ih =>
      exact List.forall_mem_cons.mpr ⟨nofun, ih⟩
  | cycle _ _ hcycle ih =>
      refine hcycle.keeps (P := fun u => ∀ ev ∈ u.log, ∀ signer ∈ ev.serviceDid,
        signer = app.witnessCtx.serviceDid) ?_ ?_ (List.forall_mem_cons.mpr ⟨?_, ih⟩)
      -- The calls and the submissions of a cycle are no ticks.
      · rintro c r u _ ⟨-, rfl⟩ hu
        exact List.forall_mem_cons.mpr ⟨nofun, hu⟩
      · rintro u _ hu ⟨batch, did, rfl⟩
        exact List.forall_mem_cons.mpr ⟨nofun, hu⟩
      · rintro signer ⟨⟩
        rfl

/-- The DID that a started service checks against is the one of its key. -/
theorem deriveDidPkh_of_built
    (happ : buildAppWithAnchors names cfg identity overrides driver anchors env = .ok app) :
    env.identityMaker.deriveDidPkh identity.privateKey = some app.witnessCtx.serviceDid := by
  have hbuilt := builtFrom happ
  have hnonempty := hbuilt.startable.serviceDid
  rw [hbuilt.ctx]
  dsimp only
  cases hderive : env.identityMaker.deriveDidPkh identity.privateKey with
  | none => exact absurd (by rw [hderive]; rfl) hnonempty
  | some did => rfl

/-- The claim in a published identity is accepted exactly when the DID beside it is the
one of the key. -/
theorem verifyIdentityClaim_published {tree : IdentityTree sdk} {now : Nat}
    {revisions : List (String × JsonValue)} (hsdk : maker.Signs host)
    (htree : buildIdentityTree maker identity overrides now = .ok tree)
    (hjson : tree.revisionsJson maker = .ok revisions) :
    verifyIdentityClaim host ⟨identity.serverDid, some (address0x identity.addressEip55),
        tree.toJson revisions⟩ = .ok () ↔
      maker.deriveDidPkh identity.privateKey = some identity.serverDid := by
  have hrevisions : IdentityWire.revisions ⟨identity.serverDid,
      some (address0x identity.addressEip55), tree.toJson revisions⟩ = some revisions := rfl
  rw [verifyIdentityClaim_eq_ok_iff]
  simp only [hrevisions, Option.some.injEq, exists_eq_left']
  exact wellSigned_iff hsdk htree hjson

/-- A client that knows no other DID discovers a started service exactly when the
published DID is the one of the service's key.  Whatever a client discovers has this
DID, which every tick of the service checks its witnesses against, and the address of
the DID; a rotation is reported exactly when the client knew another one. -/
theorem discovered_identity_is_checked_against (baseUrl : String)
    (hsdk : env.identityMaker.Signs host)
    (hidentity : ServiceIdentity.fromEnv env.identityMaker var cfg.identity = .ok identity)
    (happ : buildAppWithAnchors names cfg identity overrides driver anchors env = .ok app)
    (hpublishes : Publishes host url send app) :
    ((∃ found, discover host baseUrl url send none = .ok found) ↔
      identity.serverDid = app.witnessCtx.serviceDid) ∧
    ∀ prior found rotation, discover host baseUrl url send prior = .ok (found, rotation) →
      found.did = app.witnessCtx.serviceDid ∧
      (∀ w, Serves app w → ∀ ev ∈ w.log, ∀ signer ∈ ev.serviceDid, signer = found.did) ∧
      (IsEip55 identity.addressEip55 → addressFromDid found.did = some found.address) ∧
      (rotation = none ↔ ∀ known ∈ prior, known.1 = found.did) := by
  have hbuilt := builtFrom happ
  obtain ⟨tree, htree, hresponse⟩ := hbuilt.claim
  obtain ⟨revisions, hjson, hdecode⟩ := decode_buildResponse hresponse
  obtain ⟨st, -, hworld⟩ := hbuilt.world
  have hclaim : verifyIdentityClaim host ⟨identity.serverDid,
      some (address0x identity.addressEip55), tree.toJson revisions⟩ = .ok () ↔
        identity.serverDid = app.witnessCtx.serviceDid := by
    rw [verifyIdentityClaim_published hsdk htree hjson, deriveDidPkh_of_built happ,
      Option.some.injEq]
    exact eq_comm
  refine ⟨?_, fun prior found rotation hfound => ?_⟩
  · rw [← hclaim, discover_published hpublishes hdecode]
    constructor
    · rintro ⟨found, hfound⟩
      obtain ⟨_, hverified, -⟩ := bind_eq_ok_iff.mp hfound
      exact hverified
    · intro hverified
      exact ⟨_, bind_eq_ok_iff.mpr ⟨_, hverified, rfl⟩⟩
  · rw [discover_published hpublishes hdecode] at hfound
    obtain ⟨_, hverified, hfound⟩ := bind_eq_ok_iff.mp hfound
    obtain ⟨rotation', hpolicy, hfound⟩ := bind_eq_ok_iff.mp hfound
    cases hfound
    have hdid := hclaim.mp hverified
    refine ⟨hdid, fun w hw => ?_, fun heip => ?_, ?_⟩
    · rw [hdid]
      exact serviceDid_of_serves hw ⟨st, _, _, hworld⟩
    · rw [serverDid_of_fromEnv hidentity]
      exact heip.addressFromDid_eq _
    · cases prior with
      | none =>
          cases hpolicy
          simp
      | some known =>
          rw [(applyRotationPolicy_eq_ok hpolicy).1]
          simp

end Discovery

/-- A client that reads the response of the small service. -/
def Sample.clientHost : IdentityHost Sample.sdk :=
  { Sample.identityHost with fromStr := fun _ => .ok Sample.service.identityResponseJson }

/-- The identity route answers every request. -/
def Sample.identityRoute (_ : String) : Except String IdentityReply :=
  .ok ⟨200, "200 OK", .ok ""⟩

theorem Sample.identityMaker_signs : Sample.identityMaker.Signs Sample.clientHost where
  unsigned payload tree hobject x hx sig hsig := by
    cases hobject
    cases List.mem_singleton.mp hx
    cases hsig
  signed payload tree key signedTree hobject hsigned := by
    cases hobject
    cases hsigned
    refine ⟨_, Sample.claimSignature, List.Perm.swap .., rfl, ?_⟩
    simp [Sample.clientHost, Sample.identityHost]
  read payload tree key signedTree hobject hsigned x hx json hjson := by
    cases hobject
    cases hsigned
    rcases List.mem_cons.mp hx with rfl | hx
    · cases hjson
      rfl
    · cases List.mem_singleton.mp hx
      cases hjson
      rfl

theorem discovered_identity_is_checked_against_service :
    ∃ found, discover Sample.clientHost "https://service" (.ok "https://service/identity")
        Sample.identityRoute none = .ok found ∧
      found.1.did = Sample.service.witnessCtx.serviceDid := by
  have hidentity : ServiceIdentity.fromEnv Sample.environment.identityMaker
      (some "test junk") Sample.config.identity = .ok Sample.serviceKey := by
    rfl
  have hpublishes : Publishes Sample.clientHost (.ok "https://service/identity")
      Sample.identityRoute Sample.service := ⟨_, "", "200 OK", rfl, rfl, rfl⟩
  have hdiscovers := discovered_identity_is_checked_against "https://service"
    Sample.identityMaker_signs hidentity Sample.service_built hpublishes
  obtain ⟨found, hfound⟩ := hdiscovers.1.mpr rfl
  exact ⟨found, hfound, (hdiscovers.2 none found.1 found.2 hfound).1⟩

end AquaTimestamp
