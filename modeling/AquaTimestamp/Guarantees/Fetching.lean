import AquaTimestamp.Guarantees.Lookup
import AquaTimestamp.Model.Client
import AquaTimestamp.Model.Sample

/-!
# What the client makes of an answer

The client accepts a witness on its signature: one signature revision over the
key of one timestamp object, by the pinned DID.  Which object the key names,
and the leaf it is for, is left to the caller's tree verification.

A server that has no witness yet answers 404 or, while the anchor is
outstanding, 202 with a pending body.  The client takes the first for "not
yet"; the second is a success status, and its body is decoded as a witness
tree, which fails.
-/

namespace AquaTimestamp

open Support Partition

variable {sdk : Sdk}

namespace TimestampClient

variable {client : TimestampClient sdk}

/-! ## Acceptance -/

/-- The signature revisions among the entries, with their keys. -/
def signatures (entries : List (String × AnyRevision sdk)) :
    List (String × sdk.Signature) :=
  entries.filterMap fun x =>
    match x.2 with
    | .signature sig => some (x.1, sig)
    | _ => none

/-- The timestamp objects among the entries, with their keys. -/
def timestampObjects (client : TimestampClient sdk)
    (entries : List (String × AnyRevision sdk)) : List (String × sdk.Object) :=
  entries.filterMap fun x =>
    match x.2 with
    | .typed object =>
        if client.isTimestampObject object then some (x.1, object) else none
    | _ => none

/-- The loop finds all there is, and it is at most one of each. -/
theorem locate_eq_ok {entries : List (String × AnyRevision sdk)}
    {signature signature' : Option (String × sdk.Signature)}
    {object object' : Option (String × sdk.Object)}
    (h : client.locate entries signature object = .ok (signature', object')) :
    signature'.toList = signature.toList ++ signatures entries ∧
      object'.toList = object.toList ++ client.timestampObjects entries := by
  fun_induction locate client entries signature object with
  | case1 =>
      cases h
      simp [signatures, timestampObjects]
  | case2 | case4 => cases h
  | case3 hash sig rest signature object hnone ih =>
      obtain rfl : signature = none := Option.not_isSome_iff_eq_none.mp hnone
      simpa [signatures, timestampObjects] using ih h
  | case5 hash obj rest signature object his hnone ih =>
      obtain rfl : object = none := Option.not_isSome_iff_eq_none.mp hnone
      simpa [signatures, timestampObjects, his] using ih h
  | case6 hash obj rest signature object his ih =>
      simpa [signatures, timestampObjects, his] using ih h
  | case7 hash other rest signature object ih =>
      simpa [signatures, timestampObjects] using ih h

/-- What the client checks of a tree it extracts a pair from. -/
structure Extracted (client : TimestampClient sdk) (tree : TreeWire sdk)
    (method : AnchorMethod) (pair : WitnessPair sdk) (object : sdk.Object)
    (sig : sdk.Signature) : Prop where
  objectRevision : pair.objectRevision = .typed object
  signatureRevision : pair.signatureRevision = .signature sig
  anchorMethod : pair.anchorMethod = method
  objects : client.timestampObjects (client.iterate tree.revisions) =
    [(pair.objectHash, object)]
  signatures : signatures (client.iterate tree.revisions) =
    [(pair.signatureHash, sig)]
  chains : sdk.linkToString (sdk.signaturePrevious sig) = pair.objectHash
  signer : sdk.signatureSigner sig = client.serverDid
  verified : client.verifySignatureSync (.signature sig) pair.signatureHash = true

theorem extractWitnessPair_eq_ok {tree : TreeWire sdk} {method : AnchorMethod}
    {pair : WitnessPair sdk}
    (h : client.extractWitnessPair tree method = .ok pair) :
    ∃ object sig, Extracted client tree method pair object sig := by
  unfold extractWitnessPair at h
  split at h
  · cases h
  · cases h
  · cases h
  · rename_i sigHash sig objHash object hlocate
    obtain ⟨hsignatures, hobjects⟩ := locate_eq_ok hlocate
    split at h
    · cases h
    rename_i hchains
    split at h
    · cases h
    rename_i hsigner
    split at h
    · rename_i hverified
      cases h
      exact ⟨object, sig, rfl, rfl, rfl, hobjects.symm, hsignatures.symm,
        not_not.mp hchains, not_not.mp hsigner, hverified⟩
    · cases h

theorem json_eq_ok {α : Type} {decode : Wire sdk → Except String α}
    {answer : HttpAnswer sdk} {a : α} (h : json decode answer = .ok a) :
    ∃ body, answer.body = some body ∧ decode body = .ok a := by
  unfold json at h
  split at h
  · cases h
  · rename_i body hbody
    split at h
    · rename_i hdecode
      cases h
      exact ⟨body, hbody, hdecode⟩
    · cases h

/-- An accepted fetch: the answer is a success whose body decodes to a tree the
pair is extracted from. -/
theorem tryFetchWitness_eq_some {net : Network sdk} {leaf : Hash32}
    {method : AnchorMethod} {pair : WitnessPair sdk}
    (h : client.tryFetchWitness net leaf method = .ok (some pair)) :
    ∃ token answer body tree, net.ensureToken = .ok token ∧
      net.send (some token)
        (.treeByLeaf (formatHash32Bare leaf) method.asStr) = .ok answer ∧
      answer.body = some body ∧ client.decodeTree body = .ok tree ∧
      client.extractWitnessPair tree method = .ok pair := by
  unfold tryFetchWitness at h
  obtain ⟨token, htoken, h⟩ := bind_eq_ok_iff.mp h
  obtain ⟨answer, hanswer, h⟩ := bind_eq_ok_iff.mp h
  split at h
  · cases h
  split at h
  · obtain ⟨tree, htree, h⟩ := bind_eq_ok_iff.mp h
    obtain ⟨pair', hpair, h⟩ := bind_eq_ok_iff.mp h
    obtain ⟨body, hbody, hdecode⟩ := json_eq_ok htree
    cases h
    exact ⟨token, answer, body, tree, htoken, hanswer, hbody, hdecode, hpair⟩
  · cases h

/-- `verify_signature_sync` accepts a signature revision that hashes to the
given key and verifies under its signer, and nothing else. -/
def ChecksSignatures (client : TimestampClient sdk) : Prop :=
  ∀ revision key, client.verifySignatureSync revision key = true →
    ∃ sig link, revision = .signature sig ∧
      sdk.signatureCalculateLink sig = .ok link ∧
      sdk.linkToString link = key ∧
      sdk.classifySignatureLeaf sig link = .ok .verified

end TimestampClient

open TimestampClient

/-- A witness the client accepts is the only signature and the only timestamp
object of the answered tree.  The signature names the object's key, is by the
pinned DID, hashes to its own key and verifies, which is the server's own check
of a service signature. -/
theorem accepted_witness_signed_by_server {client : TimestampClient sdk}
    (hchecks : client.ChecksSignatures) {net : Network sdk} {leaf : Hash32}
    {m : AnchorMethod} {pair : WitnessPair sdk}
    (h : client.tryFetchWitness net leaf m = .ok (some pair)) :
    ∃ token answer body tree object sig link,
      net.ensureToken = .ok token ∧
      net.send (some token) (.treeByLeaf (formatHash32Bare leaf) m.asStr) =
        .ok answer ∧
      answer.body = some body ∧ client.decodeTree body = .ok tree ∧
      Extracted client tree m pair object sig ∧
      sdk.signatureCalculateLink sig = .ok link ∧
      sdk.linkToString link = pair.signatureHash ∧
      sdk.classifySignatureLeaf sig link = .ok .verified ∧
      (Function.Injective sdk.linkToString → ∀ wit : MintedWitness sdk,
        wit.signatureRevision = pair.signatureRevision →
        revisionWireHex sdk wit.objectHash = pair.objectHash →
        revisionWireHex sdk wit.signatureHash = pair.signatureHash →
          SelfCheck.serviceSignature wit client.serverDid = .verified) := by
  obtain ⟨token, answer, body, tree, htoken, hanswer, hbody, htree, hpair⟩ :=
    tryFetchWitness_eq_some h
  obtain ⟨object, sig, hextracted⟩ := extractWitnessPair_eq_ok hpair
  obtain ⟨sig', link, heq, hlink, hkey, hverified⟩ :=
    hchecks _ _ hextracted.verified
  cases heq
  refine ⟨token, answer, body, tree, object, sig, link, htoken, hanswer, hbody,
    htree, hextracted, hlink, hkey, hverified, ?_⟩
  intro hinj wit hrevision hobject hsignature
  have hlinked : link = sdk.linkFromBytes wit.signatureHash :=
    hinj (hkey.trans hsignature.symm)
  have hprevious : sdk.signaturePrevious sig = sdk.linkFromBytes wit.objectHash :=
    hinj (hextracted.chains.trans hobject.symm)
  rw [hlinked] at hverified
  simp [SelfCheck.serviceSignature, hrevision, hextracted.signatureRevision,
    hverified, hprevious, hextracted.signer]

/-! ### An answer for another leaf -/

/-- A client of the small SDK, with `did:service` pinned. -/
def Sample.client : TimestampClient Sample.sdk where
  serverDid := "did:service"
  pollInterval := 5
  decodeRevision
    | .value (.object previous value) => .ok (.typed ⟨previous, value⟩)
    | .value (.signature previous signer) => .ok (.signature ⟨previous, signer⟩)
    | _ => .error "no revision"
  isTimestampObject _ := true
  verifySignatureSync
    | .signature sig, key => decide (key = Sample.linkText (Sample.signatureLink sig))
    | _, _ => false
  iterate revisions := revisions.toList
  iterate_perm _ := List.Perm.refl _

theorem Sample.client_checksSignatures : Sample.client.ChecksSignatures := by
  intro revision key h
  cases revision with
  | signature sig =>
      refine ⟨sig, Sample.signatureLink sig, rfl, rfl, ?_, ?_⟩
      · exact (of_decide_eq_true h).symm
      · simp [Sample.sdk]
  | typed | other => cases h

/-- A server that answers every fetch with one object under a key and a
signature over that key. -/
def Sample.answering (key : Hash32) (object : Sample.Object) :
    Network Sample.sdk where
  ensureToken := .ok "token"
  send _ _ :=
    let sig : Sample.Signature := ⟨key, "did:service"⟩
    .ok ⟨200, some (.object [("revisions", .object [
      (Sample.linkText key, .value (.object object.previous object.payload)),
      (Sample.linkText (Sample.signatureLink sig),
        .value (.signature sig.previous sig.signer))])])⟩

/-- The timestamp object of the second leaf. -/
def Sample.secondObject : Sample.Object :=
  ⟨Sample.leaf 2, Sample.anchored "" .evm "root"⟩

/-- The pair the client makes of it. -/
def Sample.secondPair (key : Hash32) : WitnessPair Sample.sdk :=
  ⟨.typed Sample.secondObject, .signature ⟨key, "did:service"⟩,
    Sample.linkText key,
    Sample.linkText (Sample.signatureLink ⟨key, "did:service"⟩), .evm⟩

theorem accepted_witness_signed_by_server_secondObject :
    ∃ sig : Sample.Signature,
      (Sample.secondPair (Sample.objectLink Sample.secondObject)).signatureRevision =
        .signature sig ∧ sig.signer = "did:service" := by
  have hfetch : Sample.client.tryFetchWitness (Sample.answering
      (Sample.objectLink Sample.secondObject) Sample.secondObject)
      (Sample.leaf 2) .evm =
        .ok (some (Sample.secondPair (Sample.objectLink Sample.secondObject))) := by
    rfl
  obtain ⟨_, _, _, _, _, sig, _, -, -, -, -, hextracted, -⟩ :=
    accepted_witness_signed_by_server Sample.client_checksSignatures hfetch
  exact ⟨sig, hextracted.signatureRevision, hextracted.signer⟩

/-- The object of another leaf is accepted, and so is an object under a key it
does not hash to. -/
theorem exists_accepted_witness_unbound :
    Sample.client.ChecksSignatures ∧
    (∃ net pair object,
      Sample.client.tryFetchWitness net (Sample.leaf 1) .evm = .ok (some pair) ∧
      pair.objectRevision = .typed object ∧
      Sample.sdk.objectPrevious object ≠
        some (Sample.sdk.linkFromBytes (Sample.leaf 1))) ∧
    ∃ net pair object link,
      Sample.client.tryFetchWitness net (Sample.leaf 2) .evm = .ok (some pair) ∧
      pair.objectRevision = .typed object ∧
      Sample.sdk.objectCalculateLink object = .ok link ∧
      Sample.sdk.linkToString link ≠ pair.objectHash := by
  refine ⟨Sample.client_checksSignatures, ?_, ?_⟩
  · refine ⟨Sample.answering (Sample.objectLink Sample.secondObject)
      Sample.secondObject, Sample.secondPair _, Sample.secondObject, rfl, rfl, ?_⟩
    decide
  · refine ⟨Sample.answering (Sample.leaf 9) Sample.secondObject,
      Sample.secondPair _, Sample.secondObject,
      Sample.objectLink Sample.secondObject, rfl, rfl, rfl, ?_⟩
    decide +kernel

/-! ## Not yet -/

section NotYet

variable {client : TimestampClient sdk} {w : World sdk} {leaf : Hash32}
variable {m : AnchorMethod} {did : String} {maxAnchorFaults : UInt32}

/-- The path of a fetch names its leaf. -/
theorem parseHash32_formatHash32Bare (leaf : Hash32) :
    parseHash32 (formatHash32Bare leaf) = .ok leaf := by
  have hparse : parseLeafHex (formatHash32Bare leaf) = .ok leaf :=
    parseLeafHex_encode leaf
  simp [parseHash32, hparse]

example : formatHash32Bare (Sample.leaf 10) =
    String.ofList ((List.replicate 32 ['0', 'a']).flatten) := by
  decide +kernel

/-- The by-leaf route's answer to the client's request. -/
def leafAnswer (w : World sdk) (maxAnchorFaults : UInt32) (did : String)
    (leaf : Hash32) (m : AnchorMethod) : Response sdk :=
  intoResponse (getTreeByLeaf w.store maxAnchorFaults did (formatHash32Bare leaf)
    (some m.asStr))

/-- The client, signed in as `did`, fetches from a server in the world `w`. -/
def AnsweredIn (net : Network sdk) (w : World sdk) (maxAnchorFaults : UInt32)
    (did : String) (leaf : Hash32) (m : AnchorMethod) : Prop :=
  ∃ token, net.ensureToken = .ok token ∧
    net.send (some token) (.treeByLeaf (formatHash32Bare leaf) m.asStr) =
      .ok (leafAnswer w maxAnchorFaults did leaf m).wire

/-- The server says there is no witness yet: not found, or outstanding. -/
def SaysNotYet (w : World sdk) (maxAnchorFaults : UInt32) (did : String)
    (leaf : Hash32) (m : AnchorMethod) : Prop :=
  (leafAnswer w maxAnchorFaults did leaf m).status = .notFound ∨
    (leafAnswer w maxAnchorFaults did leaf m).status = .accepted

theorem Emits.owner_kept {j : Job sdk} {ev : Event sdk} (hev : Emits w j ev)
    (hleaf : leaf ∈ w.store.leafOwner) :
    leaf ∈ (w.emit ev).store.leafOwner := by
  have hwritten := hev.written
  generalize (w.emit ev).store = st' at hwritten
  cases hwritten with
  | unchanged | saved => exact hleaf
  | served _ _ hserved =>
      rw [hserved.leafOwner]
      exact hleaf
  | sealed _ _ _ hsealed =>
      rw [hsealed.leafOwner, mem_putAll]
      exact Or.inl hleaf

/-- A leaf with a slot has an owner. -/
theorem Reach.slot_owner {j : Job sdk} (h : Reach Store.empty w j) :
    ∀ e, w.store.getPendingEpochForLeaf leaf m = some e →
      leaf ∈ w.store.leafOwner := by
  refine h.induct (P := fun w => ∀ e,
    w.store.getPendingEpochForLeaf leaf m = some e →
      leaf ∈ w.store.leafOwner) ?_ ?_
  · intro now durationSecs e hslot
    simp [World.boot, Store.empty, Store.getPendingEpochForLeaf] at hslot
  · intro w j ev hw hev ih e hslot
    rw [Store.getPendingEpochForLeaf, hev.slot_eq] at hslot
    rcases slot_cases ev m leaf w.store.pendingLeaves[(leaf, m.methodByte)]?
      with ⟨e', hseals, -⟩ | ⟨e', -, -, hnew⟩ | ⟨hkept, -⟩
    · obtain ⟨record, leaves, witnesses, p, o, rfl, ho, -, hkey⟩ := hseals
      have hmem := (hw.sealed_leaf hev (PendingEpoch.mem_slots.mp hkey).1).2
      obtain ⟨entry, hentry, rfl⟩ := List.mem_map.mp hmem
      generalize hpending : some p = pending at hev
      cases hev with
      | mint _ hminting => cases hminting
      | persist _ _ hperm =>
          rw [store_emit_call]
          rcases after_seal hperm with ⟨hno, -⟩ | ⟨-, hsealed⟩
          · rw [hno] at ho
            cases ho
          · rw [hsealed.leafOwner, mem_putAll]
            exact Or.inr ⟨_, List.mem_map.mpr ⟨entry, hentry, rfl⟩⟩
    · rw [hnew] at hslot
      cases hslot
    · rw [hkept] at hslot
      exact hev.owner_kept (ih e hslot)

/-- Without a slot the answer "not yet" is a 404, with one it is a 202. -/
theorem Reach.notYet_cases {j : Job sdk} (h : Reach Store.empty w j)
    (hnot : SaysNotYet w maxAnchorFaults did leaf m) :
    (w.store.getPendingEpochForLeaf leaf m = none ∧
      (leafAnswer w maxAnchorFaults did leaf m).status = .notFound) ∨
    ∃ e body, w.store.getPendingEpochForLeaf leaf m = some e ∧
      (leafAnswer w maxAnchorFaults did leaf m).status = .accepted ∧
      (leafAnswer w maxAnchorFaults did leaf m).body = .status body := by
  have hmethod := AnchorMethod.parse_asStr m
  have hleaf := parseHash32_formatHash32Bare leaf
  cases howner : w.store.getLeafOwner leaf with
  | none =>
      left
      constructor
      · cases hslot : w.store.getPendingEpochForLeaf leaf m with
        | none => rfl
        | some e =>
            have hin := Std.ExtTreeMap.mem_iff_isSome_getElem?.mp
              (h.slot_owner e hslot)
            rw [show w.store.leafOwner[leaf]? = none from howner] at hin
            cases hin
      · simp [leafAnswer, getTreeByLeaf, parseMethod_of_some hmethod,
          parsePathHash_of_ok hleaf, howner, bind, Except.bind, intoResponse,
          notFoundResponse]
  | some owner =>
      by_cases hdid : owner = did
      · subst hdid
        cases htip : w.store.getTipForLeaf leaf m with
        | some tip =>
            -- The witness is there, so the answer is a 200.
            obtain ⟨idx, hidx⟩ := Option.isSome_iff_exists.mp
              (Std.ExtTreeMap.mem_iff_isSome_getElem?.mp
                (h.linked.target _ tip htip))
            have hchecked : w.store.isSelfChecked tip = true :=
              Std.ExtTreeMap.mem_iff_contains.mp
                ((h.linked.checked tip).mp (h.linked.target _ tip htip))
            obtain ⟨hobject, hsignature⟩ := h.linked.revisions tip idx hidx
            obtain ⟨r, hr⟩ := exists_pairResponse hobject hsignature
            have hstatus : (leafAnswer w maxAnchorFaults owner leaf m).status =
                .ok := by
              rw [leafAnswer, getTreeByLeaf_of_pair hmethod hleaf howner htip hidx
                hchecked, hr]
              exact pairResponse_status hr
            rcases hnot with hnot | hnot <;>
              · rw [hstatus] at hnot
                cases hnot
        | none =>
            cases hslot : w.store.getPendingEpochForLeaf leaf m with
            | none =>
                left
                refine ⟨rfl, ?_⟩
                simp [leafAnswer, getTreeByLeaf, parseMethod_of_some hmethod,
                  parsePathHash_of_ok hleaf, howner, htip, hslot, bind,
                  Except.bind, intoResponse, notFoundResponse]
            | some e =>
                right
                have hanswer : leafAnswer w maxAnchorFaults owner leaf m =
                    pendingAnchorResponse w.store maxAnchorFaults m e
                      (some leaf) := by
                  rw [leafAnswer, getTreeByLeaf_of_slot hmethod hleaf howner htip
                    hslot]
                  rfl
                obtain ⟨hstatus, body, hbody, -⟩ := pendingAnchorResponse_cases
                  w.store maxAnchorFaults m e (some leaf)
                unfold SaysNotYet at hnot
                rw [hanswer] at hnot ⊢
                refine ⟨e, body, rfl, ?_, hbody⟩
                rcases hstatus with hstatus | hstatus
                · exact hstatus
                · rcases hnot with hnot | hnot <;>
                    · rw [hstatus] at hnot
                      cases hnot
      · have hstatus : (leafAnswer w maxAnchorFaults did leaf m).status =
            .forbidden := by
          simp [leafAnswer, getTreeByLeaf, parseMethod_of_some hmethod,
            parsePathHash_of_ok hleaf, howner, hdid, bind, Except.bind,
            intoResponse, AuthApiError.forbidden]
        rcases hnot with hnot | hnot <;>
          · rw [hstatus] at hnot
            cases hnot

/-- A 404 is taken for "not yet". -/
theorem tryFetchWitness_notFound {net : Network sdk}
    (hnet : AnsweredIn net w maxAnchorFaults did leaf m)
    (hstatus : (leafAnswer w maxAnchorFaults did leaf m).status = .notFound) :
    client.tryFetchWitness net leaf m = .ok none := by
  obtain ⟨token, htoken, hsend⟩ := hnet
  simp [tryFetchWitness, htoken, hsend, Response.wire, hstatus, bind, Except.bind,
    StatusCode.asU16]

/-- A status body has no field for the revisions, so it decodes to no tree. -/
theorem decodeTree_status (client : TimestampClient sdk) (body : StatusBody) :
    ∃ e, client.decodeTree (Body.status body : Body sdk).wire = .error e := by
  have hfield : Wire.fieldOf (body.fields : List (String × Wire sdk)) "revisions" =
      .ok none := by
    unfold Wire.fieldOf StatusBody.fields
    cases body.reason <;> cases body.method <;> cases body.leaf <;> simp
  cases hindex : Wire.fieldOf (body.fields : List (String × Wire sdk))
      "file_index" with
  | error e =>
      refine ⟨e, ?_⟩
      simp [decodeTree, Body.wire, Wire.struct, hfield, hindex, bind, Except.bind]
  | ok index =>
      refine ⟨"missing field revisions", ?_⟩
      simp [decodeTree, Body.wire, Wire.struct, hfield, hindex, bind, Except.bind,
        pure, Except.pure, Wire.need]

/-- A pending body is decoded as a tree, and the fetch fails. -/
theorem tryFetchWitness_pending (client : TimestampClient sdk)
    {net : Network sdk}
    (hnet : AnsweredIn net w maxAnchorFaults did leaf m)
    (hstatus : (leafAnswer w maxAnchorFaults did leaf m).status = .accepted)
    {body : StatusBody}
    (hbody : (leafAnswer w maxAnchorFaults did leaf m).body = .status body) :
    ∃ e, client.tryFetchWitness net leaf m = .error (.http e) := by
  obtain ⟨token, htoken, hsend⟩ := hnet
  obtain ⟨e, he⟩ := decodeTree_status client body
  refine ⟨"error decoding response body: " ++ e, ?_⟩
  simp [tryFetchWitness, htoken, hsend, Response.wire, hstatus, hbody, bind,
    Except.bind, StatusCode.asU16, HttpAnswer.isSuccess, json, he]

/-- While the server says "not yet", the client agrees exactly when no anchor
is outstanding for the leaf. -/
theorem Reach.tryFetchWitness_notYet {j : Job sdk} (h : Reach Store.empty w j)
    (client : TimestampClient sdk) {net : Network sdk}
    (hnet : AnsweredIn net w maxAnchorFaults did leaf m)
    (hnot : SaysNotYet w maxAnchorFaults did leaf m) :
    client.tryFetchWitness net leaf m = .ok none ∧
        w.store.getPendingEpochForLeaf leaf m = none ∨
      (∃ e, client.tryFetchWitness net leaf m = .error e) ∧
        w.store.getPendingEpochForLeaf leaf m ≠ none := by
  rcases h.notYet_cases hnot with ⟨hslot, hstatus⟩ |
    ⟨e, body, hslot, hstatus, hbody⟩
  · exact Or.inl ⟨tryFetchWitness_notFound hnet hstatus, hslot⟩
  · obtain ⟨text, herror⟩ := tryFetchWitness_pending client hnet hstatus
      hbody
    exact Or.inr ⟨⟨_, herror⟩, by rw [hslot]; exact Option.some_ne_none _⟩

end NotYet

/-! ## Polling -/

/-- A turn of the polling loop at a server of this development: its poll, the
schedule it reads, and the world its fetch is answered in. -/
structure Turn (sdk : Sdk) where
  poll : Poll sdk
  sched : EpochSchedule
  world : World sdk
  maxAnchorFaults : UInt32

/-- The turn ends before the timeout, and when the schedule shows the receipt's
epoch sealed the server says there is no witness yet. -/
structure Turn.Waits (turn : Turn sdk) (did : String)
    (receipt : SubmissionReceipt) (m : AnchorMethod) (timeout : Nat) : Prop where
  started : turn.poll.elapsed < timeout
  ended : turn.poll.elapsedAfter < timeout
  scheduled : TimestampClient.schedule turn.poll.network = .ok turn.sched
  visited : Visited Store.empty turn.world
  notYet : sealedBy turn.sched receipt = true →
    AnsweredIn turn.poll.network turn.world turn.maxAnchorFaults did receipt.leaf m ∧
      SaysNotYet turn.world turn.maxAnchorFaults did receipt.leaf m

/-- The turn fetches while an anchor for the leaf is outstanding. -/
def Turn.Outstanding (turn : Turn sdk) (receipt : SubmissionReceipt)
    (m : AnchorMethod) : Prop :=
  sealedBy turn.sched receipt = true ∧
    turn.world.store.getPendingEpochForLeaf receipt.leaf m ≠ none

section Polling

variable {client : TimestampClient sdk} {receipt : SubmissionReceipt}
variable {m : AnchorMethod} {timeout : Nat} {did : String}

/-- A turn that waits either naps and goes on, or ends the loop with an error. -/
theorem awaitWitness_cons (client : TimestampClient sdk) {turn : Turn sdk}
    (hturn : turn.Waits did receipt m timeout) (later : List (Poll sdk)) :
    (client.awaitWitness receipt m timeout (turn.poll :: later) =
        client.awaitWitness receipt m timeout later ∧
      0 < client.pollInterval ∧ ¬ turn.Outstanding receipt m) ∨
    (∃ e, client.awaitWitness receipt m timeout (turn.poll :: later) =
        some (.error e)) ∧
      (client.pollInterval = 0 ∨ turn.Outstanding receipt m) := by
  have hfetched : (if sealedBy turn.sched receipt then
        client.tryFetchWitness turn.poll.network receipt.leaf m else .ok none) =
          .ok none ∧ ¬ turn.Outstanding receipt m ∨
      (∃ e, (if sealedBy turn.sched receipt then
        client.tryFetchWitness turn.poll.network receipt.leaf m else .ok none) =
          .error e) ∧ turn.Outstanding receipt m := by
    cases hsealed : sealedBy turn.sched receipt with
    | false =>
        refine Or.inl ⟨rfl, fun hout => ?_⟩
        cases hsealed.symm.trans hout.1
    | true =>
        obtain ⟨hnet, hnot⟩ := hturn.notYet hsealed
        obtain ⟨j, hj⟩ := reach_of_visited hturn.visited
        rcases hj.tryFetchWitness_notYet client hnet hnot with
          ⟨hfetch, hslot⟩ | ⟨⟨e, hfetch⟩, hslot⟩
        · exact Or.inl ⟨hfetch, fun hout => hout.2 hslot⟩
        · exact Or.inr ⟨⟨e, hfetch⟩, hsealed, hslot⟩
  have hstarted := not_le.mpr hturn.started
  have hended : timeout - turn.poll.elapsedAfter ≠ 0 := by
    have hlt := hturn.ended
    omega
  rw [awaitWitness, if_neg hstarted, hturn.scheduled]
  dsimp only
  rcases hfetched with ⟨hfetch, hnot⟩ | ⟨⟨e, hfetch⟩, hout⟩
  · rw [hfetch]
    dsimp only
    by_cases hnap : client.pollInterval = 0
    · right
      rw [hnap, Nat.zero_min, if_pos rfl]
      exact ⟨⟨_, rfl⟩, Or.inl rfl⟩
    · left
      rw [if_neg (by omega)]
      exact ⟨rfl, Nat.pos_of_ne_zero hnap, hnot⟩
  · right
    rw [hfetch]
    exact ⟨⟨e, rfl⟩, Or.inr hout⟩

/-- Polling returns the witness of the last turn when no turn before it ends
the loop. -/
theorem awaitWitness_eq_some {last : Poll sdk} {sched : EpochSchedule}
    {pair : WitnessPair sdk} (hlast : last.elapsed < timeout)
    (hsched : TimestampClient.schedule last.network = .ok sched)
    (hsealed : sealedBy sched receipt = true)
    (hpair : client.tryFetchWitness last.network receipt.leaf m = .ok (some pair)) :
    ∀ turns : List (Turn sdk), (∀ t ∈ turns, t.Waits did receipt m timeout) →
      (client.awaitWitness receipt m timeout (turns.map Turn.poll ++ [last]) =
          some (.ok pair) ↔
        (turns = [] ∨ 0 < client.pollInterval) ∧
          ∀ t ∈ turns, ¬ t.Outstanding receipt m)
  | [], _ => by
      have hnow : client.awaitWitness receipt m timeout [last] =
          some (.ok pair) := by
        rw [awaitWitness, if_neg (not_le.mpr hlast), hsched]
        simp [hsealed, hpair]
      simp [hnow]
  | turn :: turns, hturns => by
      have hturn := hturns turn (List.mem_cons_self ..)
      have ih := awaitWitness_eq_some hlast hsched hsealed hpair turns
        fun t ht => hturns t (List.mem_cons_of_mem _ ht)
      rw [List.map_cons, List.cons_append]
      rcases awaitWitness_cons client hturn (turns.map Turn.poll ++ [last]) with
        ⟨hgoes, hpos, hnot⟩ | ⟨⟨e, hends⟩, hwhy⟩
      · rw [hgoes, ih]
        simp [hpos, hnot]
      · rw [hends]
        constructor
        · rintro ⟨⟩
        · rintro ⟨hpos | hpos, hall⟩
          · cases hpos
          · rcases hwhy with hzero | hout
            · omega
            · exact absurd hout (hall turn (List.mem_cons_self ..))

end Polling

/-- In every state of a server run from an empty store in which the server
answers "no witness yet", a fetch returns nothing, and not an error, exactly
when no anchor is outstanding for the leaf.  A client that polls through such
answers until a witness is served in time returns that witness exactly when it
never fetched while an anchor was outstanding (and has a poll interval, if it
polls more than once). -/
theorem client_agrees_on_not_yet_iff (client : TimestampClient sdk)
    (m : AnchorMethod) (did : String) :
    (∀ w, Visited Store.empty w → ∀ maxAnchorFaults leaf net,
      AnsweredIn net w maxAnchorFaults did leaf m →
      SaysNotYet w maxAnchorFaults did leaf m →
        (client.tryFetchWitness net leaf m = .ok none ↔
          w.store.getPendingEpochForLeaf leaf m = none)) ∧
    ∀ receipt timeout (turns : List (Turn sdk)) (last : Poll sdk) sched pair,
      (∀ t ∈ turns, t.Waits did receipt m timeout) →
      last.elapsed < timeout → TimestampClient.schedule last.network = .ok sched →
      sealedBy sched receipt = true →
      client.tryFetchWitness last.network receipt.leaf m = .ok (some pair) →
        (client.awaitWitness receipt m timeout (turns.map Turn.poll ++ [last]) =
            some (.ok pair) ↔
          (turns = [] ∨ 0 < client.pollInterval) ∧
            ∀ t ∈ turns, ¬ t.Outstanding receipt m) := by
  constructor
  · intro w hw maxAnchorFaults leaf net hnet hnot
    obtain ⟨j, hj⟩ := reach_of_visited hw
    rcases hj.tryFetchWitness_notYet client hnet hnot with
      ⟨hfetch, hslot⟩ | ⟨⟨e, hfetch⟩, hslot⟩
    · exact ⟨fun _ => hslot, fun _ => hfetch⟩
    · constructor
      · intro hnone
        rw [hfetch] at hnone
        cases hnone
      · exact fun hnone => absurd hnone hslot
  · intro receipt timeout turns last sched pair hturns hlast hsched hsealed hpair
    exact awaitWitness_eq_some hlast hsched hsealed hpair turns hturns

/-- A network that answers fetches as a server in the world `w` answers
`did:a`, and shows epoch 1 as sealed. -/
def Sample.network (w : World Sample.sdk) : Network Sample.sdk where
  ensureToken := .ok "token"
  send
    | _, .schedule => .ok ⟨200, some (.object [("current_epoch_id", .number 2),
        ("current_epoch_opened_at", .number 0),
        ("current_epoch_closes_at", .number 9),
        ("epoch_duration_secs", .number 9), ("last_sealed_epoch_id", .number 1),
        ("anchor_methods", .array [])])⟩
    | _, .treeByLeaf leafHex method =>
        .ok (intoResponse (getTreeByLeaf w.store 3 "did:a" leafHex
          (some method))).wire

/-- The epoch is sealed without the method, then with it. -/
def Sample.unwitnessed : World Sample.sdk :=
  .replay [.append [Sample.leaf 1] "did:a", Sample.cycle [.qtsa] 10
    (Sample.honest "")]

def Sample.witnessed : World Sample.sdk :=
  .replay [.append [Sample.leaf 1] "did:a", Sample.cycle [.evm] 10
    (Sample.honest "")]

def Sample.receipt : SubmissionReceipt :=
  ⟨Sample.leaf 1, 1, 9, "did:a"⟩

theorem Sample.answeredIn (w : World Sample.sdk) (leaf : Hash32)
    (m : AnchorMethod) : AnsweredIn (Sample.network w) w 3 "did:a" leaf m :=
  ⟨"token", rfl, rfl⟩

/-- A turn at a server in the world `w`, `elapsed` after the start. -/
def Sample.poll (w : World Sample.sdk) (elapsed : Nat) : Poll Sample.sdk :=
  ⟨elapsed, Sample.network w, elapsed + 1, elapsed + 1⟩

theorem client_agrees_on_not_yet_iff_unwitnessed :
    Sample.client.tryFetchWitness (Sample.network Sample.unwitnessed)
      (Sample.leaf 1) .evm = .ok none ∧
    ∃ pair, Sample.client.awaitWitness Sample.receipt .evm 60
      [Sample.poll Sample.unwitnessed 0, Sample.poll Sample.witnessed 6] =
        some (.ok pair) := by
  have hall := client_agrees_on_not_yet_iff Sample.client .evm "did:a"
  have hvisited : Visited Store.empty Sample.unwitnessed :=
    .between (reachable_replay _)
  have hnot : SaysNotYet Sample.unwitnessed 3 "did:a" (Sample.leaf 1) .evm := by
    unfold SaysNotYet
    decide +kernel
  have hslot : Sample.unwitnessed.store.getPendingEpochForLeaf (Sample.leaf 1)
      .evm = none := by
    decide +kernel
  constructor
  · exact (hall.1 _ hvisited 3 (Sample.leaf 1) _ (Sample.answeredIn _ _ _)
      hnot).mpr hslot
  · have hserved : (Sample.client.tryFetchWitness
        (Sample.network Sample.witnessed) (Sample.leaf 1) .evm).toOption.join.isSome =
          true := by
      decide +kernel
    obtain ⟨pair, hsome⟩ := Option.isSome_iff_exists.mp hserved
    have hpair : Sample.client.tryFetchWitness (Sample.network Sample.witnessed)
        (Sample.leaf 1) .evm = .ok (some pair) := by
      cases hfetch : Sample.client.tryFetchWitness
          (Sample.network Sample.witnessed) (Sample.leaf 1) .evm with
      | error e =>
          rw [hfetch] at hsome
          cases hsome
      | ok fetched =>
          rw [hfetch] at hsome
          exact congrArg Except.ok hsome
    have hsched : TimestampClient.schedule (Sample.network Sample.witnessed) =
        .ok ⟨2, 0, 9, 9, some 1, none, []⟩ := rfl
    refine ⟨pair, (hall.2 Sample.receipt 60
      [⟨Sample.poll Sample.unwitnessed 0, ⟨2, 0, 9, 9, some 1, none, []⟩,
        Sample.unwitnessed, 3⟩] (Sample.poll Sample.witnessed 6) _ pair ?_
      (by decide) hsched (by decide) hpair).mpr ⟨Or.inr (by decide), ?_⟩⟩
    · intro t ht
      obtain rfl := List.mem_singleton.mp ht
      exact ⟨by decide, by decide, rfl, hvisited,
        fun _ => ⟨Sample.answeredIn _ _ _, hnot⟩⟩
    · intro t ht hout
      obtain rfl := List.mem_singleton.mp ht
      exact hout.2 hslot

/-- The epoch is sealed and its provider cannot be reached. -/
def Sample.outstanding : World Sample.sdk :=
  .replay [.append [Sample.leaf 1] "did:a", Sample.cycle [.evm] 10
    Sample.noProvider]

/-- The leaf's anchor is outstanding, the owner is told so, and the fetch and
the polling fail. -/
theorem exists_fetch_error_while_pending :
    ∃ w : World Sample.sdk, Visited Store.empty w ∧
      w.store.getLeafOwner (Sample.leaf 1) = some "did:a" ∧
      AnsweredIn (Sample.network w) w 3 "did:a" (Sample.leaf 1) .evm ∧
      SaysNotYet w 3 "did:a" (Sample.leaf 1) .evm ∧
      Sample.client.tryFetchWitness (Sample.network w) (Sample.leaf 1) .evm ≠
        .ok none ∧
      ∀ pair, Sample.client.awaitWitness Sample.receipt .evm 60
        [Sample.poll w 0, Sample.poll Sample.witnessed 6] ≠ some (.ok pair) := by
  have hrun : Sample.outstanding.store.getLeafOwner (Sample.leaf 1) =
        some "did:a" ∧
      (Sample.client.tryFetchWitness (Sample.network Sample.outstanding)
        (Sample.leaf 1) .evm).toOption.isNone = true ∧
      (Sample.client.awaitWitness Sample.receipt .evm 60
        [Sample.poll Sample.outstanding 0, Sample.poll Sample.witnessed 6]).map
          (fun r => r.toOption.isNone) = some true := by
    decide +kernel
  obtain ⟨howner, hfetch, hawait⟩ := hrun
  refine ⟨Sample.outstanding, .between (reachable_replay _), howner,
    Sample.answeredIn _ _ _, ?_, ?_, ?_⟩
  · unfold SaysNotYet
    decide +kernel
  · intro hnone
    rw [hnone] at hfetch
    cases hfetch
  · intro pair hpair
    rw [hpair] at hawait
    cases hawait

end AquaTimestamp
