import AquaTimestamp.Model.Storage

/-!
# The fetch routes

The `/trees` handlers of `routes.rs`: they read the store and answer the DID
the bearer token names.  A handler gives a response or an `AuthApiError`,
which is a response of its own.  Reads of the store succeed here; a failing
read answers 400 in the source and never serves anything.
-/

namespace AquaTimestamp

open Support

variable {sdk : Sdk}

/-! ## Responses -/

/-- The status codes the fetch routes use. -/
inductive StatusCode where
  | ok
  | accepted
  | badRequest
  | forbidden
  | notFound
  | gone
  | serviceUnavailable
  deriving DecidableEq, Repr

/-- `StatusCode::as_u16`. -/
def StatusCode.asU16 : StatusCode → Nat
  | .ok => 200
  | .accepted => 202
  | .badRequest => 400
  | .forbidden => 403
  | .notFound => 404
  | .gone => 410
  | .serviceUnavailable => 503

/-- The body of an answer that serves no witness for now, or never will. -/
structure StatusBody where
  status : String
  reason : Option String
  method : Option String
  epoch : Nat
  leaf : Option String
  detail : String
  deriving DecidableEq

/-- The JSON bodies of the fetch routes. -/
inductive Body (sdk : Sdk) where
  | error (msg : String)
  | status (body : StatusBody)
  | tips (tips : List String)
  | tree (revisions : Partition String sdk.Json)
      (fileIndex : Partition String String)

/-- A response of a fetch route. -/
structure Response (sdk : Sdk) where
  status : StatusCode
  body : Body sdk

/-- `AuthApiError`. -/
structure AuthApiError where
  status : StatusCode
  msg : String
  deriving DecidableEq

namespace AuthApiError

def badRequest (msg : String) : AuthApiError := ⟨.badRequest, msg⟩

def forbidden (msg : String) : AuthApiError := ⟨.forbidden, msg⟩

end AuthApiError

/-- `into_response` of a handler's result. -/
def intoResponse : Except AuthApiError (Response sdk) → Response sdk
  | .ok response => response
  | .error e => ⟨e.status, .error e.msg⟩

def notFoundResponse (msg : String) : Response sdk :=
  ⟨.notFound, .error msg⟩

/-- `not_verifiable_response`: the witness was minted before the self-check. -/
def notVerifiableResponse (method : Option AnchorMethod) (epochId : Nat)
    (leaf : Option Hash32) : Response sdk :=
  ⟨.gone, .status {
    status := "not_verifiable"
    reason := some "minted before self-check; resubmit the leaf"
    method := method.map AnchorMethod.asStr
    epoch := epochId
    leaf := leaf.map hexLower
    detail := "the witness of epoch " ++ toString epochId ++
      " was minted before the pre-serve self-check and is not served; " ++
      "submit the leaf again for a new witness" }⟩

/-- `anchor_stalled_response`. -/
def anchorStalledResponse (method : AnchorMethod) (epochId : Nat)
    (leaf : Option Hash32) : Response sdk :=
  ⟨.serviceUnavailable, .status {
    status := "anchor_stalled"
    reason := none
    method := some method.asStr
    epoch := epochId
    leaf := leaf.map hexLower
    detail := "epoch " ++ toString epochId ++ " is sealed; its " ++
      method.asStr ++ " anchor failed too often and is not retried until the " ++
      "operator intervenes; polling will not change this answer, the leaf may " ++
      "be resubmitted for a new epoch" }⟩

/-- `anchor_stalled`: the fault cap is reached and no anchor is held. -/
def anchorStalled (st : Store sdk) (maxAnchorFaults : UInt32)
    (method : AnchorMethod) (epochId : Nat) : Bool :=
  st.listPendingEpochs.any fun p =>
    p.epochId = epochId ∧ (p.anchor method).isNone ∧
      maxAnchorFaults ≤ p.anchorFaultCount method

/-- `pending_anchor_response`. -/
def pendingAnchorResponse (st : Store sdk) (maxAnchorFaults : UInt32)
    (method : AnchorMethod) (epochId : Nat) (leaf : Option Hash32) :
    Response sdk :=
  if anchorStalled st maxAnchorFaults method epochId then
    anchorStalledResponse method epochId leaf
  else
    ⟨.accepted, .status {
      status := "pending"
      reason := none
      method := some method.asStr
      epoch := epochId
      leaf := leaf.map hexLower
      detail := "epoch " ++ toString epochId ++ " is sealed; its " ++
        method.asStr ++ " anchor is outstanding and retried every epoch tick" }⟩

/-! ## Parsing -/

/-- The displayed form of a leaf error. -/
def LeafParseError.display : LeafParseError → String
  | .badLength len =>
      "leaf must be 64 hex chars or a sha3-256 multihash (1620 + 64 hex), " ++
      "optionally prefixed with 0x, got " ++ toString len
  | .badHex e => "leaf contains non-hex characters: " ++ e.display

/-- `parse_hash32`. -/
def parseHash32 (input : String) : Except String Hash32 :=
  match parseLeafHex input with
  | .ok h => .ok h
  | .error e => .error e.display

/-- The method of a query, or a 400. -/
def parseMethod (text : String) : Except AuthApiError AnchorMethod :=
  match AnchorMethod.parse text with
  | some method => .ok method
  | none => .error (.badRequest
      ("method must be 'evm' or 'qtsa', got '" ++ text ++ "'"))

/-- A hash in a path, or a 400. -/
def parsePathHash (text : String) : Except AuthApiError Hash32 :=
  match parseHash32 text with
  | .ok h => .ok h
  | .error e => .error (.badRequest e)

/-! ## Witness pairs -/

/-- `revision_wire_hex`: the SDK's spelling of a revision. -/
def revisionWireHex (sdk : Sdk) (h : Hash32) : String :=
  sdk.linkToString (sdk.linkFromBytes h)

/-- `load_pair_into_maps`: both revisions of a pair with their file names. -/
def loadPairIntoMaps (st : Store sdk) (idx : TipPairIndex)
    (revisions : Partition String sdk.Json)
    (fileIndex : Partition String String) :
    Except String (Partition String sdk.Json × Partition String String) :=
  match st.getRevision idx.objectHash with
  | none => .error "witness object revision missing in store"
  | some object =>
      match st.getRevision idx.signatureHash with
      | none => .error "witness signature revision missing in store"
      | some signature =>
          let objHex := revisionWireHex sdk idx.objectHash
          let sigHex := revisionWireHex sdk idx.signatureHash
          .ok ((revisions.insert objHex object.json).insert sigHex signature.json,
            (fileIndex.insert objHex idx.objectFileName).insert sigHex
              idx.signatureFileName)

/-- `build_pair_body`. -/
def buildPairBody (st : Store sdk) (idx : TipPairIndex) :
    Except String (Body sdk) :=
  match loadPairIntoMaps st idx ∅ ∅ with
  | .ok (revisions, fileIndex) => .ok (.tree revisions fileIndex)
  | .error e => .error e

/-- The 200 answer with one pair, or a 400 when its revisions are missing. -/
def pairResponse (st : Store sdk) (idx : TipPairIndex) :
    Except AuthApiError (Response sdk) :=
  match buildPairBody st idx with
  | .ok body => .ok ⟨.ok, body⟩
  | .error e => .error (.badRequest ("store: " ++ e))

/-- The pairs of a list, one after the other into the same maps. -/
def loadPairs (st : Store sdk) :
    List TipPairIndex → Partition String sdk.Json → Partition String String →
      Except String (Partition String sdk.Json × Partition String String)
  | [], revisions, fileIndex => .ok (revisions, fileIndex)
  | idx :: rest, revisions, fileIndex =>
      match loadPairIntoMaps st idx revisions fileIndex with
      | .error e => .error e
      | .ok (revisions, fileIndex) => loadPairs st rest revisions fileIndex

/-! ## Listings of the store -/

/-- `list_witness_tips_for_did`: newest epoch first, then by tip. -/
def listWitnessTipsForDid (st : Store sdk) (did : String) :
    List (Nat × Hash32) :=
  ((st.tipToPair.toList.filter fun x => x.2.submitterDid = did).map fun x =>
    (x.2.epochId, x.1)).mergeSort fun a b =>
      ((compare b.1 a.1).then (compare a.2 b.2)).isLE

/-- `list_witnesses_for_did_in_epoch`, by signature file name. -/
def listWitnessesForDidInEpoch (st : Store sdk) (did : String) (epochId : Nat)
    (method : AnchorMethod) : List TipPairIndex :=
  (st.tipToPair.inOrder.filter fun idx =>
    idx.epochId = epochId ∧ idx.methodByte = method.methodByte ∧
      idx.submitterDid = did).mergeSort fun a b =>
        (compare a.signatureFileName b.signatureFileName).isLE

/-! ## Handlers -/

/-- `GET /trees/{tip_hex}`. -/
def getTreeByTip (st : Store sdk) (did tipHex : String) :
    Except AuthApiError (Response sdk) := do
  let tip ← parsePathHash tipHex
  match st.getTipPair tip with
  | none => .ok (notFoundResponse "unknown tip")
  | some idx =>
      if idx.submitterDid ≠ did then
        .error (.forbidden "witness owned by a different DID")
      else if st.isSelfChecked tip then pairResponse st idx
      else
        .ok (notVerifiableResponse (AnchorMethod.fromMethodByte idx.methodByte)
          idx.epochId (some idx.leaf))

/-- `GET /trees/by-leaf/{leaf_hex}?method=`: ownership of the leaf is decided
first, then the leaf's tip is looked up. -/
def getTreeByLeaf (st : Store sdk) (maxAnchorFaults : UInt32)
    (did leafHex : String) (method : Option String) :
    Except AuthApiError (Response sdk) := do
  match method with
  | none => .error (.badRequest "missing required query parameter 'method'")
  | some methodStr =>
      let method ← parseMethod methodStr
      let leaf ← parsePathHash leafHex
      match st.getLeafOwner leaf with
      | none => .ok (notFoundResponse "unknown leaf")
      | some owner =>
          if owner ≠ did then
            .error (.forbidden "leaf submitted by a different DID")
          else
            match st.getTipForLeaf leaf method with
            | none =>
                match st.getPendingEpochForLeaf leaf method with
                | some epochId =>
                    .ok (pendingAnchorResponse st maxAnchorFaults method epochId
                      (some leaf))
                | none =>
                    .ok (notFoundResponse "no witness for that leaf/method yet")
            | some tip =>
                match st.getTipPair tip with
                | none =>
                    .error (.badRequest
                      "internal: tip_to_pair index missing for known tip")
                | some idx =>
                    if st.isSelfChecked tip then pairResponse st idx
                    else
                      -- A resubmitted leaf keeps its legacy tip while its
                      -- newer epoch is pending.
                      match st.getPendingEpochForLeaf leaf method with
                      | some epochId =>
                          if epochId > idx.epochId then
                            .ok (pendingAnchorResponse st maxAnchorFaults method
                              epochId (some leaf))
                          else
                            .ok (notVerifiableResponse (some method) idx.epochId
                              (some leaf))
                      | none =>
                          .ok (notVerifiableResponse (some method) idx.epochId
                            (some leaf))

/-- `union_for_epoch`: every pair of the caller in one epoch and method. -/
def unionForEpoch (st : Store sdk) (maxAnchorFaults : UInt32) (did : String)
    (epochId : Nat) (method : AnchorMethod) :
    Except AuthApiError (Response sdk) :=
  match st.getEpoch epochId with
  | none => .ok (notFoundResponse "epoch not sealed yet")
  | some _ =>
      if st.isEpochPending epochId method then
        .ok (pendingAnchorResponse st maxAnchorFaults method epochId none)
      else
        let entries := listWitnessesForDidInEpoch st did epochId method
        if entries.all fun idx => st.isSelfChecked idx.signatureHash then
          match loadPairs st entries ∅ ∅ with
          | .ok (revisions, fileIndex) => .ok ⟨.ok, .tree revisions fileIndex⟩
          | .error e => .error (.badRequest e)
        else .ok (notVerifiableResponse (some method) epochId none)

/-- `list_tips_for_did`: the tips the other routes serve to the caller. -/
def listTipsForDid (st : Store sdk) (did : String) :
    Except AuthApiError (Response sdk) :=
  .ok ⟨.ok, .tips (((listWitnessTipsForDid st did).filter fun x =>
    st.isSelfChecked x.2).map fun x => revisionWireHex sdk x.2)⟩

/-- `GET /trees`, with or without a query. -/
def listOrQueryTrees (st : Store sdk) (maxAnchorFaults : UInt32) (did : String)
    (epoch : Option Nat) (method : Option String) :
    Except AuthApiError (Response sdk) := do
  match epoch, method with
  | none, none => listTipsForDid st did
  | some epochId, some methodStr =>
      let method ← parseMethod methodStr
      unionForEpoch st maxAnchorFaults did epochId method
  | _, _ =>
      .error (.badRequest ("epoch and method must be supplied together " ++
        "(or omit both for the tip list)"))

/-! ## What a served body is made of -/

section Served

variable {st : Store sdk} {did : String} {r : Response sdk}

theorem pendingAnchorResponse_status (st : Store sdk) (maxAnchorFaults : UInt32)
    (method : AnchorMethod) (epochId : Nat) (leaf : Option Hash32) :
    (pendingAnchorResponse st maxAnchorFaults method epochId leaf).status ≠
      .ok := by
  unfold pendingAnchorResponse
  split <;> rintro ⟨⟩

/-- A pending answer names the epoch it is given. -/
theorem pendingAnchorResponse_cases (st : Store sdk) (maxAnchorFaults : UInt32)
    (method : AnchorMethod) (epochId : Nat) (leaf : Option Hash32) :
    ((pendingAnchorResponse st maxAnchorFaults method epochId leaf).status =
        .accepted ∨
      (pendingAnchorResponse st maxAnchorFaults method epochId leaf).status =
        .serviceUnavailable) ∧
      ∃ body,
        (pendingAnchorResponse st maxAnchorFaults method epochId leaf).body =
          .status body ∧ body.epoch = epochId := by
  unfold pendingAnchorResponse
  split
  · exact ⟨Or.inr rfl, _, rfl, rfl⟩
  · exact ⟨Or.inl rfl, _, rfl, rfl⟩

theorem pairResponse_status {idx : TipPairIndex}
    (h : pairResponse st idx = .ok r) : r.status = .ok := by
  unfold pairResponse at h
  split at h
  · cases h
    rfl
  · cases h

theorem parsePathHash_eq_ok {text : String} {h : Hash32}
    (hparse : parsePathHash text = .ok h) : parseHash32 text = .ok h := by
  unfold parsePathHash at hparse
  split at hparse
  · cases hparse
    assumption
  · cases hparse

theorem parseMethod_eq_ok {text : String} {m : AnchorMethod}
    (hparse : parseMethod text = .ok m) : AnchorMethod.parse text = some m := by
  unfold parseMethod at hparse
  split at hparse
  · cases hparse
    assumption
  · cases hparse

theorem parsePathHash_of_ok {text : String} {h : Hash32}
    (hparse : parseHash32 text = .ok h) : parsePathHash text = .ok h := by
  simp [parsePathHash, hparse]

theorem parseMethod_of_some {text : String} {m : AnchorMethod}
    (hparse : AnchorMethod.parse text = some m) : parseMethod text = .ok m := by
  simp [parseMethod, hparse]

theorem parseHash32_hexLower (h : Hash32) : parseHash32 (hexLower h) = .ok h := by
  simp [parseHash32, parseLeafHex_hexLower]

/-- A self-checked tip is served to its submitter. -/
theorem getTreeByTip_of_pair {tipHex : String} {tip : Hash32}
    {idx : TipPairIndex} (hparse : parseHash32 tipHex = .ok tip)
    (hidx : st.tipToPair[tip]? = some idx) (hdid : idx.submitterDid = did)
    (hchecked : st.isSelfChecked tip = true) :
    getTreeByTip st did tipHex = pairResponse st idx := by
  have hget : st.getTipPair tip = some idx := hidx
  simp [getTreeByTip, parsePathHash_of_ok hparse, hget, hdid, hchecked, bind,
    Except.bind]

/-- The current pair of a leaf is served to the leaf's owner. -/
theorem getTreeByLeaf_of_pair {maxAnchorFaults : UInt32}
    {leafHex methodStr : String} {leaf tip : Hash32} {m : AnchorMethod}
    {idx : TipPairIndex} (hmethod : AnchorMethod.parse methodStr = some m)
    (hparse : parseHash32 leafHex = .ok leaf)
    (howner : st.leafOwner[leaf]? = some did)
    (htip : st.leafToTips[(leaf, m.methodByte)]? = some tip)
    (hidx : st.tipToPair[tip]? = some idx)
    (hchecked : st.isSelfChecked tip = true) :
    getTreeByLeaf st maxAnchorFaults did leafHex (some methodStr) =
      pairResponse st idx := by
  have hget : st.getTipPair tip = some idx := hidx
  have hown : st.getLeafOwner leaf = some did := howner
  have hfor : st.getTipForLeaf leaf m = some tip := htip
  simp [getTreeByLeaf, parseMethod_of_some hmethod, parsePathHash_of_ok hparse,
    hget, hown, hfor, hchecked, bind, Except.bind]

/-- A leaf without a tip is answered by its slot. -/
theorem getTreeByLeaf_of_slot {maxAnchorFaults : UInt32}
    {leafHex methodStr : String} {leaf : Hash32} {m : AnchorMethod}
    {epochId : Nat} (hmethod : AnchorMethod.parse methodStr = some m)
    (hparse : parseHash32 leafHex = .ok leaf)
    (howner : st.getLeafOwner leaf = some did)
    (htip : st.getTipForLeaf leaf m = none)
    (hslot : st.getPendingEpochForLeaf leaf m = some epochId) :
    getTreeByLeaf st maxAnchorFaults did leafHex (some methodStr) =
      .ok (pendingAnchorResponse st maxAnchorFaults m epochId (some leaf)) := by
  simp [getTreeByLeaf, parseMethod_of_some hmethod, parsePathHash_of_ok hparse,
    howner, htip, hslot, bind, Except.bind]

/-- A tip is served to its submitter only, and only when it is self-checked. -/
theorem getTreeByTip_served {tipHex : String}
    (h : getTreeByTip st did tipHex = .ok r) (hr : r.status = .ok) :
    ∃ tip idx, parseHash32 tipHex = .ok tip ∧
      st.tipToPair[tip]? = some idx ∧ idx.submitterDid = did ∧
      st.isSelfChecked tip = true ∧ pairResponse st idx = .ok r := by
  unfold getTreeByTip at h
  obtain ⟨tip, hparse, h⟩ := bind_eq_ok_iff.mp h
  split at h
  · cases h
    cases hr
  rename_i idx hidx
  split at h
  · cases h
  rename_i hdid
  split at h
  · rename_i hchecked
    exact ⟨tip, idx, parsePathHash_eq_ok hparse, hidx, not_not.mp hdid, hchecked, h⟩
  · cases h
    cases hr

/-- A leaf's current pair is served to the leaf's owner. -/
theorem getTreeByLeaf_served {maxAnchorFaults : UInt32} {leafHex : String}
    {method : Option String}
    (h : getTreeByLeaf st maxAnchorFaults did leafHex method = .ok r)
    (hr : r.status = .ok) :
    ∃ methodStr m leaf tip idx, method = some methodStr ∧
      AnchorMethod.parse methodStr = some m ∧ parseHash32 leafHex = .ok leaf ∧
      st.leafOwner[leaf]? = some did ∧
      st.leafToTips[(leaf, m.methodByte)]? = some tip ∧
      st.tipToPair[tip]? = some idx ∧ st.isSelfChecked tip = true ∧
      pairResponse st idx = .ok r := by
  unfold getTreeByLeaf at h
  cases method with
  | none => cases h
  | some methodStr =>
      dsimp only at h
      obtain ⟨m, hmethod, hrest⟩ := bind_eq_ok_iff.mp h
      obtain ⟨leaf, hleaf, hbody⟩ := bind_eq_ok_iff.mp hrest
      split at hbody
      · cases hbody
        cases hr
      rename_i owner howner
      split at hbody
      · cases hbody
      rename_i hdid
      obtain rfl : owner = did := not_not.mp hdid
      split at hbody
      · split at hbody
        · cases hbody
          exact absurd hr (pendingAnchorResponse_status _ _ _ _ _)
        · cases hbody
          cases hr
      rename_i tip htip
      split at hbody
      · cases hbody
      rename_i idx hidx
      split at hbody
      · rename_i hchecked
        exact ⟨methodStr, m, leaf, tip, idx, rfl, parseMethod_eq_ok hmethod,
          parsePathHash_eq_ok hleaf, howner, htip, hidx, hchecked, hbody⟩
      split at hbody
      · split at hbody
        · cases hbody
          exact absurd hr (pendingAnchorResponse_status _ _ _ _ _)
        · cases hbody
          cases hr
      · cases hbody
        cases hr

/-- The union serves the caller's pairs of the epoch and method, all of them
self-checked. -/
theorem unionForEpoch_served {maxAnchorFaults : UInt32} {epochId : Nat}
    {m : AnchorMethod}
    (h : unionForEpoch st maxAnchorFaults did epochId m = .ok r)
    (hr : r.status = .ok) :
    (∀ idx ∈ listWitnessesForDidInEpoch st did epochId m,
      st.isSelfChecked idx.signatureHash = true) ∧
    ∃ revisions fileIndex,
      loadPairs st (listWitnessesForDidInEpoch st did epochId m) ∅ ∅ =
        .ok (revisions, fileIndex) ∧
      r.body = .tree revisions fileIndex := by
  unfold unionForEpoch at h
  split at h
  · cases h
    cases hr
  split at h
  · cases h
    exact absurd hr (pendingAnchorResponse_status _ _ _ _ _)
  dsimp only at h
  split at h
  · rename_i hall
    split at h
    · rename_i revisions fileIndex hload
      cases h
      exact ⟨List.all_eq_true.mp hall, revisions, fileIndex, hload, rfl⟩
    · cases h
  · cases h
    cases hr

theorem mem_listWitnessesForDidInEpoch {epochId : Nat} {m : AnchorMethod}
    {idx : TipPairIndex} :
    idx ∈ listWitnessesForDidInEpoch st did epochId m ↔
      (∃ tip : Hash32, st.tipToPair[tip]? = some idx) ∧
        idx.epochId = epochId ∧ idx.methodByte = m.methodByte ∧
        idx.submitterDid = did := by
  unfold listWitnessesForDidInEpoch
  rw [List.mem_mergeSort, List.mem_filter, Partition.mem_inOrder]
  simp

/-- A pair whose revisions are stored is served. -/
theorem exists_pairResponse {idx : TipPairIndex}
    (hobject : idx.objectHash ∈ st.witnessRevisions)
    (hsignature : idx.signatureHash ∈ st.witnessRevisions) :
    ∃ r, pairResponse st idx = .ok r := by
  obtain ⟨object, hobject⟩ :=
    Std.ExtTreeMap.mem_iff_isSome_getElem?.mp hobject |> Option.isSome_iff_exists.mp
  obtain ⟨signature, hsignature⟩ :=
    Std.ExtTreeMap.mem_iff_isSome_getElem?.mp hsignature |> Option.isSome_iff_exists.mp
  simp [pairResponse, buildPairBody, loadPairIntoMaps, Store.getRevision, hobject,
    hsignature]

end Served

end AquaTimestamp
