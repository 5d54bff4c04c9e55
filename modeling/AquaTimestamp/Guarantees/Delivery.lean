import AquaTimestamp.Guarantees.BatchCheck
import AquaTimestamp.Guarantees.Fetching
import AquaTimestamp.Guarantees.Gate
import AquaTimestamp.Guarantees.Spend
import AquaTimestamp.Guarantees.Views
import Mathlib.Data.List.Permutation

/-!
# What the server serves, the client accepts

A client checks far less than the self-check did before the witness was
written.  Where the two read revisions alike and no two revisions have one
hash, every pair the server serves passes the client, and the object the client
returns is the one that was put on the leaf.
-/

namespace AquaTimestamp

open Support Partition TimestampClient

variable {sdk : Sdk}

/-! ## Stored revisions -/

/-- The revisions an event tries to write, under their hashes. -/
def Event.revisions : Event sdk → List (Hash32 × AnyRevision sdk)
  | .call (.persistPendingMinted _ _ minted) _ =>
      minted.flatMap fun w =>
        [(w.objectHash, w.objectRevision), (w.signatureHash, w.signatureRevision)]
  | _ => []

/-- Different revisions have different hashes. -/
def OneRevisionPerHash (log : List (Event sdk)) : Prop :=
  ∀ x ∈ log.flatMap Event.revisions, ∀ y ∈ log.flatMap Event.revisions,
    x.1 = y.1 → x.2 = y.2

section Stored

variable {w : World sdk} {j : Job sdk}

theorem Reach.revision_written (h : Reach Store.empty w j) :
    ∀ (hash : Hash32) revision, w.store.witnessRevisions[hash]? = some revision →
      (hash, revision) ∈ w.log.flatMap Event.revisions := by
  refine h.induct (P := fun w => ∀ (hash : Hash32) revision,
    w.store.witnessRevisions[hash]? = some revision →
      (hash, revision) ∈ w.log.flatMap Event.revisions) ?_ ?_
  · intro now durationSecs hash revision hget
    simp [World.boot, Store.empty] at hget
  · intro w j ev _ hev ih hash revision hget
    have hold : w.store.witnessRevisions[hash]? = some revision →
        (hash, revision) ∈ (w.emit ev).log.flatMap Event.revisions := by
      intro hget
      rw [hev.log_eq, List.flatMap_cons]
      exact List.mem_append_right _ (ih hash revision hget)
    have hlog := hev.log_eq
    have hwritten := hev.written
    generalize (w.emit ev).store = st' at hwritten hget
    cases hwritten with
    | unchanged | saved => exact hold hget
    | sealed _ _ _ hsealed =>
        rw [hsealed.witnessRevisions] at hget
        exact hold hget
    | served _ _ hserved =>
        rw [hserved.witnessRevisions] at hget
        rcases putAll_cases _ _ _ hget with ⟨revision', hsome, hmem⟩ | ⟨-, hget⟩
        · cases hsome
          rw [hlog, List.flatMap_cons]
          exact List.mem_append_left _ hmem
        · exact hold hget

theorem ServedBy.revisions_mem {log l : List (Event sdk)} {e : Nat}
    {m : AnchorMethod} {minted : List (MintedWitness sdk)}
    (h : ServedBy log l e m minted) {wit : MintedWitness sdk} (hwit : wit ∈ minted) :
    (wit.objectHash, wit.objectRevision) ∈ log.flatMap Event.revisions ∧
      (wit.signatureHash, wit.signatureRevision) ∈ log.flatMap Event.revisions := by
  obtain ⟨remaining, o, -, -, hl⟩ := h
  have hin := hl.subset (List.mem_cons_self ..)
  refine ⟨List.mem_flatMap.mpr ⟨_, hin, ?_⟩, List.mem_flatMap.mpr ⟨_, hin, ?_⟩⟩
  · exact List.mem_flatMap.mpr ⟨wit, hwit, List.mem_cons_self ..⟩
  · exact List.mem_flatMap.mpr ⟨wit, hwit, List.mem_cons_of_mem _ (List.mem_cons_self ..)⟩

/-- Under the hashes of an index entry the revisions of its witness are
stored. -/
theorem Reach.stored_pair (h : Reach Store.empty w j) (hone : OneRevisionPerHash w.log)
    {tip : Hash32} {idx : TipPairIndex} {l : List (Event sdk)} {e : Nat}
    {m : AnchorMethod} {minted : List (MintedWitness sdk)} {wit : MintedWitness sdk}
    (hidx : w.store.tipToPair[tip]? = some idx)
    (horigin : Origin w.log tip idx l e m minted wit) :
    w.store.getRevision idx.objectHash = some wit.objectRevision ∧
      w.store.getRevision idx.signatureHash = some wit.signatureRevision := by
  have hlinked := h.linked.revisions tip idx hidx
  obtain ⟨hobject, hsignature⟩ := horigin.served.revisions_mem horigin.mem
  obtain rfl := horigin.index
  constructor
  · obtain ⟨revision, hrevision⟩ := Option.isSome_iff_exists.mp
      (Std.ExtTreeMap.mem_iff_isSome_getElem?.mp hlinked.1)
    exact hrevision.trans (congrArg some
      (hone _ (h.revision_written _ _ hrevision) _ hobject rfl))
  · obtain ⟨revision, hrevision⟩ := Option.isSome_iff_exists.mp
      (Std.ExtTreeMap.mem_iff_isSome_getElem?.mp hlinked.2)
    exact hrevision.trans (congrArg some
      (hone _ (h.revision_written _ _ hrevision) _ hsignature rfl))

/-! ## What the self-check established -/

/-- The local checks a verified witness has passed, with its object and
signature. -/
structure Checked (wit : MintedWitness sdk) (did : String) (object : sdk.Object)
    (sig : sdk.Signature) : Prop where
  objectRevision : wit.objectRevision = .typed object
  signatureRevision : wit.signatureRevision = .signature sig
  key : sdk.objectCalculateLink object = .ok (sdk.linkFromBytes wit.objectHash)
  onLeaf : sdk.objectPrevious object = some (sdk.linkFromBytes wit.leaf)
  included : SelfCheck.batchInclusion (sdk.objectPayloads object)
    (sdk.linkFromBytes wit.leaf) = .ok ()
  verified : sdk.classifySignatureLeaf sig (sdk.linkFromBytes wit.signatureHash) =
    .ok .verified
  signs : sdk.signaturePrevious sig = sdk.linkFromBytes wit.objectHash
  signer : sdk.signatureSigner sig = did

theorem SelfCheck.contentAndInclusion_eq_ok {wit : MintedWitness sdk}
    {payloads : sdk.Json} (h : contentAndInclusion wit = .ok payloads) :
    ∃ object, wit.objectRevision = .typed object ∧
      sdk.objectCalculateLink object = .ok (sdk.linkFromBytes wit.objectHash) ∧
      sdk.objectPrevious object = some (sdk.linkFromBytes wit.leaf) ∧
      batchInclusion (sdk.objectPayloads object) (sdk.linkFromBytes wit.leaf) =
        .ok () := by
  unfold contentAndInclusion at h
  split at h
  · rename_i object hobject
    split at h
    · cases h
    · rename_i link hlink
      split at h
      · cases h
      · rename_i hkey
        split at h
        · cases h
        · rename_i hleaf
          split at h
          · cases h
          · rename_i hincluded
            obtain rfl : link = _ := not_not.mp hkey
            exact ⟨object, hobject, hlink, not_not.mp hleaf, hincluded⟩
  · cases h

theorem SelfCheck.serviceSignature_eq_verified {wit : MintedWitness sdk} {did : String}
    (h : serviceSignature wit did = .verified) :
    ∃ sig, wit.signatureRevision = .signature sig ∧
      sdk.classifySignatureLeaf sig (sdk.linkFromBytes wit.signatureHash) =
        .ok .verified ∧
      sdk.signaturePrevious sig = sdk.linkFromBytes wit.objectHash ∧
      sdk.signatureSigner sig = did := by
  unfold serviceSignature at h
  split at h
  · rename_i sig hsig
    split at h
    · cases h
    · cases h
    · rename_i hverified
      split at h
      · cases h
      · rename_i hprevious
        split at h
        · cases h
        · rename_i hsigner
          exact ⟨sig, hsig, hverified, not_not.mp hprevious, not_not.mp hsigner⟩
  · cases h

/-- A witness of a gated serve has passed the local checks of a tick. -/
theorem Gated.passed {l : List (Event sdk)} {e : Nat} {m : AnchorMethod}
    {minted : List (MintedWitness sdk)} (h : Gated l e m minted)
    {wit : MintedWitness sdk} (hwit : wit ∈ minted) :
    ∃ ctx now durationSecs object sig, Event.tick (some ctx) now durationSecs ∈ l ∧
      Checked wit ctx.serviceDid object sig := by
  obtain ⟨ctx, now, v, answer, htick, -, hlength, hverified⟩ := h.checked
  obtain ⟨durationSecs, hmem⟩ := tick_mem_of_currentTick htick
  cases answer with
  | error e =>
      have hpositive : 0 < minted.length := List.length_pos_of_mem hwit
      have hbad := hverified (.failed ("self-check task: " ++ e) false)
        (List.mem_replicate.mpr ⟨hpositive.ne', rfl⟩)
      cases hbad
  | ok answers =>
      obtain ⟨i, hi⟩ := List.mem_iff_getElem?.mp hwit
      have hin : i < (SelfCheck.verifyMintedBatch minted ctx.serviceDid
          (ctx.selfCheck.hosts answers)).length := by
        rw [SelfCheck.length_verifyMintedBatch]
        exact (List.getElem?_eq_some_iff.mp hi).1
      have hany : .verified ∈ SelfCheck.verifyMintedBatch minted ctx.serviceDid
          (ctx.selfCheck.hosts answers) := by
        have hmem := List.getElem_mem hin
        rwa [hverified _ hmem] at hmem
      obtain ⟨first, rest, payloads, rfl, hcontent, hjudge⟩ := SelfCheck.exists_judged hany
      have hwit' : SelfCheck.verifyAgainst first.method (SelfCheck.anchorFields payloads)
          ctx.serviceDid wit = .verified := by
        apply hverified _
        simp only [selfCheckVerdicts, SelfCheck.verifyMintedBatch_of_verified hcontent hjudge]
        exact List.mem_map_of_mem hwit
      obtain ⟨payloads', hcontent', -, -, hsignature⟩ :=
        SelfCheck.verifyAgainst_eq_verified.mp hwit'
      obtain ⟨object, hobject, hkey, hleaf, hincluded⟩ :=
        SelfCheck.contentAndInclusion_eq_ok hcontent'
      obtain ⟨sig, hsig, hsigned, hprevious, hsigner⟩ :=
        SelfCheck.serviceSignature_eq_verified hsignature
      exact ⟨ctx, now, durationSecs, object, sig, hmem, hobject, hsig, hkey, hleaf,
        hincluded, hsigned, hprevious, hsigner⟩

end Stored

/-! ## A tree of two revisions -/

/-- A map with two keys lists its two entries, in one order or the other. -/
theorem toList_perm_pair {α : Type} {t : Partition String α} {a b : String} {x y : α}
    (hne : a ≠ b) (h : ∀ k v, t[k]? = some v ↔ (k, v) = (a, x) ∨ (k, v) = (b, y)) :
    t.toList.Perm [(a, x), (b, y)] := by
  have hnodup : t.toList.Nodup :=
    t.distinct_keys_toList.imp fun hkeys heq => hkeys (by simp [heq])
  have hpair : [(a, x), (b, y)].Nodup := by
    simp [hne]
  refine (List.perm_ext_iff_of_nodup hnodup hpair).mpr ?_
  rintro ⟨k, v⟩
  rw [Std.ExtTreeMap.mem_toList_iff_getElem?_eq_some, h]
  simp

theorem getElem?_pair {α : Type} {a b : String} {x y : α} (hne : a ≠ b) (k : String) (v : α) :
    (((∅ : Partition String α).insert a x).insert b y)[k]? = some v ↔
      (k, v) = (a, x) ∨ (k, v) = (b, y) := by
  simp only [getElem?_put, Prod.mk.injEq]
  by_cases hb : b = k
  · subst hb
    simp [hne.symm, eq_comm]
  · by_cases ha : a = k
    · subst ha
      simp [hb, hne, eq_comm]
    · simp [hb, ha, Ne.symm ha, Ne.symm hb]

namespace TimestampClient

variable {client : TimestampClient sdk}

/-- The client reads revisions as the server does: it decodes what the server
serialised and accepts the signatures the self-check accepts. -/
structure Matches (client : TimestampClient sdk) : Prop where
  decodes : ∀ revision : AnyRevision sdk,
    client.decodeRevision (.value revision.json) = .ok revision
  verifies : ∀ sig link, sdk.classifySignatureLeaf sig link = .ok .verified →
    client.verifySignatureSync (.signature sig) (sdk.linkToString link) = true

/-- Decoding gives back the map of which the body holds the serialised
entries. -/
theorem asMap_decodes (h : client.Matches) (entries : List (String × AnyRevision sdk)) :
    Wire.asMap client.decodeRevision
        (.object (entries.map fun x => (x.1, Wire.value x.2.json))) =
      .ok ((∅ : Partition String (AnyRevision sdk)).insertMany entries) := by
  have hmap : (entries.map fun x => (x.1, Wire.value x.2.json)).mapM
      (fun x => (client.decodeRevision x.2).map fun a => (x.1, a)) = .ok entries := by
    induction entries with
    | nil => rfl
    | cons x entries ih =>
        rw [List.map_cons, List.mapM_cons, ih]
        simp [h.decodes x.2, Except.map, bind, Except.bind, pure, Except.pure]
  rw [Wire.asMap, hmap]
  rfl

theorem asMap_texts (entries : List (String × String)) :
    Wire.asMap Wire.asText (.object (entries.map fun x => (x.1, Wire.text x.2)) : Wire sdk) =
      .ok ((∅ : Partition String String).insertMany entries) := by
  have hmap : (entries.map fun x => (x.1, (Wire.text x.2 : Wire sdk))).mapM
      (fun x => (Wire.asText x.2).map fun a => (x.1, a)) = .ok entries := by
    induction entries with
    | nil => rfl
    | cons x entries ih =>
        rw [List.map_cons, List.mapM_cons, ih]
        rfl
  rw [Wire.asMap, hmap]
  rfl

/-- A tree of two revisions decodes to the two revisions. -/
theorem decodeTree_pair (h : client.Matches) {a b : String} {x y : AnyRevision sdk}
    (hne : a ≠ b) (fileIndex : Partition String String) :
    ∃ tree, client.decodeTree (Body.tree
        (((∅ : Partition String sdk.Json).insert a x.json).insert b y.json)
        fileIndex).wire = .ok tree ∧
      ∀ k v, tree.revisions[k]? = some v ↔ (k, v) = (a, x) ∨ (k, v) = (b, y) := by
  have hperm := toList_perm_pair hne
    (getElem?_pair (x := x.json) (y := y.json) hne)
  -- The entries come in one order or the other.
  have hentries : ∃ entries : List (String × AnyRevision sdk),
      (((∅ : Partition String sdk.Json).insert a x.json).insert b y.json).toList =
        entries.map (fun e => (e.1, e.2.json)) ∧
      (entries = [(a, x), (b, y)] ∨ entries = [(b, y), (a, x)]) := by
    rcases List.perm_pair.mp hperm with heq | heq
    · exact ⟨[(a, x), (b, y)], heq, Or.inl rfl⟩
    · exact ⟨[(b, y), (a, x)], heq, Or.inr rfl⟩
  obtain ⟨entries, hlist, horder⟩ := hentries
  refine ⟨⟨(∅ : Partition String (AnyRevision sdk)).insertMany entries,
    (∅ : Partition String String).insertMany fileIndex.toList⟩, ?_, ?_⟩
  · have hrevisions := asMap_decodes h entries
    simp only [decodeTree, Body.wire, Wire.struct, hlist, List.map_map]
    simp [Wire.fieldOf, Wire.need, bind, Except.bind, Function.comp_def, hrevisions,
      asMap_texts, pure, Except.pure]
  · intro k v
    rcases horder with rfl | rfl
    · exact getElem?_pair hne k v
    · rw [show (∅ : Partition String (AnyRevision sdk)).insertMany [(b, y), (a, x)] =
        ((∅ : Partition String (AnyRevision sdk)).insert b y).insert a x from rfl,
        getElem?_pair (Ne.symm hne), or_comm]

/-- The loop finds the object and the signature in either order. -/
theorem locate_pair {entries : List (String × AnyRevision sdk)} {objHex sigHex : String}
    {object : sdk.Object} {sig : sdk.Signature}
    (hentries : entries.Perm [(objHex, .typed object), (sigHex, .signature sig)])
    (hobject : client.isTimestampObject object = true) :
    client.locate entries none none =
      .ok (some (sigHex, sig), some (objHex, object)) := by
  rcases List.perm_pair.mp hentries with rfl | rfl
  · simp [locate, hobject]
  · simp [locate, hobject]

/-- The client extracts a pair from a tree of an object and a signature over
it by the pinned DID. -/
theorem extractWitnessPair_pair (h : client.Matches) {tree : TreeWire sdk}
    {objHex : String} {object : sdk.Object} {sig : sdk.Signature} {link : sdk.RevisionLink}
    (hne : objHex ≠ sdk.linkToString link)
    (htree : ∀ k v, tree.revisions[k]? = some v ↔
      (k, v) = (objHex, .typed object) ∨ (k, v) = (sdk.linkToString link, .signature sig))
    (hobject : client.isTimestampObject object = true)
    (hchains : sdk.linkToString (sdk.signaturePrevious sig) = objHex)
    (hsigner : sdk.signatureSigner sig = client.serverDid)
    (hverified : sdk.classifySignatureLeaf sig link = .ok .verified) (m : AnchorMethod) :
    client.extractWitnessPair tree m =
      .ok ⟨.typed object, .signature sig, objHex, sdk.linkToString link, m⟩ := by
  have hentries := (client.iterate_perm tree.revisions).trans (toList_perm_pair hne htree)
  unfold extractWitnessPair
  rw [locate_pair hentries hobject]
  simp [hchains, hsigner, h.verifies sig link hverified]

end TimestampClient

/-! ## Served and accepted -/

/-- The revisions an index entry serves, as the client gets them. -/
theorem pairResponse_tree {st : Store sdk} {idx : TipPairIndex} {r : Response sdk}
    {object signature : AnyRevision sdk}
    (hobject : st.getRevision idx.objectHash = some object)
    (hsignature : st.getRevision idx.signatureHash = some signature)
    (h : pairResponse st idx = .ok r) :
    r.status = .ok ∧ ∃ fileIndex, r.body = .tree
      (((∅ : Partition String sdk.Json).insert (revisionWireHex sdk idx.objectHash)
        object.json).insert (revisionWireHex sdk idx.signatureHash) signature.json)
      fileIndex := by
  simp only [pairResponse, buildPairBody, loadPairIntoMaps, hobject, hsignature] at h
  cases h
  exact ⟨rfl, _, rfl⟩

theorem getTreeByLeaf_error_status {st : Store sdk} {maxAnchorFaults : UInt32}
    {did leafHex : String} {method : Option String} {e : AuthApiError}
    (h : getTreeByLeaf st maxAnchorFaults did leafHex method = .error e) :
    e.status ≠ .ok := by
  have hmethod : ∀ text, parseMethod text = .error e → e.status ≠ .ok := by
    intro text herror
    unfold parseMethod at herror
    split at herror <;> cases herror
    rintro ⟨⟩
  have hpath : ∀ text, parsePathHash text = .error e → e.status ≠ .ok := by
    intro text herror
    unfold parsePathHash at herror
    split at herror <;> cases herror
    rintro ⟨⟩
  have hpair : ∀ idx, pairResponse st idx = .error e → e.status ≠ .ok := by
    intro idx herror
    unfold pairResponse at herror
    split at herror <;> cases herror
    rintro ⟨⟩
  cases method with
  | none =>
      cases h
      rintro ⟨⟩
  | some text =>
      simp only [getTreeByLeaf, bind, Except.bind] at h
      split at h
      · rename_i herror
        cases h
        exact hmethod _ herror
      split at h
      · rename_i herror
        cases h
        exact hpath _ herror
      repeat' split at h
      all_goals first | exact hpair _ h | (cases h; rintro ⟨⟩) | cases h

/-- An answer with status 200 is the route's own. -/
theorem leafAnswer_ok {w : World sdk} {maxAnchorFaults : UInt32} {did : String}
    {leaf : Hash32} {m : AnchorMethod}
    (h : (leafAnswer w maxAnchorFaults did leaf m).status = .ok) :
    getTreeByLeaf w.store maxAnchorFaults did (formatHash32Bare leaf) (some m.asStr) =
      .ok (leafAnswer w maxAnchorFaults did leaf m) := by
  unfold leafAnswer at h ⊢
  cases hroute : getTreeByLeaf w.store maxAnchorFaults did (formatHash32Bare leaf)
      (some m.asStr) with
  | ok r => rfl
  | error e =>
      rw [hroute] at h
      exact absurd h (getTreeByLeaf_error_status hroute)

/-- What a client that fetched a witness holds: an object that hashes to its
key, was put on the leaf and proves its place in the batch, and the signature
of the pinned DID over it. -/
structure Delivered (client : TimestampClient sdk) (leaf : Hash32) (m : AnchorMethod)
    (pair : WitnessPair sdk) (object : sdk.Object) (sig : sdk.Signature) : Prop where
  objectRevision : pair.objectRevision = .typed object
  signatureRevision : pair.signatureRevision = .signature sig
  method : pair.anchorMethod = m
  key : ∃ link, sdk.objectCalculateLink object = .ok link ∧
    pair.objectHash = sdk.linkToString link ∧ sdk.signaturePrevious sig = link
  onLeaf : sdk.objectPrevious object = some (sdk.linkFromBytes leaf)
  included : SelfCheck.batchInclusion (sdk.objectPayloads object)
    (sdk.linkFromBytes leaf) = .ok ()
  signer : sdk.signatureSigner sig = client.serverDid

/-- The service DID a tick runs with. -/
def Event.serviceDid : Event sdk → Option String
  | .tick (some ctx) _ _ => some ctx.serviceDid
  | _ => none

/-- The two revisions of a stored pair are not under one key. -/
theorem Origin.keys_apart {log : List (Event sdk)} (hspells : SpellsLinks sdk)
    (hone : OneRevisionPerHash log) {tip : Hash32} {idx : TipPairIndex}
    {l : List (Event sdk)} {e : Nat} {m : AnchorMethod} {minted : List (MintedWitness sdk)}
    {wit : MintedWitness sdk} (horigin : Origin log tip idx l e m minted wit)
    {object : sdk.Object} {sig : sdk.Signature} (hobject : wit.objectRevision = .typed object)
    (hsignature : wit.signatureRevision = .signature sig) :
    revisionWireHex sdk idx.objectHash ≠ revisionWireHex sdk idx.signatureHash := by
  intro hsame
  obtain ⟨hin, hin'⟩ := horigin.served.revisions_mem horigin.mem
  have hhash := revisionWireHex_injective hspells hsame
  rw [← horigin.index] at hhash
  have hrevision := hone _ hin _ hin' hhash
  rw [hobject, hsignature] at hrevision
  cases hrevision

/-- A client that is sent a tree and extracts a pair from it has fetched the pair. -/
theorem tryFetchWitness_answered {client : TimestampClient sdk} {net : Network sdk}
    {w : World sdk} {maxAnchorFaults : UInt32} {did : String} {leaf : Hash32}
    {m : AnchorMethod} {tree : TreeWire sdk} {pair : WitnessPair sdk}
    (hanswered : AnsweredIn net w maxAnchorFaults did leaf m)
    (hserved : (leafAnswer w maxAnchorFaults did leaf m).status = .ok)
    (hjson : json client.decodeTree (leafAnswer w maxAnchorFaults did leaf m).wire =
      .ok tree)
    (hextract : client.extractWitnessPair tree m = .ok pair) :
    client.tryFetchWitness net leaf m = .ok (some pair) := by
  obtain ⟨token, htoken, hsend⟩ := hanswered
  have hstatus : (leafAnswer w maxAnchorFaults did leaf m).wire.status = 200 := by
    rw [Response.wire, hserved]
    rfl
  unfold tryFetchWitness
  simp only [htoken, hsend, bind, Except.bind, HttpAnswer.isSuccess, hstatus, hjson, hextract]
  rfl

/-- A client accepts what a state serves: it extracts one pair, from whatever server
answers as this state does. -/
theorem Reach.accepts_served {client : TimestampClient sdk} (hmatches : client.Matches)
    (hspells : SpellsLinks sdk) {w : World sdk} {j : Job sdk} (hj : Reach Store.empty w j)
    (hone : OneRevisionPerHash w.log) (hhashes : DistinctHashes w.log)
    (hdid : ∀ ev ∈ w.log, ∀ signer ∈ ev.serviceDid, signer = client.serverDid)
    (hstamps : ∀ wit ∈ w.log.flatMap Event.minted, ∀ object,
      wit.objectRevision = .typed object → client.isTimestampObject object = true)
    {maxAnchorFaults : UInt32} {did : String} {leaf : Hash32} {m : AnchorMethod}
    (hserved : (leafAnswer w maxAnchorFaults did leaf m).status = .ok) :
    ∃ pair object sig, Delivered client leaf m pair object sig ∧
      ∀ net, AnsweredIn net w maxAnchorFaults did leaf m →
        client.tryFetchWitness net leaf m = .ok (some pair) := by
  have hroute := leafAnswer_ok hserved
  obtain ⟨methodStr, m', leaf', tip, idx, heq, hmethod, hleaf, -, htip, hidx, -, hpair⟩ :=
    getTreeByLeaf_served hroute hserved
  obtain rfl : m.asStr = methodStr := Option.some.inj heq
  obtain rfl : m = m' := Option.some.inj ((AnchorMethod.parse_asStr m).symm.trans hmethod)
  obtain rfl : leaf = leaf' :=
    Except.ok.inj ((parseHash32_formatHash32Bare leaf).symm.trans hleaf)
  obtain ⟨hidxLeaf, -⟩ := hj.current_key hhashes htip hidx
  -- Its witness passed the self-check of the tick that wrote it.
  obtain ⟨l, e, m', minted, wit, horigin, -, -, hgated⟩ := hj.vetted hidx
  obtain ⟨ctx, now, durationSecs, object, sig, htick, hpassed⟩ := hgated.passed horigin.mem
  obtain ⟨hobject, hsignature⟩ := hj.stored_pair hone hidx horigin
  rw [hpassed.objectRevision] at hobject
  rw [hpassed.signatureRevision] at hsignature
  obtain ⟨-, fileIndex, hbody⟩ := pairResponse_tree hobject hsignature hpair
  have hsuffix : l <:+ w.log := by
    obtain ⟨remaining, o, -, -, hl⟩ := horigin.served
    exact (List.suffix_cons _ _).trans hl
  have hsigner : sdk.signatureSigner sig = client.serverDid :=
    hpassed.signer.trans (hdid _ (hsuffix.subset htick) _ rfl)
  have hstamp : client.isTimestampObject object = true :=
    hstamps wit (horigin.served.minted_mem horigin.mem) object hpassed.objectRevision
  have hindex := horigin.index
  obtain rfl : wit.leaf = leaf := by
    rw [← hidxLeaf, ← hindex]
    rfl
  have hne := horigin.keys_apart hspells hone hpassed.objectRevision
    hpassed.signatureRevision
  obtain ⟨tree, hdecode, htree⟩ := decodeTree_pair hmatches hne fileIndex
    (x := .typed object) (y := .signature sig)
  have hchains : sdk.linkToString (sdk.signaturePrevious sig) =
      revisionWireHex sdk idx.objectHash := by
    rw [hpassed.signs, ← hindex]
    rfl
  have hverified : sdk.classifySignatureLeaf sig (sdk.linkFromBytes idx.signatureHash) =
      .ok .verified := by
    rw [← hindex]
    exact hpassed.verified
  have hextract := extractWitnessPair_pair hmatches hne htree hstamp hchains hsigner
    hverified m
  refine ⟨⟨.typed object, .signature sig, revisionWireHex sdk idx.objectHash,
      revisionWireHex sdk idx.signatureHash, m⟩, object, sig,
    ⟨rfl, rfl, rfl, ?_, hpassed.onLeaf, hpassed.included, hsigner⟩, ?_⟩
  · refine ⟨_, hpassed.key, ?_, hpassed.signs⟩
    rw [← hindex]
    rfl
  · intro net hanswered
    refine tryFetchWitness_answered hanswered hserved ?_ hextract
    simp only [json, Response.wire, hbody, hdecode]

/-- Where the client reads revisions as the server does, different revisions
have different hashes, every tick ran with the DID the client pinned and the
batch producer makes timestamp objects: whenever the by-leaf route answers 200,
in whatever state of whatever run, the client's fetch returns a pair, and its
object is on the leaf that was asked for. -/
theorem served_witness_accepted {client : TimestampClient sdk} (hmatches : client.Matches)
    (hspells : SpellsLinks sdk) {w : World sdk} (hw : Visited Store.empty w)
    (hone : OneRevisionPerHash w.log) (hhashes : DistinctHashes w.log)
    (hdid : ∀ ev ∈ w.log, ∀ signer ∈ ev.serviceDid, signer = client.serverDid)
    (hstamps : ∀ wit ∈ w.log.flatMap Event.minted, ∀ object,
      wit.objectRevision = .typed object → client.isTimestampObject object = true)
    {maxAnchorFaults : UInt32} {did : String} {leaf : Hash32} {m : AnchorMethod}
    {net : Network sdk} (hnet : AnsweredIn net w maxAnchorFaults did leaf m)
    (hserved : (leafAnswer w maxAnchorFaults did leaf m).status = .ok) :
    ∃ pair object sig, client.tryFetchWitness net leaf m = .ok (some pair) ∧
      Delivered client leaf m pair object sig := by
  obtain ⟨j, hj⟩ := reach_of_visited hw
  obtain ⟨pair, object, sig, hdelivered, hfetch⟩ :=
    hj.accepts_served hmatches hspells hone hhashes hdid hstamps hserved
  exact ⟨pair, object, sig, hfetch net hnet, hdelivered⟩

theorem Sample.client_matches : Sample.client.Matches where
  decodes revision := by
    cases revision with
    | typed | signature => rfl
    | other revision => cases revision
  verifies sig link h := by
    have hlink : link = Sample.signatureLink sig := by
      simpa [Sample.sdk] using h
    simp only [Sample.client, decide_eq_true_eq]
    rw [hlink]
    rfl

/-- What decodes to itself is told apart by its serialisation. -/
theorem TimestampClient.Matches.json_injective {client : TimestampClient sdk}
    (h : client.Matches) {x y : AnyRevision sdk} (hjson : x.json = y.json) : x = y := by
  have hdecode := h.decodes x
  rw [hjson, h.decodes y] at hdecode
  exact (Except.ok.inj hdecode).symm

theorem served_witness_accepted_witnessed :
    ∃ pair object sig, Sample.client.tryFetchWitness (Sample.network Sample.witnessed)
        (Sample.leaf 1) .evm = .ok (some pair) ∧
      Delivered Sample.client (Sample.leaf 1) .evm pair object sig := by
  have hrun : (∀ x ∈ Sample.witnessed.log.flatMap Event.revisions,
        ∀ y ∈ Sample.witnessed.log.flatMap Event.revisions,
          x.1 = y.1 → x.2.json = y.2.json) ∧
      DistinctHashes Sample.witnessed.log ∧
      (∀ ev ∈ Sample.witnessed.log, ∀ signer ∈ ev.serviceDid, signer = "did:service") ∧
      (leafAnswer Sample.witnessed 3 "did:a" (Sample.leaf 1) .evm).status = .ok := by
    decide +kernel
  obtain ⟨hjson, hhashes, hdid, hserved⟩ := hrun
  have hone : OneRevisionPerHash Sample.witnessed.log := fun x hx y hy hsame =>
    Sample.client_matches.json_injective (hjson x hx y hy hsame)
  exact served_witness_accepted Sample.client_matches Sample.spellsLinks
    (.between (reachable_replay _)) hone hhashes hdid (fun _ _ _ _ => rfl)
    (Sample.answeredIn _ _ _) hserved

end AquaTimestamp
