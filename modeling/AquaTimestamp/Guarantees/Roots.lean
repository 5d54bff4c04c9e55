import AquaTimestamp.Guarantees.Sealing

/-!
# One root per epoch

The root of an epoch is kept in its record, in its prepared batch and in its
pending record, over ticks and restarts.  Every provider call for the epoch is
given that root, and every witness is minted from that batch and from the
anchor the stored pending record holds.
-/

namespace AquaTimestamp

open Support Partition

variable {sdk : Sdk}

/-- The producer spells its roots in wire form, and `parse_batch_root` inverts
it. -/
def ParsesRoots (sdk : Sdk) : Prop :=
  ∀ prepared digest, sdk.parseBatchRoot (sdk.merkleRoot prepared) = .ok digest →
    sdk.merkleRoot prepared = wireForm digest

theorem buildRecord_merkleRoot {snapshot : SealedSnapshot}
    {batch : EpochBatch sdk} {record : EpochRecord}
    (h : buildRecord snapshot (some batch) = .ok record) :
    sdk.parseBatchRoot batch.anchorRoot = .ok record.merkleRoot := by
  obtain ⟨root, hdigest, rfl⟩ := map_eq_ok_iff.mp h
  unfold EpochBatch.rootDigest at hdigest
  split at hdigest
  · rename_i hparse
    cases hdigest
    exact hparse
  · cases hdigest

/-! ## The root of a stored record -/

/-- The stored epoch's root is the digest of the pending record's. -/
def RootStored (st : Store sdk) (e : Nat) (q : PendingEpoch sdk) : Prop :=
  ∃ record, st.epochs[e]? = some record ∧
    sdk.parseBatchRoot q.anchorRoot = .ok record.merkleRoot

theorem PendingEpoch.SameEpoch.anchorRoot_eq {q p : PendingEpoch sdk}
    (h : PendingEpoch.SameEpoch q p) : q.anchorRoot = p.anchorRoot := by
  rw [PendingEpoch.anchorRoot, PendingEpoch.anchorRoot, h.2.2.2.2]

theorem PendingEpoch.restore_anchorRoot {q : PendingEpoch sdk}
    {snapshot : SealedSnapshot} {batch : EpochBatch sdk}
    (h : q.restore = .ok (snapshot, batch)) :
    batch.anchorRoot = q.anchorRoot := by
  obtain ⟨leaves, -, -, rfl⟩ := PendingEpoch.restore_eq_ok h
  rfl

section Runs

variable {w : World sdk} {j : Job sdk} {e : Nat} {m : AnchorMethod}

/-- Every stored pending record carries the root its epoch was sealed with. -/
theorem Reach.rootStored (h : Reach Store.empty w j) (he : e < u64Max) :
    ∀ q, w.store.pendingAnchors[e]? = some q → RootStored w.store e q := by
  have hst : (Store.empty : Store sdk).Indexed := indexed_empty
  have hmethods : (Store.empty : Store sdk).MethodsNodup := methodsNodup_empty
  refine h.induct (P := fun w => ∀ q, w.store.pendingAnchors[e]? = some q →
    RootStored w.store e q) ?_ ?_
  · intro now durationSecs q hq
    simp [World.boot, Store.empty] at hq
  · intro w j ev hw hev ih q hq
    cases hold : w.store.pendingAnchors[e]? with
    | some p =>
        obtain ⟨record, hrecord, hroot⟩ := ih p hold
        have hkept := hw.epoch_step hst hev he hrecord
        have hsame := (hw.record_after hst hmethods hev he hold hq).1
        exact ⟨record, hkept, hsame.anchorRoot_eq ▸ hroot⟩
    | none =>
        rcases hw.absent_step hst hmethods hev hold with hnone |
          ⟨snapshot, c, b, record, hseal⟩
        · rw [hnone] at hq
          cases hq
        · rw [hseal.stored] at hq
          cases hq
          refine ⟨record, ?_, buildRecord_merkleRoot hseal.built⟩
          have hid : record.id = e := (buildRecord_id hseal.built).trans hseal.id
          rw [hseal.write.epochs, getElem?_put, if_pos hid]

/-- The record of an epoch stays what it was at an earlier moment. -/
theorem Reach.epoch_kept {st : Store sdk} (hst : st.Indexed) (h : Reach st w j)
    (he : e < u64Max) {l : List (Event sdk)} (hl : l <:+ w.log)
    {record : EpochRecord} (hrecord : (storeOf st l).epochs[e]? = some record) :
    w.store.epochs[e]? = some record :=
  h.induct_since (P := fun st' => st'.epochs[e]? = some record) hrecord
    (fun _ _ _ hw hev ih => hw.epoch_step hst hev he ih) hl

/-- The root a provider call for `e` is given. -/
def Event.rootFor (e : Nat) : Event sdk → Option String
  | .call (.createTimestamp e' _ root) _ => if e' = e then some root else none
  | _ => none

theorem rootFor_eq_some {ev : Event sdk} {root : String}
    (h : ev.rootFor e = some root) :
    ∃ m answer, ev = .call (.createTimestamp e m root) answer := by
  unfold Event.rootFor at h
  split at h
  · split at h
    · rename_i heq
      subst heq
      cases h
      exact ⟨_, _, rfl⟩
    · cases h
  · cases h

example : Event.rootFor 1 (.call (.createTimestamp 1 .qtsa "0x1620")
    (.error "unreachable") : Event Sample.sdk) = some "0x1620" := by
  decide +kernel

/-- A provider call is given the root of the stored epoch. -/
theorem Reach.provider_root (h : Reach Store.empty w j) (he : e < u64Max)
    (hroots : ParsesRoots sdk) {ev : Event sdk} (hmem : ev ∈ w.log)
    {root : String} (hroot : ev.rootFor e = some root) :
    ∃ record, w.store.epochs[e]? = some record ∧
      root = wireForm record.merkleRoot := by
  have hst : (Store.empty : Store sdk).Indexed := indexed_empty
  have hmethods : (Store.empty : Store sdk).MethodsNodup := methodsNodup_empty
  obtain ⟨m, answer, rfl⟩ := rootFor_eq_some hroot
  obtain ⟨newer, l, hlog⟩ := List.append_of_mem hmem
  have hl : .call (.createTimestamp e m root) answer :: l <:+ w.log :=
    ⟨newer, hlog.symm⟩
  obtain ⟨w₀, j₀, hw₀, rfl, -, hev⟩ := h.called hl
  cases hev with
  | mint _ hminting => cases hminting
  | @provider s _ _ _ hat hmay =>
      have hsynced := (hw₀.followed hst hmethods).2.1
      cases hq : w₀.store.pendingAnchors[s.record.epochId]? with
      | none =>
          have hidle := (hsynced.absent hq).1
          rw [hat.2] at hidle
          cases hidle
      | some q =>
          obtain ⟨record, hrecord, hroot⟩ := hw₀.rootStored he q hq
          rw [(hsynced.stored q hq).same.anchorRoot_eq] at hroot
          rw [hw₀.store_eq] at hrecord
          exact ⟨record, h.epoch_kept hst he
            ((List.suffix_cons _ _).trans hl) hrecord, hroots _ _ hroot⟩

/-- The record a serve finds, with what it serves. -/
structure ServedFrom (l : List (Event sdk)) (e : Nat) (m : AnchorMethod)
    (minted : List (MintedWitness sdk)) (q : PendingEpoch sdk)
    (batch : EpochBatch sdk) (v : TimestampValue) : Prop where
  stored : (storeOf Store.empty l).pendingAnchors[e]? = some q
  anchor : q.anchor m = some v
  restored : ∃ snapshot, q.restore = .ok (snapshot, batch)
  mintedFrom : MintedFrom l batch m v minted

/-- A serve writes what was minted from the stored record's batch and
anchor. -/
theorem Reach.servedFrom (h : Reach Store.empty w j) {l : List (Event sdk)}
    {minted : List (MintedWitness sdk)} (hserved : ServedBy w.log l e m minted) :
    ∃ q batch v, ServedFrom l e m minted q batch v := by
  have hst : (Store.empty : Store sdk).Indexed := indexed_empty
  have hmethods : (Store.empty : Store sdk).MethodsNodup := methodsNodup_empty
  obtain ⟨w₀, s, v, hw₀, rfl, rfl, hphase, hjudged⟩ := h.servedBy hserved
  obtain ⟨q, hq, hfound⟩ := hw₀.serve_found hst hmethods hphase
  obtain ⟨snapshot, batch, hrestore, hfrom⟩ := hjudged.mintedFrom
  rw [← hfound.same.restore_eq] at hrestore
  rw [hw₀.store_eq] at hq
  exact ⟨q, batch, v, hq, hfound.anchor, ⟨snapshot, hrestore⟩, hfrom⟩

end Runs

/-- In every state of a run from an empty store and for every epoch below
`u64::MAX`: each provider call made for it was given the wire form of the
stored epoch's root, and each serve wrote witnesses minted in its tick from the
batch with that root and from the one anchor the stored pending record held
for the method. -/
theorem one_root_per_epoch {w : World sdk} (hw : Visited Store.empty w)
    (hroots : ParsesRoots sdk) {e : Nat} (he : e < u64Max) :
    (∀ ev ∈ w.log, ∀ root, ev.rootFor e = some root →
      ∃ record, w.store.epochs[e]? = some record ∧
        root = wireForm record.merkleRoot) ∧
    ∀ l m minted, ServedBy w.log l e m minted →
      ∃ record q batch v, w.store.epochs[e]? = some record ∧
        batch.anchorRoot = wireForm record.merkleRoot ∧
        ServedFrom l e m minted q batch v := by
  obtain ⟨j, hj⟩ := reach_of_visited hw
  have hst : (Store.empty : Store sdk).Indexed := indexed_empty
  constructor
  · intro ev hmem root hroot
    exact hj.provider_root he hroots hmem hroot
  · intro l m minted hserved
    obtain ⟨q, batch, v, hfrom⟩ := hj.servedFrom hserved
    obtain ⟨snapshot, hrestore⟩ := hfrom.restored
    obtain ⟨w₀, s, -, hw₀, rfl, -⟩ := hj.servedBy hserved
    have hq := hfrom.stored
    rw [← hw₀.store_eq] at hq
    obtain ⟨record, hrecord, hroot⟩ := hw₀.rootStored he q hq
    rw [hw₀.store_eq] at hrecord
    refine ⟨record, q, batch, v, hj.epoch_kept hst he hserved.suffix hrecord, ?_,
      hfrom⟩
    rw [PendingEpoch.restore_anchorRoot hrestore]
    exact hroots _ _ hroot

/-- The small SDK with roots in wire form. -/
def Sample.wireSdk : Sdk :=
  { Sample.sdk with
    merkleRoot := fun targets => wireForm (Sample.digest
      (3 :: (targets : List Hash32).map fun t => t.toList.headD 0))
    parseBatchRoot := fun text =>
      (parseLeafHex text).mapError fun _ => "not a batch root" }

theorem Sample.parsesRoots : ParsesRoots Sample.wireSdk := by
  intro prepared digest hparse
  have hdigest : Sample.digest
      (3 :: (prepared : List Hash32).map fun t => t.toList.headD 0) = digest := by
    simpa [Sample.wireSdk, parseLeafHex_wireForm, Except.mapError] using hparse
  rw [← hdigest]
  rfl

/-- Surroundings in which everything succeeds, but for the provider. -/
def Sample.wired (anchor : AnchorMethod → String → Except String TimestampValue) :
    Surroundings Sample.wireSdk where
  prepare targets := .ok targets
  anchor _ m root := anchor m root
  finish _ targets facts := .ok ((targets : List Hash32).mapIdx fun i target =>
    let object : Sample.Object := ⟨target, { facts with
      batchTreeSize := targets.length
      batchLeafIndex := i
      shieldingNonce := "00" }⟩
    [(Sample.objectLink object, .typed object)])
  sign link := .ok ⟨link, "did:service"⟩
  check _ _ _ := .ok ⟨fun _ => .verified, fun _ _ _ => .ok (.qualifiedVerified, "")⟩
  sealing := .ok
  serving _ _ := .ok
  saving _ := .ok
  stops _ := false

/-- The provider refuses once; after a restart it is called again and the epoch
is served. -/
def Sample.retriedRun : World Sample.wireSdk :=
  .replay [.append [Sample.leaf 1, Sample.leaf 2] "did:a",
    .cycle (some (Sample.ctx [.evm])) 10 60
      (Sample.wired fun _ _ => .error "unreachable"),
    .restart 15 60,
    .cycle (some (Sample.ctx [.evm])) 20 60
      (Sample.wired fun m root => .ok (Sample.anchored "1" m root))]

theorem one_root_per_epoch_retriedRun :
    ((Sample.retriedRun.log.filterMap (Event.rootFor 1)).length = 2 ∧
      Sample.retriedRun.store.tipToPair.toList.length = 2) ∧
    (∀ ev ∈ Sample.retriedRun.log, ∀ root, ev.rootFor 1 = some root →
      ∃ record, Sample.retriedRun.store.epochs[1]? = some record ∧
        root = wireForm record.merkleRoot) ∧
    ∀ l m minted, ServedBy Sample.retriedRun.log l 1 m minted →
      ∃ record q batch v, Sample.retriedRun.store.epochs[1]? = some record ∧
        batch.anchorRoot = wireForm record.merkleRoot ∧
        ServedFrom l 1 m minted q batch v :=
  ⟨by decide +kernel, one_root_per_epoch (.between (reachable_replay _))
    Sample.parsesRoots (by decide)⟩

/-- The last id is served, sealed again with another leaf and served again. -/
def Sample.twoRoots : List (Move Sample.wireSdk) :=
  [.append [Sample.leaf 1] "did:a",
    .cycle (some (Sample.ctx [.evm])) 10 60
      (Sample.wired fun m root => .ok (Sample.anchored "1" m root)),
    .append [Sample.leaf 2] "did:a",
    .cycle (some (Sample.ctx [.evm])) 20 60
      (Sample.wired fun m root => .ok (Sample.anchored "2" m root))]

theorem exists_two_roots_of_one_epoch :
    ∃ w : World Sample.wireSdk, Visited Store.empty w ∧
      ParsesRoots Sample.wireSdk ∧
      ∃ root ∈ w.log.filterMap (Event.rootFor u64Max),
        ∃ root' ∈ w.log.filterMap (Event.rootFor u64Max), root ≠ root' := by
  have hmoves : ∀ move ∈ Sample.twoRoots, move.keepsProcess = true := by
    decide
  obtain ⟨w, past, hw, -, hend⟩ := exists_twin_playAll hmoves
  have hrun : ∃ root ∈ ((lastEpoch Sample.wireSdk).playAll
        Sample.twoRoots).log.filterMap (Event.rootFor u64Max),
      ∃ root' ∈ ((lastEpoch Sample.wireSdk).playAll
        Sample.twoRoots).log.filterMap (Event.rootFor u64Max),
        root ≠ root' := by
    decide +kernel
  obtain ⟨root, hroot, root', hroot', hne⟩ := hrun
  refine ⟨w, hw, Sample.parsesRoots, root, ?_, root', ?_, hne⟩
  · rw [hend.log, List.filterMap_append]
    exact List.mem_append_left _ hroot
  · rw [hend.log, List.filterMap_append]
    exact List.mem_append_left _ hroot'

end AquaTimestamp
