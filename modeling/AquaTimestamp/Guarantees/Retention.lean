import AquaTimestamp.Model.Sample
import AquaTimestamp.Settlement.Identity

/-!
# Accepted leaves are kept

Between accept and seal a leaf is in the open epoch; the sealer takes it out
and holds it until the closed epoch is stored.  It returns early when the batch
cannot be prepared, when its root is no digest and when the write fails, and
drops what it took out.  In a process in which none of these happens, every
accepted leaf stays in the open epoch or in a stored one.
-/

namespace AquaTimestamp

open Support Partition

variable {sdk : Sdk}

/-- The event does not end a seal cycle early that has taken leaves out of the
open epoch: a prepared batch has a root that is a digest, and the leaves of a
closed epoch are committed. -/
def Event.keepsClosed : Event sdk → Bool
  | .call (.prepareBatchTimestamp _) (.ok p) =>
      (sdk.parseBatchRoot (sdk.merkleRoot p)).isOk
  | .call (.prepareBatchTimestamp _) (.error _) => false
  | .call (.persistSealedEpoch _ leaves _ _) o => leaves.isEmpty || o.committed
  | _ => true

/-- The leaf is stored with a sealed epoch. -/
def Store.HasLeaf (st : Store sdk) (leaf : Hash32) : Prop :=
  ∃ e did, e ∈ st.epochs ∧ st.epochLeaves[(e, leaf)]? = some did

/-- The leaf is in the open epoch, in the epoch the sealer is closing, or
stored. -/
def Retained (w : World sdk) (j : Job sdk) (leaf : Hash32) : Prop :=
  leaf ∈ w.accumulator.leaves.map LeafEntry.leaf ∨
    (∃ snapshot, j.closes = some snapshot ∧
      leaf ∈ snapshot.leaves.map LeafEntry.leaf) ∨
    w.store.HasLeaf leaf

/-! ## Stored leaves stay stored -/

theorem Sealed.hasLeaf_of_mem {st st' : Store sdk} {record : EpochRecord}
    {leaves : List LeafEntry} {pending : Option (PendingEpoch sdk)}
    (h : Sealed st record leaves pending st') {leaf : Hash32}
    (hleaf : leaf ∈ leaves.map LeafEntry.leaf) : st'.HasLeaf leaf := by
  obtain ⟨entry, hentry, rfl⟩ := List.mem_map.mp hleaf
  obtain ⟨did, hget, -⟩ := putAll_of_mem st.epochLeaves
    (List.mem_map_of_mem (f := fun e : LeafEntry =>
      ((record.id, e.leaf), e.submitterDid)) hentry)
  refine ⟨record.id, did, ?_, ?_⟩
  · rw [h.epochs]
    exact Std.ExtTreeMap.mem_insert_self
  · rw [h.epochLeaves]
    exact hget

theorem Sealed.hasLeaf {st st' : Store sdk} {record : EpochRecord}
    {leaves : List LeafEntry} {pending : Option (PendingEpoch sdk)}
    (h : Sealed st record leaves pending st') {leaf : Hash32}
    (hleaf : st.HasLeaf leaf) : st'.HasLeaf leaf := by
  obtain ⟨e, did, he, hget⟩ := hleaf
  have hepochs : e ∈ st'.epochs := by
    rw [h.epochs]
    exact Std.ExtTreeMap.mem_insert.mpr (Or.inr he)
  rcases putAll_cases st.epochLeaves _ (e, leaf) rfl with
    ⟨did', hnew, -⟩ | ⟨-, hold⟩
  · exact ⟨e, did', hepochs, by rw [h.epochLeaves, hnew]⟩
  · exact ⟨e, did, hepochs, by rw [h.epochLeaves, ← hold, hget]⟩

theorem Emits.hasLeaf {w : World sdk} {j : Job sdk} {ev : Event sdk}
    (h : Emits w j ev) {leaf : Hash32} (hleaf : w.store.HasLeaf leaf) :
    (w.emit ev).store.HasLeaf leaf := by
  have hwritten := h.written
  generalize (w.emit ev).store = st' at hwritten ⊢
  cases hwritten with
  | unchanged => exact hleaf
  | saved => exact hleaf
  | served _ _ hserved =>
      obtain ⟨e, did, he, hget⟩ := hleaf
      exact ⟨e, did, hserved.epochs ▸ he, hserved.epochLeaves ▸ hget⟩
  | sealed _ _ _ hsealed => exact hsealed.hasLeaf hleaf

theorem Settles.hasLeaf {w w' : World sdk} {s s' : Settling sdk}
    (h : Settles w s w' s') {leaf : Hash32} (hleaf : w.store.HasLeaf leaf) :
    w'.store.HasLeaf leaf := by
  rcases h.emits with rfl | ⟨ev, hev, rfl⟩
  · exact hleaf
  · exact hev.hasLeaf hleaf

/-! ## Every accepted leaf is retained -/

/-- The answer a closing job works with is in the history of its process. -/
theorem Reach.prepared_mem {st : Store sdk} {w : World sdk} {j : Job sdk}
    (h : Reach st w j) :
    ∀ ctx now durationSecs down snapshot answer,
      j = .closing ctx now durationSecs down snapshot (some answer) →
        ∃ targets, .call (.prepareBatchTimestamp targets) answer ∈
          sinceBoot w.log := by
  induction h with
  | boot | restart | tick | refuse | plain | list | visit | settle | leave
  | swap | fail | finish =>
      rintro ctx now durationSecs down snapshot answer ⟨⟩
  | append batch did _ ih =>
      intro ctx now durationSecs down snapshot answer hj
      obtain ⟨targets, hmem⟩ := ih ctx now durationSecs down snapshot answer hj
      exact ⟨targets, mem_sinceBoot_of_cons rfl hmem⟩
  | @prepare w ctx now durationSecs down snapshot targets answer _ _ _ =>
      rintro _ _ _ _ _ _ ⟨⟩
      exact ⟨targets, List.mem_cons_self ..⟩
  | persist =>
      intro ctx now durationSecs down snapshot answer hj
      unfold Job.persisted at hj
      split at hj <;> cases hj

/-- A prepared batch that is kept gives a record. -/
theorem buildRecord_of_keepsClosed {snapshot : SealedSnapshot}
    {targets : List sdk.RevisionLink} {p : sdk.PreparedBatch}
    {leaves : List Hash32}
    (h : Event.keepsClosed (.call (.prepareBatchTimestamp targets) (.ok p)) =
      true) :
    ∃ record, buildRecord snapshot (some ⟨p, leaves⟩) = .ok record := by
  have hroot : (sdk.parseBatchRoot (sdk.merkleRoot p)).isOk = true := h
  unfold buildRecord EpochBatch.rootDigest EpochBatch.anchorRoot
  dsimp only
  cases hparse : sdk.parseBatchRoot (sdk.merkleRoot p) with
  | ok root => exact ⟨_, rfl⟩
  | error e =>
      rw [hparse] at hroot
      cases hroot

theorem Retained.of_job {w w' : World sdk} {j j' : Job sdk} {leaf : Hash32}
    (h : Retained w j leaf) (hacc : w'.accumulator = w.accumulator)
    (hcloses : j'.closes = j.closes)
    (hstore : w.store.HasLeaf leaf → w'.store.HasLeaf leaf) :
    Retained w' j' leaf := by
  rcases h with hopen | hclosing | hstored
  · exact Or.inl (hacc ▸ hopen)
  · exact Or.inr (Or.inl (hcloses ▸ hclosing))
  · exact Or.inr (Or.inr (hstore hstored))

/-- If nothing the running process closed was dropped, the leaves of every batch
it has taken are retained. -/
def AllRetained (w : World sdk) (j : Job sdk) : Prop :=
  (∀ ev ∈ sinceBoot w.log, ev.keepsClosed = true) →
    ∀ batch did o added,
      Event.append batch did (.ok o) added ∈ sinceBoot w.log →
        ∀ leaf ∈ batch, Retained w j leaf

section Steps

variable {w w' : World sdk} {j j' : Job sdk}

/-- An event that takes no batch and keeps what was retained. -/
theorem AllRetained.of_event {ev : Event sdk} (h : AllRetained w j)
    (hlog : w'.log = ev :: w.log) (hboot : ev.isBoot = false)
    (hnew : ∀ batch did o added, ev ≠ .append batch did (.ok o) added)
    (hkept : ev.keepsClosed = true →
      ∀ leaf, Retained w j leaf → Retained w' j' leaf) : AllRetained w' j' := by
  intro hkeeps batch did o added hmem leaf hleaf
  rw [hlog] at hkeeps hmem
  rcases mem_sinceBoot_cons hmem with heq | hold
  · exact absurd heq.symm (hnew batch did o added)
  · have hself : ev ∈ sinceBoot (ev :: w.log) := by
      simp [sinceBoot, hboot]
    have hpast := h (fun ev' hev => hkeeps ev' (mem_sinceBoot_of_cons hboot hev))
      batch did o added hold leaf hleaf
    exact hkept (hkeeps ev hself) leaf hpast

/-- A change of the job that leaves the epoch being closed. -/
theorem AllRetained.of_job (h : AllRetained w j) (hcloses : j'.closes = j.closes) :
    AllRetained w j' :=
  fun hkeeps batch did o added hmem leaf hleaf =>
    (h hkeeps batch did o added hmem leaf hleaf).of_job rfl hcloses id

theorem AllRetained.append (h : AllRetained w j)
    (hsound : w.accumulator.Sound) (batch : List Hash32) (did : String) :
    AllRetained (w.append batch did) j := by
  intro hkeeps batch' did' o added hmem leaf hleaf
  have hframe := (w.accumulator.appendBatch_frame batch did).2.map
    LeafEntry.leaf
  rcases mem_sinceBoot_cons hmem with heq | hold
  · -- The batch just taken.
    injection heq with hbatch hdid hok hadded
    subst hbatch
    exact Or.inl (hsound.mem_appendBatch hok.symm hleaf)
  · rcases h (fun ev hev => hkeeps ev (mem_sinceBoot_of_cons rfl hev)) batch' did'
      o added hold leaf hleaf with hopen | hclosing | hstored
    · exact Or.inl (hframe.subset hopen)
    · exact Or.inr (Or.inl hclosing)
    · exact Or.inr (Or.inr hstored)

theorem AllRetained.settles {s s' : Settling sdk} (h : AllRetained w (.settling s))
    (hstep : Settles w s w' s') : AllRetained w' (.settling s') := by
  have hnext : ∀ leaf, Retained w (.settling s) leaf →
      Retained w' (.settling s') leaf :=
    fun leaf hold => hold.of_job hstep.frame.2.2 rfl hstep.hasLeaf
  rcases hstep.log_cases with hlog | ⟨c, answer, hlog⟩
  · intro hkeeps batch did o added hmem leaf hleaf
    rw [hlog] at hkeeps hmem
    exact hnext leaf (h hkeeps batch did o added hmem leaf hleaf)
  · exact h.of_event hlog rfl (by rintro _ _ _ _ ⟨⟩) fun _ => hnext

/-- The leaves of the open epoch are those of the epoch being closed. -/
theorem Retained.swap {ctx : Option WitnessContext} {now durationSecs : Nat}
    {down : List AnchorMethod} {leaf : Hash32}
    (h : Retained w (.retrying ctx now durationSecs down []) leaf) :
    Retained
      (w.after (.swapAndOpenNext now now durationSecs)
        (w.accumulator.swapAndOpenNext now now durationSecs).1)
      (.closing ctx now durationSecs down
        (w.accumulator.swapAndOpenNext now now durationSecs).1 none) leaf := by
  rcases h with hopen | ⟨snapshot, hsnapshot, -⟩ | hstored
  · exact Or.inr (Or.inl ⟨_, rfl, hopen⟩)
  · cases hsnapshot
  · exact Or.inr (Or.inr hstored)

/-- The leaves of the epoch being closed are stored, if its write is kept. -/
theorem Retained.persist {ctx : Option WitnessContext} {now durationSecs : Nat}
    {down : List AnchorMethod} {snapshot : SealedSnapshot}
    {prepared : Option (Except String sdk.PreparedBatch)}
    {batch : Option (EpochBatch sdk)} {record : EpochRecord} {o : WriteOutcome}
    {leaf : Hash32} (hbatch : Batched snapshot prepared batch)
    (hrecord : buildRecord snapshot batch = .ok record)
    (hperm : Permitted w (.persistSealedEpoch record snapshot.leaves []
      (pendingFor ctx snapshot batch)) o)
    (hkept : Event.keepsClosed (.call (.persistSealedEpoch record snapshot.leaves []
      (pendingFor ctx snapshot batch)) o) = true)
    (h : Retained w (.closing ctx now durationSecs down snapshot prepared) leaf) :
    Retained
      (w.after (.persistSealedEpoch record snapshot.leaves []
        (pendingFor ctx snapshot batch)) o)
      (.persisted ctx now durationSecs down (pendingFor ctx snapshot batch) o)
      leaf := by
  have hemits : Emits w (.closing ctx now durationSecs down snapshot prepared)
      (.call (.persistSealedEpoch record snapshot.leaves []
        (pendingFor ctx snapshot batch)) o) :=
    .persist hbatch hrecord hperm
  rcases h with hopen | ⟨_, ⟨⟩, hin⟩ | hstored
  · exact Or.inl hopen
  · refine Or.inr (Or.inr ?_)
    rcases after_seal hperm with ⟨ho, -⟩ | ⟨-, hsealed⟩
    · simp only [Event.keepsClosed, ho, Bool.or_false,
        List.isEmpty_iff] at hkept
      rw [hkept] at hin
      cases hin
    · exact hsealed.hasLeaf_of_mem hin
  · exact Or.inr (Or.inr (hemits.hasLeaf hstored))

/-- A cycle that fails after it closed an epoch has dropped what it closed. -/
theorem Reach.not_keeps_failed {st : Store sdk} {ctx : Option WitnessContext}
    {now durationSecs : Nat} {down : List AnchorMethod}
    {snapshot : SealedSnapshot} {answer : Except String sdk.PreparedBatch}
    (h : Reach st w (.closing ctx now durationSecs down snapshot (some answer)))
    (hfails : ∀ p, answer = .ok p → ∃ e,
      buildRecord snapshot (some ⟨p, snapshot.leaves.map LeafEntry.leaf⟩) =
        .error e) : ¬ ∀ ev ∈ sinceBoot w.log, ev.keepsClosed = true := by
  intro hkeeps
  obtain ⟨targets, hmem⟩ := h.prepared_mem _ _ _ _ _ _ rfl
  have hkept := hkeeps _ hmem
  cases answer with
  | error e => cases hkept
  | ok p =>
      obtain ⟨e, he⟩ := hfails p rfl
      obtain ⟨record, hrecord⟩ := buildRecord_of_keepsClosed hkept
      rw [hrecord] at he
      cases he

/-- The leaves of every batch taken since the process started are retained,
also while the sealer works. -/
theorem Reach.retained (h : Reach Store.empty w j) : AllRetained w j := by
  induction h with
  | boot | restart =>
      intro _ batch did o added hmem
      cases hmem
  | append batch did hw ih =>
      exact ih.append (hw.grounded indexed_empty).accumulator batch did
  | tick _ _ _ _ ih | list _ _ ih | prepare _ _ ih =>
      exact ih.of_event rfl rfl (by rintro _ _ _ _ ⟨⟩)
        fun _ leaf hold => hold.of_job rfl rfl id
  | refuse _ ih | plain _ ih | visit _ ih | leave _ _ _ _ ih
  | finish _ _ _ _ ih => exact ih.of_job rfl
  | settle _ hstep ih => exact ih.settles hstep
  | swap _ ih =>
      exact ih.of_event rfl rfl (by rintro _ _ _ _ ⟨⟩) fun _ leaf => Retained.swap
  | fail hw hfails => exact fun hkeeps => absurd hkeeps (hw.not_keeps_failed hfails)
  | persist _ hbatch hrecord hperm ih =>
      exact ih.of_event rfl rfl (by rintro _ _ _ _ ⟨⟩)
        fun hkept leaf => Retained.persist hbatch hrecord hperm hkept

end Steps

/-- Between two seal cycles, whether they succeeded or failed, every leaf of a
batch the running process has taken is in the open epoch or stored with a
sealed one, if every batch was prepared with a root that is a digest and every
closed epoch with leaves was committed. -/
theorem accepted_leaves_retained {w : World sdk} (hw : Reachable Store.empty w)
    (hkeeps : ∀ ev ∈ sinceBoot w.log, ev.keepsClosed = true)
    {batch : List Hash32} {did : String} {o : AcceptOutcome}
    {added : List LeafEntry}
    (htaken : Event.append batch did (.ok o) added ∈ sinceBoot w.log)
    {leaf : Hash32} (hleaf : leaf ∈ batch) :
    leaf ∈ w.accumulator.leaves.map LeafEntry.leaf ∨ w.store.HasLeaf leaf := by
  rcases (reach_of_reachable hw).retained hkeeps batch did o added htaken leaf
    hleaf with hopen | ⟨snapshot, hsnapshot, -⟩ | hstored
  · exact Or.inl hopen
  · cases hsnapshot
  · exact Or.inr hstored

/-- One leaf is sealed and another is in the open epoch. -/
def Sample.keptRun : World Sample.sdk :=
  .replay [.append [Sample.leaf 1] "did:a",
    Sample.cycle [.evm] 10 Sample.noProvider, .append [Sample.leaf 2] "did:a"]

/-- The batches the running process has taken, with what it reported. -/
def takenBatches (log : List (Event sdk)) : List (List Hash32 × AcceptOutcome) :=
  (sinceBoot log).filterMap fun
    | .append batch _ (.ok o) _ => some (batch, o)
    | _ => none

theorem exists_append_of_taken {log : List (Event sdk)} {batch : List Hash32}
    {o : AcceptOutcome} (h : (batch, o) ∈ takenBatches log) :
    ∃ did added, Event.append batch did (.ok o) added ∈ sinceBoot log := by
  obtain ⟨ev, hev, hbatch⟩ := List.mem_filterMap.mp h
  split at hbatch
  · cases hbatch
    exact ⟨_, _, hev⟩
  · cases hbatch

theorem accepted_leaves_retained_keptRun :
    (Sample.leaf 1 ∈ Sample.keptRun.accumulator.leaves.map LeafEntry.leaf ∨
        Sample.keptRun.store.HasLeaf (Sample.leaf 1)) ∧
      (Sample.leaf 2 ∈ Sample.keptRun.accumulator.leaves.map LeafEntry.leaf ∨
        Sample.keptRun.store.HasLeaf (Sample.leaf 2)) := by
  have hrun : (∀ ev ∈ sinceBoot Sample.keptRun.log, ev.keepsClosed = true) ∧
      ∀ leaf ∈ [Sample.leaf 1, Sample.leaf 2],
        ∃ taken ∈ takenBatches Sample.keptRun.log, leaf ∈ taken.1 := by
    decide +kernel
  obtain ⟨⟨batch, o⟩, htaken, hin⟩ := hrun.2 (Sample.leaf 1) (by simp)
  obtain ⟨⟨batch', o'⟩, htaken', hin'⟩ := hrun.2 (Sample.leaf 2) (by simp)
  obtain ⟨did, added, htaken⟩ := exists_append_of_taken htaken
  obtain ⟨did', added', htaken'⟩ := exists_append_of_taken htaken'
  exact ⟨accepted_leaves_retained (reachable_replay _) hrun.1 htaken hin,
    accepted_leaves_retained (reachable_replay _) hrun.1 htaken' hin'⟩

/-- The batch of the closed epoch cannot be prepared. -/
def Sample.unpreparedRun : World Sample.sdk :=
  .replay [.append [Sample.leaf 1] "did:a",
    Sample.cycle [.evm] 10
      { Sample.honest "1" with prepare := fun _ => .error "no randomness" }]

theorem exists_accepted_leaf_lost :
    ∃ w : World Sample.sdk, Reachable Store.empty w ∧
      ∃ batch did o added,
        Event.append batch did (.ok o) added ∈ sinceBoot w.log ∧
        Sample.leaf 1 ∈ batch ∧ o.accepted = batch.length ∧
        Sample.leaf 1 ∉ w.accumulator.leaves.map LeafEntry.leaf ∧
        ¬ w.store.HasLeaf (Sample.leaf 1) := by
  have hrun : (∃ taken ∈ takenBatches Sample.unpreparedRun.log,
        Sample.leaf 1 ∈ taken.1 ∧ taken.2.accepted = taken.1.length) ∧
      Sample.leaf 1 ∉
        Sample.unpreparedRun.accumulator.leaves.map LeafEntry.leaf ∧
      ∀ entry ∈ Sample.unpreparedRun.store.epochLeaves.toList,
        entry.1.2 ≠ Sample.leaf 1 := by
    decide +kernel
  obtain ⟨⟨⟨batch, o⟩, htaken, hin, haccepted⟩, hopen, hstored⟩ := hrun
  obtain ⟨did, added, htaken⟩ := exists_append_of_taken htaken
  refine ⟨_, reachable_replay _, batch, did, o, added, htaken, hin, haccepted,
    hopen, ?_⟩
  rintro ⟨e, owner, -, hget⟩
  exact hstored _ (Std.ExtTreeMap.mem_toList_iff_getElem?_eq_some.mpr hget) rfl

end AquaTimestamp
