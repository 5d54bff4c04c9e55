import AquaTimestamp.Model.Accumulator

/-!
# Runs of the accumulator

Submissions and swaps take one lock, so a run of the accumulator is a list of
calls.  The open epoch gathers the leaves of the accepted batches, the first
submission of a leaf winning; the swap hands out what was gathered under one
epoch id.  Below `u64::MAX` an id is handed out once, so the snapshot of an
epoch holds exactly the leaves of the calls that reported that epoch.
-/

namespace AquaTimestamp

open Support

/-- A call on the accumulator. -/
inductive AccumulatorCall where
  | append (batch : List Hash32) (did : String)
  | swap (closedAt nextOpenedAt durationSecs : Nat)

/-- A call with its answer; an append with the entries it added. -/
inductive AccumulatorEvent where
  | appended (batch : List Hash32) (did : String)
      (outcome : Except EpochFull AcceptOutcome) (added : List LeafEntry)
  | swapped (snapshot : SealedSnapshot)
  deriving DecidableEq

namespace Accumulator

/-- One call: what it answers and the accumulator after it. -/
def perform (acc : Accumulator) :
    AccumulatorCall → AccumulatorEvent × Accumulator
  | .append batch did =>
      let (outcome, acc') := acc.appendBatch batch did
      (.appended batch did outcome (acc'.leaves.drop acc.leaves.length), acc')
  | .swap closedAt nextOpenedAt durationSecs =>
      let (snapshot, acc') :=
        acc.swapAndOpenNext closedAt nextOpenedAt durationSecs
      (.swapped snapshot, acc')

/-- A run: the calls in order, with their answers. -/
def performAll (acc : Accumulator) :
    List AccumulatorCall → List AccumulatorEvent × Accumulator
  | [] => ([], acc)
  | call :: calls =>
      let (event, acc') := acc.perform call
      let (events, acc'') := acc'.performAll calls
      (event :: events, acc'')

variable {acc : Accumulator}

theorem OpenEpoch.perform (h : acc.OpenEpoch) (call : AccumulatorCall) :
    (acc.perform call).2.OpenEpoch := by
  cases call with
  | append batch did => exact h.appendBatch batch did
  | swap closedAt nextOpenedAt durationSecs => exact h.swapAndOpenNext closedAt nextOpenedAt durationSecs

theorem OpenEpoch.leafCap_perform (h : acc.OpenEpoch) (call : AccumulatorCall) :
    (acc.perform call).2.leafCap = acc.leafCap := by
  cases call with
  | append batch did =>
      show (acc.appendBatch batch did).2.leafCap = acc.leafCap
      unfold Accumulator.appendBatch
      split
      · rfl
      · exact (appendLeaves_gathers did batch acc 0 0 h.seen).2.2.2.2
  | swap closedAt nextOpenedAt durationSecs => rfl

theorem OpenEpoch.leafCap_performAll (h : acc.OpenEpoch)
    (calls : List AccumulatorCall) :
    (acc.performAll calls).2.leafCap = acc.leafCap := by
  induction calls generalizing acc with
  | nil => rfl
  | cons call calls ih =>
      exact (ih (h.perform call)).trans (h.leafCap_perform call)

theorem OpenEpoch.performAll (h : acc.OpenEpoch) (calls : List AccumulatorCall) :
    (acc.performAll calls).2.OpenEpoch := by
  induction calls generalizing acc with
  | nil => exact h
  | cons call calls ih => exact ih (h.perform call)

end Accumulator

/-! ## Snapshots -/

/-- The leaves of the batches accepted into epoch `n`, in order, with their
submitters. -/
def submissions (n : Nat) (events : List AccumulatorEvent) : List LeafEntry :=
  events.flatMap fun
    | .appended batch did (.ok o) _ =>
        if o.epochId = n then batch.map (LeafEntry.mk · did) else []
    | _ => []

/-- The epoch id an event reports, or hands out. -/
def AccumulatorEvent.reports : AccumulatorEvent → Option Nat
  | .appended _ _ (.ok o) _ => some o.epochId
  | .appended _ _ (.error _) _ => none
  | .swapped snapshot => some snapshot.epochId

namespace Accumulator

variable {acc : Accumulator}

theorem performAll_cons (call : AccumulatorCall) (calls : List AccumulatorCall) :
    (acc.performAll (call :: calls)).1 =
      (acc.perform call).1 :: ((acc.perform call).2.performAll calls).1 :=
  rfl

/-- What one call can do: refuse, gather a batch, or hand out the epoch. -/
inductive Performs (acc : Accumulator) :
    AccumulatorEvent → Accumulator → Prop where
  | refused (batch : List Hash32) (did : String) (e : EpochFull) :
      Performs acc (.appended batch did (.error e) []) acc
  | accepted {batch : List Hash32} {did : String} {o : AcceptOutcome}
      {added : List LeafEntry} {acc' : Accumulator} :
      o.epochId = acc.epochId → acc'.epochId = acc.epochId →
      acc'.leaves = acc.leaves ++ added →
      acc'.leaves = Keyed.gather LeafEntry.leaf acc.leaves
        (batch.map (LeafEntry.mk · did)) →
      added.length = o.accepted →
        Performs acc (.appended batch did (.ok o) added) acc'
  | swapped {snapshot : SealedSnapshot} {acc' : Accumulator} :
      snapshot.epochId = acc.epochId → snapshot.leaves = acc.leaves →
      acc'.epochId = saturatingAdd acc.epochId 1 → acc'.leaves = [] →
        Performs acc (.swapped snapshot) acc'

theorem OpenEpoch.performs (h : acc.OpenEpoch) (call : AccumulatorCall) :
    Performs acc (acc.perform call).1 (acc.perform call).2 := by
  cases call with
  | append batch did =>
      show Performs acc (.appended batch did (acc.appendBatch batch did).1
        ((acc.appendBatch batch did).2.leaves.drop acc.leaves.length))
        (acc.appendBatch batch did).2
      cases hok : (acc.appendBatch batch did).1 with
      | error e =>
          rw [appendBatch_of_error hok, List.drop_length]
          exact .refused batch did e
      | ok o =>
          obtain ⟨hid, -, hnew, hleaves, -⟩ := h.accepted hok
          obtain ⟨hsame, hbefore⟩ := appendBatch_frame acc batch did
          refine .accepted hid hsame ?_ hleaves ?_
          · exact (List.prefix_append_drop hbefore)
          · rw [List.length_drop, hleaves, length_gather h.seen, hnew]
            omega
  | swap closedAt nextOpenedAt durationSecs => exact .swapped rfl rfl rfl rfl

/-- Ids only go up, so a run that ends below `u64::MAX` reports no id below
the one it starts with. -/
theorem OpenEpoch.reports_ge (h : acc.OpenEpoch) (calls : List AccumulatorCall)
    (hlt : (acc.performAll calls).2.epochId < u64Max) :
    acc.epochId ≤ (acc.performAll calls).2.epochId ∧
      ∀ event ∈ (acc.performAll calls).1, ∀ n ∈ event.reports,
        acc.epochId ≤ n := by
  induction calls generalizing acc with
  | nil => exact ⟨le_refl _, by rintro _ ⟨⟩⟩
  | cons call calls ih =>
      obtain ⟨hle, hrest⟩ := ih (h.perform call) hlt
      have hlast := lt_of_le_of_lt hle hlt
      have hperforms := h.performs call
      have hstart : acc.epochId ≤ (acc.perform call).2.epochId ∧
          ∀ n ∈ (acc.perform call).1.reports, acc.epochId ≤ n := by
        generalize (acc.perform call).1 = event at hperforms
        generalize (acc.perform call).2 = acc' at hperforms hlast
        cases hperforms with
        | refused => exact ⟨le_refl _, by rintro _ ⟨⟩⟩
        | accepted hid hsame =>
            refine ⟨le_of_eq hsame.symm, ?_⟩
            rintro n ⟨⟩
            exact le_of_eq hid.symm
        | swapped hid _ hnext _ =>
            rw [hnext, saturatingAdd] at hlast ⊢
            refine ⟨by omega, ?_⟩
            rintro n ⟨⟩
            exact le_of_eq hid.symm
      refine ⟨le_trans hstart.1 hle, fun event hevent n hn => ?_⟩
      rw [performAll_cons] at hevent
      rcases List.mem_cons.mp hevent with rfl | hlater
      · exact hstart.2 n hn
      · exact le_trans hstart.1 (hrest event hlater n hn)

theorem submissions_of_ne {n : Nat} {events : List AccumulatorEvent}
    (h : ∀ event ∈ events, ∀ n' ∈ event.reports, n' ≠ n) :
    submissions n events = [] := by
  refine List.flatMap_eq_nil_iff.mpr fun event hevent => ?_
  have hne := h event hevent
  split
  · rename_i batch did o added
    exact if_neg (hne o.epochId rfl)
  · rfl

/-- A snapshot holds the leaves accepted under its id, each once and with its
first submitter. -/
theorem OpenEpoch.snapshot_leaves (h : acc.OpenEpoch)
    {calls : List AccumulatorCall}
    (hlt : (acc.performAll calls).2.epochId < u64Max)
    {snapshot : SealedSnapshot}
    (hs : .swapped snapshot ∈ (acc.performAll calls).1) :
    snapshot.leaves = Keyed.gather LeafEntry.leaf
      (if snapshot.epochId = acc.epochId then acc.leaves else [])
      (submissions snapshot.epochId (acc.performAll calls).1) := by
  induction calls generalizing acc with
  | nil => cases hs
  | cons call calls ih =>
      have hnext := h.perform call
      obtain ⟨-, hge⟩ := hnext.reports_ge calls hlt
      have hlater := ih hnext hlt
      have hlast : (acc.perform call).2.epochId < u64Max :=
        lt_of_le_of_lt (hnext.reports_ge calls hlt).1 hlt
      have hperforms := h.performs call
      rw [performAll_cons] at hs ⊢
      generalize ((acc.perform call).2.performAll calls).1 = events at *
      generalize (acc.perform call).1 = event at *
      generalize (acc.perform call).2 = acc' at *
      cases hperforms with
      | refused =>
          rcases List.mem_cons.mp hs with heq | hs
          · cases heq
          · exact hlater hs
      | @accepted batch did o added _ hid hsame _ hleaves _ =>
          rcases List.mem_cons.mp hs with heq | hs
          · cases heq
          rw [hlater hs, hsame]
          show _ = Keyed.gather _ _ ((if o.epochId = snapshot.epochId then
            batch.map (LeafEntry.mk · did) else []) ++ submissions _ events)
          rw [Keyed.gather_append, hid]
          by_cases hown : snapshot.epochId = acc.epochId
          · rw [if_pos hown, if_pos hown, if_pos hown.symm, hleaves]
          · rw [if_neg hown, if_neg hown, if_neg (Ne.symm hown)]
            rfl
      | @swapped closed _ hid hclosed hnextId hempty =>
          rw [hnextId, saturatingAdd] at hlast
          have hpast : ∀ event ∈ events, ∀ n ∈ event.reports,
              acc.epochId < n := by
            intro event hevent n hn
            have hle := hge event hevent n hn
            rw [hnextId, saturatingAdd] at hle
            omega
          show _ = Keyed.gather _ _ ([] ++ submissions _ events)
          rw [List.nil_append]
          rcases List.mem_cons.mp hs with heq | hs
          · cases heq
            have hnone : submissions snapshot.epochId events = [] := by
              refine submissions_of_ne fun event hevent n hn => ?_
              exact ne_of_gt (hid ▸ hpast event hevent n hn)
            rw [hnone, if_pos hid, hclosed]
            rfl
          · have hne : snapshot.epochId ≠ acc.epochId :=
              ne_of_gt (hpast _ hs _ rfl)
            rw [hlater hs, if_neg hne, hempty]
            split <;> rfl

/-- Every entry of a snapshot was added by a call that reported its epoch, or
was there at the start of the run. -/
theorem OpenEpoch.snapshot_added (h : acc.OpenEpoch)
    {calls : List AccumulatorCall} {snapshot : SealedSnapshot}
    (hs : .swapped snapshot ∈ (acc.performAll calls).1) {entry : LeafEntry}
    (hentry : entry ∈ snapshot.leaves) :
    (snapshot.epochId = acc.epochId ∧ entry ∈ acc.leaves) ∨
      ∃ batch did o added,
        .appended batch did (.ok o) added ∈ (acc.performAll calls).1 ∧
          o.epochId = snapshot.epochId ∧ entry ∈ added := by
  induction calls generalizing acc with
  | nil => cases hs
  | cons call calls ih =>
      have hlater := ih (h.perform call)
      have hperforms := h.performs call
      rw [performAll_cons] at hs ⊢
      generalize ((acc.perform call).2.performAll calls).1 = events at *
      generalize (acc.perform call).1 = event at *
      generalize (acc.perform call).2 = acc' at *
      have hcons : (∃ batch did o added,
          .appended batch did (.ok o) added ∈ events ∧
            o.epochId = snapshot.epochId ∧ entry ∈ added) →
          ∃ batch did o added,
            .appended batch did (.ok o) added ∈ event :: events ∧
              o.epochId = snapshot.epochId ∧ entry ∈ added := by
        rintro ⟨batch, did, o, added, hin, hrest⟩
        exact ⟨batch, did, o, added, List.mem_cons_of_mem _ hin, hrest⟩
      cases hperforms with
      | refused =>
          rcases List.mem_cons.mp hs with heq | hs
          · cases heq
          · exact (hlater hs).imp id hcons
      | @accepted batch did o added _ hid hsame hadded _ _ =>
          rcases List.mem_cons.mp hs with heq | hs
          · cases heq
          rcases hlater hs with ⟨hown, hin⟩ | hin
          · rw [hsame] at hown
            rw [hadded] at hin
            rcases List.mem_append.mp hin with hold | hnew
            · exact Or.inl ⟨hown, hold⟩
            · exact Or.inr ⟨batch, did, o, added, List.mem_cons_self ..,
                hid.trans hown.symm, hnew⟩
          · exact Or.inr (hcons hin)
      | swapped hid hclosed _ hempty =>
          rcases List.mem_cons.mp hs with heq | hs
          · cases heq
            exact Or.inl ⟨hid, hclosed ▸ hentry⟩
          rcases hlater hs with ⟨-, hin⟩ | hin
          · rw [hempty] at hin
            cases hin
          · exact Or.inr (hcons hin)

/-- Every event of a run was performed on an open epoch. -/
theorem OpenEpoch.event_performs (h : acc.OpenEpoch)
    {calls : List AccumulatorCall} {event : AccumulatorEvent}
    (hevent : event ∈ (acc.performAll calls).1) :
    ∃ acc' acc'' : Accumulator, acc'.OpenEpoch ∧ Performs acc' event acc'' := by
  induction calls generalizing acc with
  | nil => cases hevent
  | cons call calls ih =>
      rw [performAll_cons] at hevent
      rcases List.mem_cons.mp hevent with rfl | hlater
      · exact ⟨acc, _, h, h.performs call⟩
      · exact ih (h.perform call) hlater

/-- The leaves a call adds are leaves of its batch. -/
theorem mem_batch_of_added (h : acc.OpenEpoch) {batch : List Hash32}
    {did : String} {o : AcceptOutcome} {added : List LeafEntry}
    {acc' : Accumulator}
    (hperforms : Performs acc (.appended batch did (.ok o) added) acc')
    {leaf : Hash32} (hleaf : leaf ∈ added.map LeafEntry.leaf) : leaf ∈ batch := by
  cases hperforms with
  | accepted _ _ hadded hleaves _ =>
      obtain ⟨entry, hentry, rfl⟩ := List.mem_map.mp hleaf
      have hin : entry ∈ acc'.leaves := by
        rw [hadded]
        exact List.mem_append_right _ hentry
      have hnodup := Keyed.nodup_gather (batch.map (LeafEntry.mk · did))
        h.seen.nodup
      rw [← hleaves, hadded, List.map_append] at hnodup
      rw [hleaves] at hin
      rcases Keyed.mem_gather.mp hin with hold | ⟨-, hlookup⟩
      · exact absurd (List.mem_map_of_mem hentry)
          (List.disjoint_of_nodup_append hnodup (List.mem_map_of_mem hold))
      · obtain ⟨leaf, hbatch, rfl⟩ :=
          List.mem_map.mp (List.mem_of_find?_eq_some hlookup)
        exact hbatch

end Accumulator

/-- The ids of the epochs a run hands out, in order. -/
def closedIds (events : List AccumulatorEvent) : List Nat :=
  events.filterMap fun
    | .swapped snapshot => some snapshot.epochId
    | _ => none

theorem mem_closedIds {events : List AccumulatorEvent} {n : Nat} :
    n ∈ closedIds events ↔
      ∃ snapshot, .swapped snapshot ∈ events ∧ snapshot.epochId = n := by
  unfold closedIds
  rw [List.mem_filterMap]
  constructor
  · rintro ⟨event, hevent, hn⟩
    split at hn
    · cases hn
      exact ⟨_, hevent, rfl⟩
    · cases hn
  · rintro ⟨snapshot, hs, rfl⟩
    exact ⟨_, hs, rfl⟩

/-- Below `u64::MAX` no epoch id is handed out twice. -/
theorem Accumulator.OpenEpoch.closedIds_increasing {acc : Accumulator}
    (h : acc.OpenEpoch) {calls : List AccumulatorCall}
    (hlt : (acc.performAll calls).2.epochId < u64Max) :
    (closedIds (acc.performAll calls).1).Pairwise (· < ·) := by
  induction calls generalizing acc with
  | nil => exact .nil
  | cons call calls ih =>
      have hnext := h.perform call
      have hlater := ih hnext hlt
      obtain ⟨hle, hge⟩ := hnext.reports_ge calls hlt
      have hlast := lt_of_le_of_lt hle hlt
      have hperforms := h.performs call
      rw [Accumulator.performAll_cons]
      generalize ((acc.perform call).2.performAll calls).1 = events at *
      generalize (acc.perform call).1 = event at *
      generalize (acc.perform call).2 = acc' at *
      cases hperforms with
      | refused | accepted => exact hlater
      | swapped hid _ hnextId _ =>
          refine List.pairwise_cons.mpr ⟨fun n hn => ?_, hlater⟩
          obtain ⟨later, hs, rfl⟩ := mem_closedIds.mp hn
          have hid' := hge _ hs _ rfl
          rw [hnextId, saturatingAdd] at hid' hlast
          omega

/-- For every first id and cap and every list of calls whose ids stay below
`u64::MAX`, with the run's events and the accumulator after it: the open
epoch's leaves are distinct, indexed by their positions and within the cap; the
next batch is refused if and only if its distinct new leaves do not fit, and
then changes nothing, and else reports its new leaves and its duplicates; no id
is handed out twice; and a leaf a call added is in the snapshot of the epoch
the call reported, once, with the first DID that submitted it to that epoch,
and in another snapshot only if a call that reported that one's epoch added
it. -/
theorem accumulator_contract (epochId openedAt durationSecs cap : Nat)
    (calls : List AccumulatorCall) (events : List AccumulatorEvent)
    (acc : Accumulator)
    (hrun : (Accumulator.withLeafCap epochId openedAt durationSecs cap).performAll
      calls = (events, acc))
    (hid : acc.epochId < u64Max) :
    ((acc.leaves.map LeafEntry.leaf).Nodup ∧ acc.SeenPositions ∧
      acc.leafCap = min cap maxLeavesPerEpoch ∧
      acc.leaves.length ≤ acc.leafCap) ∧
    (∀ batch did,
      ((∃ e, (acc.appendBatch batch did).1 = .error e) ↔
        acc.leafCap < acc.leaves.length + acc.newLeaves batch) ∧
      (∀ e, (acc.appendBatch batch did).1 = .error e →
        (acc.appendBatch batch did).2 = acc) ∧
      ∀ o, (acc.appendBatch batch did).1 = .ok o →
        o.epochId = acc.epochId ∧ o.accepted + o.duplicates = batch.length ∧
          o.accepted = acc.newLeaves batch) ∧
    (closedIds events).Nodup ∧
    ∀ batch did o added, .appended batch did (.ok o) added ∈ events →
      added.length = o.accepted ∧ ∀ leaf ∈ added.map LeafEntry.leaf,
        (∀ snapshot, .swapped snapshot ∈ events → snapshot.epochId = o.epochId →
          (snapshot.leaves.map LeafEntry.leaf).count leaf = 1 ∧
            ∃ entry ∈ snapshot.leaves, Keyed.lookup LeafEntry.leaf leaf
              (submissions o.epochId events) = some entry) ∧
        ∀ snapshot, .swapped snapshot ∈ events → snapshot.epochId ≠ o.epochId →
          leaf ∈ snapshot.leaves.map LeafEntry.leaf →
            ∃ batch' did' o' added',
              .appended batch' did' (.ok o') added' ∈ events ∧
                o'.epochId = snapshot.epochId ∧
                leaf ∈ added'.map LeafEntry.leaf := by
  have hfirst := Accumulator.openEpoch_withLeafCap epochId openedAt durationSecs
    cap
  have hopen := hfirst.performAll calls
  have hcap := hfirst.leafCap_performAll calls
  have hids := @Accumulator.OpenEpoch.closedIds_increasing _ hfirst calls
  have hleaves := @Accumulator.OpenEpoch.snapshot_leaves _ hfirst calls
  have hadded := @Accumulator.OpenEpoch.snapshot_added _ hfirst calls
  have hperforms := @Accumulator.OpenEpoch.event_performs _ hfirst calls
  rw [hrun] at hopen hcap hids hleaves hadded hperforms
  have hgathered : ∀ snapshot, .swapped snapshot ∈ events →
      snapshot.leaves = Keyed.gather LeafEntry.leaf []
        (submissions snapshot.epochId events) := by
    intro snapshot hs
    have heq := hleaves hid hs
    rwa [show (Accumulator.withLeafCap epochId openedAt durationSecs cap).leaves =
      [] from rfl, ite_self] at heq
  refine ⟨⟨hopen.seen.nodup, hopen.seen, hcap, hopen.within⟩, ?_, ?_, ?_⟩
  · intro batch did
    refine ⟨hopen.refused_iff batch did,
      fun e he => Accumulator.appendBatch_of_error he, fun o ho => ?_⟩
    obtain ⟨hreport, hcounts, hnew, -⟩ := hopen.accepted ho
    exact ⟨hreport, hcounts, hnew⟩
  · exact (hids hid).imp fun hlt => ne_of_lt hlt
  · intro batch did o added hevent
    obtain ⟨before, after, hbefore, hstep⟩ := hperforms hevent
    refine ⟨by cases hstep; assumption, fun leaf hleaf => ⟨?_, ?_⟩⟩
    · intro snapshot hs hclosed
      have hin : leaf ∈ (submissions o.epochId events).map LeafEntry.leaf := by
        have hbatch := Accumulator.mem_batch_of_added hbefore hstep hleaf
        refine List.mem_map.mpr ⟨⟨leaf, did⟩, ?_, rfl⟩
        refine List.mem_flatMap.mpr ⟨_, hevent, ?_⟩
        simpa using hbatch
      have hkey : leaf ∈ snapshot.leaves.map LeafEntry.leaf := by
        rw [hgathered snapshot hs, Keyed.keys_gather, hclosed]
        exact Or.inr hin
      have hnodup : (snapshot.leaves.map LeafEntry.leaf).Nodup := by
        rw [hgathered snapshot hs]
        exact Keyed.nodup_gather _ List.nodup_nil
      refine ⟨List.count_eq_one_of_mem hnodup hkey, ?_⟩
      obtain ⟨entry, hentry, rfl⟩ := List.mem_map.mp hkey
      refine ⟨entry, hentry, ?_⟩
      rw [hgathered snapshot hs, hclosed] at hentry
      rcases Keyed.mem_gather.mp hentry with hnil | ⟨-, hlookup⟩
      · cases hnil
      · exact hlookup
    · intro snapshot hs _ hin
      obtain ⟨entry, hentry, rfl⟩ := List.mem_map.mp hin
      rcases hadded hs hentry with ⟨-, hnil⟩ |
        ⟨batch', did', o', added', hevent', hreport, hin'⟩
      · cases hnil
      · exact ⟨batch', did', o', added', hevent', hreport,
          List.mem_map_of_mem hin'⟩

/-- Two leaves under a cap of two, one of them twice in its batch; a batch that
does not fit; a duplicate; and the same leaf again in the next epoch. -/
def cappedCalls : List AccumulatorCall :=
  [.append [Vector.replicate 32 1, Vector.replicate 32 1, Vector.replicate 32 2]
      "did:a",
    .append [Vector.replicate 32 3] "did:b",
    .append [Vector.replicate 32 1] "did:b", .swap 60 60 60,
    .append [Vector.replicate 32 1] "did:b", .swap 120 120 60]

theorem accumulator_contract_cappedCalls :
    closedIds ((Accumulator.withLeafCap 5 0 60 2).performAll cappedCalls).1 =
        [5, 6] ∧
      (closedIds ((Accumulator.withLeafCap 5 0 60 2).performAll
        cappedCalls).1).Nodup ∧
      ∀ snapshot, .swapped snapshot ∈
          ((Accumulator.withLeafCap 5 0 60 2).performAll cappedCalls).1 →
        snapshot.epochId = 5 → (snapshot.leaves.map LeafEntry.leaf).count
          (Vector.replicate 32 1) = 1 := by
  have hall := accumulator_contract 5 0 60 2 cappedCalls _ _ rfl
    (by decide +kernel)
  have hevent : .appended
      [Vector.replicate 32 1, Vector.replicate 32 1, Vector.replicate 32 2]
      "did:a" (.ok ⟨5, 60, 2, 1⟩)
      [⟨Vector.replicate 32 1, "did:a"⟩, ⟨Vector.replicate 32 2, "did:a"⟩] ∈
        ((Accumulator.withLeafCap 5 0 60 2).performAll cappedCalls).1 := by
    decide +kernel
  refine ⟨by decide +kernel, hall.2.2.1, fun snapshot hs hclosed => ?_⟩
  exact (((hall.2.2.2 _ _ _ _ hevent).2 _ (List.mem_cons_self ..)).1 snapshot hs
    hclosed).1

end AquaTimestamp
