import AquaTimestamp.Settlement.Writes

/-!
# Epoch ids

An epoch is stored under the id the accumulator opened it with; the next id is
one more, up to `u64::MAX`, where it stays.  So an id below `u64::MAX` is
sealed at most once: nothing is stored under the id of the open epoch before
that epoch is sealed.
-/

namespace AquaTimestamp

open Support Partition

variable {sdk : Sdk}

/-! ## Stores whose parts name sealed epochs -/

/-- Everything stored belongs to a sealed epoch, and ids are `u64`s. -/
structure Store.Indexed (st : Store sdk) : Prop where
  ids : ∀ e ∈ st.epochs, e ≤ u64Max
  leaves : ∀ (e : Nat) (leaf : Hash32) (did : String),
    st.epochLeaves[(e, leaf)]? = some did → e ∈ st.epochs
  pending : ∀ (e : Nat) (p : PendingEpoch sdk),
    st.pendingAnchors[e]? = some p → e ∈ st.epochs ∧ p.epochId = e
  tips : ∀ (tip : Hash32) (idx : TipPairIndex),
    st.tipToPair[tip]? = some idx → idx.epochId ∈ st.epochs

theorem indexed_empty : (Store.empty : Store sdk).Indexed where
  ids e he := by simp [Store.empty] at he
  leaves e leaf did h := by simp [Store.empty] at h
  pending e p h := by simp [Store.empty] at h
  tips tip idx h := by simp [Store.empty] at h

theorem Store.Indexed.savePending {st : Store sdk} (h : st.Indexed)
    {p : PendingEpoch sdk} (hp : p.epochId ∈ st.epochs) :
    (st.savePending p).Indexed where
  ids := h.ids
  leaves := h.leaves
  tips := h.tips
  pending e q hq := by
    simp only [Store.savePending, getElem?_put] at hq
    split at hq
    · rename_i heq
      cases hq
      exact ⟨heq ▸ hp, heq⟩
    · exact h.pending e q hq

theorem Store.Indexed.served {st st' : Store sdk} (h : st.Indexed)
    {remaining : PendingEpoch sdk} {minted : List (MintedWitness sdk)}
    (hp : remaining.epochId ∈ st.epochs)
    (hminted : ∀ w ∈ minted, w.epochId = remaining.epochId)
    (hserved : Served st remaining minted st') : st'.Indexed where
  ids := by simpa only [hserved.epochs] using h.ids
  leaves := by simpa only [hserved.epochs, hserved.epochLeaves] using h.leaves
  tips tip idx hidx := by
    rw [hserved.tipToPair] at hidx
    rw [hserved.epochs]
    rcases putAll_cases _ _ _ hidx with ⟨v, hv, hmem⟩ | ⟨-, hold⟩
    · obtain ⟨w, hw, heq⟩ := List.mem_map.mp hmem
      obtain ⟨-, rfl⟩ := Prod.mk.inj heq
      cases hv
      rw [show (Store.pairIndex w).epochId = w.epochId from rfl, hminted w hw]
      exact hp
    · exact h.tips tip idx hold
  pending e q hq := by
    rw [hserved.pendingAnchors] at hq
    rw [hserved.epochs]
    split at hq
    · rw [getElem?_remove] at hq
      split at hq
      · cases hq
      · exact h.pending e q hq
    · rw [getElem?_put] at hq
      split at hq
      · rename_i heq
        cases hq
        exact ⟨heq ▸ hp, heq⟩
      · exact h.pending e q hq

theorem Store.Indexed.sealed {st st' : Store sdk} (h : st.Indexed)
    {record : EpochRecord} {leaves : List LeafEntry}
    {pending : Option (PendingEpoch sdk)} (hid : record.id ≤ u64Max)
    (hpending : ∀ p ∈ pending, p.epochId = record.id)
    (hsealed : Sealed st record leaves pending st') : st'.Indexed := by
  have hmem : ∀ e, e ∈ st'.epochs ↔ record.id = e ∨ e ∈ st.epochs := by
    intro e
    rw [hsealed.epochs, Std.ExtTreeMap.mem_insert,
      Std.LawfulEqCmp.compare_eq_iff_eq]
  refine ⟨?_, ?_, ?_, ?_⟩
  · intro e he
    rcases (hmem e).mp he with rfl | hold
    · exact hid
    · exact h.ids e hold
  · intro e leaf did hdid
    rw [hsealed.epochLeaves] at hdid
    rw [hmem]
    rcases putAll_cases _ _ _ hdid with ⟨v, -, hin⟩ | ⟨-, hold⟩
    · obtain ⟨entry, -, heq⟩ := List.mem_map.mp hin
      exact Or.inl (Prod.mk.inj (Prod.mk.inj heq).1).1
    · exact Or.inr (h.leaves e leaf did hold)
  · intro e q hq
    rw [hsealed.pendingAnchors] at hq
    rw [hmem]
    cases pending with
    | none => exact ⟨Or.inr (h.pending e q hq).1, (h.pending e q hq).2⟩
    | some p =>
        simp only [getElem?_put] at hq
        split at hq
        · rename_i heq
          cases hq
          exact ⟨Or.inl ((hpending q rfl).symm.trans heq), heq⟩
        · exact ⟨Or.inr (h.pending e q hq).1, (h.pending e q hq).2⟩
  · intro tip idx hidx
    rw [hsealed.tipToPair] at hidx
    exact (hmem _).mpr (Or.inr (h.tips tip idx hidx))

/-! ## The id of the next epoch -/

/-- The epoch a job has closed and not stored. -/
def Job.closes : Job sdk → Option SealedSnapshot
  | .closing _ _ _ _ snapshot _ => some snapshot
  | _ => none

/-- The id the next sealed epoch will be stored under. -/
def Job.nextId (w : World sdk) (j : Job sdk) : Nat :=
  match j.closes with
  | some snapshot => snapshot.epochId
  | none => w.accumulator.epochId

/-- The records a job holds in memory. -/
def Job.records : Job sdk → List (PendingEpoch sdk)
  | .retrying _ _ _ _ queue => queue
  | .settling s => s.record :: s.later.getD []
  | _ => []

/-- The ids in use are below the next one, unless ids have run out. -/
structure Grounded (w : World sdk) (j : Job sdk) : Prop where
  accumulator : w.accumulator.Sound
  closes : ∀ snapshot, j.closes = some snapshot →
    (snapshot.leaves.map LeafEntry.leaf).Nodup ∧
      snapshot.epochId ≤ u64Max ∧
      w.accumulator.epochId = saturatingAdd snapshot.epochId 1
  store : w.store.Indexed
  past : ∀ e ∈ w.store.epochs, e < j.nextId w ∨ j.nextId w = u64Max
  records : ∀ p ∈ j.records, p.epochId ∈ w.store.epochs

theorem nextEpochId_le (st : Store sdk) : World.nextEpochId st ≤ u64Max := by
  unfold World.nextEpochId
  split
  · exact Nat.min_le_right _ _
  · decide

theorem lt_nextEpochId {st : Store sdk} (h : st.Indexed) :
    ∀ e ∈ st.epochs, e < World.nextEpochId st ∨
      World.nextEpochId st = u64Max := by
  intro e he
  unfold World.nextEpochId Store.lastSealedEpochId
  cases hmax : st.epochs.keys.getLast? with
  | none =>
      have hnil := List.getLast?_eq_none_iff.mp hmax
      have hmem := Std.ExtTreeMap.mem_keys.mpr he
      rw [hnil] at hmem
      cases hmem
  | some last =>
      obtain ⟨init, hkeys⟩ := List.getLast?_eq_some_iff.mp hmax
      have hmem := Std.ExtTreeMap.mem_keys.mpr he
      have hlast : last ≤ u64Max := by
        refine h.ids last (Std.ExtTreeMap.mem_keys.mp ?_)
        rw [hkeys]
        exact List.mem_append_right _ (List.mem_singleton_self _)
      -- The keys are in order, so none is past the last one.
      have hle : e ≤ last := by
        have hordered := Std.ExtTreeMap.ordered_keys (t := st.epochs)
        rw [hkeys] at hmem hordered
        rcases List.mem_append.mp hmem with hinit | hend
        · have hlt := (List.pairwise_append.mp hordered).2.2 e hinit last
            (List.mem_singleton_self _)
          exact le_of_lt (Nat.compare_eq_lt.mp hlt)
        · exact le_of_eq (List.mem_singleton.mp hend)
      simp only [saturatingAdd]
      omega

section Steps

variable {w : World sdk} {j j' : Job sdk}

/-- A step that leaves the world alone keeps `Grounded` when it opens no other
epoch and holds no new record. -/
theorem Grounded.of_job (h : Grounded w j) (hcloses : j'.closes = j.closes)
    (hrecords : ∀ p ∈ j'.records, p.epochId ∈ w.store.epochs) :
    Grounded w j' where
  accumulator := h.accumulator
  closes := hcloses ▸ h.closes
  store := h.store
  past := by simpa only [Job.nextId, hcloses] using h.past
  records := hrecords

/-- Nothing but the swap touches the accumulator. -/
theorem accumulator_after {c : Call sdk} {answer : Answer c}
    (h : ∀ t t' d, c ≠ .swapAndOpenNext t t' d) :
    (w.after c answer).accumulator = w.accumulator := by
  cases c <;> first | rfl | exact absurd rfl (h _ _ _)

/-- A call that writes nothing keeps `Grounded`. -/
theorem Grounded.of_read (h : Grounded w j) {c : Call sdk}
    {answer : Answer c} (hwrite : c.isWrite = false)
    (hswap : ∀ t t' d, c ≠ .swapAndOpenNext t t' d) :
    Grounded (w.after c answer) j := by
  have hstore : (w.after c answer).store = w.store :=
    after_of_not_write answer hwrite
  have hacc := @accumulator_after _ w c answer hswap
  exact ⟨hacc ▸ h.accumulator, hacc ▸ h.closes, hstore ▸ h.store,
    by simpa only [Job.nextId, hstore, hacc] using h.past,
    hstore ▸ h.records⟩

theorem Grounded.append (h : Grounded w j) (batch : List Hash32)
    (did : String) : Grounded (w.append batch did) j := by
  have hid : (w.append batch did).accumulator.epochId =
      w.accumulator.epochId :=
    (Accumulator.appendBatch_frame w.accumulator batch did).1
  refine ⟨h.accumulator.appendBatch batch did, ?_, h.store, ?_,
    h.records⟩
  · intro snapshot hs
    rw [hid]
    exact h.closes snapshot hs
  · simp only [Job.nextId, hid]
    exact h.past

theorem Grounded.boot {st : Store sdk} (h : st.Indexed)
    (log : List (Event sdk)) (now durationSecs : Nat) :
    Grounded (World.boot st log now durationSecs) .idle where
  accumulator := Accumulator.sound_new (nextEpochId_le st)
  closes := by rintro _ ⟨⟩
  store := h
  past := lt_nextEpochId h
  records := by rintro _ ⟨⟩

theorem Grounded.swap {ctx : Option WitnessContext}
    {now durationSecs : Nat} {down : List AnchorMethod}
    (h : Grounded w (.retrying ctx now durationSecs down [])) :
    Grounded
      (w.after (.swapAndOpenNext now now durationSecs)
        (w.accumulator.swapAndOpenNext now now durationSecs).1)
      (.closing ctx now durationSecs down
        (w.accumulator.swapAndOpenNext now now durationSecs).1 none) where
  accumulator := h.accumulator.swapAndOpenNext now now durationSecs
  closes := by
    rintro _ ⟨⟩
    exact ⟨h.accumulator.seen.nodup, h.accumulator.id_le, rfl⟩
  store := h.store
  past := h.past
  records := by rintro _ ⟨⟩

/-- A write that keeps the epochs partition and the job's ids. -/
theorem Grounded.of_write (h : Grounded w j) {w' : World sdk}
    (hacc : w'.accumulator = w.accumulator)
    (hepochs : w'.store.epochs = w.store.epochs) (hstore : w'.store.Indexed)
    (hcloses : j'.closes = j.closes)
    (hrecords : ∀ p ∈ j'.records, p.epochId ∈ w.store.epochs) :
    Grounded w' j' where
  accumulator := hacc ▸ h.accumulator
  closes := by
    rw [hcloses, hacc]
    exact h.closes
  store := hstore
  past := by
    simp only [Job.nextId, hcloses, hacc, hepochs]
    exact h.past
  records := by simpa only [hepochs] using hrecords

end Steps

theorem sameEpoch_discardAnchor (p : PendingEpoch sdk) (m : AnchorMethod) :
    PendingEpoch.SameEpoch (discardAnchor p m) p :=
  (PendingEpoch.sameEpoch_dropAnchor _ m).trans
    (PendingEpoch.sameEpoch_countAnchorFault p m)

/-- What settling a record never changes. -/
theorem Settles.frame {w w' : World sdk} {s s' : Settling sdk}
    (h : Settles w s w' s') :
    PendingEpoch.SameEpoch s'.record s.record ∧ s'.later = s.later ∧
      w'.accumulator = w.accumulator := by
  have hrefl : PendingEpoch.SameEpoch s.record s.record :=
    ⟨rfl, rfl, rfl, rfl, rfl⟩
  cases h with
  | skip | unwired | refused | store | giveUp | hold | mintFailed | judge
  | keep | resave => exact ⟨hrefl, rfl, rfl⟩
  | obtained =>
      exact ⟨PendingEpoch.sameEpoch_setAnchor _ _ _ _, rfl, rfl⟩
  | @mint m v c answer _ hminting =>
      refine ⟨hrefl, rfl, ?_⟩
      cases c <;> first | rfl | cases hminting
  | blame => exact ⟨sameEpoch_discardAnchor _ _, rfl, rfl⟩
  | wait =>
      dsimp only
      split
      · exact ⟨hrefl, rfl, rfl⟩
      · exact ⟨PendingEpoch.sameEpoch_touchAnchor _ _ _, rfl, rfl⟩
  | abandon =>
      dsimp only
      split
      · exact ⟨sameEpoch_discardAnchor _ _, rfl, rfl⟩
      · exact ⟨(sameEpoch_discardAnchor _ _).trans
          (PendingEpoch.sameEpoch_touchAnchor _ _ _), rfl, rfl⟩
  | serve =>
      dsimp only
      split
      · exact ⟨PendingEpoch.sameEpoch_without _ _, rfl, rfl⟩
      · exact ⟨hrefl, rfl, rfl⟩

/-- The witnesses of a judgement carry its epoch and method. -/
theorem Settling.Judged.of_mem {s : Settling sdk} {log : List (Event sdk)}
    {m : AnchorMethod} {v : TimestampValue}
    {minted : List (MintedWitness sdk)} {verdict : Option SelfCheckVerdict}
    (h : s.Judged log m v minted verdict) {wit : MintedWitness sdk}
    (hw : wit ∈ minted) :
    wit.epochId = s.record.epochId ∧ wit.method = m := by
  obtain ⟨snapshot, batch, hrestore, hfor⟩ := h.mintedFor
  obtain ⟨hid, hmethod, -⟩ := hfor.of_mem hw
  exact ⟨hid.trans (PendingEpoch.restore_epochId hrestore), hmethod⟩

/-- A settling step keeps `Grounded`. -/
theorem Grounded.settles {w w' : World sdk} {s s' : Settling sdk}
    (h : Grounded w (.settling s)) (hstep : Settles w s w' s')
    (hjudged : ∀ m v minted verdict, s.phase = .judged m v minted verdict →
      s.Judged w.log m v minted verdict) :
    Grounded w' (.settling s') := by
  obtain ⟨hsame, hlater, hacc⟩ := hstep.frame
  have hown := h.records s.record (List.mem_cons_self ..)
  have hrecords : ∀ p ∈ (Job.settling s').records,
      p.epochId ∈ w.store.epochs := by
    intro p hp
    rcases List.mem_cons.mp hp with rfl | hp
    · exact hsame.1 ▸ hown
    · exact h.records p (List.mem_cons_of_mem _ (hlater ▸ hp))
  have hwrite : w'.store.epochs = w.store.epochs ∧ w'.store.Indexed := by
    rcases hstep.emits with rfl | ⟨ev, hev, rfl⟩
    · exact ⟨rfl, h.store⟩
    · have hwritten := hev.written
      generalize (w.emit ev).store = st' at hwritten
      cases hwritten with
      | unchanged => exact ⟨rfl, h.store⟩
      | saved => exact ⟨rfl, h.store.savePending hown⟩
      | @served s m v minted o st' hphase _ hserved =>
          have hid : (s.record.without m).epochId ∈ w.store.epochs := hown
          refine ⟨hserved.epochs, h.store.served hid ?_ hserved⟩
          exact fun wit hw => ((hjudged _ _ _ _ hphase).of_mem hw).1
  exact h.of_write hacc hwrite.1 hwrite.2 rfl hrecords

theorem buildRecord_id {snapshot : SealedSnapshot}
    {batch : Option (EpochBatch sdk)} {record : EpochRecord}
    (h : buildRecord snapshot batch = .ok record) :
    record.id = snapshot.epochId := by
  cases batch with
  | none =>
      cases h
      rfl
  | some batch =>
      simp only [buildRecord, Except.map] at h
      split at h
      · cases h
      · cases h
        rfl

theorem pendingFor_eq_some {ctx : Option WitnessContext}
    {snapshot : SealedSnapshot} {batch : Option (EpochBatch sdk)}
    {p : PendingEpoch sdk} (h : pendingFor ctx snapshot batch = some p) :
    ∃ c b, ctx = some c ∧ batch = some b ∧ c.methods ≠ [] ∧
      p = PendingEpoch.new snapshot b c.methods := by
  unfold pendingFor at h
  split at h
  · split at h
    · cases h
    · rename_i hne
      cases h
      exact ⟨_, _, rfl, rfl, by simpa using hne, rfl⟩
  · cases h

theorem closes_persisted {ctx : Option WitnessContext} {now durationSecs : Nat}
    {down : List AnchorMethod} {pending : Option (PendingEpoch sdk)}
    {o : WriteOutcome} :
    (Job.persisted ctx now durationSecs down pending o).closes = none := by
  unfold Job.persisted
  split <;> rfl

theorem records_persisted {ctx : Option WitnessContext}
    {now durationSecs : Nat} {down : List AnchorMethod}
    {pending : Option (PendingEpoch sdk)} {o : WriteOutcome}
    {p : PendingEpoch sdk}
    (h : p ∈ (Job.persisted ctx now durationSecs down pending o).records) :
    o = .ok ∧ pending = some p := by
  unfold Job.persisted at h
  split at h
  · obtain rfl : p = _ := by simpa [Job.records] using h
    exact ⟨rfl, rfl⟩
  · simp [Job.records] at h

/-- The id after a closed epoch is past every id in use. -/
theorem Grounded.past_next {w : World sdk} {j : Job sdk} (h : Grounded w j)
    {snapshot : SealedSnapshot} (hcloses : j.closes = some snapshot) :
    ∀ e ∈ w.store.epochs, e < w.accumulator.epochId ∨
      w.accumulator.epochId = u64Max := by
  intro e he
  obtain ⟨-, hid, hnext⟩ := h.closes snapshot hcloses
  have hpast := h.past e he
  simp only [Job.nextId, hcloses] at hpast
  rw [hnext]
  simp only [saturatingAdd]
  omega

/-- The seal write keeps `Grounded`: the next id is past the sealed one. -/
theorem Grounded.persist {w : World sdk} {ctx : Option WitnessContext}
    {now durationSecs : Nat} {down : List AnchorMethod}
    {snapshot : SealedSnapshot}
    {prepared : Option (Except String sdk.PreparedBatch)}
    {batch : Option (EpochBatch sdk)} {record : EpochRecord}
    {o : WriteOutcome}
    (h : Grounded w (.closing ctx now durationSecs down snapshot prepared))
    (hrecord : buildRecord snapshot batch = .ok record)
    (hperm : Permitted w (.persistSealedEpoch record snapshot.leaves []
      (pendingFor ctx snapshot batch)) o) :
    Grounded
      (w.after (.persistSealedEpoch record snapshot.leaves []
        (pendingFor ctx snapshot batch)) o)
      (.persisted ctx now durationSecs down
        (pendingFor ctx snapshot batch) o) := by
  obtain ⟨-, hid, hnext⟩ := h.closes snapshot rfl
  have hrid := buildRecord_id hrecord
  have hpending : ∀ p ∈ pendingFor ctx snapshot batch,
      p.epochId = record.id := by
    intro p hp
    obtain ⟨c, b, -, -, -, rfl⟩ := pendingFor_eq_some hp
    exact hrid.symm
  have hpast := h.past_next rfl
  refine ⟨h.accumulator, ?_, ?_, ?_, ?_⟩
  · rw [closes_persisted]
    rintro _ ⟨⟩
  all_goals
    simp only [World.after]
    rcases after_seal hperm with ⟨ho, heq⟩ | ⟨ho, hsealed⟩
  · rw [heq]
    exact h.store
  · exact h.store.sealed (hrid ▸ hid) hpending hsealed
  · rw [Job.nextId, closes_persisted, heq]
    exact hpast
  · rw [Job.nextId, closes_persisted, hsealed.epochs]
    intro e he
    rw [Std.ExtTreeMap.mem_insert, Std.LawfulEqCmp.compare_eq_iff_eq] at he
    rcases he with rfl | he
    · show record.id < w.accumulator.epochId ∨ w.accumulator.epochId = u64Max
      rw [hnext, hrid]
      simp only [saturatingAdd]
      omega
    · exact hpast e he
  · intro p hp
    obtain ⟨rfl, -⟩ := records_persisted hp
    cases ho
  · intro p hp
    obtain ⟨-, hsome⟩ := records_persisted hp
    rw [hsealed.epochs, Std.ExtTreeMap.mem_insert,
      Std.LawfulEqCmp.compare_eq_iff_eq]
    exact Or.inl (hpending p hsome).symm

/-- Ids stay in order in every run that starts on an indexed store. -/
theorem Reach.grounded {st : Store sdk} {w : World sdk} {j : Job sdk}
    (hst : st.Indexed) (h : Reach st w j) : Grounded w j := by
  induction h with
  | boot now durationSecs => exact .boot hst [] now durationSecs
  | append batch did _ ih => exact ih.append batch did
  | @restart w j now durationSecs _ ih =>
      exact .boot ih.store w.log now durationSecs
  | tick now durationSecs _ _ ih =>
      exact ⟨ih.accumulator, ih.closes, ih.store, ih.past, by rintro _ ⟨⟩⟩
  | refuse _ ih => exact ih.of_job rfl (by rintro _ ⟨⟩)
  | plain _ ih => exact ih.of_job rfl (by rintro _ ⟨⟩)
  | @list w ctx now durationSecs answer _ hperm ih =>
      refine (ih.of_read rfl (by rintro _ _ _ ⟨⟩)).of_job rfl ?_
      intro p hp
      cases answer with
      | error e => cases hp
      | ok pendings =>
          obtain rfl := hperm pendings rfl
          obtain ⟨e, he⟩ := mem_inOrder.mp hp
          have hpend := ih.store.pending e p he
          exact hpend.2 ▸ hpend.1
  | visit _ ih =>
      refine ih.of_job rfl ?_
      exact ih.records
  | settle hw hstep ih =>
      exact ih.settles hstep fun m v minted verdict =>
        hw.judged _ m v minted verdict rfl
  | leave _ _ _ hlater ih =>
      refine ih.of_job rfl fun p hp => ih.records p (List.mem_cons_of_mem _ ?_)
      rw [hlater]
      exact hp
  | swap _ ih => exact ih.swap
  | prepare _ _ ih =>
      exact (ih.of_read rfl (by rintro _ _ _ ⟨⟩)).of_job rfl (by rintro _ ⟨⟩)
  | fail _ _ ih =>
      exact ⟨ih.accumulator, by rintro _ ⟨⟩, ih.store, ih.past_next rfl,
        by rintro _ ⟨⟩⟩
  | persist _ _ hrecord hperm ih => exact ih.persist hrecord hperm
  | finish _ _ _ _ ih => exact ih.of_job rfl (by rintro _ ⟨⟩)

/-- Nothing is stored under the id of a closed epoch that can be counted past. -/
theorem Grounded.fresh {w : World sdk} {j : Job sdk} (h : Grounded w j)
    {snapshot : SealedSnapshot} (hcloses : j.closes = some snapshot)
    (hid : snapshot.epochId < u64Max) : snapshot.epochId ∉ w.store.epochs := by
  intro hmem
  have hpast := h.past _ hmem
  simp only [Job.nextId, hcloses] at hpast
  omega

end AquaTimestamp
