import AquaTimestamp.Settlement.History

/-!
# What the writes leave in the store

Three calls write to the store.  Each either changes nothing or commits its
whole batch; the structures below say what a committed batch leaves in every
partition, so that later proofs never unfold the store operations.
-/

namespace AquaTimestamp

open Support Partition

variable {sdk : Sdk}

/-- `st'` is `st` with the served witnesses and the remaining record. -/
structure Served (st : Store sdk) (remaining : PendingEpoch sdk)
    (minted : List (MintedWitness sdk)) (st' : Store sdk) : Prop where
  epochs : st'.epochs = st.epochs
  epochLeaves : st'.epochLeaves = st.epochLeaves
  leafOwner : st'.leafOwner = st.leafOwner
  pendingAnchors : st'.pendingAnchors =
    if remaining.methods = [] then st.pendingAnchors.erase remaining.epochId
    else st.pendingAnchors.insert remaining.epochId remaining
  tipToPair : st'.tipToPair = st.tipToPair.insertMany
    (minted.map fun w => (w.signatureHash, Store.pairIndex w))
  leafToTips : st'.leafToTips = st.leafToTips.insertMany
    (minted.map fun w => ((w.leaf, w.method.methodByte), w.signatureHash))
  selfCheckedTips : st'.selfCheckedTips = st.selfCheckedTips.insertMany
    (minted.map fun w => (w.signatureHash, ()))
  witnessRevisions : st'.witnessRevisions = st.witnessRevisions.insertMany
    (minted.flatMap fun w =>
      [(w.objectHash, w.objectRevision), (w.signatureHash, w.signatureRevision)])

/-- `st'` is `st` with a sealed epoch and its pending record, if any. -/
structure Sealed (st : Store sdk) (record : EpochRecord)
    (leaves : List LeafEntry) (pending : Option (PendingEpoch sdk))
    (st' : Store sdk) : Prop where
  epochs : st'.epochs = st.epochs.insert record.id record
  epochLeaves : st'.epochLeaves = st.epochLeaves.insertMany
    (leaves.map fun e => ((record.id, e.leaf), e.submitterDid))
  leafOwner : st'.leafOwner = st.leafOwner.insertMany
    (leaves.map fun e => (e.leaf, e.submitterDid))
  pendingAnchors : st'.pendingAnchors =
    match pending with
    | none => st.pendingAnchors
    | some p => st.pendingAnchors.insert p.epochId p
  tipToPair : st'.tipToPair = st.tipToPair
  leafToTips : st'.leafToTips = st.leafToTips
  selfCheckedTips : st'.selfCheckedTips = st.selfCheckedTips
  witnessRevisions : st'.witnessRevisions = st.witnessRevisions

namespace Store

variable {st st' : Store sdk}

theorem served_of_persistPendingMinted {remaining : PendingEpoch sdk}
    {done : AnchorMethod} {minted : List (MintedWitness sdk)}
    (h : st.persistPendingMinted remaining done minted = .ok st') :
    Served st remaining minted st' := by
  unfold persistPendingMinted at h
  split at h
  · cases h
  · cases h
    constructor
    case pendingAnchors =>
      simp only [replacePending, dropPendingLeaves, writeWitnesses,
        List.isEmpty_iff]
    all_goals rfl

theorem sealed_of_persistSealedEpoch {record : EpochRecord}
    {leaves : List LeafEntry} {pending : Option (PendingEpoch sdk)}
    (h : st.persistSealedEpochWithPending record leaves [] pending = .ok st') :
    Sealed st record leaves pending st' := by
  unfold persistSealedEpochWithPending at h
  split at h
  · cases h
    constructor <;> simp [writeEpoch, writeWitnesses]
  · split at h
    · cases h
    · cases h
      constructor <;> simp [writeEpoch, writeWitnesses, writePending]

end Store

theorem Served.pending_self {st st' : Store sdk}
    {remaining : PendingEpoch sdk} {minted : List (MintedWitness sdk)}
    (h : Served st remaining minted st') :
    st'.pendingAnchors[remaining.epochId]? =
      if remaining.methods = [] then none else some remaining := by
  rw [h.pendingAnchors]
  split <;> simp

theorem Served.pending_of_ne {st st' : Store sdk}
    {remaining : PendingEpoch sdk} {minted : List (MintedWitness sdk)}
    (h : Served st remaining minted st') {e : Nat}
    (hne : remaining.epochId ≠ e) :
    st'.pendingAnchors[e]? = st.pendingAnchors[e]? := by
  rw [h.pendingAnchors]
  split
  · rw [getElem?_remove, if_neg hne]
  · rw [getElem?_put, if_neg hne]

theorem savePending_self (st : Store sdk) (p : PendingEpoch sdk) :
    (st.savePending p).pendingAnchors[p.epochId]? = some p := by
  simp [Store.savePending]

theorem savePending_of_ne (st : Store sdk) (p : PendingEpoch sdk) {e : Nat}
    (hne : p.epochId ≠ e) :
    (st.savePending p).pendingAnchors[e]? = st.pendingAnchors[e]? := by
  simp [Store.savePending, getElem?_put, hne]

/-! ## The slots of a record's leaves -/

/-- The record holds the leaf. -/
def PendingEpoch.HasLeaf (p : PendingEpoch sdk) (leaf : Hash32) : Prop :=
  ∃ hashes, p.leafHashes = .ok hashes ∧ leaf ∈ hashes

/-- The slots of a record's leaves for a list of methods. -/
def PendingEpoch.slots (p : PendingEpoch sdk) (methods : List AnchorMethod) :
    List (Hash32 × UInt8) :=
  (p.leafHashes.toOption.getD []).flatMap fun leaf =>
    methods.map fun m => (leaf, m.methodByte)

theorem PendingEpoch.mem_slots {p : PendingEpoch sdk}
    {methods : List AnchorMethod} {leaf : Hash32} {m : AnchorMethod} :
    (leaf, m.methodByte) ∈ p.slots methods ↔ p.HasLeaf leaf ∧ m ∈ methods := by
  unfold PendingEpoch.slots PendingEpoch.HasLeaf
  simp only [List.mem_flatMap, List.mem_map, Prod.mk.injEq,
    AnchorMethod.methodByte_inj]
  constructor
  · rintro ⟨leaf', hleaf, m', hm, rfl, rfl⟩
    exact ⟨mem_toOption_getD.mp hleaf, hm⟩
  · rintro ⟨hleaf, hm⟩
    exact ⟨leaf, mem_toOption_getD.mpr hleaf, m, hm, rfl, rfl⟩

theorem PendingEpoch.SameEpoch.hasLeaf {p q : PendingEpoch sdk}
    (h : PendingEpoch.SameEpoch p q) {leaf : Hash32} :
    p.HasLeaf leaf ↔ q.HasLeaf leaf := by
  simp only [PendingEpoch.HasLeaf, PendingEpoch.leafHashes, h.2.2.2.1]

theorem PendingEpoch.hasLeaf_new {snapshot : SealedSnapshot}
    {batch : EpochBatch sdk} {methods : List AnchorMethod} {leaf : Hash32} :
    (PendingEpoch.new snapshot batch methods).HasLeaf leaf ↔
      leaf ∈ snapshot.leaves.map LeafEntry.leaf := by
  unfold PendingEpoch.HasLeaf
  rw [PendingEpoch.leafHashes_new]
  constructor
  · rintro ⟨hashes, heq, hleaf⟩
    cases heq
    exact hleaf
  · exact fun hleaf => ⟨_, rfl, hleaf⟩

namespace Store

variable {st st' : Store sdk}

theorem slot_of_persistSealedEpoch {record : EpochRecord}
    {leaves : List LeafEntry} {witnesses : List (MintedWitness sdk)}
    {p : PendingEpoch sdk}
    (h : st.persistSealedEpochWithPending record leaves witnesses (some p) =
      .ok st') (key : Hash32 × UInt8) :
    st'.pendingLeaves[key]? =
      if key ∈ p.slots p.methods then some p.epochId
      else st.pendingLeaves[key]? := by
  unfold persistSealedEpochWithPending at h
  dsimp only at h
  split at h
  · cases h
  rename_i hashes hhashes
  cases h
  have hslots : p.slots p.methods = hashes.flatMap fun leaf =>
      p.methods.map fun m => (leaf, m.methodByte) := by
    rw [PendingEpoch.slots, hhashes]
    rfl
  have hentries : ∀ v, (key, v) ∈ (hashes.flatMap fun leaf =>
      p.methods.map fun m => ((leaf, m.methodByte), p.epochId)) ↔
        key ∈ p.slots p.methods ∧ v = p.epochId := by
    intro v
    rw [hslots]
    simp only [List.mem_flatMap, List.mem_map, Prod.mk.injEq]
    constructor
    · rintro ⟨leaf, hleaf, m, hm, hkey, hv⟩
      exact ⟨⟨leaf, hleaf, m, hm, hkey⟩, hv.symm⟩
    · rintro ⟨⟨leaf, hleaf, m, hm, hkey⟩, hv⟩
      exact ⟨leaf, hleaf, m, hm, hkey, hv.symm⟩
  simp only [writeWitnesses, writeEpoch, writePending]
  split
  · rename_i hkey
    exact putAll_of_mem_unique ((hentries _).mpr ⟨hkey, rfl⟩)
      fun v hv => ((hentries v).mp hv).2
  · rename_i hkey
    exact putAll_of_not_mem fun v hv => hkey ((hentries v).mp hv).1

theorem slot_of_persistPendingMinted {remaining : PendingEpoch sdk}
    {done : AnchorMethod} {minted : List (MintedWitness sdk)}
    (h : st.persistPendingMinted remaining done minted = .ok st')
    (key : Hash32 × UInt8) :
    st'.pendingLeaves[key]? =
      if key ∈ remaining.slots [done] ∧
          st.pendingLeaves[key]? = some remaining.epochId then none
      else st.pendingLeaves[key]? := by
  unfold persistPendingMinted at h
  split at h
  · cases h
  rename_i hashes hhashes
  cases h
  have hslots : remaining.slots [done] =
      hashes.map fun leaf => (leaf, done.methodByte) := by
    rw [PendingEpoch.slots, hhashes]
    exact List.map_eq_flatMap.symm
  rw [hslots]
  simp only [replacePending, dropPendingLeaves, writeWitnesses,
    getElem?_removeAll, List.mem_filter]
  refine if_congr (and_congr_right fun _ => ?_) rfl rfl
  exact decide_eq_true_iff

end Store

/-! ## Committed and uncommitted calls -/

variable {w : World sdk}

theorem after_save (p : PendingEpoch sdk) (o : WriteOutcome) :
    (o.committed = false ∧ w.store.after (.savePending p) o = w.store) ∨
      (o.committed = true ∧
        w.store.after (.savePending p) o = w.store.savePending p) := by
  cases ho : o.committed with
  | false => exact Or.inl ⟨rfl, by simp [Store.after, Store.commit, ho]⟩
  | true => exact Or.inr ⟨rfl, by simp [Store.after, Store.commit, ho]⟩

theorem after_serve {remaining : PendingEpoch sdk} {done : AnchorMethod}
    {minted : List (MintedWitness sdk)} {o : WriteOutcome}
    (hperm : Permitted w (.persistPendingMinted remaining done minted) o) :
    (o.committed = false ∧
      w.store.after (.persistPendingMinted remaining done minted) o = w.store) ∨
      (o.committed = true ∧ Served w.store remaining minted
        (w.store.after (.persistPendingMinted remaining done minted) o)) := by
  cases ho : o.committed with
  | false =>
      refine Or.inl ⟨rfl, ?_⟩
      simp only [Store.after, Store.commit, ho]
      split <;> rfl
  | true =>
      obtain ⟨st', hst'⟩ := hperm ho
      refine Or.inr ⟨rfl, ?_⟩
      simp only [Store.after, Store.commit, hst', ho, if_true]
      exact Store.served_of_persistPendingMinted hst'

theorem after_seal {record : EpochRecord} {leaves : List LeafEntry}
    {pending : Option (PendingEpoch sdk)} {o : WriteOutcome}
    (hperm : Permitted w (.persistSealedEpoch record leaves [] pending) o) :
    (o.committed = false ∧
      w.store.after (.persistSealedEpoch record leaves [] pending) o =
        w.store) ∨
      (o.committed = true ∧ Sealed w.store record leaves pending
        (w.store.after (.persistSealedEpoch record leaves [] pending) o)) := by
  cases ho : o.committed with
  | false =>
      refine Or.inl ⟨rfl, ?_⟩
      simp only [Store.after, Store.commit, ho]
      split <;> rfl
  | true =>
      obtain ⟨st', hst'⟩ := hperm ho
      refine Or.inr ⟨rfl, ?_⟩
      simp only [Store.after, Store.commit, hst', ho, if_true]
      exact Store.sealed_of_persistSealedEpoch hst'

/-- The calls that may change the store. -/
def Call.isWrite : Call sdk → Bool
  | .persistSealedEpoch .. => true
  | .persistPendingMinted .. => true
  | .savePending _ => true
  | _ => false

theorem after_of_not_write {c : Call sdk} (answer : Answer c)
    (h : c.isWrite = false) : w.store.after c answer = w.store := by
  cases c <;> first | rfl | cases h

/-! ## One write at a time -/

/-- How an event changes the store, with the job that emits it. -/
inductive Written (w : World sdk) : Job sdk → Event sdk → Store sdk → Prop where
  | unchanged (j : Job sdk) (ev : Event sdk) : Written w j ev w.store
  | saved {s : Settling sdk} {o : WriteOutcome} :
      s.phase.Saves → o.committed = true →
        Written w (.settling s) (.call (.savePending s.record) o)
          (w.store.savePending s.record)
  | served {s : Settling sdk} {m : AnchorMethod} {v : TimestampValue}
      {minted : List (MintedWitness sdk)} {o : WriteOutcome}
      {st' : Store sdk} :
      s.phase = .judged m v minted none → o.committed = true →
      Served w.store (s.record.without m) minted st' →
        Written w (.settling s)
          (.call (.persistPendingMinted (s.record.without m) m minted) o) st'
  | sealed {ctx : Option WitnessContext} {now durationSecs : Nat}
      {down : List AnchorMethod} {snapshot : SealedSnapshot}
      {prepared : Option (Except String sdk.PreparedBatch)}
      {batch : Option (EpochBatch sdk)} {record : EpochRecord}
      {o : WriteOutcome} {st' : Store sdk} :
      Batched snapshot prepared batch →
      buildRecord snapshot batch = .ok record → o.committed = true →
      Sealed w.store record snapshot.leaves (pendingFor ctx snapshot batch) st' →
        Written w (.closing ctx now durationSecs down snapshot prepared)
          (.call (.persistSealedEpoch record snapshot.leaves []
            (pendingFor ctx snapshot batch)) o) st'

theorem store_emit_call (c : Call sdk) (answer : Answer c) :
    (w.emit (.call c answer)).store = w.store.after c answer :=
  rfl

/-- Every event leaves the store alone or commits one write of its job. -/
theorem Emits.written {j : Job sdk} {ev : Event sdk} (h : Emits w j ev) :
    Written w j ev (w.emit ev).store := by
  cases h with
  | boot | append | tick | list | swap | prepare | provider | judge =>
      exact .unchanged _ _
  | @mint s m v c answer hphase hminting =>
      have hwrite : c.isWrite = false := by
        cases c <;> first | rfl | cases hminting
      rw [store_emit_call, after_of_not_write answer hwrite]
      exact .unchanged _ _
  | @save s o hphase =>
      rcases after_save (w := w) s.record o with ⟨-, heq⟩ | ⟨ho, heq⟩
      · rw [store_emit_call, heq]
        exact .unchanged _ _
      · rw [store_emit_call, heq]
        exact .saved hphase ho
  | serve hphase hperm =>
      rcases after_serve hperm with ⟨-, heq⟩ | ⟨ho, hserved⟩
      · rw [store_emit_call, heq]
        exact .unchanged _ _
      · exact .served hphase ho hserved
  | persist hbatch hrecord hperm =>
      rcases after_seal hperm with ⟨-, heq⟩ | ⟨ho, hsealed⟩
      · rw [store_emit_call, heq]
        exact .unchanged _ _
      · exact .sealed hbatch hrecord ho hsealed

/-- The leaves a committed seal writes. -/
def Event.sealedEntries : Event sdk → List LeafEntry
  | .call (.persistSealedEpoch _ leaves _ _) o =>
      if o.committed then leaves else []
  | _ => []

/-- The witnesses a committed serve writes. -/
def Event.servedWitnesses : Event sdk → List (MintedWitness sdk)
  | .call (.persistPendingMinted _ _ minted) o =>
      if o.committed then minted else []
  | _ => []

/-- The pending record a committed event leaves in the store. -/
def Event.stores : Event sdk → Option (PendingEpoch sdk)
  | .call (.savePending p) o => if o.committed then some p else none
  | .call (.persistPendingMinted p _ _) o =>
      if o.committed ∧ p.methods ≠ [] then some p else none
  | .call (.persistSealedEpoch _ _ _ pending) o =>
      if o.committed then pending else none
  | _ => none

/-- The record an event stores is found under its epoch. -/
theorem Emits.stores_eq {j : Job sdk} {ev : Event sdk}
    (h : Emits w j ev) {p : PendingEpoch sdk} (hp : ev.stores = some p) :
    (w.emit ev).store.pendingAnchors[p.epochId]? = some p := by
  cases h with
  | boot | append | tick | list | swap | prepare | provider | judge => cases hp
  | @mint s m v c answer _ hminting =>
      cases c <;> first | cases hp | cases hminting
  | @save s o _ =>
      rw [store_emit_call]
      rcases after_save (w := w) s.record o with ⟨ho, -⟩ | ⟨ho, heq⟩
      · simp [Event.stores, ho] at hp
      · obtain rfl : s.record = p := by simpa [Event.stores, ho] using hp
        rw [heq, savePending_self]
  | @serve s m v minted o _ hperm =>
      rw [store_emit_call]
      rcases after_serve hperm with ⟨ho, -⟩ | ⟨ho, hserved⟩
      · simp [Event.stores, ho] at hp
      · have hself := hserved.pending_self
        by_cases hnil : (s.record.without m).methods = []
        · simp [Event.stores, hnil] at hp
        · obtain rfl : s.record.without m = p := by
            simpa [Event.stores, ho, hnil] using hp
          rw [hself, if_neg hnil]
  | @persist ctx now durationSecs down snapshot prepared batch record o _ _ hperm =>
      rw [store_emit_call]
      rcases after_seal hperm with ⟨ho, -⟩ | ⟨ho, hsealed⟩
      · simp [Event.stores, ho] at hp
      · have hpending : pendingFor ctx snapshot batch = some p := by
          simpa [Event.stores, ho] using hp
        have hpart := hsealed.pendingAnchors
        rw [hpending] at hpart ⊢
        rw [hpart]
        simp

theorem Emits.epochs_kept {j : Job sdk} {ev : Event sdk}
    (hev : Emits w j ev) {e : Nat} (he : e ∈ w.store.epochs) :
    e ∈ (w.emit ev).store.epochs := by
  have hwritten := hev.written
  generalize (w.emit ev).store = st' at hwritten
  cases hwritten with
  | unchanged | saved => exact he
  | served _ _ hserved =>
      rw [hserved.epochs]
      exact he
  | sealed _ _ _ hsealed =>
      rw [hsealed.epochs, Std.ExtTreeMap.mem_insert]
      exact Or.inr he

end AquaTimestamp
