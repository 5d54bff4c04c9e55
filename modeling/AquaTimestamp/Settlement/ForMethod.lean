import AquaTimestamp.Settlement.Writes

/-!
# What the store holds for one method

A pending record and the per-leaf lookups hold the state of both methods side
by side.  `forMethod` reads one method's part of a record, and `AgreeOn` says
that two stores hold the same for a method.  A write made for the other method
leaves that part alone, and one write made on two stores that agree leaves two
that agree.
-/

namespace AquaTimestamp

open Support Partition

variable {sdk : Sdk}

/-! ## One method's part of a record -/

/-- A pending record as one method sees it. -/
structure MethodRecord (sdk : Sdk) where
  epochId : Nat
  openedAt : Nat
  closedAt : Nat
  leaves : List PendingLeaf
  batch : sdk.PreparedBatch
  /-- How often the method is listed. -/
  listed : Nat
  anchor : Option StoredAnchor
  faults : UInt32

namespace PendingEpoch

def forMethod (p : PendingEpoch sdk) (m : AnchorMethod) : MethodRecord sdk where
  epochId := p.epochId
  openedAt := p.openedAt
  closedAt := p.closedAt
  leaves := p.leaves
  batch := p.batch
  listed := p.methods.count m
  anchor := p.anchorEntry m
  faults := p.anchorFaultCount m

/-- The method's part of a record that lists it. -/
def partFor (p : PendingEpoch sdk) (m : AnchorMethod) : Option (MethodRecord sdk) :=
  if m ∈ p.methods then some (p.forMethod m) else none

variable {p q : PendingEpoch sdk} {m m' : AnchorMethod}

section Reads

variable (h : p.forMethod m = q.forMethod m)

include h

theorem epochId_congr : p.epochId = q.epochId :=
  congrArg MethodRecord.epochId h

theorem anchorEntry_congr : p.anchorEntry m = q.anchorEntry m :=
  congrArg MethodRecord.anchor h

theorem anchorFaultCount_congr : p.anchorFaultCount m = q.anchorFaultCount m :=
  congrArg MethodRecord.faults h

theorem mem_methods_congr : m ∈ p.methods ↔ m ∈ q.methods := by
  have hcount : p.methods.count m = q.methods.count m := congrArg MethodRecord.listed h
  rw [← List.count_pos_iff, ← List.count_pos_iff, hcount]

theorem sameEpoch_congr : SameEpoch p q :=
  ⟨epochId_congr h, congrArg MethodRecord.openedAt h, congrArg MethodRecord.closedAt h,
    congrArg MethodRecord.leaves h, congrArg MethodRecord.batch h⟩

theorem anchorRoot_congr : p.anchorRoot = q.anchorRoot := by
  rw [anchorRoot, anchorRoot, (sameEpoch_congr h).2.2.2.2]

theorem partFor_congr : p.partFor m = q.partFor m := by
  unfold partFor
  simp only [mem_methods_congr h, h]

end Reads

/-- Records of one epoch differ for a method in what the settlement keeps. -/
theorem SameEpoch.forMethod_eq (h : SameEpoch p q) (m : AnchorMethod) :
    p.forMethod m =
      { q.forMethod m with
        listed := p.methods.count m
        anchor := p.anchorEntry m
        faults := p.anchorFaultCount m } := by
  obtain ⟨hid, hopen, hclose, hleaves, hbatch⟩ := h
  simp only [forMethod, hid, hopen, hclose, hleaves, hbatch]

variable (p m)

theorem forMethod_setAnchor (v : TimestampValue) (now : Nat) :
    (p.setAnchor m v now).forMethod m =
      { p.forMethod m with anchor := some ⟨m, v, some now⟩ } := by
  rw [(sameEpoch_setAnchor p m v now).forMethod_eq, anchorEntry_setAnchor, if_pos rfl]
  rfl

theorem forMethod_dropAnchor :
    (p.dropAnchor m).forMethod m = { p.forMethod m with anchor := none } := by
  rw [(sameEpoch_dropAnchor p m).forMethod_eq, anchorEntry_dropAnchor, if_pos rfl]
  rfl

theorem forMethod_touchAnchor (now : Nat) :
    (p.touchAnchor m now).forMethod m =
      { p.forMethod m with
        anchor := (p.forMethod m).anchor.map fun a =>
          { a with firstSeen := a.firstSeen.or (some now) } } := by
  rw [(sameEpoch_touchAnchor p m now).forMethod_eq, anchorEntry_touchAnchor, if_pos rfl]
  rfl

theorem forMethod_countAnchorFault :
    (p.countAnchorFault m).1.forMethod m =
      { p.forMethod m with faults := (p.forMethod m).faults + 1 } := by
  rw [(sameEpoch_countAnchorFault p m).forMethod_eq, methods_countAnchorFault,
    anchorEntry_countAnchorFault, anchorFaultCount_countAnchorFault, if_pos rfl]
  rfl

theorem forMethod_without :
    (p.without m).forMethod m =
      { p.forMethod m with listed := 0, anchor := none } := by
  have hcount : (p.without m).methods.count m = 0 := by
    rw [List.count_eq_zero, mem_methods_without]
    simp
  rw [(sameEpoch_without p m).forMethod_eq, hcount, anchorEntry_without, if_pos rfl]
  rfl

variable {m} (hne : m' ≠ m)

include hne

theorem forMethod_setAnchor_of_ne (v : TimestampValue) (now : Nat) :
    (p.setAnchor m' v now).forMethod m = p.forMethod m := by
  rw [(sameEpoch_setAnchor p m' v now).forMethod_eq, anchorEntry_setAnchor, if_neg hne]
  rfl

theorem forMethod_dropAnchor_of_ne :
    (p.dropAnchor m').forMethod m = p.forMethod m := by
  rw [(sameEpoch_dropAnchor p m').forMethod_eq, anchorEntry_dropAnchor, if_neg hne]
  rfl

theorem forMethod_touchAnchor_of_ne (now : Nat) :
    (p.touchAnchor m' now).forMethod m = p.forMethod m := by
  rw [(sameEpoch_touchAnchor p m' now).forMethod_eq, anchorEntry_touchAnchor,
    if_neg hne]
  rfl

theorem forMethod_countAnchorFault_of_ne :
    (p.countAnchorFault m').1.forMethod m = p.forMethod m := by
  rw [(sameEpoch_countAnchorFault p m').forMethod_eq, methods_countAnchorFault,
    anchorEntry_countAnchorFault, anchorFaultCount_countAnchorFault, if_neg hne]
  rfl

theorem forMethod_without_of_ne :
    (p.without m').forMethod m = p.forMethod m := by
  have hcount : (p.without m').methods.count m = p.methods.count m := by
    refine List.count_filter ?_
    simpa using Ne.symm hne
  rw [(sameEpoch_without p m').forMethod_eq, hcount, anchorEntry_without, if_neg hne]
  rfl

end PendingEpoch

/-! ## One method's part of the store -/

namespace Store

/-- What is pending for a method in an epoch. -/
def recordFor (st : Store sdk) (m : AnchorMethod) (e : Nat) :
    Option (MethodRecord sdk) :=
  st.pendingAnchors[e]?.bind fun p => p.partFor m

/-- The index entry of a tip of a method. -/
def pairFor (st : Store sdk) (m : AnchorMethod) (tip : Hash32) : Option TipPairIndex :=
  (st.getTipPair tip).filter fun idx => idx.methodByte = m.methodByte

/-- The stores hold the same for a method. -/
structure AgreeOn (m : AnchorMethod) (st st' : Store sdk) : Prop where
  epochs : st.epochs = st'.epochs
  records : ∀ e, st.recordFor m e = st'.recordFor m e
  slots : ∀ leaf, st.getPendingEpochForLeaf leaf m = st'.getPendingEpochForLeaf leaf m
  tips : ∀ leaf, st.getTipForLeaf leaf m = st'.getTipForLeaf leaf m
  pairs : ∀ tip, st.pairFor m tip = st'.pairFor m tip

variable {m : AnchorMethod} {st st' st₁ st₂ st₁' st₂' : Store sdk}

theorem AgreeOn.refl (m : AnchorMethod) (st : Store sdk) : AgreeOn m st st :=
  ⟨rfl, fun _ => rfl, fun _ => rfl, fun _ => rfl, fun _ => rfl⟩

theorem AgreeOn.symm (h : AgreeOn m st st') : AgreeOn m st' st :=
  ⟨h.epochs.symm, fun e => (h.records e).symm, fun leaf => (h.slots leaf).symm,
    fun leaf => (h.tips leaf).symm, fun tip => (h.pairs tip).symm⟩

theorem AgreeOn.trans {st'' : Store sdk} (h : AgreeOn m st st')
    (h' : AgreeOn m st' st'') : AgreeOn m st st'' :=
  ⟨h.epochs.trans h'.epochs, fun e => (h.records e).trans (h'.records e),
    fun leaf => (h.slots leaf).trans (h'.slots leaf),
    fun leaf => (h.tips leaf).trans (h'.tips leaf),
    fun tip => (h.pairs tip).trans (h'.pairs tip)⟩

/-! ## Saving a record -/

theorem recordFor_savePending (st : Store sdk) (p : PendingEpoch sdk)
    (m : AnchorMethod) (e : Nat) :
    (st.savePending p).recordFor m e =
      if p.epochId = e then p.partFor m else st.recordFor m e := by
  unfold recordFor
  split
  · rename_i he
    rw [← he, savePending_self, Option.bind_some]
  · rename_i he
    rw [savePending_of_ne _ _ he]

/-- Saving a record in which the method's part is the stored one. -/
theorem agreeOn_savePending {p : PendingEpoch sdk}
    (hp : st.recordFor m p.epochId = p.partFor m) :
    AgreeOn m st (st.savePending p) where
  epochs := rfl
  records e := by
    rw [recordFor_savePending]
    split
    · rename_i he
      rw [← he, hp]
    · rfl
  slots _ := rfl
  tips _ := rfl
  pairs _ := rfl

theorem AgreeOn.savePending (h : AgreeOn m st₁ st₂) {p₁ p₂ : PendingEpoch sdk}
    (hp : p₁.forMethod m = p₂.forMethod m) :
    AgreeOn m (st₁.savePending p₁) (st₂.savePending p₂) where
  epochs := h.epochs
  records e := by
    rw [recordFor_savePending, recordFor_savePending, PendingEpoch.epochId_congr hp,
      PendingEpoch.partFor_congr hp, h.records e]
  slots := h.slots
  tips := h.tips
  pairs := h.pairs

/-! ## Serving -/

end Store

theorem Served.recordFor {st st' : Store sdk} {remaining : PendingEpoch sdk}
    {minted : List (MintedWitness sdk)} (h : Served st remaining minted st')
    (m : AnchorMethod) (e : Nat) :
    st'.recordFor m e =
      if remaining.epochId = e then remaining.partFor m else st.recordFor m e := by
  unfold Store.recordFor
  split
  · rename_i he
    rw [← he, h.pending_self]
    split
    · rename_i hnil
      simp [PendingEpoch.partFor, hnil]
    · rfl
  · rename_i he
    rw [h.pending_of_ne he]

namespace Store

variable {m : AnchorMethod} {st st' st₁ st₂ st₁' st₂' : Store sdk}
variable {done : AnchorMethod} {minted : List (MintedWitness sdk)}

/-- A serve of the other method, when no tip of this one is overwritten. -/
theorem agreeOn_persistPendingMinted {p : PendingEpoch sdk}
    (h : st.persistPendingMinted p done minted = .ok st') (hne : done ≠ m)
    (hminted : ∀ w ∈ minted, w.method = done)
    (hp : st.recordFor m p.epochId = p.partFor m)
    (htips : ∀ w ∈ minted, st.pairFor m w.signatureHash = none) :
    AgreeOn m st st' := by
  have hserved := served_of_persistPendingMinted h
  refine ⟨hserved.epochs.symm, ?_, ?_, ?_, ?_⟩
  · intro e
    rw [hserved.recordFor]
    split
    · rename_i he
      rw [← he, hp]
    · rfl
  · intro leaf
    unfold getPendingEpochForLeaf
    rw [slot_of_persistPendingMinted h, if_neg]
    rintro ⟨hslot, -⟩
    exact hne (List.mem_singleton.mp (PendingEpoch.mem_slots.mp hslot).2).symm
  · intro leaf
    unfold getTipForLeaf
    rw [hserved.leafToTips, putAll_of_not_mem]
    rintro tip hmem
    obtain ⟨w, hw, heq⟩ := List.mem_map.mp hmem
    obtain ⟨hkey, -⟩ := Prod.mk.inj heq
    have hbyte := AnchorMethod.methodByte_injective (Prod.mk.inj hkey).2
    exact hne ((hminted w hw).symm.trans hbyte)
  · intro tip
    unfold pairFor getTipPair
    rw [hserved.tipToPair]
    rcases putAll_cases st.tipToPair
      (minted.map fun w => (w.signatureHash, pairIndex w)) tip rfl with
      ⟨idx, hsome, hmem⟩ | ⟨-, hold⟩
    · obtain ⟨w, hw, heq⟩ := List.mem_map.mp hmem
      obtain ⟨rfl, rfl⟩ := Prod.mk.inj heq
      have hbyte : ¬ (pairIndex w).methodByte = m.methodByte := fun hbyte =>
        hne ((hminted w hw).symm.trans (AnchorMethod.methodByte_injective hbyte))
      rw [hsome, Option.filter_some_neg (by simpa using hbyte)]
      exact htips w hw
    · rw [hold]

/-- A serve of the method in two stores that agree on it. -/
theorem AgreeOn.persistPendingMinted (h : AgreeOn m st₁ st₂) {p₁ p₂ : PendingEpoch sdk}
    (hp : p₁.forMethod m = p₂.forMethod m)
    (h₁ : st₁.persistPendingMinted p₁ m minted = .ok st₁')
    (h₂ : st₂.persistPendingMinted p₂ m minted = .ok st₂') :
    AgreeOn m st₁' st₂' := by
  have hserved₁ := served_of_persistPendingMinted h₁
  have hserved₂ := served_of_persistPendingMinted h₂
  have hid := PendingEpoch.epochId_congr hp
  have hslots : p₁.slots [m] = p₂.slots [m] := by
    rw [PendingEpoch.slots, PendingEpoch.slots, PendingEpoch.leafHashes,
      PendingEpoch.leafHashes, (PendingEpoch.sameEpoch_congr hp).2.2.2.1]
  refine ⟨?_, ?_, ?_, ?_, ?_⟩
  · rw [hserved₁.epochs, hserved₂.epochs, h.epochs]
  · intro e
    rw [hserved₁.recordFor, hserved₂.recordFor, hid, PendingEpoch.partFor_congr hp,
      h.records e]
  · intro leaf
    have hslot : st₁.pendingLeaves[(leaf, m.methodByte)]? =
        st₂.pendingLeaves[(leaf, m.methodByte)]? := h.slots leaf
    unfold getPendingEpochForLeaf
    rw [slot_of_persistPendingMinted h₁, slot_of_persistPendingMinted h₂, hslots, hid,
      hslot]
  · intro leaf
    have htip : st₁.leafToTips[(leaf, m.methodByte)]? =
        st₂.leafToTips[(leaf, m.methodByte)]? := h.tips leaf
    unfold getTipForLeaf
    rw [hserved₁.leafToTips, hserved₂.leafToTips, getElem?_putAll, getElem?_putAll, htip]
  · intro tip
    have hpair : (st₁.tipToPair[tip]?).filter (fun idx => idx.methodByte = m.methodByte) =
        (st₂.tipToPair[tip]?).filter fun idx => idx.methodByte = m.methodByte :=
      h.pairs tip
    unfold pairFor getTipPair
    rw [hserved₁.tipToPair, hserved₂.tipToPair, getElem?_putAll, getElem?_putAll]
    cases ((minted.map fun w => (w.signatureHash, pairIndex w)).filter
      fun x => x.1 = tip).getLast?.map Prod.snd with
    | none => exact hpair
    | some idx => rfl

/-! ## Sealing -/

/-- Whether the batch of a seal can be built depends on its pending record only. -/
theorem persistSealedEpoch_builds (st₁ st₂ : Store sdk) (record : EpochRecord)
    (leaves : List LeafEntry) (pending : Option (PendingEpoch sdk)) :
    (∃ st₁' st₂', st₁.persistSealedEpochWithPending record leaves [] pending = .ok st₁' ∧
        st₂.persistSealedEpochWithPending record leaves [] pending = .ok st₂') ∨
      ∃ e, st₁.persistSealedEpochWithPending record leaves [] pending = .error e ∧
        st₂.persistSealedEpochWithPending record leaves [] pending = .error e := by
  unfold persistSealedEpochWithPending
  cases pending with
  | none => exact Or.inl ⟨_, _, rfl, rfl⟩
  | some p =>
      dsimp only
      cases p.leafHashes with
      | error e => exact Or.inr ⟨_, rfl, rfl⟩
      | ok hashes => exact Or.inl ⟨_, _, rfl, rfl⟩

/-- Sealing an epoch in two stores that agree on a method. -/
theorem AgreeOn.persistSealedEpoch (h : AgreeOn m st₁ st₂) {record : EpochRecord}
    {leaves : List LeafEntry} {pending : Option (PendingEpoch sdk)}
    (h₁ : st₁.persistSealedEpochWithPending record leaves [] pending = .ok st₁')
    (h₂ : st₂.persistSealedEpochWithPending record leaves [] pending = .ok st₂') :
    AgreeOn m st₁' st₂' := by
  have hsealed₁ := sealed_of_persistSealedEpoch h₁
  have hsealed₂ := sealed_of_persistSealedEpoch h₂
  refine ⟨?_, ?_, ?_, ?_, ?_⟩
  · rw [hsealed₁.epochs, hsealed₂.epochs, h.epochs]
  · intro e
    have hrecord : (st₁.pendingAnchors[e]?.bind fun p => p.partFor m) =
        st₂.pendingAnchors[e]?.bind fun p => p.partFor m := h.records e
    unfold recordFor
    rw [hsealed₁.pendingAnchors, hsealed₂.pendingAnchors]
    cases pending with
    | none => exact hrecord
    | some p =>
        simp only [getElem?_put]
        split
        · rfl
        · exact hrecord
  · intro leaf
    have hslot : st₁.pendingLeaves[(leaf, m.methodByte)]? =
        st₂.pendingLeaves[(leaf, m.methodByte)]? := h.slots leaf
    unfold getPendingEpochForLeaf
    cases pending with
    | none =>
        cases h₁
        cases h₂
        exact hslot
    | some p =>
        rw [slot_of_persistSealedEpoch h₁, slot_of_persistSealedEpoch h₂, hslot]
  · intro leaf
    have htip := h.tips leaf
    unfold getTipForLeaf at htip ⊢
    rw [hsealed₁.leafToTips, hsealed₂.leafToTips, htip]
  · intro tip
    have hpair := h.pairs tip
    unfold pairFor getTipPair at hpair ⊢
    rw [hsealed₁.tipToPair, hsealed₂.tipToPair, hpair]

theorem recordFor_persistSealedEpoch {record : EpochRecord} {leaves : List LeafEntry}
    {p : PendingEpoch sdk}
    (h : st.persistSealedEpochWithPending record leaves [] (some p) = .ok st')
    (m : AnchorMethod) : st'.recordFor m p.epochId = p.partFor m := by
  unfold recordFor
  rw [(sealed_of_persistSealedEpoch h).pendingAnchors]
  dsimp only
  rw [getElem?_put, if_pos rfl, Option.bind_some]

end Store

end AquaTimestamp
