import AquaTimestamp.Guarantees.Settled
import AquaTimestamp.Model.Routes

/-!
# The pending lookup of a leaf

`pending_leaves` has one slot per (leaf, method), shared by every epoch that
holds the leaf: sealing points the slot to the new epoch, serving clears it
only while it points to the served epoch.  A slot therefore points to a record
that really holds the leaf and lists the method, and a leaf whose anchor is
outstanding has a slot of its epoch or a later one, or a tip already.  What the
by-leaf route answers follows from the two.
-/

namespace AquaTimestamp

open Support Partition

variable {sdk : Sdk}

/-! ## What an event leaves in the slots -/

/-- The slot of a key after an event, from the slot before it. -/
def Event.slot (key : Hash32 × UInt8) (slot : Option Nat) :
    Event sdk → Option Nat
  | .call (.persistSealedEpoch _ _ _ (some p)) o =>
      if o.committed ∧ key ∈ p.slots p.methods then some p.epochId else slot
  | .call (.persistPendingMinted remaining done _) o =>
      if o.committed ∧ key ∈ remaining.slots [done] ∧
          slot = some remaining.epochId then none
      else slot
  | _ => slot

/-- Every event leaves each slot as `Event.slot` says. -/
theorem Emits.slot_eq {w : World sdk} {j : Job sdk} {ev : Event sdk}
    (h : Emits w j ev) (key : Hash32 × UInt8) :
    (w.emit ev).store.pendingLeaves[key]? =
      ev.slot key w.store.pendingLeaves[key]? := by
  cases h with
  | boot | append | tick | list | swap | prepare | provider | judge => rfl
  | @mint s m v c answer _ hminting =>
      cases c <;> first | rfl | cases hminting
  | @save s o _ =>
      rw [store_emit_call]
      rcases after_save (w := w) s.record o with ⟨-, heq⟩ | ⟨-, heq⟩
      · rw [heq]
        rfl
      · rw [heq]
        rfl
  | @serve s m v minted o _ hperm =>
      rw [store_emit_call]
      simp only [Event.slot, Store.after, Store.commit]
      cases ho : o.committed with
      | false => split <;> simp
      | true =>
          obtain ⟨st', hst'⟩ := hperm ho
          rw [hst']
          simpa using Store.slot_of_persistPendingMinted hst' key
  | @persist ctx now durationSecs down snapshot prepared batch record o _ _
      hperm =>
      rw [store_emit_call]
      generalize pendingFor ctx snapshot batch = pending at hperm
      cases pending with
      | none =>
          simp only [Event.slot, Store.after, Store.commit,
            Store.persistSealedEpochWithPending]
          split <;> rfl
      | some p =>
          simp only [Event.slot, Store.after, Store.commit]
          cases ho : o.committed with
          | false => split <;> simp
          | true =>
              obtain ⟨st', hst'⟩ := hperm ho
              rw [hst']
              simpa using Store.slot_of_persistSealedEpoch hst' key

/-! ## Records that hold a leaf -/

/-- The pending record of `e` lists `m` and holds the leaf. -/
def PendingWith (st : Store sdk) (e : Nat) (m : AnchorMethod)
    (leaf : Hash32) : Prop :=
  ∃ q, st.pendingAnchors[e]? = some q ∧ m ∈ q.methods ∧ q.HasLeaf leaf

/-- A committed serve of (`e`, `m`) that holds the leaf. -/
def Event.ServesLeaf (ev : Event sdk) (e : Nat) (m : AnchorMethod)
    (leaf : Hash32) : Prop :=
  ∃ remaining minted o,
    ev = .call (.persistPendingMinted remaining m minted) o ∧
      o.committed = true ∧ remaining.epochId = e ∧ remaining.HasLeaf leaf

/-- A committed seal of `e` that makes `m` pending for the leaf. -/
def Event.SealsLeaf (ev : Event sdk) (e : Nat) (m : AnchorMethod)
    (leaf : Hash32) : Prop :=
  ∃ record leaves witnesses p o,
    ev = .call (.persistSealedEpoch record leaves witnesses (some p)) o ∧
      o.committed = true ∧ p.epochId = e ∧
      (leaf, m.methodByte) ∈ p.slots p.methods

section Steps

variable {w : World sdk} {j : Job sdk} {ev : Event sdk} {e : Nat}
variable {m : AnchorMethod} {leaf : Hash32}

/-- Only the serve of the method takes a leaf's pending method away. -/
theorem Reach.pendingWith_step (h : Reach Store.empty w j) (hev : Emits w j ev)
    (he : e < u64Max) (hpending : PendingWith w.store e m leaf) :
    PendingWith (w.emit ev).store e m leaf ∨ ev.ServesLeaf e m leaf := by
  have hst : (Store.empty : Store sdk).Indexed := indexed_empty
  have hmethods : (Store.empty : Store sdk).MethodsNodup := methodsNodup_empty
  obtain ⟨q, hq, hlisted, hleaf⟩ := hpending
  have hid := ((h.grounded hst).store.pending e q hq).2
  rcases h.listed_step hst hmethods hev he hq hlisted with
    ⟨q', hq', hsame, hmem⟩ | ⟨remaining, minted, o, rfl, hsame, ho⟩
  · exact Or.inl ⟨q', hq', hmem, hsame.hasLeaf.mp hleaf⟩
  · exact Or.inr ⟨remaining, minted, o, rfl, ho, hsame.1.symm.trans hid,
      hsame.hasLeaf.mp hleaf⟩

/-- A method that was not pending for the leaf becomes so by a seal only. -/
theorem Reach.pendingWith_origin (h : Reach Store.empty w j)
    (hev : Emits w j ev) (herr : ErrorsChangeNothing w.log) (he : e < u64Max)
    (hpending : PendingWith (w.emit ev).store e m leaf) :
    PendingWith w.store e m leaf ∨ ev.SealsLeaf e m leaf := by
  have hst : (Store.empty : Store sdk).Indexed := indexed_empty
  have hmethods : (Store.empty : Store sdk).MethodsNodup := methodsNodup_empty
  obtain ⟨q, hq, hlisted, hleaf⟩ := hpending
  cases hold : w.store.pendingAnchors[e]? with
  | none =>
      right
      rcases h.absent_step hst hmethods hev hold with hnone |
        ⟨snapshot, c, b, record, hseal⟩
      · rw [hnone] at hq
        cases hq
      · obtain ⟨o, ho, rfl⟩ := hseal.event
        rw [hseal.stored] at hq
        cases hq
        exact ⟨record, snapshot.leaves, [], _, o, rfl, ho, hseal.id,
          PendingEpoch.mem_slots.mpr ⟨hleaf, hlisted⟩⟩
  | some p =>
      left
      obtain ⟨hsame, hback⟩ := h.record_after hst hmethods hev he hold hq
      rcases hback m hlisted with hmem | ⟨id, hunsynced⟩
      · exact ⟨p, hold, hmem, hsame.hasLeaf.mpr hleaf⟩
      · exact absurd hunsynced (herr.not_unsynced id m)

/-- What an event does to the slot of a leaf and method. -/
theorem slot_cases (ev : Event sdk) (m : AnchorMethod) (leaf : Hash32)
    (slot : Option Nat) :
    (∃ e, ev.SealsLeaf e m leaf ∧
      ev.slot (leaf, m.methodByte) slot = some e) ∨
    (∃ e, ev.ServesLeaf e m leaf ∧ slot = some e ∧
      ev.slot (leaf, m.methodByte) slot = none) ∨
    (ev.slot (leaf, m.methodByte) slot = slot ∧
      ∀ e, ¬ ev.SealsLeaf e m leaf ∧
        (ev.ServesLeaf e m leaf → slot ≠ some e)) := by
  unfold Event.slot
  split
  · rename_i record leaves witnesses p o
    split
    · rename_i hcond
      exact Or.inl ⟨_, ⟨record, leaves, witnesses, p, o, rfl, hcond.1, rfl,
        hcond.2⟩, rfl⟩
    · rename_i hcond
      refine Or.inr (Or.inr ⟨rfl, fun e => ⟨?_, ?_⟩⟩)
      · rintro ⟨_, _, _, _, _, heq, ho, -, hkey⟩
        cases heq
        exact hcond ⟨ho, hkey⟩
      · rintro ⟨_, _, _, heq, -⟩
        cases heq
  · rename_i remaining done minted o
    have hkey : (leaf, m.methodByte) ∈ remaining.slots [done] ↔
        remaining.HasLeaf leaf ∧ m = done := by
      rw [PendingEpoch.mem_slots, List.mem_singleton]
    split
    · rename_i hcond
      obtain ⟨ho, hin, hslot⟩ := hcond
      obtain ⟨hleaf, rfl⟩ := hkey.mp hin
      exact Or.inr (Or.inl ⟨_, ⟨remaining, minted, o, rfl, ho, rfl, hleaf⟩,
        hslot, rfl⟩)
    · rename_i hcond
      refine Or.inr (Or.inr ⟨rfl, fun e => ⟨?_, ?_⟩⟩)
      · rintro ⟨_, _, _, _, _, heq, -⟩
        cases heq
      · rintro ⟨_, _, _, heq, ho, rfl, hleaf⟩ hslot
        cases heq
        exact hcond ⟨ho, hkey.mpr ⟨hleaf, rfl⟩, hslot⟩
  · rename_i hseal hserve
    refine Or.inr (Or.inr ⟨rfl, fun e => ⟨?_, ?_⟩⟩)
    · rintro ⟨record, leaves, witnesses, p, o, rfl, -⟩
      exact hseal record leaves witnesses p o rfl
    · rintro ⟨remaining, minted, o, rfl, -⟩
      exact absurd rfl (hserve remaining m minted o)

/-- Every leaf of a checked record has its witness. -/
theorem Settling.Judged.exists_witness {s : Settling sdk}
    {log : List (Event sdk)} {v : TimestampValue}
    {minted : List (MintedWitness sdk)} {verdict : Option SelfCheckVerdict}
    (h : s.Judged log m v minted verdict) (hleaf : s.record.HasLeaf leaf) :
    ∃ wit ∈ minted, wit.leaf = leaf ∧ wit.method = m := by
  obtain ⟨snapshot, batch, hrestore, hfor⟩ := h.mintedFor
  obtain ⟨hashes, hhashes, hin⟩ := hleaf
  rw [(PendingEpoch.restore_leaves hrestore).1] at hhashes
  cases hhashes
  obtain ⟨entry, hentry, rfl⟩ := List.mem_map.mp hin
  rw [← hfor.entries] at hentry
  obtain ⟨wit, hwit, rfl⟩ := List.mem_map.mp hentry
  exact ⟨wit, hwit, rfl, (hfor.of_mem hwit).2.1⟩

/-- The serve of a leaf gives it a tip. -/
theorem Reach.serve_tip {st : Store sdk} (h : Reach st w j)
    (hev : Emits w j ev) (hserves : ev.ServesLeaf e m leaf) :
    (leaf, m.methodByte) ∈ (w.emit ev).store.leafToTips := by
  obtain ⟨remaining, minted, o, rfl, ho, -, hleaf⟩ := hserves
  cases hev with
  | mint _ hminting => cases hminting
  | @serve s _ v _ _ hphase hperm =>
      obtain ⟨wit, hwit, rfl, rfl⟩ :=
        (h.judged _ _ _ _ _ rfl hphase).exists_witness hleaf
      rw [store_emit_call]
      rcases after_serve hperm with ⟨hno, -⟩ | ⟨-, hserved⟩
      · rw [hno] at ho
        cases ho
      · rw [hserved.leafToTips, mem_putAll]
        exact Or.inr ⟨wit.signatureHash, List.mem_map.mpr ⟨wit, hwit, rfl⟩⟩

/-- A tip is replaced, never removed. -/
theorem Emits.tips_kept (hev : Emits w j ev) {key : Hash32 × UInt8}
    (hkey : key ∈ w.store.leafToTips) : key ∈ (w.emit ev).store.leafToTips := by
  have hwritten := hev.written
  generalize (w.emit ev).store = st' at hwritten
  cases hwritten with
  | unchanged | saved => exact hkey
  | served _ _ hserved =>
      rw [hserved.leafToTips, mem_putAll]
      exact Or.inl hkey
  | sealed _ _ _ hsealed =>
      rw [hsealed.leafToTips]
      exact hkey

/-- A seal points the leaf's slot to the record it stores, the newest of all. -/
theorem Reach.sealsLeaf (h : Reach Store.empty w j) (hev : Emits w j ev)
    (hseals : ev.SealsLeaf e m leaf) :
    PendingWith (w.emit ev).store e m leaf ∧ e ∈ (w.emit ev).store.epochs ∧
      ∀ e' ∈ w.store.epochs, e' ≤ e := by
  obtain ⟨record, leaves, witnesses, p, o, rfl, ho, rfl, hkey⟩ := hseals
  obtain ⟨hleaf, hm⟩ := PendingEpoch.mem_slots.mp hkey
  have hg := h.grounded indexed_empty
  generalize hpending : some p = pending at hev
  cases hev with
  | mint _ hminting => cases hminting
  | @persist ctx now durationSecs down snapshot prepared batch _ _ _ hrecord
      hperm =>
      obtain ⟨c, b, -, -, -, rfl⟩ := pendingFor_eq_some hpending.symm
      have hid := buildRecord_id hrecord
      rw [store_emit_call]
      rcases after_seal hperm with ⟨hno, -⟩ | ⟨-, hsealed⟩
      · rw [hno] at ho
        cases ho
      refine ⟨⟨_, ?_, hm, hleaf⟩, ?_, ?_⟩
      · rw [hsealed.pendingAnchors, ← hpending]
        exact Std.ExtTreeMap.getElem?_insert_self
      · rw [hsealed.epochs, hid]
        exact Std.ExtTreeMap.mem_insert_self
      · intro e' he'
        have hpast : e' < snapshot.epochId ∨ snapshot.epochId = u64Max :=
          hg.past e' he'
        have hle := hg.store.ids e' he'
        show e' ≤ snapshot.epochId
        omega

end Steps

/-! ## Slots and pending records -/

/-- The last committed seal that holds the leaf: its epoch id and the methods
enabled in its tick. -/
def lastSeal (leaf : Hash32) :
    List (Event sdk) → Option (Nat × List AnchorMethod)
  | [] => none
  | ev :: log =>
      match ev with
      | .call (.persistSealedEpoch record leaves _ _) o =>
          if o.committed ∧ leaf ∈ leaves.map LeafEntry.leaf then
            some (record.id, enabledMethods log)
          else lastSeal leaf log
      | _ => lastSeal leaf log

theorem lastSeal_cons (leaf : Hash32) (ev : Event sdk)
    (log : List (Event sdk)) :
    (∃ record leaves witnesses pending o,
      ev = .call (.persistSealedEpoch record leaves witnesses pending) o ∧
        o.committed = true ∧ leaf ∈ leaves.map LeafEntry.leaf ∧
        lastSeal leaf (ev :: log) = some (record.id, enabledMethods log)) ∨
      (lastSeal leaf (ev :: log) = lastSeal leaf log ∧
        ∀ record leaves witnesses pending o,
          ev = .call (.persistSealedEpoch record leaves witnesses pending) o →
            o.committed = true → leaf ∉ leaves.map LeafEntry.leaf) := by
  simp only [lastSeal]
  split
  · rename_i record leaves witnesses pending o
    split
    · rename_i hcond
      exact Or.inl ⟨record, leaves, witnesses, pending, o, rfl, hcond.1, hcond.2,
        rfl⟩
    · rename_i hcond
      refine Or.inr ⟨rfl, ?_⟩
      intro record' leaves' witnesses' pending' o' heq ho hleaf
      cases heq
      exact hcond ⟨ho, hleaf⟩
  · rename_i hother
    refine Or.inr ⟨rfl, ?_⟩
    intro record leaves witnesses pending o heq
    exact absurd heq (hother record leaves witnesses pending o)

/-- A seal that failed is passed over. -/
example : lastSeal (Sample.leaf 1) ([
    .call (.persistSealedEpoch ⟨2, 10, 20, Sample.digest [4], 1, hashTypeLabel⟩
      [⟨Sample.leaf 1, "did:a"⟩] [] none) (.failed (.fjall "full")),
    .tick (some (Sample.ctx [.qtsa])) 20 60,
    .call (.persistSealedEpoch ⟨1, 0, 10, Sample.digest [4], 1, hashTypeLabel⟩
      [⟨Sample.leaf 1, "did:a"⟩] [] none) .ok,
    .tick (some (Sample.ctx [.evm])) 10 60] : List (Event Sample.sdk)) =
      some (1, [.evm]) := by
  decide +kernel

section Slots

variable {w : World sdk} {j : Job sdk} {m : AnchorMethod} {leaf : Hash32}

/-- A slot that points below `u64::MAX` points to a record that holds the leaf
and lists the method. -/
theorem Reach.slot_sound (h : Reach Store.empty w j) :
    ∀ e < u64Max, w.store.getPendingEpochForLeaf leaf m = some e →
      PendingWith w.store e m leaf := by
  refine h.induct (P := fun w => ∀ e < u64Max,
    w.store.getPendingEpochForLeaf leaf m = some e →
      PendingWith w.store e m leaf) ?_ ?_
  · intro now durationSecs e _ hslot
    simp [World.boot, Store.empty, Store.getPendingEpochForLeaf] at hslot
  · intro w j ev hw hev ih e he hslot
    rw [Store.getPendingEpochForLeaf, hev.slot_eq] at hslot
    rcases slot_cases ev m leaf w.store.pendingLeaves[(leaf, m.methodByte)]?
      with ⟨e', hseals, hnew⟩ | ⟨e', -, -, hnew⟩ | ⟨hkept, hnot⟩
    · rw [hnew] at hslot
      cases hslot
      exact (hw.sealsLeaf hev hseals).1
    · rw [hnew] at hslot
      cases hslot
    · rw [hkept] at hslot
      rcases hw.pendingWith_step hev he (ih e he hslot) with hstill | hserves
      · exact hstill
      · exact absurd hslot ((hnot e).2 hserves)

/-- A leaf that is pending for a method has a slot that points to its epoch or
a later one, or it has a tip. -/
theorem Reach.slot_or_tip (h : Reach Store.empty w j) :
    ErrorsChangeNothing w.log → ∀ e < u64Max, PendingWith w.store e m leaf →
      (∃ e' ≥ e, w.store.getPendingEpochForLeaf leaf m = some e') ∨
        (leaf, m.methodByte) ∈ w.store.leafToTips := by
  refine h.induct (P := fun w => ErrorsChangeNothing w.log → ∀ e < u64Max,
    PendingWith w.store e m leaf →
      (∃ e' ≥ e, w.store.getPendingEpochForLeaf leaf m = some e') ∨
        (leaf, m.methodByte) ∈ w.store.leafToTips) ?_ ?_
  · rintro now durationSecs - e _ ⟨q, hq, -⟩
    simp [World.boot, Store.empty] at hq
  · intro w j ev hw hev ih herr e he hpending
    rw [hev.log_eq] at herr
    have herr' : ErrorsChangeNothing w.log :=
      fun ev' hev' => herr ev' (List.mem_cons_of_mem _ hev')
    rw [Store.getPendingEpochForLeaf, hev.slot_eq]
    have hcases := slot_cases ev m leaf
      w.store.pendingLeaves[(leaf, m.methodByte)]?
    rcases hw.pendingWith_origin hev herr' he hpending with hbefore | hseals
    · rcases hcases with ⟨e', hseals, hnew⟩ | ⟨e', hserves, -, -⟩ | ⟨hkept, -⟩
      · -- Another epoch takes the slot over, and its id is higher.
        obtain ⟨q, hq, -⟩ := hbefore
        have hin := ((hw.grounded indexed_empty).store.pending e q hq).1
        exact Or.inl ⟨e', (hw.sealsLeaf hev hseals).2.2 e hin, hnew⟩
      · exact Or.inr (hw.serve_tip hev hserves)
      · rw [hkept]
        rcases ih herr' e he hbefore with hslot | htip
        · exact Or.inl hslot
        · exact Or.inr (hev.tips_kept htip)
    · rcases hcases with ⟨e', hseals', hnew⟩ | ⟨e', hserves, -⟩ | ⟨-, hnot⟩
      · obtain ⟨_, _, _, _, _, rfl, -, rfl, -⟩ := hseals
        obtain ⟨_, _, _, _, _, heq, -, rfl, -⟩ := hseals'
        cases heq
        exact Or.inl ⟨_, le_refl _, hnew⟩
      · obtain ⟨_, _, _, _, _, rfl, -⟩ := hseals
        obtain ⟨_, _, _, heq, -⟩ := hserves
        cases heq
      · exact absurd hseals (hnot e).1

/-- Slots point to sealed epochs. -/
theorem Reach.slot_epoch (h : Reach Store.empty w j) :
    ∀ e, w.store.getPendingEpochForLeaf leaf m = some e →
      e ∈ w.store.epochs := by
  refine h.induct (P := fun w => ∀ e,
    w.store.getPendingEpochForLeaf leaf m = some e → e ∈ w.store.epochs) ?_ ?_
  · intro now durationSecs e hslot
    simp [World.boot, Store.empty, Store.getPendingEpochForLeaf] at hslot
  · intro w j ev hw hev ih e hslot
    rw [Store.getPendingEpochForLeaf, hev.slot_eq] at hslot
    rcases slot_cases ev m leaf w.store.pendingLeaves[(leaf, m.methodByte)]?
      with ⟨e', hseals, hnew⟩ | ⟨e', -, -, hnew⟩ | ⟨hkept, -⟩
    · rw [hnew] at hslot
      cases hslot
      exact (hw.sealsLeaf hev hseals).2.1
    · rw [hnew] at hslot
      cases hslot
    · rw [hkept] at hslot
      exact hev.epochs_kept (ih e hslot)

/-- A seal that holds the leaf is the newest epoch, and makes every method
enabled in its tick pending for the leaf. -/
theorem Reach.seal_leaf (h : Reach Store.empty w j) {record : EpochRecord}
    {leaves : List LeafEntry} {witnesses : List (MintedWitness sdk)}
    {pending : Option (PendingEpoch sdk)} {o : WriteOutcome}
    (hev : Emits w j
      (.call (.persistSealedEpoch record leaves witnesses pending) o))
    (ho : o.committed = true) (hleaf : leaf ∈ leaves.map LeafEntry.leaf) :
    (∀ e ∈ w.store.epochs, e ≤ record.id) ∧
      (m ∈ enabledMethods w.log → Event.SealsLeaf
        (.call (.persistSealedEpoch record leaves witnesses pending) o)
        record.id m leaf) := by
  have hg := h.grounded indexed_empty
  cases hev with
  | mint _ hminting => cases hminting
  | @persist ctx now durationSecs down snapshot prepared batch _ _ hbatch
      hrecord hperm =>
      have hid := buildRecord_id hrecord
      constructor
      · intro e he
        have hpast : e < snapshot.epochId ∨ snapshot.epochId = u64Max :=
          hg.past e he
        have hle := hg.store.ids e he
        omega
      · intro hm
        obtain ⟨c, now', htick, hctx⟩ := enabledMethods_of_mem hm
        have htick' := (h.currentTick_eq _ rfl).symm.trans htick
        cases htick'
        rcases hbatch with ⟨hnil, -⟩ | ⟨-, p, -, rfl⟩
        · rw [hnil] at hleaf
          cases hleaf
        · have hpending := pendingFor_of_mem snapshot
            ⟨p, snapshot.leaves.map LeafEntry.leaf⟩ hctx
          rw [hpending]
          refine ⟨_, _, _, _, _, rfl, ho, hid.symm, ?_⟩
          exact PendingEpoch.mem_slots.mpr
            ⟨PendingEpoch.hasLeaf_new.mpr hleaf, hctx⟩

/-- A pending record is sealed with the leaves it holds. -/
theorem Reach.sealed_leaf {st : Store sdk} (h : Reach st w j)
    {record : EpochRecord} {leaves : List LeafEntry}
    {witnesses : List (MintedWitness sdk)} {p : PendingEpoch sdk}
    {o : WriteOutcome}
    (hev : Emits w j
      (.call (.persistSealedEpoch record leaves witnesses (some p)) o))
    (hleaf : p.HasLeaf leaf) :
    record.id = p.epochId ∧ leaf ∈ leaves.map LeafEntry.leaf := by
  generalize hpending : some p = pending at hev
  cases hev with
  | mint _ hminting => cases hminting
  | persist _ hrecord _ =>
      obtain ⟨c, b, -, -, -, rfl⟩ := pendingFor_eq_some hpending.symm
      exact ⟨buildRecord_id hrecord, PendingEpoch.hasLeaf_new.mp hleaf⟩

/-- The last seal of a leaf bounds the leaf's slots, and with `m` enabled the
leaf has a slot or a tip from then on. -/
theorem Reach.lastSeal_covered (h : Reach Store.empty w j) :
    ∀ e methods, lastSeal leaf w.log = some (e, methods) →
      (∀ e', w.store.getPendingEpochForLeaf leaf m = some e' → e' ≤ e) ∧
      (m ∈ methods → (leaf, m.methodByte) ∈ w.store.pendingLeaves ∨
        (leaf, m.methodByte) ∈ w.store.leafToTips) := by
  refine h.induct (P := fun w => ∀ e methods,
    lastSeal leaf w.log = some (e, methods) →
      (∀ e', w.store.getPendingEpochForLeaf leaf m = some e' → e' ≤ e) ∧
      (m ∈ methods → (leaf, m.methodByte) ∈ w.store.pendingLeaves ∨
        (leaf, m.methodByte) ∈ w.store.leafToTips)) ?_ ?_
  · rintro now durationSecs e methods ⟨⟩
  · intro w j ev hw hev ih e methods hlast
    simp only [Store.getPendingEpochForLeaf,
      Std.ExtTreeMap.mem_iff_isSome_getElem? (t := (w.emit ev).store.pendingLeaves),
      hev.slot_eq]
    rw [hev.log_eq] at hlast
    have hcases := slot_cases ev m leaf
      w.store.pendingLeaves[(leaf, m.methodByte)]?
    rcases lastSeal_cons leaf ev w.log with
      ⟨record, leaves, witnesses, pending, o, rfl, ho, hleaf, hnow⟩ |
        ⟨hsame, hno⟩
    · -- The event is the leaf's last seal.
      rw [hnow] at hlast
      cases hlast
      obtain ⟨hpast, henabled⟩ := hw.seal_leaf (m := m) hev ho hleaf
      rcases hcases with ⟨e', hseals, hnew⟩ | ⟨e', ⟨_, _, _, heq, -⟩, -⟩ |
        ⟨hkept, hnot⟩
      · rw [hnew]
        refine ⟨?_, fun _ => Or.inl rfl⟩
        obtain ⟨_, _, _, p, _, heq, -, rfl, hkey⟩ := hseals
        cases heq
        have hid := (hw.sealed_leaf hev (PendingEpoch.mem_slots.mp hkey).1).1
        rintro e' ⟨⟩
        exact le_of_eq hid.symm
      · cases heq
      · rw [hkept]
        refine ⟨fun e' hslot => hpast e' (hw.slot_epoch e' hslot), fun hm => ?_⟩
        exact absurd (henabled hm) (hnot _).1
    · rw [hsame] at hlast
      obtain ⟨hbound, hcovered⟩ := ih e methods hlast
      rcases hcases with ⟨e', hseals, -⟩ | ⟨e', hserves, -, hnew⟩ | ⟨hkept, -⟩
      · obtain ⟨record, leaves, witnesses, p, o, rfl, ho, -, hkey⟩ := hseals
        exact absurd (hw.sealed_leaf hev (PendingEpoch.mem_slots.mp hkey).1).2
          (hno _ _ _ _ _ rfl ho)
      · rw [hnew]
        exact ⟨nofun, fun _ => Or.inr (hw.serve_tip hev hserves)⟩
      · rw [hkept]
        refine ⟨hbound, fun hm => ?_⟩
        rcases hcovered hm with hslot | htip
        · exact Or.inl (Std.ExtTreeMap.mem_iff_isSome_getElem?.mp hslot)
        · exact Or.inr (hev.tips_kept htip)

/-- A record that holds a leaf belongs to an epoch sealed with that leaf. -/
theorem Reach.pendingWith_leaf (h : Reach Store.empty w j) {e : Nat}
    (he : e < u64Max) (hpending : PendingWith w.store e m leaf) :
    (e, leaf) ∈ w.store.epochLeaves := by
  obtain ⟨q, hq, -, hashes, hhashes, hleaf⟩ := hpending
  obtain ⟨snapshot, batch, hrestore, hcovers⟩ := h.restores e he q hq
  rw [(PendingEpoch.restore_leaves hrestore).1] at hhashes
  cases hhashes
  obtain ⟨entry, hentry, rfl⟩ := List.mem_map.mp hleaf
  have hdid := (hcovers.leaves entry.leaf entry.submitterDid).mpr hentry
  rw [Std.ExtTreeMap.mem_iff_isSome_getElem?, hdid]
  rfl

end Slots

/-! ## What the by-leaf route answers -/

/-- The witness itself, or that it is outstanding (or stalled) in an epoch that
holds the leaf and is pending for the method. -/
def ServedOrPending (st : Store sdk) (m : AnchorMethod) (leaf : Hash32)
    (r : Response sdk) : Prop :=
  r.status = .ok ∨
    (r.status = .accepted ∨ r.status = .serviceUnavailable) ∧
      ∃ body, r.body = .status body ∧ PendingWith st body.epoch m leaf ∧
        (body.epoch, leaf) ∈ st.epochLeaves

/-- In every state of a run from an empty store in which writes that report an
error change nothing: a slot that points below `u64::MAX` points to a record
that lists the method and holds the leaf; a leaf of a pending epoch below
`u64::MAX` has a slot of that epoch or a later one, or a tip; and the owner of
a leaf last sealed below `u64::MAX` with the method enabled is answered with
the witness or with an epoch that is pending for the leaf. -/
theorem pending_lookup_sound_and_complete {w : World sdk}
    (hw : Visited Store.empty w) (herr : ErrorsChangeNothing w.log)
    (leaf : Hash32) (m : AnchorMethod) :
    (∀ e < u64Max, w.store.getPendingEpochForLeaf leaf m = some e →
      PendingWith w.store e m leaf) ∧
    (∀ e < u64Max, PendingWith w.store e m leaf →
      (∃ e' ≥ e, w.store.getPendingEpochForLeaf leaf m = some e') ∨
        ∃ tip, w.store.getTipForLeaf leaf m = some tip) ∧
    ∀ e methods, lastSeal leaf w.log = some (e, methods) → m ∈ methods →
      e < u64Max →
      ∀ maxAnchorFaults did leafHex methodStr,
        parseHash32 leafHex = .ok leaf →
        AnchorMethod.parse methodStr = some m →
        w.store.getLeafOwner leaf = some did →
          ServedOrPending w.store m leaf (intoResponse
            (getTreeByLeaf w.store maxAnchorFaults did leafHex
              (some methodStr))) := by
  obtain ⟨j, hj⟩ := reach_of_visited hw
  have htips : (leaf, m.methodByte) ∈ w.store.leafToTips →
      ∃ tip, w.store.getTipForLeaf leaf m = some tip := by
    intro htip
    exact Option.isSome_iff_exists.mp
      (Std.ExtTreeMap.mem_iff_isSome_getElem?.mp htip)
  refine ⟨hj.slot_sound, ?_, ?_⟩
  · intro e he hpending
    rcases hj.slot_or_tip herr e he hpending with hslot | htip
    · exact Or.inl hslot
    · exact Or.inr (htips htip)
  · intro e methods hlast hm he maxAnchorFaults did leafHex methodStr hleafHex
      hmethodStr howner
    obtain ⟨hbound, hcovered⟩ := hj.lastSeal_covered (m := m) e methods hlast
    cases htip : w.store.getTipForLeaf leaf m with
    | some tip =>
        left
        have hlinked := hj.linked
        have hin := hlinked.target _ tip htip
        obtain ⟨idx, hidx⟩ := Option.isSome_iff_exists.mp
          (Std.ExtTreeMap.mem_iff_isSome_getElem?.mp hin)
        have hchecked : w.store.isSelfChecked tip = true :=
          Std.ExtTreeMap.mem_iff_contains.mp ((hlinked.checked tip).mp hin)
        obtain ⟨hobject, hsignature⟩ := hlinked.revisions tip idx hidx
        obtain ⟨r, hr⟩ := exists_pairResponse hobject hsignature
        rw [getTreeByLeaf_of_pair hmethodStr hleafHex howner htip hidx hchecked,
          hr]
        exact pairResponse_status hr
    | none =>
        right
        have hslot : ∃ e', w.store.getPendingEpochForLeaf leaf m = some e' := by
          rcases hcovered hm with hslot | hin
          · exact Option.isSome_iff_exists.mp
              (Std.ExtTreeMap.mem_iff_isSome_getElem?.mp hslot)
          · obtain ⟨tip, hsome⟩ := htips hin
            rw [htip] at hsome
            cases hsome
        obtain ⟨e', hslot⟩ := hslot
        have he' : e' < u64Max := lt_of_le_of_lt (hbound e' hslot) he
        have hpending := hj.slot_sound e' he' hslot
        rw [getTreeByLeaf_of_slot hmethodStr hleafHex howner htip hslot]
        obtain ⟨hstatus, body, hbody, rfl⟩ := pendingAnchorResponse_cases w.store
          maxAnchorFaults m e' (some leaf)
        exact ⟨hstatus, body, hbody, hpending, hj.pendingWith_leaf he' hpending⟩

/-- A leaf is submitted in two epochs, and both are pending. -/
def Sample.resubmittedRun : World Sample.sdk :=
  .replay [.append [Sample.leaf 1] "did:a",
    Sample.cycle [.evm] 10 Sample.noProvider,
    .append [Sample.leaf 1] "did:a",
    Sample.cycle [.evm] 20 Sample.noProvider]

theorem pending_lookup_sound_and_complete_resubmittedRun :
    (Sample.resubmittedRun.store.getPendingEpochForLeaf (Sample.leaf 1) .evm =
        some 2 ∧
      PendingWith Sample.resubmittedRun.store 2 .evm (Sample.leaf 1)) ∧
    ServedOrPending Sample.resubmittedRun.store .evm (Sample.leaf 1)
      (intoResponse (getTreeByLeaf Sample.resubmittedRun.store 3 "did:a"
        (hexLower (Sample.leaf 1)) (some "evm"))) := by
  have hrun : ErrorsChangeNothing Sample.resubmittedRun.log ∧
      Sample.resubmittedRun.store.getPendingEpochForLeaf (Sample.leaf 1) .evm =
        some 2 ∧
      lastSeal (Sample.leaf 1) Sample.resubmittedRun.log = some (2, [.evm]) ∧
      Sample.resubmittedRun.store.getLeafOwner (Sample.leaf 1) =
        some "did:a" := by
    decide +kernel
  obtain ⟨herr, hslot, hlast, howner⟩ := hrun
  have hall := pending_lookup_sound_and_complete
    (.between (reachable_replay _)) herr (Sample.leaf 1) .evm
  refine ⟨⟨hslot, hall.1 2 (by decide) hslot⟩, ?_⟩
  exact hall.2.2 2 [.evm] hlast (by decide) (by decide) 3 "did:a" _ "evm"
    (parseHash32_hexLower _) (by decide) howner

/-- The last epoch id is sealed with one leaf and sealed again with another. -/
def Sample.overwrittenRun : List (Move Sample.sdk) :=
  [.append [Sample.leaf 1] "did:a", Sample.cycle [.evm] 10 Sample.noProvider,
    .append [Sample.leaf 2] "did:a", Sample.cycle [.evm] 20 Sample.noProvider]

theorem exists_slot_without_record :
    ∃ w : World Sample.sdk, Visited Store.empty w ∧ ErrorsChangeNothing w.log ∧
      w.store.getPendingEpochForLeaf (Sample.leaf 1) .evm = some u64Max ∧
      ¬ PendingWith w.store u64Max .evm (Sample.leaf 1) := by
  have hmoves : ∀ move ∈ Sample.overwrittenRun, move.keepsProcess = true := by
    decide
  obtain ⟨w, past, hw, hidle, hend⟩ := exists_twin_playAll hmoves
  obtain ⟨epochs, hstore⟩ := hend.store
  have hrun : ErrorsChangeNothing
        ((lastEpoch Sample.sdk).playAll Sample.overwrittenRun).log ∧
      ((lastEpoch Sample.sdk).playAll
        Sample.overwrittenRun).store.getPendingEpochForLeaf (Sample.leaf 1) .evm =
          some u64Max ∧
      (((lastEpoch Sample.sdk).playAll
        Sample.overwrittenRun).store.pendingAnchors[u64Max]?.map fun q =>
          q.leafHashes) = some (.ok [Sample.leaf 2]) := by
    decide +kernel
  obtain ⟨herr, hslot, hleaves⟩ := hrun
  refine ⟨w, hw, ?_, ?_, ?_⟩
  · exact hend.log ▸ herr.append_idle hidle
  · rw [hstore]
    exact hslot
  · rw [hstore]
    rintro ⟨q, hq, -, hashes, hhashes, hleaf⟩
    have hq' : ((lastEpoch Sample.sdk).playAll
        Sample.overwrittenRun).store.pendingAnchors[u64Max]? = some q := hq
    rw [hq', Option.map_some, hhashes] at hleaves
    cases hleaves
    revert hleaf
    decide

end AquaTimestamp
