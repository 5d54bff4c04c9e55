import AquaTimestamp.Model.Sample
import AquaTimestamp.Settlement.Serving

/-!
# Pending or settled, and served once

A method of a sealed epoch is either listed by the epoch's pending record or
its witnesses are in the serving partitions.  Both at once would take a serve
that commits its batch and then reports an error: the sealer keeps the record
in memory, and another write of the same tick could store that record again.
A keyspace that such an error has poisoned commits no other write, so every
(epoch, leaf, method) has at most one witness.
-/

namespace AquaTimestamp

open Support Partition

variable {sdk : Sdk}

/-- In no tick a pending record is written after a serve of the same epoch
that committed and reported an error. -/
def NoStaleWrite (log : List (Event sdk)) : Prop :=
  ∀ ev l p m, ev :: l <:+ log → ev.stores = some p →
    ¬ ServedUnsynced l p.epochId m

theorem NoStaleWrite.of_suffix {log log' : List (Event sdk)}
    (h : NoStaleWrite log) (hlog : log' <:+ log) : NoStaleWrite log' :=
  fun ev l p m hl => h ev l p m (hl.trans hlog)

/-- An event that stores a record has committed its batch. -/
theorem Event.commits_of_stores {ev : Event sdk} {p : PendingEpoch sdk}
    (h : ev.stores = some p) : ev.commits = true := by
  unfold Event.stores at h
  split at h
  · exact (Option.ite_none_right_eq_some.mp h).1
  · exact (Option.ite_none_right_eq_some.mp h).1.1
  · exact (Option.ite_none_right_eq_some.mp h).1
  · cases h

/-- In a poisoned keyspace the stale record is not written. -/
theorem PoisonedByFsync.noStaleWrite {log : List (Event sdk)}
    (h : PoisonedByFsync log) : NoStaleWrite log := by
  rintro ev l p m hl hstores ⟨remaining, minted, err, -, hserve⟩
  have hquiet := h ev l hl (ev.commits_of_stores hstores) _
    (mem_sinceBoot_of_mem_thisCycle hserve)
  cases hquiet

/-- An index entry of (`e`, `m`). -/
def TipPairIndex.IsOf (idx : TipPairIndex) (e : Nat) (m : AnchorMethod) : Prop :=
  idx.epochId = e ∧ idx.methodByte = m.methodByte

instance decidableIsOf (idx : TipPairIndex) (e : Nat) (m : AnchorMethod) :
    Decidable (idx.IsOf e m) :=
  inferInstanceAs (Decidable (_ ∧ _))

/-! ## A served method is not listed again -/

section Served

variable {w : World sdk} {j : Job sdk} {e : Nat} {m : AnchorMethod}
variable {l : List (Event sdk)} {minted : List (MintedWitness sdk)}

theorem ServedBy.about (h : ServedBy w.log l e m minted) :
    ∃ ev ∈ w.log, ev.about = some (e, m) := by
  obtain ⟨remaining, o, rfl, -, hl⟩ := h
  exact ⟨_, hl.subset (List.mem_cons_self ..), rfl⟩

/-- The serves of a longer history. -/
theorem servedBy_cons {log : List (Event sdk)} {ev : Event sdk}
    (h : ServedBy (ev :: log) l e m minted) :
    ServedBy log l e m minted ∨ l = log ∧ ∃ remaining o,
      remaining.epochId = e ∧ o.committed = true ∧
        ev = .call (.persistPendingMinted remaining m minted) o := by
  obtain ⟨remaining, o, hid, ho, hl⟩ := h
  rcases List.suffix_cons_iff.mp hl with heq | hold
  · obtain ⟨hev, hlog⟩ := List.cons.inj heq
    exact Or.inr ⟨hlog, remaining, o, hid, ho, hev.symm⟩
  · exact Or.inl ⟨remaining, o, hid, ho, hold⟩

/-- A record stored after a method was served does not list it. -/
theorem Reach.unlisted_step (h : Reach Store.empty w j) {ev : Event sdk}
    (hev : Emits w j ev) (hcond : NoStaleWrite (ev :: w.log))
    (he : e < u64Max) (hserved : ServedBy w.log l e m minted)
    (hold : ∀ q, w.store.pendingAnchors[e]? = some q → m ∉ q.methods) :
    ∀ q, (w.emit ev).store.pendingAnchors[e]? = some q → m ∉ q.methods := by
  have hst : (Store.empty : Store sdk).Indexed := indexed_empty
  have hmethods : (Store.empty : Store sdk).MethodsNodup := methodsNodup_empty
  intro q hq
  cases hp : w.store.pendingAnchors[e]? with
  | none =>
      rcases h.absent_step hst hmethods hev hp with hnone |
        ⟨snapshot, c, b, record, hseal⟩
      · rw [hnone] at hq
        cases hq
      · obtain ⟨ev', hev', habout⟩ := hserved.about
        have hfresh := (h.grounded hst).fresh hseal.closes (hseal.id ▸ he)
        rw [hseal.id] at hfresh
        exact absurd habout ((h.ordered hst hmethods).unsealed e hfresh ev' hev' m)
  | some p =>
      have hnot := hold p hp
      have hstep := h.record_step hst hmethods hev he hp
      rw [hq] at hstep
      generalize hafter : some q = after at hstep
      cases hstep with
      | kept =>
          cases hafter
          exact hnot
      | @saved s o _ _ ho _ ht =>
          cases hafter
          rcases (ht.drift m).unlisted hnot with hgoal | hunsynced
          · exact hgoal
          · exact absurd hunsynced (hcond _ _ _ m (List.suffix_refl _)
              (by simp [Event.stores, ho]))
      | @served s done v minted' o _ _ ho _ _ ht =>
          split at hafter
          · cases hafter
          · rename_i hne
            cases hafter
            intro hmem
            rcases (ht.drift m).unlisted hnot with hgoal | hunsynced
            · exact hgoal (((PendingEpoch.mem_methods_without _ _ _).mp hmem).1)
            · exact hcond _ _ (s.record.without done) m (List.suffix_refl _)
                (by simp [Event.stores, ho, hne]) hunsynced

/-- A served method is not listed by the stored record. -/
theorem Reach.unlisted (h : Reach Store.empty w j) (he : e < u64Max) :
    NoStaleWrite w.log → ∀ l minted, ServedBy w.log l e m minted →
      ∀ q, w.store.pendingAnchors[e]? = some q → m ∉ q.methods := by
  refine h.induct (P := fun w => NoStaleWrite w.log → ∀ l minted,
    ServedBy w.log l e m minted →
      ∀ q, w.store.pendingAnchors[e]? = some q → m ∉ q.methods) ?_ ?_
  · rintro now durationSecs - l minted hserved q hq
    simp [World.boot, Store.empty] at hq
  · intro w j ev hw hev ih hcond l minted hserved q hq
    rw [hev.log_eq] at hcond hserved
    rcases servedBy_cons hserved with hserved | ⟨-, remaining, o, hid, ho, rfl⟩
    · exact hw.unlisted_step hev hcond he hserved
        (ih (hcond.of_suffix (List.suffix_cons _ _)) l minted hserved) q hq
    · -- The serve itself stores the record without the method.
      cases hev with
      | mint _ hminting => cases hminting
      | @serve s _ v _ _ _ hperm =>
          rw [store_emit_call] at hq
          rcases after_serve hperm with ⟨hno, -⟩ | ⟨-, hwrite⟩
          · rw [hno] at ho
            cases ho
          · rw [← hid, hwrite.pending_self] at hq
            split at hq
            · cases hq
            · cases hq
              simp [PendingEpoch.mem_methods_without]

/-- An (epoch, method) is served at most once. -/
theorem Reach.served_once (h : Reach Store.empty w j)
    (hcond : NoStaleWrite w.log) (he : e < u64Max)
    {l' : List (Event sdk)} {minted' : List (MintedWitness sdk)}
    (hserved : ServedBy w.log l e m minted)
    (hserved' : ServedBy w.log l' e m minted') : minted = minted' := by
  have hst : (Store.empty : Store sdk).Indexed := indexed_empty
  have hmethods : (Store.empty : Store sdk).MethodsNodup := methodsNodup_empty
  -- No serve of (`e`, `m`) comes before another one.
  have hlater : ∀ l₁ l₂ minted₁ minted₂, ServedBy w.log l₂ e m minted₂ →
      ¬ ServedBy l₂ l₁ e m minted₁ := by
    intro l₁ l₂ minted₁ minted₂ hsecond hfirst
    obtain ⟨w₀, s, v, hw₀, rfl, rfl, hphase, -⟩ := h.servedBy hsecond
    obtain ⟨q, hq, hfound⟩ := hw₀.serve_found hst hmethods hphase
    exact hw₀.unlisted he (hcond.of_suffix hsecond.suffix) l₁ minted₁ hfirst q hq
      hfound.listed
  obtain ⟨remaining, o, hid, ho, hl⟩ := hserved
  obtain ⟨remaining', o', hid', ho', hl'⟩ := hserved'
  rcases List.suffix_or_suffix_of_suffix hl hl' with hsub | hsub
  · rcases List.suffix_cons_iff.mp hsub with heq | hbefore
    · cases (List.cons.inj heq).1
      rfl
    · exact absurd ⟨remaining, o, hid, ho, hbefore⟩
        (hlater l l' minted minted' ⟨remaining', o', hid', ho', hl'⟩)
  · rcases List.suffix_cons_iff.mp hsub with heq | hbefore
    · cases (List.cons.inj heq).1
      rfl
    · exact absurd ⟨remaining', o', hid', ho', hbefore⟩
        (hlater l' l minted' minted ⟨remaining, o, hid, ho, hl⟩)

/-- The entries of one (epoch, method) and leaf are one. -/
theorem Reach.tip_unique (h : Reach Store.empty w j)
    (hcond : NoStaleWrite w.log) (he : e < u64Max) {tip tip' : Hash32}
    {idx idx' : TipPairIndex} (hidx : w.store.tipToPair[tip]? = some idx)
    (hidx' : w.store.tipToPair[tip']? = some idx') (hof : idx.IsOf e m)
    (hof' : idx'.IsOf e m) (hleaf : idx.leaf = idx'.leaf) : tip = tip' := by
  obtain ⟨l, e₁, m₁, minted, wit, horigin⟩ := h.origin tip idx hidx
  obtain ⟨l', e₂, m₂, minted', wit', horigin'⟩ := h.origin tip' idx' hidx'
  obtain ⟨hid, hmethod, hl, -⟩ := h.origin_key horigin
  obtain ⟨hid', hmethod', hl', -⟩ := h.origin_key horigin'
  obtain rfl : e₁ = e := hid.symm.trans hof.1
  obtain rfl : e₂ = e₁ := hid'.symm.trans hof'.1
  obtain rfl : m₁ = m :=
    AnchorMethod.methodByte_injective (hmethod.symm.trans hof.2)
  obtain rfl : m₂ = m₁ :=
    AnchorMethod.methodByte_injective (hmethod'.symm.trans hof'.2)
  obtain rfl := h.served_once hcond he horigin.served horigin'.served
  have hnodup := (h.serve_covers he horigin.served).nodup
  rw [List.map_map] at hnodup
  have hsame := List.inj_on_of_nodup_map hnodup horigin.mem horigin'.mem
    (show wit.leaf = wit'.leaf by rw [← hl, ← hl', hleaf])
  rw [← horigin.tip, ← horigin'.tip, hsame]

end Served

/-- Whatever a failing write did: no (epoch, leaf, method) has two index
entries, and no record written after a method was served lists it, for an id
below `u64::MAX`. -/
theorem one_witness_despite_failed_writes {w : World sdk}
    (hw : Visited Store.empty w) (hfsync : PoisonedByFsync w.log) {e : Nat}
    (he : e < u64Max) (m : AnchorMethod) :
    (∀ (tip tip' : Hash32) idx idx', w.store.tipToPair[tip]? = some idx →
      w.store.tipToPair[tip']? = some idx' → idx.IsOf e m → idx'.IsOf e m →
      idx.leaf = idx'.leaf → tip = tip') ∧
    ∀ ev l p, ev :: l <:+ w.log → ev.stores = some p → p.epochId = e →
      (∃ (tip : Hash32) (idx : TipPairIndex),
        (storeOf Store.empty l).tipToPair[tip]? = some idx ∧ idx.IsOf e m) →
      m ∉ p.methods := by
  obtain ⟨j, hj⟩ := reach_of_visited hw
  have hcond := hfsync.noStaleWrite
  refine ⟨fun tip tip' idx idx' hidx hidx' => hj.tip_unique hcond he hidx hidx',
    ?_⟩
  rintro ev l p hl hstores rfl ⟨tip, idx, hidx, hof⟩
  rcases hj.emitted hl with ⟨rfl, now, durationSecs, rfl⟩ |
    ⟨w₀, j₀, hw₀, rfl, hev⟩
  · cases hstores
  · rw [← hw₀.store_eq] at hidx
    obtain ⟨l', e', m', minted, wit, horigin⟩ := hw₀.origin tip idx hidx
    obtain ⟨hid, hmethod, -⟩ := hw₀.origin_key horigin
    obtain rfl : e' = p.epochId := hid.symm.trans hof.1
    obtain rfl : m' = m :=
      AnchorMethod.methodByte_injective (hmethod.symm.trans hof.2)
    have hbefore := hw₀.unlisted he
      (hcond.of_suffix ((List.suffix_cons _ _).trans hl)) l' minted horigin.served
    exact hw₀.unlisted_step hev (hcond.of_suffix hl) he horigin.served hbefore p
      (hev.stores_eq hstores)

/-- The first method's serve commits and its final fsync fails; the poisoned
keyspace refuses the other method's anchor and its serve.  The next process
retries from what is stored. -/
def Sample.unsyncedRun : World Sample.sdk :=
  .replay [.append [Sample.leaf 1] "did:a", .append [Sample.leaf 2] "did:b",
    Sample.cycle [.evm, .qtsa] 10
      { Sample.honest "1" with
        serving := fun _ m =>
          if m = .evm then .unsynced (.fjall "fsync")
          else .failed (.fjall "poisoned")
        saving := fun p =>
          if p.anchor .qtsa = none then .ok else .failed (.fjall "poisoned") },
    .restart 15 10, .append [Sample.leaf 3] "did:c",
    Sample.cycle [.evm, .qtsa] 20 (Sample.honest "2")]

theorem one_witness_despite_failed_writes_unsyncedRun :
    Sample.unsyncedRun.store.tipToPair.size = 6 ∧
      ∀ (tip tip' : Hash32) idx idx',
        Sample.unsyncedRun.store.tipToPair[tip]? = some idx →
        Sample.unsyncedRun.store.tipToPair[tip']? = some idx' →
        idx.IsOf 1 .evm → idx'.IsOf 1 .evm → idx.leaf = idx'.leaf → tip = tip' :=
  ⟨by decide +kernel,
    (one_witness_despite_failed_writes (.between (reachable_replay _))
      (by decide +kernel) (e := 1) (by decide) .evm).1⟩

/-- The last epoch id is served and then sealed again, with a provider that
refuses. -/
def Sample.reopenedRun : List (Move Sample.sdk) :=
  [.append [Sample.leaf 1] "did:a", Sample.cycle [.evm] 10 (Sample.honest "1"),
    .append [Sample.leaf 2] "did:a", Sample.cycle [.evm] 20 Sample.noProvider]

/-- Whether an event stores a record that lists a method of the epoch whose
witnesses are served already. -/
def relistsServed (e : Nat) (m : AnchorMethod) (ev : Event sdk)
    (l : List (Event sdk)) : Bool :=
  match ev.stores with
  | some p => decide (p.epochId = e ∧ m ∈ p.methods) &&
      (storeOf Store.empty l).tipToPair.inOrder.any fun idx => idx.IsOf e m
  | none => false

theorem relistsServed_eq_true {e : Nat} {m : AnchorMethod} {ev : Event sdk}
    {l : List (Event sdk)} (h : relistsServed e m ev l = true) :
    ∃ p, ev.stores = some p ∧ p.epochId = e ∧ m ∈ p.methods ∧
      ∃ (tip : Hash32) (idx : TipPairIndex),
        (storeOf Store.empty l).tipToPair[tip]? = some idx ∧ idx.IsOf e m := by
  unfold relistsServed at h
  split at h
  · rename_i p hp
    simp only [Bool.and_eq_true, decide_eq_true_eq, List.any_eq_true] at h
    obtain ⟨⟨hid, hlisted⟩, idx, hidx, hof⟩ := h
    obtain ⟨tip, htip⟩ := mem_inOrder.mp hidx
    exact ⟨p, hp, hid, hlisted, tip, idx, htip, hof⟩
  · cases h

theorem exists_served_method_relisted :
    ∃ (w : World Sample.sdk) (ev : Event Sample.sdk) (l : List (Event Sample.sdk))
      (p : PendingEpoch Sample.sdk),
      Visited Store.empty w ∧ PoisonedByFsync w.log ∧ ev :: l <:+ w.log ∧
      ev.stores = some p ∧ p.epochId = u64Max ∧ AnchorMethod.evm ∈ p.methods ∧
      ∃ (tip : Hash32) (idx : TipPairIndex),
        (storeOf Store.empty l).tipToPair[tip]? = some idx ∧
          idx.IsOf u64Max .evm := by
  obtain ⟨w, past, hreach, hidle, htwin⟩ := exists_lastEpoch Sample.sdk
  obtain ⟨epochs, hpast⟩ := htwin.storeOf_past hreach
  have hmoves : ∀ move ∈ Sample.reopenedRun, move.keepsProcess = true := by
    decide
  have hend := htwin.playAll hmoves
  have hrun : ErrorsChangeNothing
        ((lastEpoch Sample.sdk).playAll Sample.reopenedRun).log ∧
      someSplit (relistsServed u64Max .evm)
        ((lastEpoch Sample.sdk).playAll Sample.reopenedRun).log = true := by
    decide +kernel
  obtain ⟨herr, hsplit⟩ := hrun
  obtain ⟨ev, l, hl, hrelists⟩ := someSplit_iff.mp hsplit
  obtain ⟨p, hp, hid, hlisted, tip, idx, htip, hof⟩ :=
    relistsServed_eq_true hrelists
  obtain ⟨epochs', hstore⟩ := storeOf_append_past hpast l
  refine ⟨w.playAll Sample.reopenedRun, ev, l ++ past, p,
    .between (hreach.playAll _), ?_, ?_, hp, hid, hlisted, tip, idx, ?_, hof⟩
  · exact hend.log ▸ (herr.append_idle hidle).poisonedByFsync
  · exact hend.log ▸ suffix_append_past hl
  · rw [hstore]
    exact htip

/-! ## Every enabled method is pending or settled -/

/-- A committed seal of `e` with leaves. -/
def Event.sealsLeaves (e : Nat) : Event sdk → Bool
  | .call (.persistSealedEpoch record leaves _ _) o =>
      o.committed && record.id = e && !leaves.isEmpty
  | _ => false

/-- The methods enabled in the tick of a history. -/
def enabledMethods (l : List (Event sdk)) : List AnchorMethod :=
  match currentTick l with
  | some (some ctx, _) => ctx.methods
  | _ => []

/-- The epoch `e` was sealed with leaves, in a tick with `m` enabled. -/
def SealedWith (log : List (Event sdk)) (e : Nat) (m : AnchorMethod) : Prop :=
  ∃ ev l, ev :: l <:+ log ∧ ev.sealsLeaves e = true ∧ m ∈ enabledMethods l

/-- The pending record of `e` lists `m`, and nothing of (`e`, `m`) is served. -/
def PendingFor (st : Store sdk) (e : Nat) (m : AnchorMethod) : Prop :=
  (∃ q, st.pendingAnchors[e]? = some q ∧ m ∈ q.methods) ∧
    ∀ (tip : Hash32) idx, st.tipToPair[tip]? = some idx → ¬ idx.IsOf e m

/-- No pending record of `e` lists `m`, and every leaf of `e` has exactly one
index entry of (`e`, `m`), with the DID stored for the leaf. -/
def SettledFor (st : Store sdk) (e : Nat) (m : AnchorMethod) : Prop :=
  (∀ q, st.pendingAnchors[e]? = some q → m ∉ q.methods) ∧
    ∀ (leaf : Hash32) did, st.epochLeaves[(e, leaf)]? = some did →
      ∃ (tip : Hash32) (idx : TipPairIndex),
        (st.tipToPair[tip]? = some idx ∧ idx.IsOf e m ∧ idx.leaf = leaf ∧
          idx.submitterDid = did) ∧
        ∀ (tip' : Hash32) idx', st.tipToPair[tip']? = some idx' →
          idx'.IsOf e m → idx'.leaf = leaf → tip' = tip

section Enabled

variable {w : World sdk} {j : Job sdk} {e : Nat} {m : AnchorMethod}

theorem sealsLeaves_eq_true {ev : Event sdk}
    (h : ev.sealsLeaves e = true) :
    ∃ record leaves witnesses pending o,
      ev = .call (.persistSealedEpoch record leaves witnesses pending) o ∧
        o.committed = true ∧ record.id = e ∧ leaves ≠ [] := by
  unfold Event.sealsLeaves at h
  split at h
  · simp only [Bool.and_eq_true, decide_eq_true_eq, Bool.not_eq_eq_eq_not,
      Bool.not_true, List.isEmpty_eq_false_iff] at h
    exact ⟨_, _, _, _, _, rfl, h.1.1, h.1.2, h.2⟩
  · cases h

theorem enabledMethods_of_mem {l : List (Event sdk)}
    (h : m ∈ enabledMethods l) :
    ∃ ctx now, currentTick l = some (some ctx, now) ∧ m ∈ ctx.methods := by
  unfold enabledMethods at h
  split at h
  · rename_i ctx now htick
    exact ⟨ctx, now, htick, h⟩
  · cases h

example : enabledMethods ([.call .listPendingEpochs (.ok []),
    .tick (some (Sample.ctx [.evm])) 10 60] : List (Event Sample.sdk)) =
      [.evm] := by
  decide +kernel

theorem pendingFor_of_mem (snapshot : SealedSnapshot) (batch : EpochBatch sdk)
    {ctx : WitnessContext} (hm : m ∈ ctx.methods) :
    pendingFor (some ctx) snapshot (some batch) =
      some (PendingEpoch.new snapshot batch ctx.methods) := by
  simp only [pendingFor]
  rw [if_neg]
  rw [List.isEmpty_iff]
  exact List.ne_nil_of_mem hm

/-- The seal of an epoch with leaves stores a record with every enabled
method. -/
theorem Reach.sealed_listed {st : Store sdk} (h : Reach st w j)
    {ev : Event sdk} (hev : Emits w j ev) (hseals : ev.sealsLeaves e = true)
    (hm : m ∈ enabledMethods w.log) :
    ∃ q, (w.emit ev).store.pendingAnchors[e]? = some q ∧ m ∈ q.methods := by
  obtain ⟨record, leaves, witnesses, pending, o, rfl, ho, hid, hne⟩ :=
    sealsLeaves_eq_true hseals
  obtain ⟨ctx, now, htick, hctx⟩ := enabledMethods_of_mem hm
  cases hev with
  | mint _ hminting => cases hminting
  | @persist ctx' now' durationSecs down snapshot prepared batch _ _ hbatch
      hrecord hperm =>
      have htick' := (h.currentTick_eq _ rfl).symm.trans htick
      cases htick'
      rcases hbatch with ⟨hnil, -⟩ | ⟨-, p, -, rfl⟩
      · exact absurd hnil hne
      · have hpending := pendingFor_of_mem snapshot
          ⟨p, snapshot.leaves.map LeafEntry.leaf⟩ hctx
        rw [hpending] at hperm ⊢
        refine ⟨PendingEpoch.new snapshot
          ⟨p, snapshot.leaves.map LeafEntry.leaf⟩ ctx.methods, ?_, hctx⟩
        rw [store_emit_call]
        rcases after_seal hperm with ⟨hno, -⟩ | ⟨-, hsealed⟩
        · rw [hno] at ho
          cases ho
        · rw [hsealed.pendingAnchors, ← hid, buildRecord_id hrecord]
          exact Std.ExtTreeMap.getElem?_insert_self

/-- A method that was enabled at the seal is listed until it is served. -/
theorem Reach.listed_or_served (h : Reach Store.empty w j) (he : e < u64Max) :
    SealedWith w.log e m →
      (∃ q, w.store.pendingAnchors[e]? = some q ∧ m ∈ q.methods) ∨
        ∃ l minted, ServedBy w.log l e m minted := by
  have hst : (Store.empty : Store sdk).Indexed := indexed_empty
  have hmethods : (Store.empty : Store sdk).MethodsNodup := methodsNodup_empty
  refine h.induct (P := fun w => SealedWith w.log e m →
    (∃ q, w.store.pendingAnchors[e]? = some q ∧ m ∈ q.methods) ∨
      ∃ l minted, ServedBy w.log l e m minted) ?_ ?_
  · rintro now durationSecs ⟨ev, l, hl, hseals, hm⟩
    rcases List.suffix_cons_iff.mp hl with heq | hnil
    · cases (List.cons.inj heq).1
      cases hseals
    · cases List.suffix_nil.mp hnil
  · rintro w j ev hw hev ih ⟨sealing, l, hl, hseals, hm⟩
    rw [hev.log_eq] at hl ⊢
    rcases List.suffix_cons_iff.mp hl with heq | hold
    · obtain ⟨rfl, rfl⟩ := List.cons.inj heq
      exact Or.inl (hw.sealed_listed hev hseals hm)
    · rcases ih ⟨sealing, l, hold, hseals, hm⟩ with ⟨q, hq, hlisted⟩ |
        ⟨l', minted, hserved⟩
      · rcases hw.listed_step hst hmethods hev he hq hlisted with
          ⟨q', hq', -, hmem⟩ | ⟨remaining, minted, o, rfl, hsame, ho⟩
        · exact Or.inl ⟨q', hq', hmem⟩
        · have hid : remaining.epochId = e := by
            rw [← hsame.1, ((hw.grounded hst).store.pending e q hq).2]
          exact Or.inr ⟨w.log, minted, remaining, o, hid, ho, List.suffix_refl _⟩
      · exact Or.inr ⟨l', minted, hserved.mono (List.suffix_cons _ _)⟩

/-- An index entry is never removed. -/
theorem Reach.tip_kept {st : Store sdk} (h : Reach st w j)
    {minted : List (MintedWitness sdk)} {l : List (Event sdk)}
    (hserved : ServedBy w.log l e m minted) {wit : MintedWitness sdk}
    (hwit : wit ∈ minted) : wit.signatureHash ∈ w.store.tipToPair := by
  revert hserved
  refine h.induct (P := fun w => ServedBy w.log l e m minted →
    wit.signatureHash ∈ w.store.tipToPair) ?_ ?_
  · rintro now durationSecs ⟨remaining, o, -, -, hl⟩
    rcases List.suffix_cons_iff.mp hl with heq | hnil
    · cases (List.cons.inj heq).1
    · cases List.suffix_nil.mp hnil
  · intro w j ev _ hev ih hserved
    rw [hev.log_eq] at hserved
    rcases servedBy_cons hserved with hold | ⟨-, remaining, o, -, ho, rfl⟩
    · have hmem := ih hold
      have hwritten := hev.written
      generalize (w.emit ev).store = st' at hwritten
      cases hwritten with
      | unchanged => exact hmem
      | saved => exact hmem
      | served _ _ hwrite =>
          rw [hwrite.tipToPair, mem_putAll]
          exact Or.inl hmem
      | sealed _ _ _ hwrite =>
          rw [hwrite.tipToPair]
          exact hmem
    · cases hev with
      | mint _ hminting => cases hminting
      | serve _ hperm =>
          rw [store_emit_call]
          rcases after_serve hperm with ⟨hno, -⟩ | ⟨-, hwrite⟩
          · rw [hno] at ho
            cases ho
          · rw [hwrite.tipToPair, mem_putAll]
            exact Or.inr ⟨_, List.mem_map.mpr ⟨wit, hwit, rfl⟩⟩

/-- What a serve leaves behind for each leaf of its epoch. -/
theorem Reach.settled (h : Reach Store.empty w j)
    (hcond : NoStaleWrite w.log) (hhashes : DistinctHashes w.log)
    (he : e < u64Max) {l : List (Event sdk)}
    {minted : List (MintedWitness sdk)}
    (hserved : ServedBy w.log l e m minted) : SettledFor w.store e m := by
  refine ⟨h.unlisted he hcond l minted hserved, fun leaf did hdid => ?_⟩
  obtain ⟨wit, hwit, hentry⟩ := List.mem_map.mp
    (((h.serve_covers he hserved).leaves leaf did).mp hdid)
  obtain ⟨rfl, rfl⟩ := LeafEntry.mk.inj hentry
  obtain ⟨idx, hidx⟩ := Option.isSome_iff_exists.mp
    (Std.ExtTreeMap.mem_iff_isSome_getElem?.mp (h.tip_kept hserved hwit))
  -- Whatever the entry is now, it was written for the same leaf.
  obtain ⟨l', e', m', minted', wit', horigin⟩ := h.origin _ idx hidx
  obtain ⟨hid, hmethod, hleaf, hsubmitter⟩ := h.origin_key horigin
  obtain ⟨hkey, hkey', hkeyLeaf⟩ := hhashes wit (hserved.minted_mem hwit) wit'
    (horigin.served.minted_mem horigin.mem) horigin.tip.symm
  have hfor := (h.servedKey hserved) wit hwit
  have hfor' := (h.servedKey horigin.served) wit' horigin.mem
  obtain rfl : e' = e := by rw [← hfor'.1, ← hkey, hfor.1]
  obtain rfl : m' = m := by rw [← hfor'.2, ← hkey', hfor.2]
  have hleaf' : idx.leaf = wit.leaf := hleaf.trans hkeyLeaf.symm
  have hsame : some wit'.submitterDid = some wit.submitterDid := by
    rw [← hdid, hkeyLeaf]
    exact (((h.serve_covers he horigin.served).leaves wit'.leaf
      wit'.submitterDid).mpr (List.mem_map_of_mem horigin.mem)).symm
  refine ⟨_, idx, ⟨hidx, ⟨hid, hmethod⟩, hleaf', ?_⟩, ?_⟩
  · rw [hsubmitter]
    exact Option.some.inj hsame
  · intro tip' idx' hidx' hof' hleaf''
    exact h.tip_unique hcond he hidx' hidx hof' ⟨hid, hmethod⟩
      (hleaf''.trans hleaf'.symm)

end Enabled

/-- In any run from an empty store in which writes that report an error change
nothing and different revisions have different hashes, every method that was
enabled when an epoch below `u64::MAX` was sealed with leaves is pending or
settled, and not both. -/
theorem pending_xor_settled {w : World sdk} (hw : Visited Store.empty w)
    (herr : ErrorsChangeNothing w.log) (hhashes : DistinctHashes w.log)
    {e : Nat} (he : e < u64Max) {m : AnchorMethod}
    (hsealed : SealedWith w.log e m) :
    (PendingFor w.store e m ∨ SettledFor w.store e m) ∧
      ¬ (PendingFor w.store e m ∧ SettledFor w.store e m) := by
  obtain ⟨j, hj⟩ := reach_of_visited hw
  have hcond := herr.poisonedByFsync.noStaleWrite
  constructor
  · by_cases hserved : ∃ l minted, ServedBy w.log l e m minted
    · obtain ⟨l, minted, hserved⟩ := hserved
      exact Or.inr (hj.settled hcond hhashes he hserved)
    · rcases hj.listed_or_served he hsealed with hlisted | hyes
      · refine Or.inl ⟨hlisted, fun tip idx hidx hof => hserved ?_⟩
        obtain ⟨l, e', m', minted, wit, horigin⟩ := hj.origin tip idx hidx
        obtain ⟨hid, hmethod, -⟩ := hj.origin_key horigin
        obtain rfl : e' = e := hid.symm.trans hof.1
        obtain rfl : m' = m :=
          AnchorMethod.methodByte_injective (hmethod.symm.trans hof.2)
        exact ⟨l, minted, horigin.served⟩
      · exact absurd hyes hserved
  · rintro ⟨⟨⟨q, hq, hlisted⟩, -⟩, hnot, -⟩
    exact hnot q hq hlisted

instance decidableSealedWith (log : List (Event sdk)) (e : Nat)
    (m : AnchorMethod) : Decidable (SealedWith log e m) :=
  decidable_of_iff (someSplit (fun ev l =>
      ev.sealsLeaves e && decide (m ∈ enabledMethods l)) log = true)
    (someSplit_iff.trans (by simp only [SealedWith, Bool.and_eq_true,
      decide_eq_true_eq]))

/-- One method is served and the other method's provider refuses. -/
def Sample.halfRun : World Sample.sdk :=
  .replay [.append [Sample.leaf 1] "did:a", .append [Sample.leaf 2] "did:b",
    Sample.cycle [.evm, .qtsa] 10
      { Sample.honest "1" with
        anchor := fun _ m root =>
          if m = .qtsa then .error "unreachable"
          else .ok (Sample.anchored "1" m root) }]

theorem pending_xor_settled_halfRun :
    ((PendingFor Sample.halfRun.store 1 .evm ∨
        SettledFor Sample.halfRun.store 1 .evm) ∧
      ¬ (PendingFor Sample.halfRun.store 1 .evm ∧
        SettledFor Sample.halfRun.store 1 .evm)) ∧
    ((PendingFor Sample.halfRun.store 1 .qtsa ∨
        SettledFor Sample.halfRun.store 1 .qtsa) ∧
      ¬ (PendingFor Sample.halfRun.store 1 .qtsa ∧
        SettledFor Sample.halfRun.store 1 .qtsa)) := by
  have hall : ErrorsChangeNothing Sample.halfRun.log ∧
      DistinctHashes Sample.halfRun.log ∧
      SealedWith Sample.halfRun.log 1 .evm ∧
      SealedWith Sample.halfRun.log 1 .qtsa := by
    decide +kernel
  exact ⟨pending_xor_settled (.between (reachable_replay _)) hall.1 hall.2.1
      (by decide) hall.2.2.1,
    pending_xor_settled (.between (reachable_replay _)) hall.1 hall.2.1
      (by decide) hall.2.2.2⟩

theorem DistinctHashes.append_idle {l past : List (Event sdk)}
    (h : DistinctHashes l) (hpast : ∀ ev ∈ past, ev.isIdle = true) :
    DistinctHashes (l ++ past) := by
  have hnil : past.flatMap Event.minted = [] := by
    refine List.flatMap_eq_nil_iff.mpr fun ev hev => ?_
    have hidle := hpast ev hev
    unfold Event.isIdle at hidle
    split at hidle <;> first | rfl | cases hidle
  unfold DistinctHashes
  rw [List.flatMap_append, hnil, List.append_nil]
  exact h

theorem SealedWith.append_past {l past : List (Event sdk)} {e : Nat}
    {m : AnchorMethod} (h : SealedWith l e m) : SealedWith (l ++ past) e m := by
  obtain ⟨ev, l', hl, hseals, hm⟩ := h
  obtain ⟨ctx, now, htick, hctx⟩ := enabledMethods_of_mem hm
  refine ⟨ev, l' ++ past, suffix_append_past hl, hseals, ?_⟩
  rw [enabledMethods, currentTick_append htick]
  exact hctx

theorem exists_neither_pending_nor_settled :
    ∃ w : World Sample.sdk, Visited Store.empty w ∧ ErrorsChangeNothing w.log ∧
      DistinctHashes w.log ∧ SealedWith w.log u64Max .evm ∧
      ¬ PendingFor w.store u64Max .evm ∧ ¬ SettledFor w.store u64Max .evm := by
  have hmoves : ∀ move ∈ Sample.reopenedRun, move.keepsProcess = true := by
    decide
  obtain ⟨w, past, hw, hidle, hend⟩ := exists_twin_playAll hmoves
  obtain ⟨epochs, hstore⟩ := hend.store
  have hrun : ErrorsChangeNothing
        ((lastEpoch Sample.sdk).playAll Sample.reopenedRun).log ∧
      DistinctHashes ((lastEpoch Sample.sdk).playAll Sample.reopenedRun).log ∧
      SealedWith ((lastEpoch Sample.sdk).playAll Sample.reopenedRun).log
        u64Max .evm ∧
      ((lastEpoch Sample.sdk).playAll
        Sample.reopenedRun).store.isEpochPending u64Max .evm = true ∧
      ((lastEpoch Sample.sdk).playAll
        Sample.reopenedRun).store.tipToPair.inOrder.any
          (fun idx => decide (idx.IsOf u64Max .evm)) = true := by
    decide +kernel
  obtain ⟨herr, hhashes, hsealed, hpending, htips⟩ := hrun
  refine ⟨w, hw, ?_, ?_, ?_, ?_, ?_⟩
  · exact hend.log ▸ herr.append_idle hidle
  · exact hend.log ▸ hhashes.append_idle hidle
  · exact hend.log ▸ hsealed.append_past
  · rw [hstore]
    rintro ⟨-, hnone⟩
    obtain ⟨idx, hidx, hof⟩ := List.any_eq_true.mp htips
    obtain ⟨tip, htip⟩ := mem_inOrder.mp hidx
    exact hnone tip idx htip (of_decide_eq_true hof)
  · rw [hstore]
    rintro ⟨hunlisted, -⟩
    obtain ⟨q, hq, hlisted⟩ := Store.isEpochPending_eq_true.mp hpending
    exact hunlisted q hq hlisted

end AquaTimestamp
