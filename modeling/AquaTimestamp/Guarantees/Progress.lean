import AquaTimestamp.Guarantees.Faultless
import AquaTimestamp.Guarantees.Settled

/-!
# A tick in which no call fails catches up

Whatever failed in earlier ticks, whatever was restarted and whatever is
submitted meanwhile: after one tick in which no call fails nothing is pending
that the tick was allowed to settle, and the leaves that were in the open epoch
when the tick began are served.
-/

namespace AquaTimestamp

open Support Partition

variable {sdk : Sdk}
variable {w w' : World sdk} {ctx : WitnessContext} {now durationSecs : Nat}
variable {result : Except SealError (EpochRecord × List (MintedWitness sdk))}

/-- What a tick finds and leaves, on the worlds of a server. -/
theorem Reachable.catchesUp (hw : Reachable Store.empty w) (hdistinct : ctx.methods.Nodup)
    (hvalid : ctx.validate = .ok ())
    (hcycle : SealCycle w (some ctx) now durationSecs w' (some result))
    (hfaultless : Faultless w'.log) :
    ∃ snapshot : SealedSnapshot, snapshot.epochId = w.accumulator.epochId ∧
      w.accumulator.leaves <+: snapshot.leaves ∧ CatchesUp ctx snapshot result w' := by
  have hst : (Store.empty : Store sdk).Indexed := indexed_empty
  have hmethods : (Store.empty : Store sdk).MethodsNodup := methodsNodup_empty
  have hreach := reach_of_reachable hw
  have hgrounded := hreach.grounded hst
  have hstart : ToRetry ctx w.store.listPendingEpochs w.store :=
    toRetry_list hgrounded.store (hreach.followed hst hmethods).1 hreach.restorable
  have htick : During w.accumulator (· = w.store) (w.tick (some ctx) now durationSecs) :=
    ⟨rfl, rfl, List.prefix_refl _, hgrounded.accumulator⟩
  exact faultlessly_sealOnce hvalid hdistinct hstart _ _ _ htick hcycle hfaultless

/-- After a tick in which no call fails the cycle has ended without an error,
and every enabled method of an epoch below `u64::MAX` sealed with leaves, in
this tick or in any earlier one, is settled, unless its provider has used up
the faults it is allowed. -/
theorem faultless_tick_settles (hw : Reachable Store.empty w)
    (hdistinct : ctx.methods.Nodup) (hvalid : ctx.validate = .ok ())
    (hcycle : SealCycle w (some ctx) now durationSecs w' (some result))
    (hfaultless : Faultless w'.log) (hfsync : PoisonedByFsync w'.log)
    (hhashes : DistinctHashes w'.log) :
    (∃ sealed, result = .ok sealed) ∧
      ∀ e < u64Max, ∀ m ∈ ctx.methods, SealedWith w'.log e m →
        SettledFor w'.store e m ∨
          ∃ q, w'.store.pendingAnchors[e]? = some q ∧ m ∈ q.methods ∧
            Capped ctx.maxAnchorFaults q m := by
  obtain ⟨snapshot, -, -, hok, hcaught⟩ :=
    hw.catchesUp hdistinct hvalid hcycle hfaultless
  have hctx : DistinctMethods (some ctx) := by
    rintro _ ⟨⟩
    exact hdistinct
  have hreach := reach_of_reachable (.cycle hw hctx hcycle)
  refine ⟨hok, fun e he m hm hsealed => ?_⟩
  rcases hreach.listed_or_served he hsealed with ⟨q, hq, hlisted⟩ | ⟨l, minted, hserved⟩
  · rcases hcaught.pending e q hq m hlisted with hdisabled | hcapped
    · exact absurd hm hdisabled
    · exact Or.inr ⟨q, hq, hlisted, hcapped⟩
  · exact Or.inl (hreach.settled hfsync.noStaleWrite hhashes he hserved)

/-- The one method's witnesses are committed by a write whose final fsync fails,
the other method's provider refuses; the server is restarted and a leaf is
submitted. -/
def Sample.behind : World Sample.sdk :=
  .replay [.append [Sample.leaf 1] "did:a",
    Sample.cycle [.evm, .qtsa] 10
      { Sample.honest "1" with
        anchor := fun _ m root =>
          if m = .qtsa then .error "unreachable"
          else .ok (Sample.anchored "1" m root)
        serving := fun _ _ => .unsynced (.fjall "fsync") },
    .restart 15 60, .append [Sample.leaf 2] "did:b"]

def Sample.goodTick : World Sample.sdk ×
    Option (Except SealError (EpochRecord × List (MintedWitness Sample.sdk))) :=
  Sample.behind.enter (some (Sample.ctx [.evm, .qtsa])) 20 60 (Sample.honest "2")

theorem Sample.ctx_valid : (Sample.ctx [.evm, .qtsa]).validate = .ok () := by
  decide

theorem Sample.goodTick_cycle : ∃ result,
    SealCycle Sample.behind (some (Sample.ctx [.evm, .qtsa])) 20 60
      Sample.goodTick.1 (some result) := by
  have hsome : Sample.goodTick.2.isSome = true := by
    decide +kernel
  obtain ⟨result, hresult⟩ := Option.isSome_iff_exists.mp hsome
  refine ⟨result, ?_⟩
  rw [← hresult]
  exact sealCycle_enter _ _ _ _ _

theorem faultless_tick_settles_goodTick :
    (SettledFor Sample.goodTick.1.store 1 .qtsa ∨
      ∃ q, Sample.goodTick.1.store.pendingAnchors[1]? = some q ∧
        .qtsa ∈ q.methods ∧ Capped 3 q .qtsa) ∧
    (SettledFor Sample.goodTick.1.store 2 .evm ∨
      ∃ q, Sample.goodTick.1.store.pendingAnchors[2]? = some q ∧
        .evm ∈ q.methods ∧ Capped 3 q .evm) := by
  obtain ⟨result, hcycle⟩ := Sample.goodTick_cycle
  have hrun : Faultless Sample.goodTick.1.log ∧
      PoisonedByFsync Sample.goodTick.1.log ∧
      DistinctHashes Sample.goodTick.1.log ∧
      SealedWith Sample.goodTick.1.log 1 .qtsa ∧
      SealedWith Sample.goodTick.1.log 2 .evm := by
    decide +kernel
  have hsettles := (faultless_tick_settles (reachable_replay _) (by decide)
    Sample.ctx_valid hcycle hrun.1 hrun.2.1 hrun.2.2.1).2
  exact ⟨hsettles 1 (by decide) .qtsa (by decide) hrun.2.2.2.1,
    hsettles 2 (by decide) .evm (by decide) hrun.2.2.2.2⟩

/-! ## A submitted leaf is served -/

/-- A leaf that answers with an epoch is served to its owner with the pair of
that epoch. -/
theorem Reach.serves_answer {j : Job sdk} (h : Reach Store.empty w j)
    (hhashes : DistinctHashes w.log) {leaf : Hash32} {m : AnchorMethod} {e : Nat}
    {did leafHex methodStr : String} (hanswer : answerEpoch w.store leaf m = some e)
    (howner : w.store.leafOwner[leaf]? = some did)
    (hleaf : parseHash32 leafHex = .ok leaf)
    (hmethod : AnchorMethod.parse methodStr = some m) (maxAnchorFaults : UInt32) :
    ∃ idx r, getTreeByLeaf w.store maxAnchorFaults did leafHex (some methodStr) = .ok r ∧
      pairResponse w.store idx = .ok r ∧ r.status = .ok ∧
      idx.IsOf e m ∧ idx.leaf = leaf := by
  obtain ⟨tip, htip, hpair⟩ := Option.bind_eq_some_iff.mp hanswer
  obtain ⟨idx, hidx, hid⟩ := Option.map_eq_some_iff.mp hpair
  have hin : tip ∈ w.store.tipToPair := h.linked.target _ tip htip
  have hchecked : w.store.isSelfChecked tip = true :=
    Std.ExtTreeMap.mem_iff_contains.mp ((h.linked.checked tip).mp hin)
  obtain ⟨hobject, hsignature⟩ := h.linked.revisions tip idx hidx
  obtain ⟨r, hr⟩ := exists_pairResponse hobject hsignature
  obtain ⟨hkey, hbyte⟩ := h.current_key hhashes htip hidx
  refine ⟨idx, r, ?_, hr, pairResponse_status hr, ⟨hid, hbyte⟩, hkey⟩
  rw [getTreeByLeaf_of_pair hmethod hleaf howner htip hidx hchecked, hr]

/-- A leaf of the open epoch is served to its submitter after a tick in which
no call fails, for every enabled method, with the pair of that epoch. -/
theorem leaf_served_after_faultless_tick (hw : Reachable Store.empty w)
    (hdistinct : ctx.methods.Nodup) (hvalid : ctx.validate = .ok ())
    (hcap : 0 < ctx.maxAnchorFaults)
    (hcycle : SealCycle w (some ctx) now durationSecs w' (some result))
    (hfaultless : Faultless w'.log) (hhashes : DistinctHashes w'.log)
    {entry : LeafEntry} (hentry : entry ∈ w.accumulator.leaves)
    {m : AnchorMethod} (hm : m ∈ ctx.methods) {leafHex methodStr : String}
    (hleaf : parseHash32 leafHex = .ok entry.leaf)
    (hmethod : AnchorMethod.parse methodStr = some m) (maxAnchorFaults : UInt32) :
    ∃ idx r, getTreeByLeaf w'.store maxAnchorFaults entry.submitterDid leafHex
        (some methodStr) = .ok r ∧
      pairResponse w'.store idx = .ok r ∧ r.status = .ok ∧
      idx.IsOf w.accumulator.epochId m ∧ idx.leaf = entry.leaf := by
  obtain ⟨snapshot, hid, hopen, -, hcaught⟩ :=
    hw.catchesUp hdistinct hvalid hcycle hfaultless
  have hctx : DistinctMethods (some ctx) := by
    rintro _ ⟨⟩
    exact hdistinct
  have hclosed : entry ∈ snapshot.leaves := hopen.subset hentry
  have hanswer := hcaught.answers hcap entry hclosed m hm
  rw [hid] at hanswer
  exact (reach_of_reachable (.cycle hw hctx hcycle)).serves_answer hhashes hanswer
    (hcaught.owner entry hclosed) hleaf hmethod maxAnchorFaults

theorem leaf_served_after_faultless_tick_goodTick :
    ∃ idx r, getTreeByLeaf Sample.goodTick.1.store 3 "did:b"
        (hexLower (Sample.leaf 2)) (some "evm") = .ok r ∧
      pairResponse Sample.goodTick.1.store idx = .ok r ∧ r.status = .ok ∧
      idx.IsOf 2 .evm ∧ idx.leaf = Sample.leaf 2 := by
  obtain ⟨result, hcycle⟩ := Sample.goodTick_cycle
  have hrun : Faultless Sample.goodTick.1.log ∧
      DistinctHashes Sample.goodTick.1.log ∧
      ⟨Sample.leaf 2, "did:b"⟩ ∈ Sample.behind.accumulator.leaves ∧
      Sample.behind.accumulator.epochId = 2 := by
    decide +kernel
  have hreachable : Reachable Store.empty Sample.behind := reachable_replay _
  have henabled : AnchorMethod.evm ∈ (Sample.ctx [.evm, .qtsa]).methods := by
    decide
  have hmethod : AnchorMethod.parse "evm" = some .evm := by
    decide
  have hserved := leaf_served_after_faultless_tick hreachable (by decide)
    Sample.ctx_valid (by decide) hcycle hrun.1 hrun.2.1 hrun.2.2.1 henabled
    (parseHash32_hexLower _) hmethod 3
  rwa [hrun.2.2.2] at hserved

end AquaTimestamp
