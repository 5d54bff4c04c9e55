import AquaTimestamp.Guarantees.Isolation
import AquaTimestamp.Guarantees.Lookup

/-!
# Which witness a leaf answers with

`write_witnesses` points a leaf to the witness it writes, whatever the leaf
pointed to before.  Pending epochs settle in any order, so a leaf that was
sealed in two epochs may go from the witness of the later epoch back to the
witness of the earlier one.  It does so exactly when the earlier epoch is
served after the later one.
-/

namespace AquaTimestamp

open Support Partition

variable {sdk : Sdk}

/-- The epoch of the witness a leaf answers with. -/
def answerEpoch (st : Store sdk) (leaf : Hash32) (m : AnchorMethod) :
    Option Nat :=
  (st.getTipForLeaf leaf m).bind fun tip =>
    (st.getTipPair tip).map TipPairIndex.epochId

/-- A serve is not of an earlier epoch than the witness one of its leaves
answers with. -/
def ServesForward (st : Store sdk) : Event sdk → Prop
  | .call (.persistPendingMinted remaining done _) o =>
      o.committed = true →
        ∀ leaf ∈ remaining.leafHashes.toOption.getD [],
          ∀ e ∈ answerEpoch st leaf done, e ≤ remaining.epochId
  | _ => True

instance decidableServesForward (st : Store sdk) (ev : Event sdk) :
    Decidable (ServesForward st ev) := by
  unfold ServesForward
  split <;> infer_instance

/-- The witness a leaf answers with never gets older in a history. -/
def NeverOlder (log : List (Event sdk)) : Prop :=
  ∀ l l', l <:+ l' → l' <:+ log → ∀ leaf m e,
    answerEpoch (storeOf Store.empty l) leaf m = some e →
      ∃ e' ≥ e, answerEpoch (storeOf Store.empty l') leaf m = some e'

theorem servesForward_iff {st : Store sdk} {ev : Event sdk} :
    ServesForward st ev ↔ ∀ e m leaf, ev.ServesLeaf e m leaf →
      ∀ e', answerEpoch st leaf m = some e' → e' ≤ e := by
  constructor
  · rintro h e m leaf ⟨remaining, minted, o, rfl, ho, rfl, hleaf⟩ e' hanswer
    exact h ho leaf (mem_toOption_getD.mpr hleaf) e' hanswer
  · intro h
    unfold ServesForward
    split
    · rename_i remaining done minted o
      intro ho leaf hleaf e' hanswer
      exact h _ done leaf ⟨remaining, minted, o, rfl, ho, rfl,
        mem_toOption_getD.mp hleaf⟩ e' hanswer
    · trivial

/-- A leaf answers with nothing before anything is served. -/
example : answerEpoch (Store.empty : Store Sample.sdk) (Sample.leaf 1) .evm = none := by
  decide +kernel

section Step

variable {w : World sdk} {j : Job sdk} {ev : Event sdk} {m : AnchorMethod}
variable {leaf : Hash32}

/-- What a serve leaves under a tip: the entry of one of its witnesses, or what
was there before. -/
theorem Served.tip_cases {st st' : Store sdk} {remaining : PendingEpoch sdk}
    {minted : List (MintedWitness sdk)} (h : Served st remaining minted st')
    (tip : Hash32) :
    (∃ wit ∈ minted, wit.signatureHash = tip ∧
      st'.tipToPair[tip]? = some (Store.pairIndex wit)) ∨
      st'.tipToPair[tip]? = st.tipToPair[tip]? := by
  rw [h.tipToPair]
  rcases putAll_cases st.tipToPair
      (minted.map fun w => (w.signatureHash, Store.pairIndex w)) tip rfl with
    ⟨idx, hget, hmem⟩ | ⟨-, hold⟩
  · obtain ⟨wit, hwit, heq⟩ := List.mem_map.mp hmem
    obtain ⟨rfl, rfl⟩ := Prod.mk.inj heq
    exact Or.inl ⟨wit, hwit, rfl, hget⟩
  · exact Or.inr hold.symm

/-- A serve writes the leaf's tip and the tip's entry, of its own epoch. -/
theorem Reach.answer_of_serve {st : Store sdk} (h : Reach st w j)
    (hev : Emits w j ev) {e : Nat} (hserves : ev.ServesLeaf e m leaf) :
    answerEpoch (w.emit ev).store leaf m = some e := by
  obtain ⟨remaining, minted, o, rfl, ho, rfl, hleaf⟩ := hserves
  cases hev with
  | mint _ hminting => cases hminting
  | @serve s _ v _ _ hphase hperm =>
      have hjudged := h.judged _ _ _ _ _ rfl hphase
      rw [store_emit_call]
      rcases after_serve hperm with ⟨hno, -⟩ | ⟨-, hserved⟩
      · rw [hno] at ho
        cases ho
      -- The leaf's tip is one of the written ones, and so is the tip's entry.
      obtain ⟨wit, hwit, rfl, rfl⟩ := hjudged.exists_witness hleaf
      obtain ⟨tip, htip, hmem⟩ := putAll_of_mem w.store.leafToTips
        (List.mem_map_of_mem (f := fun w : MintedWitness sdk =>
          ((w.leaf, w.method.methodByte), w.signatureHash)) hwit)
      obtain ⟨wit', hwit', heq⟩ := List.mem_map.mp hmem
      obtain ⟨-, rfl⟩ := Prod.mk.inj heq
      obtain ⟨idx, hidx, hmem'⟩ := putAll_of_mem w.store.tipToPair
        (List.mem_map_of_mem (f := fun w : MintedWitness sdk =>
          (w.signatureHash, Store.pairIndex w)) hwit')
      obtain ⟨wit'', hwit'', heq'⟩ := List.mem_map.mp hmem'
      obtain ⟨-, rfl⟩ := Prod.mk.inj heq'
      simp only [answerEpoch, Store.getTipForLeaf, Store.getTipPair,
        hserved.leafToTips, htip, Option.bind_some, hserved.tipToPair, hidx,
        Option.map_some]
      exact congrArg some (hjudged.of_mem hwit'').1

/-- An event gives the leaf the witness of the epoch it serves, or leaves the
epoch of the leaf's witness as it is. -/
theorem Reach.answer_step (h : Reach Store.empty w j) (hev : Emits w j ev)
    (hhashes : DistinctHashes (ev :: w.log)) :
    (∃ e, ev.ServesLeaf e m leaf ∧
      answerEpoch (w.emit ev).store leaf m = some e) ∨
    ((∀ e, ¬ ev.ServesLeaf e m leaf) ∧
      answerEpoch (w.emit ev).store leaf m = answerEpoch w.store leaf m) := by
  by_cases hserves : ∃ e, ev.ServesLeaf e m leaf
  · obtain ⟨e, hserves⟩ := hserves
    exact Or.inl ⟨e, hserves, h.answer_of_serve hev hserves⟩
  refine Or.inr ⟨fun e he => hserves ⟨e, he⟩, ?_⟩
  have hlinked := h.linked
  have horigin := h.origin
  have hwritten := hev.written
  generalize (w.emit ev).store = st' at hwritten
  cases hwritten with
  | unchanged | saved => rfl
  | sealed _ _ _ hsealed =>
      simp only [answerEpoch, Store.getTipForLeaf, Store.getTipPair,
        hsealed.leafToTips, hsealed.tipToPair]
  | @served s done v minted o st' hphase ho hserved =>
      obtain ⟨snapshot, batch, hrestore, hfor⟩ :=
        (h.judged _ _ _ _ _ rfl hphase).mintedFor
      have hsame : st'.getTipForLeaf leaf m = w.store.getTipForLeaf leaf m := by
        rw [Store.getTipForLeaf, hserved.leafToTips]
        refine putAll_of_not_mem fun tip hmem => hserves ?_
        obtain ⟨wit, hwit, heq⟩ := List.mem_map.mp hmem
        obtain ⟨hkey, -⟩ := Prod.mk.inj heq
        obtain ⟨rfl, hmethod⟩ := Prod.mk.inj hkey
        obtain ⟨-, hdone, hentry⟩ := hfor.of_mem hwit
        obtain rfl := hdone.symm.trans (AnchorMethod.methodByte_injective hmethod)
        refine ⟨_, s.record.without done, minted, o, rfl, ho, rfl, _,
          (PendingEpoch.restore_leaves hrestore).1, ?_⟩
        exact List.mem_map_of_mem hentry
      unfold answerEpoch
      rw [hsame]
      cases htip : w.store.getTipForLeaf leaf m with
      | none => rfl
      | some tip =>
          rcases hserved.tip_cases tip with ⟨wit, hwit, hsig, hnew⟩ | hkept
          · -- The tip is written again: the same hash, so the same epoch.
            obtain ⟨idx, hidx⟩ := Option.isSome_iff_exists.mp
              (Std.ExtTreeMap.mem_iff_isSome_getElem?.mp
                (hlinked.target _ tip htip))
            obtain ⟨l, e, m', minted', wit', hfrom⟩ := horigin tip idx hidx
            have hin : wit ∈ (Event.call (Call.persistPendingMinted
                (s.record.without done) done minted) o ::
                  w.log).flatMap Event.minted :=
              List.mem_flatMap.mpr ⟨_, List.mem_cons_self .., hwit⟩
            have hin' : wit' ∈ (Event.call (Call.persistPendingMinted
                (s.record.without done) done minted) o ::
                  w.log).flatMap Event.minted := by
              obtain ⟨old, hold, hmem⟩ :=
                List.mem_flatMap.mp (hfrom.served.minted_mem hfrom.mem)
              exact List.mem_flatMap.mpr ⟨old, List.mem_cons_of_mem _ hold, hmem⟩
            have hid := (hhashes wit hin wit' hin'
              (hsig.trans hfrom.tip.symm)).1
            simp only [Option.bind_some, Store.getTipPair, hnew, hidx,
              ← hfrom.index, Option.map_some]
            exact congrArg some hid
          · simp only [Option.bind_some, Store.getTipPair, hkept]

end Step

theorem storeOf_eq_emit {w : World sdk} {j : Job sdk} {ev : Event sdk}
    (h : Reach Store.empty w j) (hev : Emits w j ev) :
    storeOf Store.empty (ev :: w.log) = (w.emit ev).store := by
  rw [storeOf_cons, hev.store_eq, h.store_eq]

/-- What one event of a forward history keeps. -/
theorem Reach.answer_kept {w : World sdk} {j : Job sdk}
    (h : Reach Store.empty w j) (hhashes : DistinctHashes w.log)
    {ev : Event sdk} {l : List (Event sdk)} (hl : ev :: l <:+ w.log)
    (hforward : ServesForward (storeOf Store.empty l) ev) {leaf : Hash32}
    {m : AnchorMethod} {e : Nat}
    (hanswer : answerEpoch (storeOf Store.empty l) leaf m = some e) :
    ∃ e' ≥ e, answerEpoch (storeOf Store.empty (ev :: l)) leaf m = some e' := by
  rcases h.emitted hl with ⟨rfl, now, durationSecs, rfl⟩ |
    ⟨w₀, j₀, hw₀, rfl, hev⟩
  · exact ⟨e, le_refl _, hanswer⟩
  · rw [storeOf_eq_emit hw₀ hev]
    rw [← hw₀.store_eq] at hanswer hforward
    rcases hw₀.answer_step hev (hhashes.of_suffix hl) with
      ⟨e', hserves, hnew⟩ | ⟨-, hsame⟩
    · exact ⟨e', servesForward_iff.mp hforward e' m leaf hserves e hanswer, hnew⟩
    · exact ⟨e, le_refl _, hsame.trans hanswer⟩

/-- With distinct hashes, the witness a leaf answers with never gets older in a
run from an empty store, if and only if no epoch is served for a method after a
later epoch with one of its leaves was served for that method. -/
theorem leaf_answer_never_older_iff {w : World sdk}
    (hw : Visited Store.empty w) (hhashes : DistinctHashes w.log) :
    NeverOlder w.log ↔ EachStep Store.empty ServesForward w.log := by
  obtain ⟨j, hj⟩ := reach_of_visited hw
  constructor
  · intro hnever ev l hl
    rw [servesForward_iff]
    intro e m leaf hserves e' hanswer
    rcases hj.emitted hl with ⟨-, now, durationSecs, rfl⟩ |
      ⟨w₀, j₀, hw₀, rfl, hev⟩
    · obtain ⟨_, _, _, heq, -⟩ := hserves
      cases heq
    · obtain ⟨e'', hle, hlater⟩ :=
        hnever w₀.log (ev :: w₀.log) (List.suffix_cons _ _) hl leaf m e' hanswer
      rw [storeOf_eq_emit hw₀ hev, hw₀.answer_of_serve hev hserves] at hlater
      cases hlater
      exact hle
  · intro hforward l l' hl hl' leaf m e hanswer
    -- By induction over the events between the two states.
    induction l' with
    | nil =>
        obtain rfl := List.suffix_nil.mp hl
        exact ⟨e, le_refl _, hanswer⟩
    | cons ev l' ih =>
        rcases List.suffix_cons_iff.mp hl with rfl | hbefore
        · exact ⟨e, le_refl _, hanswer⟩
        · obtain ⟨e', hle, hlater⟩ :=
            ih hbefore ((List.suffix_cons _ _).trans hl')
          obtain ⟨e'', hle', hlast⟩ :=
            hj.answer_kept hhashes hl' (hforward ev l' hl') hlater
          exact ⟨e'', le_trans hle hle', hlast⟩

/-- A leaf is sealed in two epochs that are served in order. -/
def Sample.inOrderRun : World Sample.sdk :=
  .replay [.append [Sample.leaf 1] "did:a",
    Sample.cycle [.evm] 10 (Sample.honest "1"),
    .append [Sample.leaf 1] "did:a",
    Sample.cycle [.evm] 20 (Sample.honest "2")]

theorem leaf_answer_never_older_iff_inOrderRun :
    answerEpoch Sample.inOrderRun.store (Sample.leaf 1) .evm = some 2 ∧
      NeverOlder Sample.inOrderRun.log := by
  have hrun : DistinctHashes Sample.inOrderRun.log ∧
      EachStep Store.empty ServesForward Sample.inOrderRun.log ∧
      answerEpoch Sample.inOrderRun.store (Sample.leaf 1) .evm = some 2 := by
    decide +kernel
  exact ⟨hrun.2.2, (leaf_answer_never_older_iff (.between (reachable_replay _))
    hrun.1).mpr hrun.2.1⟩

/-- The anchor of the first epoch is not final when the second epoch, with the
same leaf, is served; the first epoch is served in the tick after that. -/
def Sample.overtakenRun : World Sample.sdk :=
  .replay [.append [Sample.leaf 1] "did:a",
    Sample.cycle [.evm] 10
      { Sample.honest "1" with check := fun _ _ _ => .ok Sample.notFinal },
    .append [Sample.leaf 1] "did:a",
    Sample.cycle [.evm] 20
      { Sample.honest "2" with
        check := fun e _ _ =>
          .ok (if e = 1 then Sample.notFinal else Sample.verifying) },
    Sample.cycle [.evm] 30 (Sample.honest "3")]

theorem exists_leaf_answer_older :
    Visited Store.empty Sample.overtakenRun ∧
      DistinctHashes Sample.overtakenRun.log ∧
      ¬ NeverOlder Sample.overtakenRun.log := by
  have hrun : DistinctHashes Sample.overtakenRun.log ∧
      someSplit (fun _ l => answerEpoch (storeOf Store.empty l) (Sample.leaf 1)
        .evm = some 2) Sample.overtakenRun.log = true ∧
      answerEpoch (storeOf Store.empty Sample.overtakenRun.log) (Sample.leaf 1)
        .evm = some 1 := by
    decide +kernel
  refine ⟨.between (reachable_replay _), hrun.1, fun hnever => ?_⟩
  obtain ⟨ev, l, hl, hbefore⟩ := someSplit_iff.mp hrun.2.1
  obtain ⟨e, hle, hafter⟩ := hnever l Sample.overtakenRun.log
    ((List.suffix_cons _ _).trans hl) (List.suffix_refl _) (Sample.leaf 1) .evm 2
    (of_decide_eq_true hbefore)
  rw [hrun.2.2] at hafter
  cases hafter
  omega

end AquaTimestamp
