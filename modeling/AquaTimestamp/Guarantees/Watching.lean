import AquaTimestamp.Model.Watcher
import AquaTimestamp.Support.Checkpoint

/-!
# The watcher scans every block once

The watcher is a consumer of the chain's transfers with a checkpoint: its
position is the watermark in memory, its checkpoint the stored one, and what it
has committed are the windows of its batches.  Every run of the watcher is a run
of that consumer, so from a first stored watermark on each transfer is in exactly
one committed window.
-/

namespace AquaTimestamp

open Support Support.Semantics

variable {blockchain : Blockchain} {meets : WatchCondition} {watcher : BlockWatcher}

/-! ## Transfers of the chain -/

/-- A transfer by its block, sender and value. -/
structure InboundTransfer where
  block : Nat
  sender : Address
  value : Nat
  deriving DecidableEq

def FuelTransfer.inbound (ft : FuelTransfer) : InboundTransfer :=
  ⟨ft.blockNumber, ft.sender, ft.valueWei⟩

/-- The transfers to a wallet in a block, in order. -/
def inboundAt (blockchain : Blockchain) (wallet : Address) (n : Nat) :
    List InboundTransfer :=
  (inboundTransactions (blockchain n).transactions wallet).map fun tx =>
    ⟨n, tx.signer, tx.value⟩

/-- A block that is scanned without a panic gives its transfers. -/
theorem inbound_filterTransfers {n : Nat} {found : List FuelTransfer}
    (h : filterTransfers (blockchain n).transactions watcher.walletAddress n
      (blockchain n).timestamp = some found) :
    found.map FuelTransfer.inbound =
      inboundAt blockchain watcher.walletAddress n := by
  unfold filterTransfers at h
  unfold inboundAt
  generalize inboundTransactions (blockchain n).transactions watcher.walletAddress =
    txs at h
  induction txs generalizing found with
  | nil =>
      cases h
      rfl
  | cons tx txs ih =>
      rw [List.mapM_cons] at h
      obtain ⟨ft, htx, hrest⟩ := Option.bind_eq_some_iff.mp h
      obtain ⟨fts, hfts, hfound⟩ := Option.bind_eq_some_iff.mp hrest
      cases hfound
      rw [List.map_cons, List.map_cons, ih hfts]
      split at htx
      · cases htx
        rfl
      · cases htx

/-! ## The watcher as a consumer -/

/-- A committed window with its transfers. -/
def ScanWindow.window (x : ScanWindow) : Window InboundTransfer :=
  ⟨x.scanStart, x.scanEnd, x.transfers.map FuelTransfer.inbound⟩

/-- The consumer the watcher is, with its watermark in memory. -/
def WatchWorld.consumer (w : WatchWorld) (watermark : Nat) : Consumer InboundTransfer where
  position := watermark
  checkpoint := w.store.getWatermark chainLabel
  committed := w.commits.map ScanWindow.window

/-- Calls that only read. -/
def WatchCall.reads : WatchCall → Bool
  | .upsertContributorsAndWatermark .. => false
  | .setWatermark .. => false
  | _ => true

theorem store_after_reads {b : Leaderboard} {c : WatchCall} {answer : WatchAnswer c}
    (hc : c.reads = true) : b.after c answer = b := by
  cases c <;> first | rfl | cases hc

theorem consumer_after_reads {w : WatchWorld} {m : Nat} {c : WatchCall}
    {answer : WatchAnswer c} (hc : c.reads = true) :
    (w.after c answer).consumer m = w.consumer m := by
  have hstore : (w.after c answer).store = w.store := store_after_reads hc
  have hcommits : (w.after c answer).commits = w.commits := by
    cases c <;> first | rfl | cases hc
  rw [WatchWorld.consumer, hstore, hcommits]
  rfl

/-- A write that failed is seen nowhere. -/
theorem consumer_after_failed {w : WatchWorld} {m : Nat}
    {updates : List (Address × ContributorEntry)} {e : Nat} {x : ScanWindow}
    {error : StoreError} :
    (w.after (.upsertContributorsAndWatermark updates chainLabel e x)
      (.error error)).consumer m = w.consumer m :=
  rfl

/-- A committed window is the newest one, with the watermark at its end. -/
theorem consumer_after_commit {w : WatchWorld} {m : Nat}
    {updates : List (Address × ContributorEntry)} (x : ScanWindow) :
    (w.after (.upsertContributorsAndWatermark updates chainLabel x.scanEnd x)
        (.ok ())).consumer x.scanEnd =
      ⟨x.scanEnd, some x.scanEnd, x.window :: (w.consumer m).committed⟩ := by
  have hwatermark : (w.store.upsertContributorsAndWatermark updates chainLabel
      x.scanEnd).getWatermark chainLabel = some x.scanEnd := by
    rw [Leaderboard.getWatermark, Leaderboard.upsertContributorsAndWatermark,
      Partition.getElem?_put, if_pos rfl]
  unfold WatchWorld.consumer
  exact congrArg (Consumer.mk _ · _) hwatermark

theorem consumer_after_mark {w : WatchWorld} {e : Nat} :
    (w.after (.setWatermark chainLabel e) (.ok ())).consumer e =
      { w.consumer e with checkpoint := some e } := by
  have hwatermark : (w.store.setWatermark chainLabel e).getWatermark chainLabel =
      some e := by
    rw [Leaderboard.getWatermark, Leaderboard.setWatermark, Partition.getElem?_put,
      if_pos rfl]
  unfold WatchWorld.consumer
  exact congrArg (Consumer.mk _ · _) hwatermark

section Programs

variable {c₀ : Consumer InboundTransfer} {m : Nat}

/-- The consumer of the chain's transfers has got here from `c₀`. -/
def Follows (blockchain : Blockchain) (watcher : BlockWatcher)
    (c₀ : Consumer InboundTransfer) (m : Nat) (w : WatchWorld) : Prop :=
  Consumer.Steps (inboundAt blockchain watcher.walletAddress) c₀ (w.consumer m)

/-- The same, with any watermark in memory. -/
def FollowsSome (blockchain : Blockchain) (watcher : BlockWatcher)
    (c₀ : Consumer InboundTransfer) (w : WatchWorld) : Prop :=
  ∃ m, Follows blockchain watcher c₀ m w

theorem stable_watch (P : WatchWorld → Prop) :
    (watchSemantics blockchain meets).Stable P :=
  fun _ _ _ h => h.elim

theorem follows_pure {α : Type} {P : WatchWorld → Prop} {a : α}
    {Q : α → WatchWorld → Prop} (hP : ∀ w, P w → FollowsSome blockchain watcher c₀ w)
    (hQ : ∀ w, P w → Q a w) :
    (watchSemantics blockchain meets).Triple (FollowsSome blockchain watcher c₀) P
      (pure a) Q :=
  triple_pure (stable_watch P) hP hQ

/-- A read gets an answer the surroundings give, and changes nothing. -/
theorem follows_read {α : Type} {c : WatchCall} {next : WatchAnswer c → WatchM α}
    {Q : α → WatchWorld → Prop} (hc : c.reads = true)
    (hnext : ∀ answer, (watchSemantics blockchain meets).Triple
      (FollowsSome blockchain watcher c₀)
      (fun w => (∃ b, Observable blockchain b c answer) ∧
        Follows blockchain watcher c₀ m w) (next answer) Q) :
    (watchSemantics blockchain meets).Triple (FollowsSome blockchain watcher c₀)
      (Follows blockchain watcher c₀ m) (.call c next) Q := by
  refine triple_call _ (stable_watch _) (fun w hw => ⟨m, hw⟩) ?_ hnext
  rintro answer w w' hw ⟨hanswer, -, rfl⟩
  refine ⟨⟨w.store, hanswer⟩, ?_⟩
  unfold Follows at hw ⊢
  rw [consumer_after_reads hc]
  exact hw

/-- A scan finds the transfers of its blocks. -/
theorem follows_scanEach (ns : List Nat) :
    (watchSemantics blockchain meets).Triple (FollowsSome blockchain watcher c₀)
      (Follows blockchain watcher c₀ m) (watcher.scanEach ns)
      (fun result w => (∀ fts, result = .ok fts → fts.map FuelTransfer.inbound =
          ns.flatMap (inboundAt blockchain watcher.walletAddress)) ∧
        Follows blockchain watcher c₀ m w) := by
  induction ns with
  | nil =>
      refine follows_pure (fun w hw => ⟨m, hw⟩) fun w hw => ⟨?_, hw⟩
      rintro fts ⟨⟩
      rfl
  | cons n ns ih =>
      refine follows_read rfl fun answer => ?_
      have hfailed : ∀ e, (watchSemantics blockchain meets).Triple
          (FollowsSome blockchain watcher c₀)
          (fun w => (∃ b, Observable blockchain b (.getBlockByNumber n) answer) ∧
            Follows blockchain watcher c₀ m w)
          (pure (.error e) : WatchM (Except WatcherError (List FuelTransfer)))
          (fun result w => (∀ fts, result = .ok fts → fts.map FuelTransfer.inbound =
              (n :: ns).flatMap (inboundAt blockchain watcher.walletAddress)) ∧
            Follows blockchain watcher c₀ m w) :=
        fun e => follows_pure (fun w hw => ⟨m, hw.2⟩) fun w hw => ⟨nofun, hw.2⟩
      match answer with
      | .error e => exact hfailed _
      | .ok none => exact hfailed _
      | .ok (some block) =>
          refine triple_of_pre ?_
          rintro ⟨b, hblock⟩
          obtain rfl := hblock block rfl
          cases hfound : filterTransfers (blockchain n).transactions
              watcher.walletAddress n (blockchain n).timestamp with
          | none =>
              simp only [Prog.bind, MinedBlock.full, hfound]
              exact triple_call (fun _ _ => False) (stable_watch _)
                (fun w hw => ⟨m, hw⟩) (fun answer => nomatch answer)
                fun answer => nomatch answer
          | some found =>
              simp only [Prog.bind, MinedBlock.full, hfound]
              refine triple_bind _ ih ?_
              rintro (e | rest)
              · exact follows_pure (fun w hw => ⟨m, hw.2⟩) fun w hw => ⟨nofun, hw.2⟩
              · refine follows_pure (fun w hw => ⟨m, hw.2⟩) fun w hw => ⟨?_, hw.2⟩
                rintro fts ⟨⟩
                rw [List.map_append, inbound_filterTransfers hfound, hw.1 rest rfl]
                rfl

/-- Reading the rows of a window keeps its transfers. -/
theorem follows_readRows (fts : List FuelTransfer) :
    (watchSemantics blockchain meets).Triple (FollowsSome blockchain watcher c₀)
      (Follows blockchain watcher c₀ m) (BlockWatcher.readRows fts)
      (fun credits w => credits.map Credit.transfer = fts ∧
        Follows blockchain watcher c₀ m w) := by
  induction fts with
  | nil => exact follows_pure (fun w hw => ⟨m, hw⟩) fun w hw => ⟨rfl, hw⟩
  | cons ft fts ih =>
      refine follows_read rfl fun existing => ?_
      refine triple_of_pre fun _ => ?_
      simp only [Prog.bind]
      refine triple_bind _ ih fun rest => ?_
      refine follows_pure (fun w hw => ⟨m, hw.2⟩) fun w hw => ⟨?_, hw.2⟩
      rw [List.map_cons, hw.1]

/-- A committed window takes the consumer to its end. -/
theorem follows_creditWindow {e : Nat} {fts : List FuelTransfer} (hlt : m < e)
    (hfts : fts.map FuelTransfer.inbound =
      itemsIn (inboundAt blockchain watcher.walletAddress) (m + 1) e) :
    (watchSemantics blockchain meets).Triple (FollowsSome blockchain watcher c₀)
      (Follows blockchain watcher c₀ m) (watcher.creditWindow (m + 1) e fts)
      (fun committed => Follows blockchain watcher c₀ (if committed then e else m)) := by
  refine triple_bind _ (follows_readRows fts) fun credits => ?_
  refine triple_of_pre fun hcredits => ?_
  refine triple_call (fun written => Follows blockchain watcher c₀
    (if written.isOk then e else m)) (stable_watch _) (fun w hw => ⟨m, hw⟩) ?_ ?_
  · rintro (error | ⟨⟨⟩⟩) w w' hw ⟨-, -, rfl⟩
    · unfold Follows at hw ⊢
      rw [← consumer_after_failed] at hw
      exact hw
    · have hwindow : (ScanWindow.mk (m + 1) e credits).transfers.map
          FuelTransfer.inbound =
            itemsIn (inboundAt blockchain watcher.walletAddress) (m + 1) e := by
        rw [← hfts, ← hcredits]
        rfl
      unfold Follows at hw ⊢
      refine Eq.mpr (congrArg (Consumer.Steps _ c₀)
        (consumer_after_commit (m := m) ⟨m + 1, e, credits⟩)) (hw.tail ?_)
      rw [ScanWindow.window, hwindow]
      exact .commit hlt
  · intro written
    exact triple_pure (stable_watch _) (fun w hw => ⟨_, hw⟩) fun w hw => hw

/-- A poll takes the consumer to the watermark it returns. -/
theorem follows_pollOnce :
    (watchSemantics blockchain meets).Triple (FollowsSome blockchain watcher c₀)
      (Follows blockchain watcher c₀ m) (watcher.pollOnce m)
      (fun m' => Follows blockchain watcher c₀ m') := by
  have hstay : (watchSemantics blockchain meets).Triple
      (FollowsSome blockchain watcher c₀) (Follows blockchain watcher c₀ m)
      (pure m : WatchM Nat) (fun m' => Follows blockchain watcher c₀ m') :=
    follows_pure (fun w hw => ⟨m, hw⟩) fun w hw => hw
  refine follows_read rfl fun answer => triple_of_pre ?_
  rintro ⟨b, hlatest⟩
  cases answer with
  | error e => exact hstay
  | ok latest =>
      have hbound : latest ≤ u64Max := hlatest latest rfl
      simp only [Prog.bind]
      split
      · exact hstay
      rename_i hbehind
      -- Both limits are the same window: 100 blocks after the watermark at most.
      have hstart : saturatingAdd m 1 = m + 1 := by
        unfold saturatingAdd
        omega
      have hlt : m < min latest (saturatingAdd m 100) := by
        unfold saturatingAdd
        omega
      have hcap : min (min latest (saturatingAdd m 100)) (saturatingAdd (m + 1) 99) =
          min latest (saturatingAdd m 100) := by
        unfold saturatingAdd
        omega
      rw [hstart]
      generalize min latest (saturatingAdd m 100) = e at hlt hcap
      refine triple_bind _ (follows_scanEach _) ?_
      rw [hcap]
      rintro (error | fts)
      · exact triple_weaken hstay (fun w hw => hw.2) fun _ _ hw => hw
      refine triple_of_pre fun hscanned => ?_
      have hfts := hscanned fts rfl
      dsimp only
      split
      · rename_i hempty
        have hnone : NothingIn (inboundAt blockchain watcher.walletAddress) m e := by
          refine nothingIn_of_itemsIn ?_
          rw [itemsIn, ← hfts, List.isEmpty_iff.mp hempty]
          rfl
        refine triple_call (fun _ => Follows blockchain watcher c₀ e) (stable_watch _)
          (fun w hw => ⟨m, hw⟩) ?_ fun _ => follows_pure (fun w hw => ⟨e, hw⟩)
            fun w hw => hw
        rintro (error | ⟨⟨⟩⟩) w w' hw ⟨-, -, rfl⟩
        · exact hw.tail (.pass (Nat.le_of_lt hlt) hnone)
        · refine Eq.mpr (congrArg (Consumer.Steps _ c₀) consumer_after_mark) ?_
          exact hw.tail (.mark (Nat.le_of_lt hlt) hnone)
      · refine triple_bind _ (follows_creditWindow hlt hfts) fun committed => ?_
        exact follows_pure (fun w hw => ⟨_, hw⟩) fun w hw => hw

/-- A start that reads the watermark, unless none is stored, resumes there. -/
theorem follows_initialWatermark
    (hmeets : ∀ b e, meets b (.getWatermark chainLabel) (.error e) →
      b.getWatermark chainLabel = none) :
    (watchSemantics blockchain meets).Triple (FollowsSome blockchain watcher c₀)
      (FollowsSome blockchain watcher c₀) BlockWatcher.initialWatermark
      (fun m => Follows blockchain watcher c₀ m) := by
  -- Without a stored watermark any start is a resumption.
  have hfresh : ∀ p, (watchSemantics blockchain meets).Triple
      (FollowsSome blockchain watcher c₀)
      (fun w => FollowsSome blockchain watcher c₀ w ∧
        w.store.getWatermark chainLabel = none) (pure p : WatchM Nat)
      (fun m => Follows blockchain watcher c₀ m) := by
    refine fun p => follows_pure (fun w hw => hw.1) ?_
    rintro w ⟨⟨m, hw⟩, hnone⟩
    refine hw.tail (.resume fun v hv => ?_)
    rw [show (w.consumer m).checkpoint = none from hnone] at hv
    cases hv
  refine triple_call (fun answer w => FollowsSome blockchain watcher c₀ w ∧
    (∀ stored, answer = .ok stored → w.store.getWatermark chainLabel = stored) ∧
    ∀ e, answer = .error e → w.store.getWatermark chainLabel = none)
    (stable_watch _) (fun w hw => hw) ?_ ?_
  · rintro answer w w' ⟨m, hw⟩ ⟨hanswer, hmeets', rfl⟩
    refine ⟨⟨m, ?_⟩, ?_, ?_⟩
    · unfold Follows at hw ⊢
      rw [consumer_after_reads rfl]
      exact hw
    · exact fun stored hstored => (hanswer stored hstored).symm
    · rintro e rfl
      exact hmeets _ e hmeets'
  · rintro (e | _ | stored)
    · exact triple_weaken (hfresh 0) (fun w hw => ⟨hw.1, hw.2.2 e rfl⟩) fun _ _ hw => hw
    · refine triple_call (fun _ w => FollowsSome blockchain watcher c₀ w ∧
        w.store.getWatermark chainLabel = none) (stable_watch _) (fun w hw => hw.1) ?_ ?_
      · rintro answer w w' ⟨⟨m, hw⟩, hstored, -⟩ ⟨-, -, rfl⟩
        refine ⟨⟨m, ?_⟩, hstored none rfl⟩
        unfold Follows at hw ⊢
        rw [consumer_after_reads rfl]
        exact hw
      · rintro (e | b)
        · exact hfresh 0
        · exact hfresh b
    · refine follows_pure (fun w hw => hw.1) ?_
      rintro w ⟨⟨m, hw⟩, hstored, -⟩
      refine hw.tail (.resume fun v hv => ?_)
      rw [show (w.consumer m).checkpoint = some stored from hstored _ rfl] at hv
      exact Option.some.inj hv

end Programs

/-! ## Runs -/

/-- A condition under which a stored watermark is read when the watcher starts. -/
def WatchCondition.KeepsWatermark (meets : WatchCondition) : Prop :=
  ∀ b e, meets b (.getWatermark chainLabel) (.error e) →
    b.getWatermark chainLabel = none

/-- The consumer has got from `c₀` to the state of the watcher. -/
def Watching.Tracks (blockchain : Blockchain) (watcher : BlockWatcher)
    (c₀ : Consumer InboundTransfer) (s : Watching) : Prop :=
  match s.task with
  | .down => FollowsSome blockchain watcher c₀ s.world
  | .up m => Follows blockchain watcher c₀ m s.world

section Runs

variable {c₀ : Consumer InboundTransfer} {s s' : Watching}

theorem Watching.Tracks.some (h : s.Tracks blockchain watcher c₀) :
    FollowsSome blockchain watcher c₀ s.world := by
  unfold Watching.Tracks at h
  split at h
  · exact h
  · exact ⟨_, h⟩

theorem Watching.Step.tracks (hmeets : meets.KeepsWatermark)
    (hstep : Watching.Step blockchain meets watcher s s')
    (h : s.Tracks blockchain watcher c₀) : s'.Tracks blockchain watcher c₀ := by
  cases hstep with
  | start hrun => exact (follows_initialWatermark hmeets _ _ _ h.some hrun).2 _ rfl
  | startStops hrun => exact (follows_initialWatermark hmeets _ _ _ h.some hrun).1 rfl
  | poll hrun => exact (follows_pollOnce _ _ _ h hrun).2 _ rfl
  | pollStops hrun => exact (follows_pollOnce _ _ _ h hrun).1 rfl

theorem Watching.Steps.tracks (hmeets : meets.KeepsWatermark)
    (hsteps : Watching.Steps blockchain meets watcher s s')
    (h : s.Tracks blockchain watcher c₀) : s'.Tracks blockchain watcher c₀ := by
  induction hsteps with
  | refl => exact h
  | tail _ hstep ih => exact hstep.tracks hmeets ih

theorem kept_fresh (b : Leaderboard) (items : Nat → List InboundTransfer) :
    ((WatchWorld.mk b []).consumer ((b.getWatermark chainLabel).getD 0)).Kept items where
  ahead w hw := by
    have hposition : (b.getWatermark chainLabel).getD 0 = w := by
      rw [show b.getWatermark chainLabel = some w from hw]
      rfl
    exact ⟨Nat.le_of_eq hposition.symm, hposition ▸ nothingIn_self items w⟩
  behind := nofun
  apart := List.Pairwise.nil
  found := nofun

/-- What the consumer of a run keeps. -/
theorem Watching.Steps.kept (hmeets : meets.KeepsWatermark) {b : Leaderboard}
    (hsteps : Watching.Steps blockchain meets watcher (.fresh b) s) :
    ∃ m, (s.world.consumer m).Kept (inboundAt blockchain watcher.walletAddress) ∧
      s.Tracks blockchain watcher (s.world.consumer m) := by
  have hfresh : (Watching.fresh b).Tracks blockchain watcher
      ((WatchWorld.mk b []).consumer ((b.getWatermark chainLabel).getD 0)) := ⟨_, .refl⟩
  have htracks := hsteps.tracks hmeets hfresh
  unfold Watching.Tracks at htracks ⊢
  split at htracks
  · obtain ⟨m, hm⟩ := htracks
    exact ⟨m, Consumer.Steps.kept hm (kept_fresh b _), m, .refl⟩
  · rename_i m _
    exact ⟨m, Consumer.Steps.kept htracks (kept_fresh b _), .refl⟩

end Runs

/-- Reads of the stored watermark succeed. -/
def ReadsWatermark : WatchCondition
  | _, .getWatermark _, answer => ∃ stored, answer = .ok stored
  | _, _, _ => True

theorem keepsWatermark_readsWatermark : ReadsWatermark.KeepsWatermark := by
  rintro b e ⟨stored, hstored⟩
  cases hstored

/-- The block lies in the window. -/
def ScanWindow.Covers (x : ScanWindow) (n : Nat) : Prop :=
  x.scanStart ≤ n ∧ n ≤ x.scanEnd

instance (x : ScanWindow) : DecidablePred x.Covers :=
  fun _ => inferInstanceAs (Decidable (_ ∧ _))

theorem block_of_mem_inboundAt {wallet : Address} {n : Nat} {t : InboundTransfer}
    (h : t ∈ inboundAt blockchain wallet n) : t.block = n := by
  obtain ⟨tx, -, rfl⟩ := List.mem_map.mp h
  rfl

section Windows

variable {w : WatchWorld} {m n : Nat} {x : ScanWindow}

theorem transfers_of_kept
    (h : (w.consumer m).Kept (inboundAt blockchain watcher.walletAddress))
    (hx : x ∈ w.commits) :
    x.transfers.map FuelTransfer.inbound =
      itemsIn (inboundAt blockchain watcher.walletAddress) x.scanStart x.scanEnd :=
  h.found x.window (List.mem_map.mpr ⟨x, hx, rfl⟩)

/-- A committed window holds the transfers of each of its blocks, once. -/
theorem transfers_of_covered
    (h : (w.consumer m).Kept (inboundAt blockchain watcher.walletAddress))
    (hx : x ∈ w.commits) (hcovers : x.Covers n) :
    (x.transfers.map FuelTransfer.inbound).filter (fun t => t.block = n) =
      inboundAt blockchain watcher.walletAddress n := by
  rw [transfers_of_kept h hx]
  exact filter_itemsIn (fun _ _ => block_of_mem_inboundAt) hcovers.1 hcovers.2

/-- No block is in two committed windows. -/
theorem covers_unique_of_kept
    (h : (w.consumer m).Kept (inboundAt blockchain watcher.walletAddress)) :
    (w.commits.filter fun x => x.Covers n).length ≤ 1 := by
  have hunique := h.covers_unique (n := n)
  simp only [WatchWorld.consumer, List.filter_map, List.length_map] at hunique
  exact hunique

end Windows

/-- From any stored watermark on the stored watermark does not decrease, every
transfer between it and a later one was in exactly one committed window, and no
transfer beyond the later one was in any. -/
theorem watcher_scans_once {b : Leaderboard} {s s' : Watching} {w₀ : Nat}
    (hrun : Watching.Steps blockchain ReadsWatermark watcher (.fresh b) s)
    (hstored : s.world.store.getWatermark chainLabel = some w₀)
    (hlater : Watching.Steps blockchain ReadsWatermark watcher s s') :
    ∃ w, s'.world.store.getWatermark chainLabel = some w ∧ w₀ ≤ w ∧
      (∀ n, w₀ < n → n ≤ w → inboundAt blockchain watcher.walletAddress n ≠ [] →
        ∃ x, s'.world.commits.filter (fun x => x.Covers n) = [x] ∧
          (x.transfers.map FuelTransfer.inbound).filter (fun t => t.block = n) =
            inboundAt blockchain watcher.walletAddress n) ∧
      ∀ x ∈ s'.world.commits, ∀ ft ∈ x.transfers, ft.blockNumber ≤ w := by
  obtain ⟨m, hkept, htracks⟩ := hrun.kept keepsWatermark_readsWatermark
  obtain ⟨m', hsteps⟩ := (hlater.tracks keepsWatermark_readsWatermark htracks).some
  have hkept' := Consumer.Steps.kept hsteps hkept
  obtain ⟨w, hw, hle, honce, hbehind⟩ :=
    Consumer.Steps.exactly_once hsteps hkept hstored
  refine ⟨w, hw, hle, fun n hlt hend hn => ?_, fun x hx ft hft => ?_⟩
  · obtain ⟨window, hwindow⟩ := honce n hlt hend hn
    simp only [WatchWorld.consumer, List.filter_map] at hwindow
    obtain ⟨x, hx, -⟩ := List.map_eq_singleton_iff.mp hwindow
    obtain ⟨hmem, hcovers⟩ := List.mem_filter.mp (hx ▸ List.mem_singleton_self x)
    exact ⟨x, hx, transfers_of_covered hkept' hmem (of_decide_eq_true hcovers)⟩
  · have hinbound : ft.inbound ∈ x.transfers.map FuelTransfer.inbound :=
      List.mem_map.mpr ⟨ft, hft, rfl⟩
    rw [transfers_of_kept hkept' hx] at hinbound
    obtain ⟨n, -, hlast, hmem⟩ := mem_itemsIn.mp hinbound
    have hblock : ft.blockNumber = n := block_of_mem_inboundAt hmem
    have hend := hbehind x.window (List.mem_map.mpr ⟨x, hx, rfl⟩)
    exact hblock ▸ Nat.le_trans hlast hend

/-! ## A transfer before a restart -/

/-- Block 6 holds a transfer of two wei to the wallet. -/
def Sample.minedChain : Blockchain := fun n =>
  ⟨100 * n, if n = 6 then
    [⟨some (Vector.replicate 20 1), 2, Vector.replicate 20 7⟩] else []⟩

def Sample.walletWatcher : BlockWatcher :=
  ⟨Vector.replicate 20 1, 1⟩

/-- The leaderboard after the watermark 5 was stored. -/
def Sample.leaderboard : Leaderboard :=
  Leaderboard.setWatermark ⟨∅, ∅⟩ chainLabel 5

/-- The watcher has started. -/
def Sample.started : Watching :=
  (Watching.fresh Sample.leaderboard).start (.honest Sample.minedChain 5)

/-- It commits block 6, dies, starts again and goes on to block 9. -/
def Sample.scanned : Watching :=
  (((Sample.started.poll Sample.walletWatcher (.honest Sample.minedChain 8)).start
    (.honest Sample.minedChain 8)).poll Sample.walletWatcher (.honest Sample.minedChain 9))

theorem within_honest_readsWatermark {latest : Nat} (hlatest : latest ≤ u64Max) :
    (WatchSurroundings.honest Sample.minedChain latest).Within Sample.minedChain
      ReadsWatermark := by
  refine WatchSurroundings.within_honest hlatest fun b c answer hanswer => ?_
  cases c with
  | getWatermark chain =>
      cases hanswer
      exact ⟨_, rfl⟩
  | _ => trivial

theorem watcher_scans_once_restart :
    ∃ x, Sample.scanned.world.store.getWatermark chainLabel = some 9 ∧
      Sample.scanned.world.commits.filter (fun x => x.Covers 6) = [x] ∧
      (x.transfers.map FuelTransfer.inbound).filter (fun t => t.block = 6) =
        [⟨6, Vector.replicate 20 7, 2⟩] := by
  have hrun : Watching.Steps Sample.minedChain ReadsWatermark Sample.walletWatcher
      (.fresh Sample.leaderboard) Sample.started :=
    Watching.Steps.start .refl (within_honest_readsWatermark (by decide))
  have hpolled : Watching.Steps Sample.minedChain ReadsWatermark Sample.walletWatcher
      Sample.started _ :=
    Watching.Steps.poll .refl (within_honest_readsWatermark (show 8 ≤ u64Max by decide))
  have hrestarted :=
    Watching.Steps.start hpolled
      (within_honest_readsWatermark (show 8 ≤ u64Max by decide))
  have hlater : Watching.Steps Sample.minedChain ReadsWatermark Sample.walletWatcher
      Sample.started Sample.scanned :=
    Watching.Steps.poll hrestarted (within_honest_readsWatermark (by decide))
  have hwatermark : Sample.scanned.world.store.getWatermark chainLabel = some 9 := by
    decide +kernel
  have hstored : Sample.started.world.store.getWatermark chainLabel = some 5 := by
    decide +kernel
  obtain ⟨w, hw, -, honce, -⟩ :=
    watcher_scans_once hrun hstored hlater
  cases hwatermark.symm.trans hw
  obtain ⟨x, hx, htransfers⟩ := honce 6 (by decide) (by decide) (by decide)
  exact ⟨x, hwatermark, hx, htransfers.trans (by decide)⟩

end AquaTimestamp
