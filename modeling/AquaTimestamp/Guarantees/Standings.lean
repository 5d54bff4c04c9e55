import AquaTimestamp.Guarantees.Crediting
import AquaTimestamp.Model.Contributors

/-!
# The leaderboard is explained by the chain

Every row of a fresh leaderboard comes from transfers of its own wallet in committed
windows, and a row holds no more than these have moved.  The committed windows lie
apart, so no row holds more than the chain does up to the stored watermark.  The page
that is shown is the top of these rows.
-/

namespace AquaTimestamp

open Support Support.Semantics

variable {blockchain : Blockchain} {meets : WatchCondition} {watcher : BlockWatcher}

/-! ## Amounts -/

/-- The wei that `a` has sent in the transfers. -/
def sentBy (a : Address) (ts : List InboundTransfer) : Nat :=
  ((ts.filter fun t => t.sender = a).map InboundTransfer.value).foldr (· + ·) 0

/-- The wei that the chain moves from `a` to the wallet up to block `k`. -/
def receivedFrom (blockchain : Blockchain) (wallet a : Address) (k : Nat) : Nat :=
  sentBy a ((List.range (k + 1)).flatMap (inboundAt blockchain wallet))

section Amounts

variable {a : Address} {t : InboundTransfer} {ts ts' : List InboundTransfer}

theorem sentBy_cons (a : Address) (t : InboundTransfer) (ts : List InboundTransfer) :
    sentBy a (t :: ts) = (if t.sender = a then t.value else 0) + sentBy a ts := by
  by_cases h : t.sender = a
  · simp [sentBy, h]
  · simp [sentBy, h]

theorem sentBy_append (a : Address) (ts ts' : List InboundTransfer) :
    sentBy a (ts ++ ts') = sentBy a ts + sentBy a ts' := by
  induction ts with
  | nil => exact (Nat.zero_add _).symm
  | cons t ts ih => rw [List.cons_append, sentBy_cons, sentBy_cons, ih, Nat.add_assoc]

theorem value_le_sentBy (ht : t ∈ ts) (hsender : t.sender = a) : t.value ≤ sentBy a ts := by
  obtain ⟨before, after, rfl⟩ := List.append_of_mem ht
  rw [sentBy_append, sentBy_cons, if_pos hsender]
  omega

theorem sentBy_perm (h : ts.Perm ts') : sentBy a ts = sentBy a ts' := by
  induction h with
  | nil => rfl
  | cons t _ ih => rw [sentBy_cons, sentBy_cons, ih]
  | swap t t' ts =>
      simp only [sentBy_cons]
      omega
  | trans _ _ ih ih' => exact ih.trans ih'

theorem sentBy_le_of_sublist (h : ts.Sublist ts') : sentBy a ts ≤ sentBy a ts' := by
  induction h with
  | slnil => exact Nat.le_refl _
  | cons t _ ih =>
      rw [sentBy_cons]
      omega
  | cons_cons t _ ih =>
      rw [sentBy_cons, sentBy_cons]
      omega

theorem sentBy_le_of_subperm (h : ts.Subperm ts') : sentBy a ts ≤ sentBy a ts' := by
  obtain ⟨xs, hperm, hsublist⟩ := h
  rw [← sentBy_perm hperm]
  exact sentBy_le_of_sublist hsublist

end Amounts

/-! ## Rows and the transfers behind them -/

/-- The row of `a` comes from transfers of `a` among `fts`. -/
structure Earned (chainId : Nat) (fts : List FuelTransfer) (a : Address)
    (e : ContributorEntry) : Prop where
  did : e.did = didForSender chainId a
  hashes : e.hashesSubmitted = 0
  wei : e.fuelContributedWei ≤ sentBy a (fts.map FuelTransfer.inbound)
  active : ∃ ft ∈ fts, ft.sender = a ∧ e.lastActive = ft.blockTimestamp

/-- The transfer carries the time of its block. -/
def Dated (blockchain : Blockchain) (ft : FuelTransfer) : Prop :=
  ft.blockTimestamp = (blockchain ft.blockNumber).timestamp

/-- Every row of the leaderboard comes from the transfers. -/
structure Vouched (blockchain : Blockchain) (chainId : Nat) (b : Leaderboard)
    (fts : List FuelTransfer) : Prop where
  earned : ∀ a e, b.getContributor a = some e → Earned chainId fts a e
  dated : ∀ ft ∈ fts, Dated blockchain ft

/-- A credit adds a transfer to what the row that was read stands for. -/
theorem earned_creditedEntry {chainId : Nat} {new fts : List FuelTransfer}
    {ft : FuelTransfer} {row : Option ContributorEntry}
    (hrow : ∀ e, row = some e → Earned chainId fts ft.sender e) (hft : ft ∈ new) :
    Earned chainId (new ++ fts) ft.sender (creditedEntry chainId ft row) where
  did := by
    cases row with
    | none => rfl
    | some e => exact (hrow e rfl).did
  hashes := by
    cases row with
    | none => rfl
    | some e => exact (hrow e rfl).hashes
  wei := by
    have hbefore : weiOf row ≤ sentBy ft.sender (fts.map FuelTransfer.inbound) := by
      cases row with
      | none => exact Nat.zero_le _
      | some e => exact (hrow e rfl).wei
    have hvalue : ft.valueWei ≤ sentBy ft.sender (new.map FuelTransfer.inbound) :=
      value_le_sentBy (t := ft.inbound) (List.mem_map_of_mem hft) rfl
    rw [wei_creditedEntry, List.map_append, sentBy_append]
    omega
  active := by
    have hown : ∃ x ∈ new ++ fts, x.sender = ft.sender ∧
        ft.blockTimestamp = x.blockTimestamp :=
      ⟨ft, List.mem_append_left _ hft, rfl, rfl⟩
    cases row with
    | none => exact hown
    | some e =>
        obtain ⟨x, hx, hsender, hactive⟩ := (hrow e rfl).active
        simp only [creditedEntry]
        split
        · exact hown
        · exact ⟨x, List.mem_append_right _ hx, hsender, hactive⟩

theorem Earned.mono {chainId : Nat} {new fts : List FuelTransfer} {a : Address}
    {e : ContributorEntry} (h : Earned chainId fts a e) : Earned chainId (new ++ fts) a e where
  did := h.did
  hashes := h.hashes
  wei := by
    rw [List.map_append, sentBy_append]
    exact Nat.le_add_left_of_le h.wei
  active := by
    obtain ⟨ft, hft, hactive⟩ := h.active
    exact ⟨ft, List.mem_append_right _ hft, hactive⟩

/-- A window that is committed with the rows read before it vouches for the rows it
leaves, also where a read has failed. -/
theorem vouched_upsert {chainId last : Nat} {b : Leaderboard} {fts : List FuelTransfer}
    {credits : List Credit} (h : Vouched blockchain chainId b fts)
    (hread : ReadIn b credits)
    (hdated : ∀ ft ∈ credits.map Credit.transfer, Dated blockchain ft) :
    Vouched blockchain chainId
      (b.upsertContributorsAndWatermark (credits.map (Credit.update chainId)) chainLabel last)
      (credits.map Credit.transfer ++ fts) where
  earned a e he := by
    rw [getContributor_upsert] at he
    cases hlast : (credits.filter fun c => c.transfer.sender = a).getLast? with
    | none =>
        rw [hlast] at he
        exact (h.earned a e he).mono
    | some c =>
        rw [hlast, Option.map_some, Option.some_or] at he
        obtain ⟨hmem, hsender⟩ := List.mem_filter.mp (List.mem_of_getLast? hlast)
        obtain rfl : c.transfer.sender = a := of_decide_eq_true hsender
        cases he
        refine earned_creditedEntry (fun e hrow => ?_) (List.mem_map_of_mem hmem)
        cases hexisting : c.existing with
        | error error =>
            rw [hexisting] at hrow
            cases hrow
        | ok existing =>
            rw [hexisting] at hrow
            have hstored := hread c hmem existing hexisting
            exact h.earned _ e (hstored ▸ hrow)
  dated ft hft := by
    rcases List.mem_append.mp hft with hnew | hold
    · exact hdated ft hnew
    · exact h.dated ft hold

/-! ## Runs -/

/-- The transfers of the committed windows. -/
def WatchWorld.counted (w : WatchWorld) : List FuelTransfer :=
  w.commits.flatMap ScanWindow.transfers

/-- The committed windows vouch for the rows. -/
def WatchWorld.VouchedFor (blockchain : Blockchain) (chainId : Nat) (w : WatchWorld) :
    Prop :=
  Vouched blockchain chainId w.store w.counted

section Programs

variable {chainId : Nat} {w : WatchWorld} {c : WatchCall} {answer : WatchAnswer c}

theorem counted_after (hc : c.leavesRows = true) : (w.after c answer).counted = w.counted := by
  have hcommits : (w.after c answer).commits = w.commits := by
    cases c <;> first | rfl | cases hc
  rw [WatchWorld.counted, hcommits]
  rfl

theorem vouchedFor_after (hc : c.leavesRows = true) (hw : w.VouchedFor blockchain chainId) :
    (w.after c answer).VouchedFor blockchain chainId := by
  have hrows : ∀ a, (w.after c answer).store.getContributor a =
      w.store.getContributor a := by
    intro a
    cases c with
    | setWatermark chain block => cases answer <;> rfl
    | upsertContributorsAndWatermark updates chain block window => cases hc
    | _ => rfl
  rw [WatchWorld.VouchedFor, counted_after hc]
  exact ⟨fun a e he => hw.earned a e ((hrows a).symm.trans he), hw.dated⟩

theorem vouchedFor_within {α : Type} {p : WatchM α} {Q : α → Prop}
    (hp : p.Within (fun c _ => c.leavesRows = true) Q) :
    (watchSemantics blockchain meets).Triple (WatchWorld.VouchedFor blockchain chainId)
      (WatchWorld.VouchedFor blockchain chainId) p
      (fun _ => WatchWorld.VouchedFor blockchain chainId) := by
  refine triple_weaken (triple_within (stable_watch _) (fun _ hw => hw) ?_ hp)
    (fun _ hw => hw) fun _ _ hw => hw.2
  rintro c answer w w' hc hw ⟨-, -, rfl⟩
  exact vouchedFor_after hc hw

theorem within_readRows (fts : List FuelTransfer) :
    (BlockWatcher.readRows fts).Within (fun c _ => c.leavesRows = true)
      (fun _ => True) := by
  induction fts with
  | nil => trivial
  | cons ft fts ih =>
      refine Prog.within_ask fun existing => ⟨rfl, ?_⟩
      exact Prog.within_bind ih fun _ _ => trivial

theorem dated_filterTransfers {wallet : Address} {n : Nat} {found : List FuelTransfer}
    (h : filterTransfers (blockchain n).transactions wallet n (blockchain n).timestamp =
      some found) : ∀ ft ∈ found, Dated blockchain ft := by
  unfold filterTransfers at h
  generalize inboundTransactions (blockchain n).transactions wallet = txs at h
  induction txs generalizing found with
  | nil =>
      cases h
      exact nofun
  | cons tx txs ih =>
      rw [List.mapM_cons] at h
      obtain ⟨ft, htx, hrest⟩ := Option.bind_eq_some_iff.mp h
      obtain ⟨fts, hfts, hfound⟩ := Option.bind_eq_some_iff.mp hrest
      cases hfound
      refine List.forall_mem_cons.mpr ⟨?_, ih hfts⟩
      split at htx
      · cases htx
        rfl
      · cases htx

/-- A scan finds transfers with the times of their blocks. -/
theorem vouchedFor_scanEach (ns : List Nat) :
    (watchSemantics blockchain meets).Triple (WatchWorld.VouchedFor blockchain chainId)
      (WatchWorld.VouchedFor blockchain chainId) (watcher.scanEach ns)
      (fun result w => (∀ fts, result = .ok fts → ∀ ft ∈ fts, Dated blockchain ft) ∧
        w.VouchedFor blockchain chainId) := by
  induction ns with
  | nil =>
      refine triple_pure (stable_watch _) (fun _ hw => hw) fun w hw => ⟨?_, hw⟩
      rintro fts ⟨⟩ ft hft
      cases hft
  | cons n ns ih =>
      refine triple_call (fun answer w =>
        (∀ block, answer = .ok (some block) → block = (blockchain n).full) ∧
          w.VouchedFor blockchain chainId) (stable_watch _) (fun _ hw => hw) ?_ fun answer => ?_
      · rintro answer w w' hw ⟨hanswer, -, rfl⟩
        exact ⟨hanswer, vouchedFor_after rfl hw⟩
      have hfailed : ∀ e, (watchSemantics blockchain meets).Triple
          (WatchWorld.VouchedFor blockchain chainId)
          (WatchWorld.VouchedFor blockchain chainId)
          (pure (.error e) : WatchM (Except WatcherError (List FuelTransfer)))
          (fun result w => (∀ fts, result = .ok fts → ∀ ft ∈ fts, Dated blockchain ft) ∧
            w.VouchedFor blockchain chainId) := by
        refine fun e => triple_pure (stable_watch _) (fun _ hw => hw) fun w hw => ⟨?_, hw⟩
        rintro fts ⟨⟩
      refine triple_of_pre fun hblock => ?_
      rcases answer with e | _ | block
      · exact hfailed _
      · exact hfailed _
      obtain rfl := hblock block rfl
      cases hfound : filterTransfers (blockchain n).transactions watcher.walletAddress n
          (blockchain n).timestamp with
      | none =>
          simp only [Prog.bind, MinedBlock.full, hfound]
          refine triple_call (fun _ _ => False) (stable_watch _) (fun _ hw => hw) ?_ ?_
          · rintro ⟨⟩
          · rintro ⟨⟩
      | some found =>
          simp only [Prog.bind, MinedBlock.full, hfound]
          apply triple_bind _ ih
          rintro (e | rest)
          · exact triple_weaken (hfailed e) (fun _ hw => hw.2) fun _ _ hw => hw
          refine triple_of_pre fun hrest => ?_
          refine triple_pure (stable_watch _) (fun _ hw => hw) fun w hw => ⟨?_, hw⟩
          rintro fts ⟨⟩ ft hft
          rcases List.mem_append.mp hft with hft | hft
          · exact dated_filterTransfers hfound ft hft
          · exact hrest rest rfl ft hft

/-- A window of dated transfers is credited as it should be, or not at all. -/
theorem vouchedFor_creditWindow {first last : Nat} {fts : List FuelTransfer}
    (hdated : ∀ ft ∈ fts, Dated blockchain ft) :
    (watchSemantics blockchain meets).Triple
      (WatchWorld.VouchedFor blockchain watcher.chainId)
      (WatchWorld.VouchedFor blockchain watcher.chainId)
      (watcher.creditWindow first last fts)
      (fun _ => WatchWorld.VouchedFor blockchain watcher.chainId) := by
  have hfixed : ∀ before : WatchWorld, (watchSemantics blockchain meets).Triple
      (WatchWorld.VouchedFor blockchain watcher.chainId)
      (fun w => before.VouchedFor blockchain watcher.chainId ∧
        w.store = before.store ∧ w.counted = before.counted)
      (watcher.creditWindow first last fts)
      (fun _ => WatchWorld.VouchedFor blockchain watcher.chainId) := by
    refine fun before => triple_of_pre fun hbefore => ?_
    have hsame : ∀ w : WatchWorld, w.store = before.store ∧ w.counted = before.counted →
        w.VouchedFor blockchain watcher.chainId := by
      rintro w ⟨hstore, hcounted⟩
      rw [WatchWorld.VouchedFor, hstore, hcounted]
      exact hbefore
    -- Nothing is written while the rows are read.
    have hquiet : (watchSemantics blockchain meets).Triple
        (fun w => w.counted = before.counted) (fun w => w.counted = before.counted)
        (BlockWatcher.readRows fts) (fun _ w => True ∧ w.counted = before.counted) := by
      refine triple_within (stable_watch _) (fun _ hw => hw) ?_ (within_readRows fts)
      rintro c answer w w' hc hw ⟨-, -, rfl⟩
      exact (counted_after hc).trans hw
    refine triple_bind _ (triple_meanwhile
      (triple_and (triple_readRows (fun _ hw => hw) fts) hquiet) hsame) fun credits => ?_
    refine triple_call (fun _ => WatchWorld.VouchedFor blockchain watcher.chainId)
      (stable_watch _) (fun w hw => hsame w ⟨hw.1.2, hw.2.2⟩) ?_ fun written =>
        triple_pure (stable_watch _) (fun _ hw => hw) fun _ hw => hw
    rintro written w w' ⟨⟨⟨htransfers, hread, -⟩, hstore⟩, -, hcounted⟩ ⟨-, -, rfl⟩
    cases written with
    | error error => exact hsame _ ⟨hstore, hcounted⟩
    | ok written =>
        have hvouched := hsame w ⟨hstore, hcounted⟩
        exact vouched_upsert hvouched (hstore ▸ hread) (htransfers ▸ hdated)
  exact triple_weaken (triple_exists hfixed) (fun w hw => ⟨w, hw, rfl, rfl⟩) fun _ _ hw => hw

theorem vouchedFor_pollOnce (m : Nat) :
    (watchSemantics blockchain meets).Triple
      (WatchWorld.VouchedFor blockchain watcher.chainId)
      (WatchWorld.VouchedFor blockchain watcher.chainId) (watcher.pollOnce m)
      (fun _ => WatchWorld.VouchedFor blockchain watcher.chainId) := by
  have hpure : ∀ m' : Nat, (watchSemantics blockchain meets).Triple
      (WatchWorld.VouchedFor blockchain watcher.chainId)
      (WatchWorld.VouchedFor blockchain watcher.chainId) (pure m' : WatchM Nat)
      (fun _ => WatchWorld.VouchedFor blockchain watcher.chainId) :=
    fun m' => triple_pure (stable_watch _) (fun _ hw => hw) fun _ hw => hw
  refine triple_call (fun _ => WatchWorld.VouchedFor blockchain watcher.chainId)
    (stable_watch _) (fun _ hw => hw) ?_ ?_
  · rintro answer w w' hw ⟨-, -, rfl⟩
    exact vouchedFor_after rfl hw
  rintro (e | latest)
  · exact hpure m
  simp only [Prog.bind]
  split
  · exact hpure m
  refine triple_bind _ (vouchedFor_scanEach _) fun result => triple_of_pre fun hscanned => ?_
  cases result with
  | error e => exact hpure m
  | ok fts =>
      dsimp only
      split
      · refine triple_call (fun _ => WatchWorld.VouchedFor blockchain watcher.chainId)
          (stable_watch _) (fun _ hw => hw) ?_ fun _ => hpure _
        rintro answer w w' hw ⟨-, -, rfl⟩
        exact vouchedFor_after rfl hw
      · exact triple_bind _ (vouchedFor_creditWindow (hscanned fts rfl))
          fun committed => hpure _

end Programs

section Steps

variable {s s' : Watching}

theorem Watching.Step.vouchedFor (hstep : Watching.Step blockchain meets watcher s s')
    (h : s.world.VouchedFor blockchain watcher.chainId) :
    s'.world.VouchedFor blockchain watcher.chainId := by
  have hinitial : (watchSemantics blockchain meets).Triple
      (WatchWorld.VouchedFor blockchain watcher.chainId) _
      BlockWatcher.initialWatermark _ := vouchedFor_within within_initialWatermark
  cases hstep with
  | start hrun => exact (hinitial _ _ _ h hrun).2 _ rfl
  | startStops hrun => exact (hinitial _ _ _ h hrun).1 rfl
  | poll hrun => exact (vouchedFor_pollOnce _ _ _ _ h hrun).2 _ rfl
  | pollStops hrun => exact (vouchedFor_pollOnce _ _ _ _ h hrun).1 rfl

theorem Watching.Steps.vouchedFor (hsteps : Watching.Steps blockchain meets watcher s s')
    (h : s.world.VouchedFor blockchain watcher.chainId) :
    s'.world.VouchedFor blockchain watcher.chainId := by
  induction hsteps with
  | refl => exact h
  | tail _ hstep ih => exact hstep.vouchedFor ih

end Steps

/-! ## What the chain bears out -/

/-- The chain up to block `k` explains the row of `a`. -/
structure Explained (blockchain : Blockchain) (watcher : BlockWatcher) (k : Nat)
    (a : Address) (e : ContributorEntry) : Prop where
  did : e.did = didForSender watcher.chainId a
  hashes : e.hashesSubmitted = 0
  wei : e.fuelContributedWei ≤ receivedFrom blockchain watcher.walletAddress a k
  active : ∃ n ≤ k, (∃ t ∈ inboundAt blockchain watcher.walletAddress n, t.sender = a) ∧
    e.lastActive = (blockchain n).timestamp

/-- The transfers of committed windows are transfers of the chain up to the stored
watermark, each counted once. -/
theorem counted_subperm {w : WatchWorld} {m k : Nat}
    (h : (w.consumer m).Kept (inboundAt blockchain watcher.walletAddress))
    (hk : w.store.getWatermark chainLabel = some k) :
    (w.counted.map FuelTransfer.inbound).Subperm
      ((List.range (k + 1)).flatMap (inboundAt blockchain watcher.walletAddress)) := by
  have hcommitted := h.committed_subperm hk
  rw [WatchWorld.consumer, List.flatMap_map] at hcommitted
  rw [WatchWorld.counted, List.map_flatMap]
  exact hcommitted

/-- Each row of a fresh leaderboard is explained by the chain up to the stored
watermark. -/
theorem explained_of_vouched {w : WatchWorld} {m : Nat}
    (h : (w.consumer m).Kept (inboundAt blockchain watcher.walletAddress))
    (hvouched : w.VouchedFor blockchain watcher.chainId) {a : Address}
    {e : ContributorEntry} (he : w.store.getContributor a = some e) :
    ∃ k, w.store.getWatermark chainLabel = some k ∧
      Explained blockchain watcher k a e := by
  have hearned := hvouched.earned a e he
  obtain ⟨ft, hft, hsender, hactive⟩ := hearned.active
  obtain ⟨x, hx, -⟩ := List.mem_flatMap.mp hft
  obtain ⟨-, k, hk, -⟩ := h.behind x.window (List.mem_map_of_mem hx)
  have hsubperm := counted_subperm h hk
  obtain ⟨n, hn, hmem⟩ := List.mem_flatMap.mp
    (hsubperm.subset (List.mem_map_of_mem hft))
  have hblock : ft.blockNumber = n := block_of_mem_inboundAt hmem
  refine ⟨k, hk, hearned.did, hearned.hashes, ?_, n, ?_, ⟨ft.inbound, hmem, hsender⟩, ?_⟩
  · exact hearned.wei.trans (sentBy_le_of_subperm hsubperm)
  · exact Nat.le_of_lt_succ (List.mem_range.mp hn)
  · rw [hactive, hvouched.dated ft hft, hblock]

/-! ## The page -/

namespace Leaderboard

variable {b : Leaderboard} {limit : Nat}

/-- Both are stored, `e` under the lower address. -/
def Before (b : Leaderboard) (e e' : ContributorEntry) : Prop :=
  ∃ a a', b.getContributor a = some e ∧ b.getContributor a' = some e' ∧
    compare a a' = .lt

theorem inOrder_pairwise (b : Leaderboard) : b.contributorStats.inOrder.Pairwise b.Before := by
  refine List.pairwise_map.mpr ?_
  have hordered := b.contributorStats.ordered_keys_toList
  refine List.Pairwise.imp_of_mem (fun {x y} hx hy hlt => ?_) hordered
  exact ⟨x.1, y.1, Std.ExtTreeMap.mem_toList_iff_getElem?_eq_some.mp hx,
    Std.ExtTreeMap.mem_toList_iff_getElem?_eq_some.mp hy, hlt⟩

theorem mem_listContributorsSorted {e : ContributorEntry}
    (h : e ∈ b.listContributorsSorted limit) : ∃ a, b.getContributor a = some e :=
  Partition.mem_inOrder.mp (mem_of_mem_topOf h)

end Leaderboard

theorem didForSender_inj {chainId : Nat} {a a' : Address}
    (h : didForSender chainId a = didForSender chainId a') : a = a' := by
  have hhex : Hex.encode a.toList = Hex.encode a'.toList :=
    String.ofList_injective (String.append_right_inj _ |>.mp h)
  have hbytes := congrArg Hex.decode hhex
  rw [Hex.decode_encode, Hex.decode_encode] at hbytes
  exact Vector.toList_inj.mp (Except.ok.inj hbytes)

/-- A page that shows the top of the rows, each explained by the chain. -/
structure FairPage (blockchain : Blockchain) (watcher : BlockWatcher) (b : Leaderboard)
    (limit : Nat) (page : List ContributorEntry) : Prop where
  ordered : page.Pairwise fun e e' => e'.fuelContributedWei < e.fuelContributedWei ∨
    e.fuelContributedWei = e'.fuelContributedWei ∧ b.Before e e'
  length : page.length = min limit b.contributorCount
  distinct : (page.map ContributorEntry.did).Nodup
  top : ∀ a row, b.getContributor a = some row → row ∉ page →
    ∀ e ∈ page, row.fuelContributedWei ≤ e.fuelContributedWei
  explained : ∀ e ∈ page, ∃ a k, b.getWatermark chainLabel = some k ∧
    b.getContributor a = some e ∧ Explained blockchain watcher k a e

/-- In every run from an empty leaderboard in which the stored watermark is read at
every start, the leaderboard route shows the wallets with the most wei, most first and
the lower address first where they have the same, no wallet twice, and no wallet with
more than the chain has moved from it up to the stored watermark. -/
theorem leaderboard_is_explained (cfg : LeaderboardConfig) {chain : Option String}
    {s : Watching} (hchain : chain.getD "eth" = "eth")
    (hrun : Watching.Steps blockchain ReadsWatermark watcher (.fresh ⟨∅, ∅⟩) s) :
    ∃ page, leaderboard s.world.store cfg chain =
        .ok ⟨page.map ContributorEntry.wallet, s.world.store.contributorCount,
          cfg.maxPoolSize⟩ ∧
      FairPage blockchain watcher s.world.store cfg.maxPoolSize page := by
  obtain ⟨m, hkept, -⟩ := hrun.kept keepsWatermark_readsWatermark
  have hfresh : (Watching.fresh ⟨∅, ∅⟩).world.VouchedFor blockchain watcher.chainId := by
    refine ⟨fun a e he => ?_, nofun⟩
    rw [Watching.fresh, Leaderboard.getContributor,
      Std.ExtTreeMap.getElem?_empty] at he
    cases he
  have hvouched := hrun.vouchedFor hfresh
  have hexplained : ∀ a e, s.world.store.getContributor a = some e → ∃ k,
      s.world.store.getWatermark chainLabel = some k ∧ Explained blockchain watcher k a e :=
    fun a e he => explained_of_vouched hkept hvouched he
  generalize s.world.store = b at hexplained ⊢
  refine ⟨b.listContributorsSorted cfg.maxPoolSize, ?_, ?_⟩
  · simp only [leaderboard, hchain, if_true]
  have hordered : (ranked ContributorEntry.fuelContributedWei
      b.contributorStats.inOrder).Pairwise _ := ranked_pairwise_ties b.inOrder_pairwise
  refine ⟨hordered.sublist (topOf_sublist _ _), length_topOf _ _, ?_, ?_, ?_⟩
  · have hdistinct : (b.contributorStats.inOrder.map ContributorEntry.did).Nodup := by
      refine List.pairwise_map.mpr (b.inOrder_pairwise.imp ?_)
      rintro e e' ⟨a, a', ha, ha', hlt⟩ hsame
      obtain ⟨_, -, he⟩ := hexplained a e ha
      obtain ⟨_, -, he'⟩ := hexplained a' e' ha'
      obtain rfl := didForSender_inj (he.did.symm.trans (hsame.trans he'.did))
      rw [Std.ReflOrd.compare_self] at hlt
      cases hlt
    have hranked : ((ranked ContributorEntry.fuelContributedWei
        b.contributorStats.inOrder).map ContributorEntry.did).Nodup :=
      ((ranked_perm _).map _).nodup_iff.mpr hdistinct
    exact hranked.sublist ((topOf_sublist _ _).map _)
  · intro a row hrow hout e he
    exact measure_le_of_not_mem_topOf (Partition.mem_inOrder.mpr ⟨a, hrow⟩) hout he
  · intro e he
    obtain ⟨a, ha⟩ := Leaderboard.mem_listContributorsSorted he
    obtain ⟨k, hk, hexplained⟩ := hexplained a e ha
    exact ⟨a, k, hk, ha, hexplained⟩

/-- The watcher starts on an empty leaderboard at block 5 and commits block 6. -/
def Sample.firstDonation : Watching :=
  ((Watching.fresh ⟨∅, ∅⟩).start (.honest Sample.minedChain 5)).poll Sample.walletWatcher
    (.honest Sample.minedChain 8)

theorem leaderboard_is_explained_firstDonation :
    ∃ page, FairPage Sample.minedChain Sample.walletWatcher Sample.firstDonation.world.store
        500 page ∧
      page.length = 1 ∧ ∀ e ∈ page, ∃ a, e.fuelContributedWei ≤
        receivedFrom Sample.minedChain Sample.walletWatcher.walletAddress a 8 := by
  have hrun : Watching.Steps Sample.minedChain ReadsWatermark Sample.walletWatcher
      (.fresh ⟨∅, ∅⟩) Sample.firstDonation :=
    Watching.Steps.poll (Watching.Steps.start .refl
      (within_honest_readsWatermark (by decide))) (within_honest_readsWatermark (by decide))
  have hchain : (none : Option String).getD "eth" = "eth" := rfl
  obtain ⟨page, -, hfair⟩ := leaderboard_is_explained {} hchain hrun
  have hcount : Sample.firstDonation.world.store.contributorCount = 1 := by decide +kernel
  have hwatermark : Sample.firstDonation.world.store.getWatermark chainLabel = some 8 := by
    decide +kernel
  refine ⟨page, hfair, hfair.length.trans (by rw [hcount]; rfl), fun e he => ?_⟩
  obtain ⟨a, k, hk, -, hexplained⟩ := hfair.explained e he
  cases hwatermark.symm.trans hk
  exact ⟨a, hexplained.wei⟩

end AquaTimestamp
