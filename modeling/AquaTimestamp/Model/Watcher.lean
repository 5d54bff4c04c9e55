import AquaTimestamp.Model.Storage
import AquaTimestamp.Support.Program

/-!
# The block watcher

`watcher.rs` with the leaderboard partitions of `storage.rs`: blocks are scanned
for transfers to the service wallet, each window's contributors are written in
one batch with the watermark, and the task keeps a watermark of its own between
two polls.  The chain, the clock of the polls and failing reads and writes are
the surroundings.
-/

namespace AquaTimestamp

open Support

/-- A 20-byte address. -/
abbrev Address := Vector UInt8 20

instance addressTransOrd : Std.TransOrd Address :=
  inferInstance

/-! ## Contributors and transfers -/

/-- `ContributorEntry`: one row for each contributor wallet. -/
structure ContributorEntry where
  did : String
  fuelContributedWei : Nat
  fuelContributedSat : Nat
  hashesSubmitted : Nat
  lastActive : Nat
  /-- The field is a `u128`. -/
  fuelContributedWei_le : fuelContributedWei ≤ u128Max
  deriving DecidableEq

/-- `FuelTransfer`: a transfer to the service wallet. -/
structure FuelTransfer where
  sender : Address
  valueWei : Nat
  blockNumber : Nat
  blockTimestamp : Nat
  /-- The field is a `u128`. -/
  valueWei_le : valueWei ≤ u128Max
  deriving DecidableEq

/-- A transaction as the watcher looks at it; the value is a `U256`. -/
structure Transaction where
  recipient : Option Address
  value : Nat
  signer : Address
  deriving DecidableEq

/-- A block as the RPC answers it; `none` when it lists hashes only. -/
structure Block where
  timestamp : Nat
  transactions : Option (List Transaction)

/-- The transactions that move a value to the wallet. -/
def inboundTransactions (txs : List Transaction) (wallet : Address) :
    List Transaction :=
  txs.filter fun tx => tx.recipient = some wallet ∧ 0 < tx.value

/-- `filter_transfers`; `none` when a value does not fit a `u128`, where the
conversion panics. -/
def filterTransfers (txs : List Transaction) (wallet : Address)
    (blockNumber blockTimestamp : Nat) : Option (List FuelTransfer) :=
  (inboundTransactions txs wallet).mapM fun tx =>
    if h : tx.value ≤ u128Max then
      some ⟨tx.signer, tx.value, blockNumber, blockTimestamp, h⟩
    else none

/-- `did_for_sender`. -/
def didForSender (chainId : Nat) (sender : Address) : String :=
  "did:pkh:eip155:" ++ toString chainId ++ ":0x" ++
    String.ofList (Hex.encode sender.toList)

/-- The row a transfer leaves, from the row that was read: the match inside the
credit loop of `spawn_watcher`. -/
def creditedEntry (chainId : Nat) (ft : FuelTransfer) :
    Option ContributorEntry → ContributorEntry
  | some e => { e with
      fuelContributedWei := min (e.fuelContributedWei + ft.valueWei) u128Max
      lastActive :=
        if e.lastActive < ft.blockTimestamp then ft.blockTimestamp else e.lastActive
      fuelContributedWei_le := Nat.min_le_right _ _ }
  | none => {
      did := didForSender chainId ft.sender
      fuelContributedWei := ft.valueWei
      fuelContributedSat := 0
      hashesSubmitted := 0
      lastActive := ft.blockTimestamp
      fuelContributedWei_le := ft.valueWei_le }

/-! ## The leaderboard partitions -/

/-- `contributor_stats` and `watcher_watermark`; nothing else writes to them. -/
structure Leaderboard where
  contributorStats : Partition Address ContributorEntry
  watcherWatermark : Partition String Nat

namespace Leaderboard

def getContributor (b : Leaderboard) (address : Address) : Option ContributorEntry :=
  b.contributorStats[address]?

def getWatermark (b : Leaderboard) (chain : String) : Option Nat :=
  b.watcherWatermark[chain]?

/-- `set_watermark`. -/
def setWatermark (b : Leaderboard) (chain : String) (block : Nat) : Leaderboard :=
  { b with watcherWatermark := b.watcherWatermark.insert chain block }

/-- `upsert_contributors_and_watermark`: one batch. -/
def upsertContributorsAndWatermark (b : Leaderboard)
    (updates : List (Address × ContributorEntry)) (chain : String)
    (blockNumber : Nat) : Leaderboard where
  contributorStats := b.contributorStats.insertMany updates
  watcherWatermark := b.watcherWatermark.insert chain blockNumber

end Leaderboard

/-! ## Calls of the watcher -/

/-- `WatcherError`. -/
inductive WatcherError where
  | rpc (msg : String)
  | blockNotFound (n : Nat)
  deriving DecidableEq, Repr

/-- A transfer of a window and the answer to the read of its sender's row. -/
structure Credit where
  transfer : FuelTransfer
  existing : Except StoreError (Option ContributorEntry)

/-- The update a transfer pushes; a failed read counts as no row. -/
def Credit.update (chainId : Nat) (c : Credit) : Address × ContributorEntry :=
  (c.transfer.sender, creditedEntry chainId c.transfer (c.existing.toOption.getD none))

/-- The window of blocks a batch is written for, with its transfers. -/
structure ScanWindow where
  scanStart : Nat
  scanEnd : Nat
  credits : List Credit

/-- The transfers found in the window. -/
def ScanWindow.transfers (w : ScanWindow) : List FuelTransfer :=
  w.credits.map Credit.transfer

/-- A call of the watcher.  A batch carries the window it is written for, as the
source's log line does. -/
inductive WatchCall where
  | getWatermark (chain : String)
  | latestBlock
  | getBlockByNumber (n : Nat)
  | getContributor (address : Address)
  | upsertContributorsAndWatermark (updates : List (Address × ContributorEntry))
      (chain : String) (blockNumber : Nat) (window : ScanWindow)
  | setWatermark (chain : String) (block : Nat)
  | panicked

/-- The answers of each call; a panic of the task is never answered. -/
@[reducible]
def WatchAnswer : WatchCall → Type
  | .getWatermark _ => Except StoreError (Option Nat)
  | .latestBlock => Except WatcherError Nat
  | .getBlockByNumber _ => Except String (Option Block)
  | .getContributor _ => Except StoreError (Option ContributorEntry)
  | .upsertContributorsAndWatermark .. => Except StoreError Unit
  | .setWatermark .. => Except StoreError Unit
  | .panicked => Empty

/-- Programs of the watcher. -/
abbrev WatchM (α : Type) : Type :=
  Prog WatchCall WatchAnswer α

namespace WatchM

def getWatermark (chain : String) : WatchM (Except StoreError (Option Nat)) :=
  Prog.ask (WatchCall.getWatermark chain)

def latestBlock : WatchM (Except WatcherError Nat) :=
  Prog.ask WatchCall.latestBlock

def getBlockByNumber (n : Nat) : WatchM (Except String (Option Block)) :=
  Prog.ask (WatchCall.getBlockByNumber n)

def getContributor (address : Address) :
    WatchM (Except StoreError (Option ContributorEntry)) :=
  Prog.ask (WatchCall.getContributor address)

def upsertContributorsAndWatermark (updates : List (Address × ContributorEntry))
    (chain : String) (blockNumber : Nat) (window : ScanWindow) :
    WatchM (Except StoreError Unit) :=
  Prog.ask (WatchCall.upsertContributorsAndWatermark updates chain blockNumber window)

def setWatermark (chain : String) (block : Nat) : WatchM (Except StoreError Unit) :=
  Prog.ask (WatchCall.setWatermark chain block)

/-- A panic: the watcher's task ends here. -/
def panicHere {α : Type} : WatchM α :=
  .call .panicked fun e => nomatch e

end WatchM

/-! ## The task -/

/-- `BlockWatcher`, without the URL it connects to. -/
structure BlockWatcher where
  walletAddress : Address
  chainId : Nat

/-- The only key of `watcher_watermark`. -/
def chainLabel : String := "eth"

namespace BlockWatcher

/-- The loop of `scan_blocks` over the blocks of a window. -/
def scanEach (watcher : BlockWatcher) :
    List Nat → WatchM (Except WatcherError (List FuelTransfer))
  | [] => pure (.ok [])
  | n :: ns => do
      match ← WatchM.getBlockByNumber n with
      | .error e => pure (.error (.rpc ("block " ++ toString n ++ ": " ++ e)))
      | .ok none => pure (.error (.blockNotFound n))
      | .ok (some block) =>
          match block.transactions with
          | none => watcher.scanEach ns
          | some txs =>
              match filterTransfers txs watcher.walletAddress n block.timestamp with
              | none => WatchM.panicHere
              | some found => do
                  match ← watcher.scanEach ns with
                  | .error e => pure (.error e)
                  | .ok rest => pure (.ok (found ++ rest))

/-- `scan_blocks`: at most 100 blocks. -/
def scanBlocks (watcher : BlockWatcher) (start stop : Nat) :
    WatchM (Except WatcherError (List FuelTransfer)) :=
  let cap := min stop (saturatingAdd start 99)
  watcher.scanEach (List.range' start (cap + 1 - start))

/-- Read the row of each transfer's sender. -/
def readRows : List FuelTransfer → WatchM (List Credit)
  | [] => pure []
  | ft :: fts => do
      let existing ← WatchM.getContributor ft.sender
      let rest ← readRows fts
      pure (⟨ft, existing⟩ :: rest)

/-- The credit loop of `spawn_watcher` with the write after it: whether the
window was committed. -/
def creditWindow (watcher : BlockWatcher) (scanStart scanEnd : Nat)
    (fuelTransfers : List FuelTransfer) : WatchM Bool := do
  let credits ← readRows fuelTransfers
  let written ← WatchM.upsertContributorsAndWatermark
    (credits.map (Credit.update watcher.chainId)) chainLabel scanEnd
    ⟨scanStart, scanEnd, credits⟩
  pure written.isOk

/-- The watermark `spawn_watcher` starts with. -/
def initialWatermark : WatchM Nat := do
  match ← WatchM.getWatermark chainLabel with
  | .ok (some w) => pure w
  | .ok none => do
      match ← WatchM.latestBlock with
      | .ok b => pure b
      | .error _ => pure 0
  | .error _ => pure 0

/-- One turn of the loop of `spawn_watcher`: the watermark after it. -/
def pollOnce (watcher : BlockWatcher) (watermark : Nat) : WatchM Nat := do
  match ← WatchM.latestBlock with
  | .error _ => pure watermark
  | .ok latest =>
      if latest ≤ watermark then pure watermark
      else do
        let scanEnd := min latest (saturatingAdd watermark 100)
        let scanStart := saturatingAdd watermark 1
        match ← watcher.scanBlocks scanStart scanEnd with
        | .error _ => pure watermark
        | .ok fuelTransfers =>
            if fuelTransfers.isEmpty then do
              let _ ← WatchM.setWatermark chainLabel scanEnd
              pure scanEnd
            else do
              let committed ← watcher.creditWindow scanStart scanEnd fuelTransfers
              pure (if committed then scanEnd else watermark)

end BlockWatcher

/-! ## Runs of the watcher -/

/-- A block of the chain, with all its transactions. -/
structure MinedBlock where
  timestamp : Nat
  transactions : List Transaction

/-- The chain: one block at every height. -/
abbrev Blockchain := Nat → MinedBlock

/-- What the RPC answers for a block it knows. -/
def MinedBlock.full (b : MinedBlock) : Block :=
  ⟨b.timestamp, some b.transactions⟩

/-- The leaderboard and the calls made so far, newest first. -/
structure WatchWorld where
  store : Leaderboard
  log : List ((c : WatchCall) × WatchAnswer c)

/-- The leaderboard after a call.  A write that failed has changed nothing. -/
def Leaderboard.after (b : Leaderboard) : (c : WatchCall) → WatchAnswer c → Leaderboard
  | .upsertContributorsAndWatermark updates chain blockNumber _, .ok () =>
      b.upsertContributorsAndWatermark updates chain blockNumber
  | .setWatermark chain block, .ok () => b.setWatermark chain block
  | _, _ => b

/-- The answers a call may get.  Every call may fail, and a block may be unknown
yet; the chain itself does not change. -/
def Observable (blockchain : Blockchain) (b : Leaderboard) :
    (c : WatchCall) → WatchAnswer c → Prop
  | .getWatermark chain, answer => ∀ w, answer = .ok w → w = b.getWatermark chain
  | .latestBlock, answer => ∀ n, answer = .ok n → n ≤ u64Max
  | .getBlockByNumber n, answer =>
      ∀ block, answer = .ok (some block) → block = (blockchain n).full
  | .getContributor address, answer =>
      ∀ row, answer = .ok row → row = b.getContributor address
  | _, _ => True

/-- The world after a call of the watcher. -/
def WatchWorld.after (w : WatchWorld) (c : WatchCall) (answer : WatchAnswer c) :
    WatchWorld :=
  ⟨w.store.after c answer, ⟨c, answer⟩ :: w.log⟩

/-- A condition on the calls of a run, in the store they are made in. -/
abbrev WatchCondition := Leaderboard → (c : WatchCall) → WatchAnswer c → Prop

/-- What the watcher's calls do, when each of them meets a condition. -/
def watchSemantics (blockchain : Blockchain) (meets : WatchCondition) :
    Semantics WatchCall WatchAnswer WatchWorld where
  step c answer w w' :=
    Observable blockchain w.store c answer ∧ meets w.store c answer ∧
      w' = w.after c answer
  interferes _ _ := False

/-- The task between two polls: not there, or with its watermark. -/
inductive WatchTask where
  | down
  | up (watermark : Nat)

/-- The watcher with its store. -/
structure Watching where
  world : WatchWorld
  task : WatchTask

/-- One step of the watcher: the process starts, polls once, or dies at any
point of either. -/
inductive Watching.Step (blockchain : Blockchain) (meets : WatchCondition)
    (watcher : BlockWatcher) : Watching → Watching → Prop where
  | start {w w' : WatchWorld} {task : WatchTask} {m : Nat} :
      (watchSemantics blockchain meets).Run BlockWatcher.initialWatermark w w' (some m) →
        Step blockchain meets watcher ⟨w, task⟩ ⟨w', .up m⟩
  | startStops {w w' : WatchWorld} {task : WatchTask} :
      (watchSemantics blockchain meets).Run BlockWatcher.initialWatermark w w' none →
        Step blockchain meets watcher ⟨w, task⟩ ⟨w', .down⟩
  | poll {w w' : WatchWorld} {m m' : Nat} :
      (watchSemantics blockchain meets).Run (watcher.pollOnce m) w w' (some m') →
        Step blockchain meets watcher ⟨w, .up m⟩ ⟨w', .up m'⟩
  | pollStops {w w' : WatchWorld} {m : Nat} :
      (watchSemantics blockchain meets).Run (watcher.pollOnce m) w w' none →
        Step blockchain meets watcher ⟨w, .up m⟩ ⟨w', .down⟩

/-- The runs of the watcher. -/
abbrev Watching.Steps (blockchain : Blockchain) (meets : WatchCondition)
    (watcher : BlockWatcher) : Watching → Watching → Prop :=
  Relation.ReflTransGen (Watching.Step blockchain meets watcher)

/-- The windows committed so far, newest first. -/
def WatchWorld.commits (w : WatchWorld) : List ScanWindow :=
  w.log.filterMap fun
    | ⟨.upsertContributorsAndWatermark _ _ _ window, .ok ()⟩ => some window
    | _ => none

/-- A process that has not run on the store yet. -/
def Watching.fresh (b : Leaderboard) : Watching :=
  ⟨⟨b, []⟩, .down⟩

/-! ## Replaying runs -/

/-- Surroundings that answer each call in one way, or let the process die. -/
abbrev WatchSurroundings := Leaderboard → (c : WatchCall) → Option (WatchAnswer c)

namespace WatchSurroundings

/-- Everything succeeds, with a latest block. -/
def honest (blockchain : Blockchain) (latest : Nat) : WatchSurroundings
  | b, .getWatermark chain => some (.ok (b.getWatermark chain))
  | _, .latestBlock => some (.ok latest)
  | _, .getBlockByNumber n => some (.ok (some (blockchain n).full))
  | b, .getContributor address => some (.ok (b.getContributor address))
  | _, .upsertContributorsAndWatermark .. => some (.ok ())
  | _, .setWatermark .. => some (.ok ())
  | _, .panicked => none

/-- The answers are possible, and each call meets the condition. -/
def Within (out : WatchSurroundings) (blockchain : Blockchain) (meets : WatchCondition) :
    Prop :=
  ∀ b c answer, out b c = some answer → Observable blockchain b c answer ∧
    meets b c answer

/-- Execute a program of the watcher. -/
def drive {α : Type} (out : WatchSurroundings) (p : WatchM α) (w : WatchWorld) :
    WatchWorld × Option α :=
  p.drive (fun w c => out w.store c) WatchWorld.after w

theorem run_drive {blockchain : Blockchain} {meets : WatchCondition} {α : Type}
    {out : WatchSurroundings} (hout : out.Within blockchain meets) (p : WatchM α)
    (w : WatchWorld) :
    (watchSemantics blockchain meets).Run p w (out.drive p w).1 (out.drive p w).2 := by
  refine Prog.run_drive ?_ p w
  intro w c answer hanswer
  obtain ⟨hobservable, hmeets⟩ := hout w.store c answer hanswer
  exact ⟨hobservable, hmeets, rfl⟩

theorem within_honest {blockchain : Blockchain} {meets : WatchCondition} {latest : Nat}
    (hlatest : latest ≤ u64Max)
    (hmeets : ∀ b c answer, honest blockchain latest b c = some answer → meets b c answer) :
    (honest blockchain latest).Within blockchain meets := by
  intro b c answer hanswer
  refine ⟨?_, hmeets b c answer hanswer⟩
  cases c with
  | getWatermark chain =>
      cases hanswer
      rintro w ⟨⟩
      rfl
  | latestBlock =>
      cases hanswer
      rintro n ⟨⟩
      exact hlatest
  | getBlockByNumber n =>
      cases hanswer
      rintro block ⟨⟩
      rfl
  | getContributor address =>
      cases hanswer
      rintro row ⟨⟩
      rfl
  | upsertContributorsAndWatermark updates chain blockNumber window => trivial
  | setWatermark chain block => trivial
  | panicked => trivial

end WatchSurroundings

namespace Watching

/-- What an execution leaves: the task is there if it finished. -/
def ofResult (result : WatchWorld × Option Nat) : Watching :=
  ⟨result.1, result.2.elim .down .up⟩

/-- The process starts. -/
def start (s : Watching) (out : WatchSurroundings) : Watching :=
  ofResult (out.drive BlockWatcher.initialWatermark s.world)

/-- The task polls, if there is one. -/
def poll (s : Watching) (watcher : BlockWatcher) (out : WatchSurroundings) : Watching :=
  match s.task with
  | .down => s
  | .up m => ofResult (out.drive (watcher.pollOnce m) s.world)

variable {blockchain : Blockchain} {meets : WatchCondition} {watcher : BlockWatcher}
variable {s s' : Watching} {out : WatchSurroundings}

theorem Steps.start (h : Steps blockchain meets watcher s s')
    (hout : out.Within blockchain meets) :
    Steps blockchain meets watcher s (s'.start out) := by
  refine h.tail ?_
  obtain ⟨w, task⟩ := s'
  have hrun := WatchSurroundings.run_drive hout BlockWatcher.initialWatermark w
  unfold Watching.start
  generalize out.drive BlockWatcher.initialWatermark w = result at hrun ⊢
  obtain ⟨w', o⟩ := result
  cases o with
  | none => exact .startStops hrun
  | some m => exact .start hrun

theorem Steps.poll (h : Steps blockchain meets watcher s s')
    (hout : out.Within blockchain meets) :
    Steps blockchain meets watcher s (s'.poll watcher out) := by
  obtain ⟨w, task⟩ := s'
  cases task with
  | down => exact h
  | up m =>
      refine h.tail ?_
      have hrun := WatchSurroundings.run_drive hout (watcher.pollOnce m) w
      simp only [Watching.poll]
      generalize out.drive (watcher.pollOnce m) w = result at hrun ⊢
      obtain ⟨w', o⟩ := result
      cases o with
      | none => exact .pollStops hrun
      | some m' => exact .poll hrun

end Watching

end AquaTimestamp
