import AquaTimestamp.Model.Config
import AquaTimestamp.Model.Routes
import AquaTimestamp.Model.Watcher
import AquaTimestamp.Support.Ranking

/-!
# The leaderboard route

`list_contributors_sorted` and `contributor_count` of `storage.rs`, with the public
handler that answers from them.
-/

namespace AquaTimestamp

open Support

namespace Leaderboard

/-- `list_contributors_sorted`: the rows in the order of the partition, sorted by
their wei. -/
def listContributorsSorted (b : Leaderboard) (limit : Nat) : List ContributorEntry :=
  topOf ContributorEntry.fuelContributedWei limit b.contributorStats.inOrder

/-- `contributor_count`. -/
def contributorCount (b : Leaderboard) : Nat :=
  b.contributorStats.inOrder.length

end Leaderboard

/-- A wallet of the leaderboard's answer; the wei are text. -/
structure LeaderboardWallet where
  did : String
  fuelContributedWei : String
  hashesSubmitted : Nat
  lastActive : Nat
  deriving DecidableEq

def ContributorEntry.wallet (e : ContributorEntry) : LeaderboardWallet where
  did := e.did
  fuelContributedWei := toString e.fuelContributedWei
  hashesSubmitted := e.hashesSubmitted
  lastActive := e.lastActive

/-- The body of `GET /v1/leaderboard`. -/
structure LeaderboardBody where
  wallets : List LeaderboardWallet
  poolCount : Nat
  maxPool : Nat
  deriving DecidableEq

/-- `leaderboard`.  Nothing is kept about contributors in bitcoin.  The reads of the store
succeed: the branches that answer 500 are not modelled. -/
def leaderboard (b : Leaderboard) (cfg : LeaderboardConfig) (chain : Option String) :
    Except (StatusCode × String) LeaderboardBody :=
  let chain := chain.getD "eth"
  if chain = "eth" then
    .ok {
      wallets := (b.listContributorsSorted cfg.maxPoolSize).map ContributorEntry.wallet
      poolCount := b.contributorCount
      maxPool := cfg.maxPoolSize }
  else if chain = "btc" then
    .ok { wallets := [], poolCount := b.contributorCount, maxPool := cfg.maxPoolSize }
  else
    .error (.badRequest, "unknown chain '" ++ chain ++ "', expected 'eth' or 'btc'")

end AquaTimestamp
