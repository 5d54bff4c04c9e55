import AquaTimestamp.Guarantees.Accumulation
import AquaTimestamp.Guarantees.BatchCheck
import AquaTimestamp.Guarantees.Downtime
import AquaTimestamp.Guarantees.Fetching
import AquaTimestamp.Guarantees.Gate
import AquaTimestamp.Guarantees.IdentityClaim
import AquaTimestamp.Guarantees.Independence
import AquaTimestamp.Guarantees.Isolation
import AquaTimestamp.Guarantees.LeafText
import AquaTimestamp.Guarantees.Lookup
import AquaTimestamp.Guarantees.Minting
import AquaTimestamp.Guarantees.Outage
import AquaTimestamp.Guarantees.Pagination
import AquaTimestamp.Guarantees.Recency
import AquaTimestamp.Guarantees.Refresh
import AquaTimestamp.Guarantees.Retention
import AquaTimestamp.Guarantees.Roots
import AquaTimestamp.Guarantees.SafetyMargin
import AquaTimestamp.Guarantees.Sealing
import AquaTimestamp.Guarantees.Settled
import AquaTimestamp.Guarantees.Spend
import AquaTimestamp.Guarantees.Stalled
import AquaTimestamp.Guarantees.Survival
import AquaTimestamp.Guarantees.Timeout
import AquaTimestamp.Guarantees.TrustPins
import AquaTimestamp.Guarantees.Views
import AquaTimestamp.Guarantees.Watching
import AquaTimestamp.Guarantees.Crediting
import AquaTimestamp.Guarantees.Progress
import AquaTimestamp.Guarantees.Delivery
import AquaTimestamp.Guarantees.Startup
import AquaTimestamp.Guarantees.Provenance
import AquaTimestamp.Guarantees.Feed
import AquaTimestamp.Guarantees.Totals
import AquaTimestamp.Guarantees.Receipts
import AquaTimestamp.Guarantees.Publication
import AquaTimestamp.Guarantees.Standings
import AquaTimestamp.Model.Routes
import AquaTimestamp.Model.BondingCurve
import AquaTimestamp.Model.Sample
