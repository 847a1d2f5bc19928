import Custody.Main
import Custody.Market.Session
import Custody.Proofs.Ownership.Balance
import Custody.Proofs.Ownership.Releasing
import Custody.Proofs.Ownership.Cascade
import Custody.Proofs.Ownership.Course
import Custody.Proofs.Ownership.Registry
import Custody.Proofs.Ownership.Session
import Custody.Proofs.Ownership.Runs
import Custody.Proofs.Ownership.Counting
import Custody.Proofs.Ownership.Extent
import Custody.Proofs.Ownership.Safety
import Custody.Proofs.Ownership.Reach
import Custody.Proofs.Ownership.Order
import Custody.Proofs.Ownership.Moments
import Custody.Proofs.Ownership.Visibility
import Custody.Proofs.Ownership.LastWords
import Custody.Proofs.Market.Keys
import Custody.Proofs.Market.Entries
import Custody.Proofs.Market.Sessions
import Custody.Proofs.Market.Instances
import Custody.Proofs.Market.Users
import Custody.Proofs.Roster
import Custody.Proofs.Market.Holdings
import Custody.Proofs.Market.Feeding
import Custody.Proofs.Market.Batches
import Custody.Proofs.Market.Windows
import Custody.Proofs.Market.Overflow
import Custody.Proofs.Ownership.Growth
import Custody.Proofs.Market.Built
import Custody.Proofs.Report.Loading
import Custody.Proofs.Report.Writing
import Custody.Proofs.Report.Exits
import Custody.Proofs.Report.Accounting
import Custody.Proofs.Report.Repeats
import Custody.Proofs.Calendar.Reading
import Custody.Proofs.Text.Casing
import Custody.Proofs.Text.Splitting
import Custody.Proofs.Text.Parts
import Custody.Proofs.Market.Naming
import Custody.Proofs.Market.KindLists
import Custody.Proofs.Text.Ini
import Custody.Proofs.Config.Writing
import Custody.Proofs.Config.Validity
import Custody.Proofs.Config.Reading
import Custody.Proofs.Config.Checks
import Custody.Proofs.Market.PriceFiles
import Custody.Proofs.Ownership.Singletons
import Custody.Proofs.Ownership.Lookups
import Custody.Proofs.Market.Ranges
import Custody.Proofs.Ownership.Exchange
import Custody.Proofs.Ownership.Tenure
import Custody.Proofs.Ownership.Repointing
import Custody.Proofs.Number.Extended
import Custody.Proofs.Market.Spoiling
import Custody.Proofs.Market.Smoothing
import Custody.Proofs.Market.Settled
import Custody.Proofs.Files.Paths
import Custody.Proofs.Market.Listing
import Custody.Proofs.Market.Sharing
import Custody.Proofs.Ownership.Unmanaged
import Custody.Proofs.Ownership.Pinning
