import Rollup.Config
import Rollup.Session.Recorded
import Rollup.Session.Step
import Rollup.Wire.Endpoint
import Rollup.Wire.Exchange
import Rollup.Proofs.Series.Slots
import Rollup.Proofs.Ledger.Total
import Rollup.Proofs.Ledger.Room
import Rollup.Proofs.Map
import Rollup.Proofs.Journal
import Rollup.Proofs.Store.Race
import Rollup.Proofs.Parity
import Rollup.Proofs.Calendar.Overlap
import Rollup.Proofs.Retry
import Rollup.Proofs.Store.Served
import Rollup.Proofs.Store.Frame
import Rollup.Proofs.Store.Isolation
import Rollup.Proofs.Store.Tries
import Rollup.Proofs.Store.Hidden
import Rollup.Proofs.Store.Glitches
import Rollup.Proofs.Store.Grown
import Rollup.Proofs.Store.Merge
import Rollup.Proofs.Ledger.Levels
import Rollup.Proofs.Calendar.Back
import Rollup.Proofs.Series.Last
import Rollup.Proofs.Ending
import Rollup.Proofs.Store.Exact
import Rollup.Proofs.Store.Place
import Rollup.Proofs.Store.Rerun
import Rollup.Proofs.Series.Fetches
import Rollup.Proofs.Retry.Exact
import Rollup.Proofs.Store.Calls
import Rollup.Proofs.Retry.Words
import Rollup.Proofs.Retry.Backoff
import Rollup.Proofs.Calendar.Tiling
import Rollup.Proofs.Calendar.Minus
