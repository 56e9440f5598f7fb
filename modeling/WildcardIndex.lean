import WildcardIndex.Config.Load
import WildcardIndex.Index.Search
import WildcardIndex.Index.Stats
import WildcardIndex.Pattern.Matching
import WildcardIndex.Proofs.Index.Answers
import WildcardIndex.Proofs.Index.Run
import WildcardIndex.Proofs.Index.Timing
import WildcardIndex.Proofs.Query.Candidates
import WildcardIndex.Registry
import WildcardIndex.RowLocation
import WildcardIndex.Proofs.Store.History
import WildcardIndex.Proofs.Store.Lifecycle
import WildcardIndex.Proofs.Index.Source
import WildcardIndex.Proofs.Index.Replay
import WildcardIndex.Proofs.Index.Twins
import WildcardIndex.Proofs.Query.Traced
import WildcardIndex.Proofs.Index.Backends
import WildcardIndex.Proofs.Index.Extent
import WildcardIndex.Proofs.Index.Tally
import WildcardIndex.Proofs.Registry.Calls
import WildcardIndex.Proofs.Registry.History
import WildcardIndex.Proofs.Query.Placing
import WildcardIndex.Proofs.Index.Visits
import WildcardIndex.Proofs.Query.Offsets
import WildcardIndex.Proofs.Index.Replacing
import WildcardIndex.Proofs.Query.Bounds
import WildcardIndex.Proofs.Index.Presence
import WildcardIndex.Proofs.RecordSet.Family
import WildcardIndex.Proofs.Lengths.Changes
import WildcardIndex.Proofs.Positional.Changes
import WildcardIndex.Proofs.Config.RoundTrip
import WildcardIndex.Proofs.Checked.Run
