import RecordQuery.Main
import RecordQuery.Adapter.Derived
import RecordQuery.Record.Hash
import RecordQuery.Proofs.Search.Visit
import RecordQuery.Proofs.Search.Chain
import RecordQuery.Proofs.Adapter.Finite
import RecordQuery.Proofs.Search.Follow
import RecordQuery.Proofs.Search.Matches
import RecordQuery.Proofs.Search.Reachable
import RecordQuery.Proofs.Selector.Scanning
import RecordQuery.Proofs.Selector.Splitting
import RecordQuery.Proofs.Selector.Parsing
import RecordQuery.Proofs.Search.Cycle
import RecordQuery.Proofs.Search.Representation
import RecordQuery.Proofs.Search.Composition
import RecordQuery.Proofs.Search.Relaxing
import RecordQuery.Proofs.Selector.Writing
import RecordQuery.Proofs.Record.Growing
import RecordQuery.Proofs.Search.Locality
import RecordQuery.Proofs.Record.Settling
import RecordQuery.Proofs.Adapter.Steady
import RecordQuery.Proofs.Session.Steps
import RecordQuery.Proofs.Search.Chaining
import RecordQuery.Proofs.Session.Lasting
import RecordQuery.Proofs.Session.Chaining
import RecordQuery.Proofs.Session.Independence
import RecordQuery.Proofs.Session.Totality
import RecordQuery.Proofs.Adapter.Derived
import RecordQuery.Proofs.Selector.Lines
import RecordQuery.Proofs.Selector.ErrorPlaces
import RecordQuery.Proofs.Selector.Concatenation
import RecordQuery.Proofs.Session.Distribution
import RecordQuery.Proofs.Record.Evolving
import RecordQuery.Proofs.Session.Adding
import RecordQuery.Proofs.Session.Actions
import RecordQuery.Proofs.Session.Remembering
import RecordQuery.Proofs.Search.Tree
import RecordQuery.Proofs.Number.Exact
import RecordQuery.Proofs.Record.Comparing
import RecordQuery.Proofs.Record.Setting
import RecordQuery.Proofs.Session.Setting
import RecordQuery.Proofs.Session.Seeding
import RecordQuery.Proofs.Search.Path
import RecordQuery.Proofs.CommandLine.Listing
import RecordQuery.Proofs.Session.Configuring
