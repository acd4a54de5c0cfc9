import DhtScraper.Basic
import DhtScraper.Library.OrderedMap
import DhtScraper.Library.Machine
import DhtScraper.Library.Selection
import DhtScraper.Library.Tally
import DhtScraper.Catalog.Entry
import DhtScraper.Catalog.Locked
import DhtScraper.Catalog.Operations
import DhtScraper.Catalog.Representation
import DhtScraper.Catalog.Claims
import DhtScraper.Index.Balance
import DhtScraper.Index.Lossless
import DhtScraper.Index.Screening
import DhtScraper.Index.Failures
import DhtScraper.Index.Documents
import DhtScraper.Index.FinalFlush
import DhtScraper.Library.Stateful
import DhtScraper.Index.Transaction
import DhtScraper.Codec.Grammar
import DhtScraper.Codec.RoundTrip
import DhtScraper.Fetch.Completion
import DhtScraper.Fetch.Packets
import DhtScraper.Fetch.InOrder
import DhtScraper.Fetch.Job
import DhtScraper.Library.Keystream
import DhtScraper.Fetch.StreamEncryption
import DhtScraper.Fetch.Negotiation
import DhtScraper.Fetch.EncryptedSession
import DhtScraper.Crawler.Sending
import DhtScraper.Codec.NodeIdentity
import DhtScraper.Codec.Krpc
import DhtScraper.Library.Entries
import DhtScraper.Codec.Compact
import DhtScraper.Lookup.Budget
import DhtScraper.Lookup.Tables
import DhtScraper.Lookup.Liveness
import DhtScraper.Lookup.Caps
import DhtScraper.Lookup.Trimming
import DhtScraper.Search.Results
import DhtScraper.Index.Totals
import DhtScraper.Catalog.Cells
import DhtScraper.Catalog.Eviction
import DhtScraper.Catalog.FailedPeers
import DhtScraper.Scripts.Lock
import DhtScraper.Lookup.Filtering
import DhtScraper.Lookup.Replies
import DhtScraper.Crawler.Messages
import DhtScraper.Crawler.State
import DhtScraper.Crawler.Handlers
import DhtScraper.Crawler.Running
import DhtScraper.Crawler.Invariant
import DhtScraper.Crawler.Rules
import DhtScraper.Crawler.Datagrams
import DhtScraper.Crawler.Runs
import DhtScraper.Crawler.Forgery
import DhtScraper.Lookup.Ledger
import DhtScraper.Lookup.Pacing
import DhtScraper.Lookup.Answering
import DhtScraper.Crawler.Routing
import DhtScraper.Crawler.Agreement
import DhtScraper.Crawler.Simulation
import DhtScraper.Crawler.Robust
import DhtScraper.Catalog.Custody
import DhtScraper.Catalog.Returns
import DhtScraper.Library.RecentLog
import DhtScraper.Fetch.Summary
import DhtScraper.Fetch.Engine
import DhtScraper.Fetch.Custody
import DhtScraper.Fetch.Scheduling
import DhtScraper.Fetch.Reachability
import DhtScraper.Fetch.UtpSocket
import DhtScraper.Fetch.Dispatch
import DhtScraper.Catalog.Counts
import DhtScraper.Catalog.Search
import DhtScraper.Crawler.Memory
import DhtScraper.Fetch.Published
import DhtScraper.Web.Interface
