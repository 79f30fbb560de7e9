import Quorum.Foundation.Int128
import Quorum.Foundation.Halving
import Quorum.Foundation.Contract
import Quorum.Foundation.Chronicle
import Quorum.Foundation.Clocked
import Quorum.Foundation.Simulation
import Quorum.Foundation.Journal
import Quorum.Foundation.Delegation
import Quorum.Foundation.Registry
import Quorum.Foundation.Poll
import Quorum.Foundation.EventLog
import Quorum.Foundation.Handover
import Quorum.Foundation.Stamp
import Quorum.Foundation.Decimals
import Quorum.Foundation.Bits
import Quorum.Foundation.Crc
import Quorum.Foundation.CodeUnits
import Quorum.Foundation.Json
import Quorum.Foundation.JsonValue
import Quorum.Foundation.OrderedMap
import Quorum.Host
import Quorum.Token.Storage
import Quorum.Token.Operations
import Quorum.Token.Writes
import Quorum.Token.Outcomes
import Quorum.Token.Effects
import Quorum.Token.Coherence
import Quorum.Token.Boost
import Quorum.Token.Conservation
import Quorum.Token.Representation
import Quorum.Token.Refusals
import Quorum.Token.History
import Quorum.Token.Staking
import Quorum.Token.Allowances
import Quorum.Token.Custody
import Quorum.Token.Roles
import Quorum.Token.Replay
import Quorum.Token.Searches
import Quorum.Governor.Storage
import Quorum.Governor.Operations
import Quorum.Governor.Effects
import Quorum.Governor.Outcomes
import Quorum.Governor.Inversion
import Quorum.Governor.Runs
import Quorum.Governor.Roles
import Quorum.Governor.Lifecycle
import Quorum.Governor.Insulation
import Quorum.Governor.Phases
import Quorum.Governor.Execution
import Quorum.Governor.Statistics
import Quorum.Governor.Custody
import Quorum.Governor.Replay
import Quorum.Governor.Decisions
import Quorum.Governor.Counting
import Quorum.Governor.Snapshot
import Quorum.Governor.Preview
import Quorum.Governor.Ballots
import Quorum.Governor.Conviction
import Quorum.Governor.Decay
import Quorum.Governor.Capacity
import Quorum.Governor.Listing
import Quorum.Governor.Admission
import Quorum.Governor.Cooldown
import Quorum.Governor.Progress
import Quorum.Governor.Attainable
import Quorum.Governor.Recount
import Quorum.Frontend.Amounts
import Quorum.Frontend.Strkey
import Quorum.Frontend.TypingErrors
import Quorum.Sdk.Errors
import Quorum.Sdk.Values
import Quorum.Sdk.Decoding
import Quorum.Sdk.Events
import Quorum.Sdk.CacheKey
import Quorum.Sdk.Cache
import Quorum.Sdk.Batch
import Quorum.Foundation.Election
import Quorum.Foundation.Indistinct
import Quorum.Governor.Elections
import Quorum.Governor.Facade
import Quorum.Governor.Independence
import Quorum.Governor.Traps
import Quorum.Governor.Consent
import Quorum.Foundation.Rounds
import Quorum.Sdk.Requests
import Quorum.Sdk.Submission
import Quorum.Sdk.Waiting
import Quorum.Governor.Holders
import Quorum.Sdk.Paging
import Quorum.Token.Book
import Quorum.Foundation.Calendar
import Quorum.Foundation.DateTexts
import Quorum.Foundation.Escaping
import Quorum.Frontend.Feed
import Quorum.Frontend.Notifications
