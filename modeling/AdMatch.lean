import AdMatch.Lib.Machine
import AdMatch.Lib.HashMap
import AdMatch.Lib.Best
import AdMatch.Lib.Sorting
import AdMatch.Lib.Runs
import AdMatch.Model
import AdMatch.Normalize
import AdMatch.Tokens
import AdMatch.Relevance
import AdMatch.Privacy
import AdMatch.Auction
import AdMatch.Index.Basic
import AdMatch.Index.Vocabulary
import AdMatch.Index.Invariant
import AdMatch.Index.Reference
import AdMatch.Index.Correct
import AdMatch.Lib.Ledger
import AdMatch.Budget
import AdMatch.Pricing
import AdMatch.Competition
import AdMatch.Engine.Basic
import AdMatch.Engine.Reference
import AdMatch.Engine.Correct
import AdMatch.Engine.Charging
import AdMatch.Engine.Ranking
import AdMatch.Engine.Matching
import AdMatch.Engine.Reordering
import AdMatch.Engine.Wording
import AdMatch.Server.Routes
import AdMatch.Engine.Targeting
import AdMatch.Engine.Cascade
import AdMatch.Index.Capacity
import AdMatch.Engine.Building
import AdMatch.Engine.Bids
import AdMatch.Engine.Irrelevance
import AdMatch.Server.Config
import AdMatch.Server.Validate
import AdMatch.Server.Audience
import AdMatch.Lib.Serial
import AdMatch.Lib.Commits
import AdMatch.Engine.Concurrent
import AdMatch.Server.State
import AdMatch.Counters.Basic
import AdMatch.Counters.Invariant
import AdMatch.Counters.Commit
import AdMatch.Counters.Log
import AdMatch.Counters.Series
import AdMatch.Counters.Linear
import AdMatch.Index.Representation
import AdMatch.Lib.Draw
import AdMatch.Seedgen.Basic
import AdMatch.Seedgen.Words
import AdMatch.Seedgen.Campaigns
import AdMatch.Seedgen.Requests
import AdMatch.Lib.Json
import AdMatch.Server.Formats
import AdMatch.Server.Http
import AdMatch.Server.Metrics
import AdMatch.Server.Service
import AdMatch.Lib.Tally
import AdMatch.Server.Exchanges
import AdMatch.Server.Accounting
import AdMatch.Server.Labels
import AdMatch.Lib.JsonText
import AdMatch.Server.SeedFiles
import AdMatch.Lib.Sequential
import AdMatch.Server.Sequential
import AdMatch.Server.Retention
import AdMatch.Lib.Trace
import AdMatch.Server.Erasure
import AdMatch.Server.Placements
import AdMatch.Server.Settings
import AdMatch.Server.Spending
import AdMatch.Server.Attempts
import AdMatch.Server.Refused
