import Arbexpert.Arbitrage.Balance
import Arbexpert.Arbitrage.Bounds
import Arbexpert.Arbitrage.Completion
import Arbexpert.Arbitrage.Limits
import Arbexpert.Arbitrage.Marginal
import Arbexpert.Arbitrage.MaxPrice
import Arbexpert.Arbitrage.Profit
import Arbexpert.Base.Account
import Arbexpert.Base.Ledger
import Arbexpert.Base.Maps
import Arbexpert.Base.Matched
import Arbexpert.Base.Mpsc
import Arbexpert.Base.Orphans
import Arbexpert.Base.Phases
import Arbexpert.Base.Retry
import Arbexpert.Base.Session
import Arbexpert.Base.SharedLimit
import Arbexpert.Base.Shorts
import Arbexpert.Base.Simulation
import Arbexpert.Base.SortedMap
import Arbexpert.Base.Updates
import Arbexpert.Base.Verdicts
import Arbexpert.Binance.Phases
import Arbexpert.Binance.Sync
import Arbexpert.Exchange.Capacity
import Arbexpert.Exchange.Independence
import Arbexpert.Exchange.Initialisation
import Arbexpert.Exchange.Phases
import Arbexpert.Exchange.Recovery
import Arbexpert.Exchange.Requests
import Arbexpert.Foundation.Grouping
import Arbexpert.Foundation.GuardedRun
import Arbexpert.Foundation.Sentinel
import Arbexpert.Gate.Assets
import Arbexpert.Gate.History
import Arbexpert.Gate.Hold
import Arbexpert.Gate.Phases
import Arbexpert.Gate.Sync
import Arbexpert.Macros.Select
import Arbexpert.Mexc.Catch
import Arbexpert.Mexc.Outage
import Arbexpert.Mexc.Private
import Arbexpert.Mexc.PrivateOrders
import Arbexpert.Mexc.Request
import Arbexpert.Mexc.SubClient
import Arbexpert.Mexc.Waiters
import Arbexpert.Ratelimit.Alignment
import Arbexpert.Ratelimit.Hint
import Arbexpert.Ratelimit.Reconfigure
import Arbexpert.Ratelimit.Refill
import Arbexpert.Ratelimit.Window
import Arbexpert.Web.Site
import Arbexpert.Worker.CrossAssets
import Arbexpert.Worker.CrossDelivery
import Arbexpert.Worker.Delivery
import Arbexpert.Worker.Feeds
import Arbexpert.Worker.Legs
import Arbexpert.Worker.Markets
import Arbexpert.Worker.Notified
import Arbexpert.Worker.RequestBody
import Arbexpert.Worker.SetupRuns
