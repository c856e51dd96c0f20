import AefTerminal.Paper.JournalSound
import AefTerminal.Paper.Ledger
import AefTerminal.ChartCommits.LiveRevisions
import AefTerminal.ChartCommits.HistoryHandles
import AefTerminal.Paper.Coverage
import AefTerminal.Paper.JournalSnapshots
import AefTerminal.Paper.Linearization
import AefTerminal.Alerts.Convergence
import AefTerminal.Alerts.OutboxClaims
import AefTerminal.Alerts.Crossing
import AefTerminal.Sessions.Layering
import AefTerminal.Quotes.SubscriptionSync
import AefTerminal.Settings.Cache
import AefTerminal.Storage.WriterLease
import AefTerminal.Sessions.HoursRefresh
import AefTerminal.Ticks.Readers
import AefTerminal.ChartHistory.Freshness
import AefTerminal.Repair.Refetch
import AefTerminal.Alerts.FuelEvents
import AefTerminal.Broker.LanePriority
import AefTerminal.Quotes.TradeDelivery
import AefTerminal.Analysis.Exchanges
import AefTerminal.Futures.Coherence
import AefTerminal.Analysis.ContextAdvance
import AefTerminal.Runtime.PhysicalTask
import AefTerminal.Paper.Patch
import AefTerminal.Backtest.Causality
import AefTerminal.Gex.PersistOnce
import AefTerminal.Runtime.Pine
import AefTerminal.Runtime.Collapse
import AefTerminal.History.CoverageStore
import AefTerminal.Repair.Continuation
import AefTerminal.Ticks.DropEvents
import AefTerminal.Signals.Wire
import AefTerminal.Sessions.Slots
import AefTerminal.Signals.RunLaw
import AefTerminal.Signals.TradePlan
import AefTerminal.ChartCommits.CommittedMemory
import AefTerminal.Runtime.Pivots
import AefTerminal.Backtest.TradedPrices
import AefTerminal.Gex.FailureBackoff
import AefTerminal.Gex.HistoryIntervals
import AefTerminal.Gex.GammaFlip
import AefTerminal.Discord.Linking
import AefTerminal.Paper.AppendOnly
