import BetaTrader.Lib.Run
import BetaTrader.Lib.Fifo
import BetaTrader.Lib.SharedCounter
import BetaTrader.Lib.Allocation
import BetaTrader.Lib.Levels
import BetaTrader.Lib.Framing
import BetaTrader.Common.Order
import BetaTrader.Common.FixUtils
import BetaTrader.Common.OutboundMessageBuilder
import BetaTrader.Common.Timestamps
import BetaTrader.Common.Wire
import BetaTrader.Exchange.FixMessageFramer
import BetaTrader.Exchange.OrderRequestConverter
import BetaTrader.Exchange.FixSessionManager
import BetaTrader.Exchange.FixSession
import BetaTrader.Exchange.Matcher
import BetaTrader.Exchange.RiskManager
import BetaTrader.Lib.Calendar
import BetaTrader.Lib.Decimal
import BetaTrader.Lib.Double
import BetaTrader.Lib.Strtoul
import BetaTrader.Lib.Text
import BetaTrader.Lib.Windows
import BetaTrader.Lib.GeneralText
import BetaTrader.Exchange.ExecutionPublisher
import BetaTrader.Exchange.BinaryConverters
import BetaTrader.Exchange.Database
import BetaTrader.Exchange.WorkerThread
import BetaTrader.Exchange.MatchTableSpec
import BetaTrader.Exchange.PriceTimePriority
import BetaTrader.Exchange.BookInvariant
import BetaTrader.Exchange.BookingSpec
import BetaTrader.Exchange.CommandSpec
import BetaTrader.Exchange.PartitionInvariant
import BetaTrader.Exchange.TradeLedger
import BetaTrader.Exchange.Conservation
import BetaTrader.Exchange.OrderTable
import BetaTrader.Exchange.ReportTotals
import BetaTrader.Exchange.ReportedEnds
import BetaTrader.Exchange.Reports
import BetaTrader.Exchange.Execution
import BetaTrader.Exchange.Registration
import BetaTrader.Exchange.TradeIDGenerator
import BetaTrader.Exchange.FramingSpec
import BetaTrader.Exchange.TimeInForce
import BetaTrader.Exchange.RiskGate
import BetaTrader.Client.FixMessageParser
import BetaTrader.Client.OrderBook
import BetaTrader.Client.DepthReplica
import BetaTrader.Exchange.SnapshotWire
import BetaTrader.Client.OrderTicket
import BetaTrader.Client.FixClientSession
import BetaTrader.Client.ClientFraming
import BetaTrader.Client.ProtocolHandler
import BetaTrader.Exchange.LimitProtection
import BetaTrader.Exchange.FixServer
import BetaTrader.Exchange.TradingCore
import BetaTrader.Exchange.DatabaseWorker
import BetaTrader.Exchange.Draining
import BetaTrader.Exchange.OrderIDGenerator
import BetaTrader.Exchange.CommandFrame
import BetaTrader.Exchange.TradingCoreSpec
import BetaTrader.Exchange.Restart
import BetaTrader.Exchange.RequestScope
import BetaTrader.Exchange.TaskScope
import BetaTrader.Exchange.TradeDraws
import BetaTrader.Exchange.Independence
import BetaTrader.Exchange.CancelRouting
import BetaTrader.Exchange.ReportRouting
import BetaTrader.Exchange.SequenceRecovery
import BetaTrader.Exchange.Logons
import BetaTrader.Exchange.LoggedOn
import BetaTrader.Exchange.SessionGate
import BetaTrader.Exchange.MarketDataRequests
import BetaTrader.Exchange.Subscriptions
import BetaTrader.Exchange.WireNumbers
import BetaTrader.Client.SessionCalls
import BetaTrader.Exchange.HeaderText
import BetaTrader.Exchange.SequenceLink
import BetaTrader.Exchange.SessionSpec
import BetaTrader.Exchange.SequenceNumbers
import BetaTrader.Exchange.SenderIdentity
import BetaTrader.Exchange.BuiltMessage
import BetaTrader.Exchange.ReportWire
import BetaTrader.Exchange.ServerStream
import BetaTrader.Exchange.ReadLoop
import BetaTrader.Exchange.ReadHandlers
import BetaTrader.Exchange.StreamFraming
import BetaTrader.Exchange.BuilderAgreement
import BetaTrader.Exchange.OrderEntry
import BetaTrader.Client.BlotterModel
import BetaTrader.Client.BlotterFeed
import BetaTrader.Client.Refusals
import BetaTrader.Exchange.ReplaceChain
import BetaTrader.Client.CandleAggregator
import BetaTrader.Client.CandleGroups
import BetaTrader.Client.CandleRollUp
import BetaTrader.Client.CandleFeed
import BetaTrader.Exchange.StopStart
import BetaTrader.Client.SharedSeqStore
import BetaTrader.Client.SeqNumFile
import BetaTrader.Client.InboundOrder
import BetaTrader.Client.LateIntent
import BetaTrader.Client.LiveDepth
import BetaTrader.Exchange.FrameBounds
import BetaTrader.Exchange.FieldSearch
import BetaTrader.Exchange.RequestNumbers
import BetaTrader.Exchange.SelfMatch
import BetaTrader.Exchange.PriceBand
import BetaTrader.Exchange.BookCancel
import BetaTrader.Exchange.AtomicRefusal
import BetaTrader.Exchange.DepthTotals
import BetaTrader.Exchange.FanOut
import BetaTrader.Client.FinalDisconnect
import BetaTrader.Client.RedeliveredReports
import BetaTrader.Client.AuthManager
import BetaTrader.Exchange.ArrivalOrder
import BetaTrader.Exchange.CommandAnswers
import BetaTrader.Exchange.IncrementalWire
import BetaTrader.Client.App
import BetaTrader.Client.RequestWire
import BetaTrader.Client.MarketDataDesk
import BetaTrader.Client.MarketDataPanel
import BetaTrader.Client.ChartPanel
import BetaTrader.Exchange.Enrolment
import BetaTrader.Client.Ladder
