import TradingEngine.Lib.Run
import TradingEngine.Lib.Total
import TradingEngine.Lib.Journal
import TradingEngine.OE.Types
import TradingEngine.Core.Timestamp
import TradingEngine.Core.Proofs.Timestamp
import TradingEngine.OE.Order
import TradingEngine.OE.Position
import TradingEngine.OE.FirmRisk
import TradingEngine.OE.Instrument
import TradingEngine.OE.Desk
import TradingEngine.OE.OrderLogFormat
import TradingEngine.OE.Book
import TradingEngine.OE.OrderManager
import TradingEngine.OE.Trading
import TradingEngine.OE.Replay
import TradingEngine.OE.SendThreads
import TradingEngine.OE.Proofs.Breakers
import TradingEngine.OE.Proofs.Exposure
import TradingEngine.OE.Proofs.Send
import TradingEngine.OE.Proofs.Totals
import TradingEngine.OE.Proofs.KillSwitch
import TradingEngine.OE.Proofs.PositionLimit
import TradingEngine.OE.Proofs.LiveOrders
import TradingEngine.OE.Proofs.Reader
import TradingEngine.OE.Proofs.Replay
import TradingEngine.OE.Proofs.ExposureRace
import TradingEngine.OE.Proofs.LogOrder
import TradingEngine.Lib.Sequenced
import TradingEngine.OE.BOE20Session
import TradingEngine.OE.BOE20Day
import TradingEngine.OE.OUCH42Orders
import TradingEngine.OE.Proofs.Crash
import TradingEngine.OE.Proofs.LifeCycle
import TradingEngine.OE.Proofs.EndStates
import TradingEngine.OE.Proofs.CancelRequests
import TradingEngine.Lib.Bytes
import TradingEngine.Lib.Framing
import TradingEngine.OE.OUCH42Recv
import TradingEngine.OE.Proofs.BOE20Day
import TradingEngine.OE.Proofs.OUCH42Exposure
import TradingEngine.OE.Proofs.OUCH42Orphans
import TradingEngine.OE.Proofs.LocateMoves
import TradingEngine.OE.Proofs.Locates
import TradingEngine.OE.Proofs.SendUndone
import TradingEngine.OE.LocateUpdates
import TradingEngine.OE.Proofs.LocateUpdates
import TradingEngine.OE.Proofs.LocatePool
import TradingEngine.OE.Proofs.LocateDemand
import TradingEngine.OE.Proofs.OrderTable
import TradingEngine.OE.Proofs.OUCH42Recv
import TradingEngine.OE.BOE20Recv
import TradingEngine.OE.Proofs.BOE20Recv
import TradingEngine.TS.TPSServer
import TradingEngine.TS.Proofs.TPSServer
import TradingEngine.OE.OUCH42Session
import TradingEngine.OE.Proofs.OUCH42Session
import TradingEngine.Lib.Gaps
import TradingEngine.MD.PDPMessages
import TradingEngine.MD.PDPDecoder
import TradingEngine.MD.Proofs.PDPDecoder
import TradingEngine.MD.OrderBook
import TradingEngine.TS.NBBOEquitiesStrategy
import TradingEngine.TS.Proofs.NBBOEquitiesStrategy
import TradingEngine.OE.L2Sim
import TradingEngine.OE.Proofs.L2SimView
import TradingEngine.OE.Proofs.L2SimInv
import TradingEngine.OE.Proofs.L2SimMarket
import TradingEngine.OE.Proofs.L2SimTurns
import TradingEngine.OE.Proofs.L2SimArrivals
import TradingEngine.OE.Proofs.L2Sim
import TradingEngine.Lib.Window
import TradingEngine.OE.Proofs.OrderRate
import TradingEngine.OE.Proofs.PnlIdentity
import TradingEngine.OE.Proofs.FlattenOnly
import TradingEngine.OE.Proofs.ManualAdj
import TradingEngine.OE.Proofs.ReplayTable
import TradingEngine.OE.FileBlotterReader
import TradingEngine.OE.OUCH42Wire
import TradingEngine.OE.Proofs.FileBlotterReader
import TradingEngine.OE.Proofs.OUCH42Wire
import TradingEngine.OE.OUCH42Send
import TradingEngine.OE.Proofs.OUCH42Send
import TradingEngine.OE.BOE20Send
import TradingEngine.OE.Proofs.BOE20Send
import TradingEngine.OE.Proofs.BOE20Modify
import TradingEngine.Core.Time
import TradingEngine.OE.BOE20Timer
import TradingEngine.OE.Proofs.StaleSession
import TradingEngine.Core.Alphanumeric
import TradingEngine.OE.BOE20ClOrdID
import TradingEngine.OE.Proofs.OrderTokens
import TradingEngine.OE.BOE20Buffers
import TradingEngine.OE.Proofs.BOE20Buffers
import TradingEngine.OE.Proofs.L2SimFrames
import TradingEngine.OE.Proofs.L2SimTrades
import TradingEngine.Lib.Agenda
import TradingEngine.OE.Proofs.L2SimClock
import TradingEngine.OE.L2SimDetail
import TradingEngine.OE.Proofs.L2SimExec
import TradingEngine.OE.Proofs.L2SimLevel
import TradingEngine.OE.Proofs.SentOrders
import TradingEngine.OE.Proofs.L2SimPlaces
import TradingEngine.OE.Proofs.L2SimReduce
import TradingEngine.OE.Proofs.L2SimAuctions
import TradingEngine.OE.Proofs.L2SimOwnAuction
import TradingEngine.Lib.StableSort
import TradingEngine.Apps.ReorderPcap
import TradingEngine.Apps.Proofs.ReorderPcap
import TradingEngine.Net.PcapFileMux
import TradingEngine.Lib.Merge
import TradingEngine.Net.Proofs.PcapFileMux
import TradingEngine.Net.Proofs.MuxReads
import TradingEngine.Net.Proofs.MuxTimers
import TradingEngine.MD.L2Book
import TradingEngine.MD.Proofs.L2Book
import TradingEngine.Lib.Touches
import TradingEngine.MD.PDPBounds
import TradingEngine.MD.Proofs.PDPBounds
import TradingEngine.TS.TPSHandshake
import TradingEngine.TS.Proofs.TPSHandshake
import TradingEngine.TS.TPSSubscriptions
import TradingEngine.TS.Proofs.TPSCalls
import TradingEngine.TS.Proofs.TPSSubscriptions
import TradingEngine.Lib.Calendar
import TradingEngine.TS.SerialDate
import TradingEngine.TS.Proofs.SerialDate
import TradingEngine.OE.Proofs.OUCH42Login
import TradingEngine.OE.RemotePosition
import TradingEngine.OE.Proofs.RemotePosition
import TradingEngine.Lib.Ring
import TradingEngine.Core.MappedRing
import TradingEngine.Core.Proofs.MappedRing
import TradingEngine.Lib.Tiling
import TradingEngine.Core.AsyncMappedFile
import TradingEngine.Core.Proofs.AsyncMappedFile
import TradingEngine.Apps.SeqnumCap
import TradingEngine.Apps.Proofs.SeqnumCap
import TradingEngine.Apps.Proofs.SeqnumReopen
import TradingEngine.Lib.InForce
import TradingEngine.TS.PricerStrategy
import TradingEngine.TS.Proofs.PricerStrategy
import TradingEngine.Lib.Streaming
import TradingEngine.Core.LZ4
import TradingEngine.Core.LZ4Frame
import TradingEngine.Core.Proofs.LZ4Read
import TradingEngine.Core.Proofs.LZ4
import TradingEngine.Lib.Record
import TradingEngine.Lib.Binary64
import TradingEngine.Lib.Codec
import TradingEngine.OE.BOE20Wire
import TradingEngine.OE.BOE20Exchange
import TradingEngine.OE.BOE20Numbers
import TradingEngine.OE.FileBlotter
import TradingEngine.OE.Proofs.BOE20Wire
import TradingEngine.OE.Proofs.BOE20OrderWire
import TradingEngine.OE.Proofs.BOE20Numbers
import TradingEngine.OE.Proofs.FileBlotter
import TradingEngine.OE.Proofs.TornLog
import TradingEngine.Core.Config
import TradingEngine.Core.Proofs.Config
import TradingEngine.Core.Pcap
import TradingEngine.Net.Pcap
import TradingEngine.Net.Proofs.Pcap
import TradingEngine.Net.Proofs.Capture
import TradingEngine.TS.L1EquitiesStrategy
import TradingEngine.TS.Proofs.L1EquitiesStrategy
import TradingEngine.TS.Proofs.NBBOFeed
import TradingEngine.Apps.SeqnumFeed
import TradingEngine.Apps.Proofs.SeqnumFeed
