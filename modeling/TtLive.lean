import TtLive.Prog
import TtLive.ProgLogic
import TtLive.Threads
import TtLive.Window
import TtLive.WebDefaults
import TtLive.Events
import TtLive.Dedup
import TtLive.EventParser
import TtLive.EventFrame
import TtLive.WsClient
import TtLive.Reassembly
import TtLive.Actions
import TtLive.Client
import TtLive.GiftTotals
import TtLive.World
import TtLive.Invariance
import TtLive.Cursor
import TtLive.PollLoop
import TtLive.ResumePosition
import TtLive.Coverage
import TtLive.Stopping
import TtLive.Emission
import TtLive.EventTrace
import TtLive.LockedSections
import TtLive.Exclusion
import TtLive.DispatchOrder
import TtLive.HandshakeHeaders
import TtLive.ReconnectLoop
import TtLive.Lifetime
import TtLive.OutgoingFrames
import TtLive.LiveEndReport
import TtLive.StaleMembers
import TtLive.RenewedClient
import TtLive.SecondRun
import TtLive.StreamDecoder
import TtLive.Gunzip
import TtLive.PayloadEncoding
import TtLive.JavaScript
import TtLive.FakeDom
import TtLive.SignerCookies
import TtLive.JsLexer
import TtLive.Utf8
import TtLive.QuotedScripts
import TtLive.Urlencoded
import TtLive.QueryEncoding
import TtLive.Search
import TtLive.SignedUrl
import TtLive.Json
import TtLive.JsonScan
import TtLive.RoomId
import TtLive.JsonString
import TtLive.JsonDocument
import TtLive.DocScan
import TtLive.BraceScan
import TtLive.DocFields
import TtLive.JsonUnescape
import TtLive.GiftList
import TtLive.GiftWalk
import TtLive.GiftIcon
import TtLive.PageFetch
import TtLive.GiftFields
import TtLive.RoomInfo
import TtLive.StreamUrls
import TtLive.NeedleScan
import TtLive.CookieStrings
import TtLive.UserName
import TtLive.DomCodecs
import TtLive.Int32Bits
import TtLive.Base64
import TtLive.Base64Shim
import TtLive.Utf16
import TtLive.TextCodec
import TtLive.TimerQueue
import TtLive.TimerSafety
import TtLive.OrdinaryObject
import TtLive.FakeWindow
import TtLive.WindowStore
import TtLive.IntFields
import TtLive.Callbacks
import TtLive.EventTargets
import TtLive.DispatchTrace
import TtLive.DispatchReturns
import TtLive.ObjectHistory
import TtLive.WebStorage
import TtLive.Proto3
import TtLive.GenProto
import TtLive.GenProtoRead
import TtLive.TypeReferences
import TtLive.Ledger
import TtLive.WsHandles
import TtLive.SignerEngine
import TtLive.SignerStart
import TtLive.DynArrays
import TtLive.Handlers
import TtLive.OrderedForest
import TtLive.FakeElements
import TtLive.ResponseHeaders
import TtLive.Waiting
import TtLive.Progress
import TtLive.RaceFreedom
