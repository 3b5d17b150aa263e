import Pweb.Foundation.Tokens
import Pweb.Foundation.Runs
import Pweb.Foundation.CircularBuffer
import Pweb.Shared.ProtocolHelper
import Pweb.Dnsgw.CodecRoundTrip
import Pweb.Dnsgw.QuestionEcho
import Pweb.Dnsgw.Answerable
import Pweb.Dnsgw.ReplySenderRuns
import Pweb.Dnsgw.ReplyMatching
import Pweb.Dnsgw.DuplicateIds
import Pweb.Dnsgw.ParserRejection
import Pweb.Dnsgw.TcpFraming
import Pweb.Dnsgw.GetAgreement
import Pweb.Dnsgw.ReplyReaderSafety
import Pweb.Dnsgw.ReplyAgreement
import Pweb.Crawler.Framing
import Pweb.Crawler.DyingPollers
import Pweb.Crawler.Discovery
import Pweb.Crawler.CrawlSafety
import Pweb.Crawler.CrawlCompleteness
import Pweb.Crawler.CrawlProgress
import Pweb.Foundation.Combinations
import Pweb.Klink.GolayDecoder
import Pweb.Klink.OverlayProgress
import Pweb.Klink.OverlayAnswers
import Pweb.Klink.OverlayClients
import Pweb.Klink.OverlayDefined
import Pweb.Klink.OverlayAnnouncements
import Pweb.Crawler.PollerConnection
import Pweb.Crawler.LoadBalance
import Pweb.Dnsgw.NameLimit
import Pweb.Dnsgw.AnswerSection
import Pweb.Klink.LruCache
import Pweb.Crawler.DeviceIndex
import Pweb.Crawler.ContentIndex
import Pweb.Crawler.IncrementalPolling
import Pweb.Klink.OverlayLookup
import Pweb.Dnsgw.SuffixRemoval
import Pweb.Dnsgw.QueryHandOff
import Pweb.Dnsgw.Instrumenter
import Pweb.Dnsgw.HaLoadBalancer
import Pweb.Crawler.Instrumentation
import Pweb.Foundation.ByteLayout
import Pweb.Klink.MessageClasses
import Pweb.Klink.MessageRoundTrip
import Pweb.Klink.MessageBounds
import Pweb.Crawler.TagInjection
import Pweb.Crawler.ParserRoundTrip
import Pweb.Foundation.WhileLoop
import Pweb.Foundation.SearchTree
import Pweb.TestClient.TokenCounter
import Pweb.TestClient.HaChecker
import Pweb.TestClient.HaRegister
import Pweb.Klink.CacheScan
import Pweb.Klink.PeerInitMessage
import Pweb.Klink.QueryStringParser
import Pweb.Klink.HostAddressOrder
