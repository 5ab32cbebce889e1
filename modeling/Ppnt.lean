import Ppnt.ForStd.Bits
import Ppnt.ForStd.Bytes
import Ppnt.ForStd.Calls
import Ppnt.ForStd.Chain
import Ppnt.ForStd.KeyedList
import Ppnt.ForStd.OrderedMap
import Ppnt.ForStd.Pipe
import Ppnt.ForStd.Places
import Ppnt.ForStd.PriorityQueue
import Ppnt.ForStd.Run
import Ppnt.ForStd.Simulation
import Ppnt.ForStd.Spans
import Ppnt.ForStd.Store
import Ppnt.ForStd.TaggedPtr
import Ppnt.ForStd.Wire
import Ppnt.Native.Accept
import Ppnt.Native.Base64
import Ppnt.Native.BinaryUtil
import Ppnt.Native.ClientHello
import Ppnt.Native.Driver
import Ppnt.Native.Err
import Ppnt.Native.EventLoop
import Ppnt.Native.HeaderList
import Ppnt.Native.Http1
import Ppnt.Native.Http2
import Ppnt.Native.Http2Driver
import Ppnt.Native.Http2Writer
import Ppnt.Native.HttpClient
import Ppnt.Native.HttpExchange
import Ppnt.Native.HttpRequest
import Ppnt.Native.HttpWrite
import Ppnt.Native.IoResult
import Ppnt.Native.IoSystem
import Ppnt.Native.Llhttp
import Ppnt.Native.RequestPipeline
import Ppnt.Native.RingPost
import Ppnt.Native.RoutedClient
import Ppnt.Native.RunInPool
import Ppnt.Native.Runtime
import Ppnt.Native.SessionConnect
import Ppnt.Native.SessionKey
import Ppnt.Native.Task
import Ppnt.Native.Timeout
import Ppnt.Native.TlsStream
import Ppnt.Native.Url
import Ppnt.Native.Util
import Ppnt.Native.WiredClient
import Ppnt.Spec.AcceptServed
import Ppnt.Spec.Base64
import Ppnt.Spec.Base64Correct
import Ppnt.Spec.Base64RoundTrip
import Ppnt.Spec.BinaryRoundTrip
import Ppnt.Spec.BinaryUtilCorrect
import Ppnt.Spec.BlockOn
import Ppnt.Spec.BodyIsolation
import Ppnt.Spec.BufferConservation
import Ppnt.Spec.BufferInvariant
import Ppnt.Spec.ClientHello
import Ppnt.Spec.ClientHelloCorrect
import Ppnt.Spec.ClientHelloGrammar
import Ppnt.Spec.ClientHelloLengths
import Ppnt.Spec.ClientHelloMerge
import Ppnt.Spec.ClientRefs
import Ppnt.Spec.ClientSockets
import Ppnt.Spec.ClientSteps
import Ppnt.Spec.DotSegments
import Ppnt.Spec.DriverInvariant
import Ppnt.Spec.HeaderFields
import Ppnt.Spec.Http1Bodiless
import Ppnt.Spec.Http1ClientCorrect
import Ppnt.Spec.Http1Feed
import Ppnt.Spec.Http1Grammar
import Ppnt.Spec.Http1Incomplete
import Ppnt.Spec.Http1Persistence
import Ppnt.Spec.Http1ReadLoop
import Ppnt.Spec.Http1ServerCorrect
import Ppnt.Spec.Http1Session
import Ppnt.Spec.Http1Syntax
import Ppnt.Spec.Http1Wire
import Ppnt.Spec.Http2Bodies
import Ppnt.Spec.Http2Data
import Ppnt.Spec.Http2Events
import Ppnt.Spec.Http2FrameOrder
import Ppnt.Spec.Http2Invariant
import Ppnt.Spec.Http2Lifetime
import Ppnt.Spec.Http2Projection
import Ppnt.Spec.Http2Wakeup
import Ppnt.Spec.IoProgress
import Ppnt.Spec.IoStep
import Ppnt.Spec.IoWaits
import Ppnt.Spec.LinkedTimeout
import Ppnt.Spec.PoolH2
import Ppnt.Spec.PoolLease
import Ppnt.Spec.PoolResults
import Ppnt.Spec.PoolReuse
import Ppnt.Spec.PoolRoutes
import Ppnt.Spec.PoolSockets
import Ppnt.Spec.PostWakeup
import Ppnt.Spec.ReaderBounds
import Ppnt.Spec.RemoveDotSegments
import Ppnt.Spec.RequestAuthority
import Ppnt.Spec.RequestEncoding
import Ppnt.Spec.RequestGrammar
import Ppnt.Spec.RequestTimeouts
import Ppnt.Spec.RunUntilEmpty
import Ppnt.Spec.SessionPool
import Ppnt.Spec.SessionRoute
import Ppnt.Spec.ShortWrites
import Ppnt.Spec.TaskOwnership
import Ppnt.Spec.TaskResults
import Ppnt.Spec.TaskStep
import Ppnt.Spec.TickTermination
import Ppnt.Spec.TimerDeadlines
import Ppnt.Spec.TimerInvariant
import Ppnt.Spec.TimerOrder
import Ppnt.Spec.TimerSteps
import Ppnt.Spec.TimerStore
import Ppnt.Spec.TlsOutput
import Ppnt.Spec.TunnelRequest
import Ppnt.Spec.UrlPorts
import Ppnt.Spec.UrlResolve
import Ppnt.Spec.UrlRoundTrip
import Ppnt.Spec.UrlSyntax
import Ppnt.Spec.UtilCorrect
