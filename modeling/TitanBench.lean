import TitanBench.ArgsCommand
import TitanBench.ArgsSpelling
import TitanBench.ArgsRequest
import TitanBench.CommandQueueOrder
import TitanBench.EngineBytes
import TitanBench.EngineDeadEnd
import TitanBench.EngineDelivery
import TitanBench.EngineKeepAlive
import TitanBench.EngineClients
import TitanBench.EngineConnections
import TitanBench.EngineRate
import TitanBench.EngineProgress
import TitanBench.EngineNetwork
import TitanBench.EngineReceived
import TitanBench.NetworkRequests
import TitanBench.EngineParser
import TitanBench.EngineQuota
import TitanBench.EngineHttps
import TitanBench.EngineStop
import TitanBench.EngineSegmentation
import TitanBench.EngineStats
import TitanBench.EngineSuccess
import TitanBench.EngineSync
import TitanBench.EngineVerdict
import TitanBench.EngineWire
import TitanBench.EngineBackoff
import TitanBench.HttpChunking
import TitanBench.HttpEmptyHead
import TitanBench.HttpFraming
import TitanBench.HttpInvariant
import TitanBench.HttpRequest
import TitanBench.HttpStatus
import TitanBench.NetworkAccess
import TitanBench.NetworkBatch
import TitanBench.NetworkDescriptors
import TitanBench.NetworkForfeit
import TitanBench.NetworkProtocol
import TitanBench.NetworkStream
import TitanBench.NetworkSubmit
import TitanBench.NetworkTimeouts
import TitanBench.NetworkUdp
import TitanBench.NetworkUnread
import TitanBench.NetworkWakeup
import TitanBench.RateToken
import TitanBench.SslCalls
import TitanBench.SslConnect
import TitanBench.SslLifetime
import TitanBench.StatsPercentile
import TitanBench.StatsCatchUp
import TitanBench.StatsQps
import TitanBench.Watchdog
