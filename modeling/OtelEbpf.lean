import OtelEbpf.Lib.Word
import OtelEbpf.Lib.Run
import OtelEbpf.Lib.Bytes
import OtelEbpf.Lib.Heap
import OtelEbpf.Lib.Serial
import OtelEbpf.Platform
import OtelEbpf.ElementQueue.Basic
import OtelEbpf.ElementQueue.Spsc
import OtelEbpf.PerfRing.Basic
import OtelEbpf.PerfRing.Records
import OtelEbpf.PerfRing.Layout
import OtelEbpf.PerfReader.Basic
import OtelEbpf.PerfReader.Merge
import OtelEbpf.DataChannel.Submit
import OtelEbpf.DataChannel.Handler
import OtelEbpf.DataChannel.RoundTrip
import OtelEbpf.Ingest.Lz4
import OtelEbpf.Ingest.Worker
import OtelEbpf.Ingest.Stall
import OtelEbpf.Reducer.VirtualClock
import OtelEbpf.Reducer.Core
import OtelEbpf.Reducer.ClockWindow
import OtelEbpf.Util.PoolAllocator
import OtelEbpf.Lib.Bits
import OtelEbpf.Lib.Blocks
import OtelEbpf.Util.IterableBitmap
import OtelEbpf.Util.BitmapIterator
import OtelEbpf.Channel.BufferedWriter
import OtelEbpf.Lib.Drain
import OtelEbpf.Reducer.PrometheusHandler
import OtelEbpf.Dns.Name
import OtelEbpf.Dns.Parse
import OtelEbpf.TcpProcessor.Http
import OtelEbpf.Util.Gauge
import OtelEbpf.Reducer.FlowUpdater
import OtelEbpf.Collector.NatHandler
import OtelEbpf.Util.CGroupParser
import OtelEbpf.Collector.DnsRequests
import OtelEbpf.Util.TDigest
import OtelEbpf.Lib.Chain
import OtelEbpf.Util.MetricStore
import OtelEbpf.Reducer.PrometheusFormatter
import OtelEbpf.Reducer.JsonFormatter
import OtelEbpf.Lib.TailCall
import OtelEbpf.TcpProcessor.SendRecv
import OtelEbpf.Container.FixedHash
import OtelEbpf.Container.LRU
import OtelEbpf.Reducer.DnsCache
import OtelEbpf.Collector.TcpSockets
import OtelEbpf.Collector.UdpSockets
