import Mathlib
import OtelEbpf.Container.FixedHash
import OtelEbpf.Util.MetricStore
import OtelEbpf.Lib.Session

/-!
# The TCP socket table of the collector

`BufferedPoller` (`collector/kernel/buffered_poller.cc`) tracks the TCP sockets the kernel
reports in `tcp_socket_table_`, a `FixedHash` from the socket's `sk` to its last observed
counters (`tcp_socket_entry`), and `tcp_index_to_sk_` gives the `sk` of every element.  Per
element and epoch, `tcp_socket_stats_`, a `MetricStore` of `n_epochs = 2` epochs, accumulates
the counters' differences (`tcp_statistics`) and queues the elements that changed.  The
handlers write to the reducer through `writer_`:

* `handle_new_socket` inserts the socket and writes `new_sock_info`; a full table drops it,
  a duplicate is logged;
* `handle_set_state_ipv4` and `handle_set_state_ipv6` write the state of a socket in the
  table;
* `handle_close_socket` sends the socket's valid statistics of each epoch, erases it and writes
  `close_sock_info`; it throws if the erase fails;
* `handle_rtt_estimator` takes the differences of the counters (a negative one, read as a
  signed number, counts as zero), stores the new counters, and adds the differences to the
  statistics of the current epoch;
* `handle_reset_tcp_counters` writes `new_sock_info` first, and then inserts the socket with
  the counters;
* at the end of a poll in a new timeslot, `send_stats_from_queue` sends the valid statistics of
  the elements of the current queue under `tcp_index_to_sk_`, and advances the store.

The `MetricStore` is `OtelEbpf.Util.MetricStore`, which models its queues; the metrics
`arr_[index].m[epoch]` are the field `tcpStats` here.  The `while` loop over a queue runs on
fuel, which is shown to suffice.  A failed `assert` and the exception of `handle_close_socket`
are errors.  Debug logs, the calls into `nat_handler_` and `tcp_data_handler_`, and the UDP
table are left out.

What the reducer expects of the stream is `Session.Follows` (`OtelEbpf.Lib.Session`) over
`Telemetry.sk` and `Telemetry.phase`: per socket, `new_sock_info` and `close_sock_info`
alternate, and the other messages come while it is open.  What the table should track is the
bounded set `tracked`.

* `Inv p S` : the table tracks `S` and holds its keys' entries, `tcp_index_to_sk_` inverts it,
  the store's queues hold lists, and valid statistics belong to an element in use and are
  queued in their epoch;
* `call_spec` : every event returns and keeps `Inv`, and every event but `reset_tcp_counters`
  keeps the stream in order;
* `tracked_of_run` : from a new poller every run returns, and the table tracks `tracked`;
* `telemetry_of_run` : without `reset_tcp_counters` the stream is in order, and the sockets it
  leaves open are those tracked;
* `reset_reopens_tracked`, `reset_full_table_untracked` : `reset_tcp_counters` writes
  `new_sock_info` before it looks at the table, for a socket already open, and for a socket a
  full table then drops, whose `close_sock_info` writes nothing;
* `stats_of_poll`, `close_flushes_stats` : the end of a poll in a new timeslot sends every valid
  statistic of the epoch once, under a tracked socket, and closing a socket sends its valid
  statistics before `close_sock_info` and leaves none behind.
-/

namespace OtelEbpf

namespace Collector

open Container Refinement Bytes

/-- `struct tcp_socket_entry`: the counters of a socket last observed. -/
structure TcpSocketEntry where
  bytesAcked : UInt64
  packetsDelivered : UInt32
  packetsRetrans : UInt32
  bytesReceived : UInt64
  rcvHoles : UInt32
  rcvDelivered : UInt32
  deriving DecidableEq, Repr

/-- The `tcp_socket_entry` a new socket gets: all counters zero. -/
def TcpSocketEntry.zero : TcpSocketEntry := ⟨0, 0, 0, 0, 0, 0⟩

/-- The 32 bytes of a `tcp_socket_entry`: its fields in order, little-endian, without
padding. -/
def TcpSocketEntry.bytes (e : TcpSocketEntry) : List UInt8 :=
  leBytes 8 e.bytesAcked.toNat ++ leBytes 4 e.packetsDelivered.toNat ++
    leBytes 4 e.packetsRetrans.toNat ++ leBytes 8 e.bytesReceived.toNat ++
    leBytes 4 e.rcvHoles.toNat ++ leBytes 4 e.rcvDelivered.toNat

theorem TcpSocketEntry.length_bytes (e : TcpSocketEntry) : e.bytes.length = 32 := by
  simp [bytes]

/-- `struct tcp_statistics`: the differences accumulated in an epoch, and whether they are
valid. -/
structure TcpStatistics where
  diffBytesAcked : UInt64
  diffDelivered : UInt32
  diffRetrans : UInt32
  maxSrtt : UInt32
  diffRcvHoles : UInt32
  diffBytesReceived : UInt64
  diffRcvDelivered : UInt32
  maxRcvRtt : UInt32
  valid : Bool
  deriving DecidableEq, Repr

/-- The `tcp_statistics` the store constructs: all zero, not valid. -/
def TcpStatistics.zero : TcpStatistics := ⟨0, 0, 0, 0, 0, 0, 0, 0, false⟩

/-- `jb_agent_internal__rtt_estimator`, the fields the handler reads. -/
structure RttEstimator where
  srtt : UInt32
  bytesAcked : UInt64
  sk : UInt64
  packetsDelivered : UInt32
  packetsRetrans : UInt32
  rcvHoles : UInt32
  bytesReceived : UInt64
  rcvDelivered : UInt32
  rcvRtt : UInt32
  deriving DecidableEq, Repr

/-- The counters of an estimate, as the entry stores them for next time. -/
def RttEstimator.entry (msg : RttEstimator) : TcpSocketEntry :=
  ⟨msg.bytesAcked, msg.packetsDelivered, msg.packetsRetrans, msg.bytesReceived, msg.rcvHoles,
    msg.rcvDelivered⟩

/-- `jb_agent_internal__reset_tcp_counters`. -/
structure ResetTcpCounters where
  sk : UInt64
  bytesAcked : UInt64
  packetsDelivered : UInt32
  packetsRetrans : UInt32
  bytesReceived : UInt64
  pid : UInt32
  deriving DecidableEq, Repr

/-- A message `writer_` sends to the reducer, with its timestamp. -/
inductive Telemetry
  | newSockInfo (t : UInt64) (pid : UInt32) (sk : UInt64)
  | setStateIpv4 (t : UInt64) (dest src : UInt32) (dport sport : UInt16) (sk : UInt64)
      (txRx : UInt32)
  | setStateIpv6 (t : UInt64) (dest src : List UInt8) (dport sport : UInt16) (sk : UInt64)
      (txRx : UInt32)
  | closeSockInfo (t sk : UInt64)
  | socketStats (t sk diffBytes : UInt64) (diffDelivered diffRetrans maxSrtt : UInt32)
      (isRx : UInt8)
  deriving DecidableEq, Repr

/-- The handlers that log. -/
inductive TcpHandler
  | handleNewSocket
  | handleSetStateIpv4
  | handleSetStateIpv6
  | handleResetTcpCounters
  deriving DecidableEq, Repr

/-- A line `log_` writes: `"<handler>: tcp socket table is full! dropping socket"`,
`"<handler>: duplicate tcp socket sk=… pid=…"`, `"<handler>: socket not tracked sk=…"` and
`"handle_close_socket: socket not found sk=…"`. -/
inductive LogLine
  | tableFull (handler : TcpHandler)
  | duplicate (handler : TcpHandler) (sk : UInt64) (pid : UInt32)
  | notTracked (handler : TcpHandler) (sk : UInt64)
  | notFound (sk : UInt64)
  deriving DecidableEq, Repr

/-- A kernel event the poller hands to a TCP handler, or the end of a poll at time `t`, or
`set_all_probes_loaded()`. -/
inductive TcpEvent
  | newSockCreated (t : UInt64) (pid : UInt32) (sk : UInt64)
  | setStateIpv4 (t : UInt64) (dest src : UInt32) (dport sport : UInt16) (sk : UInt64)
      (txRx : UInt32)
  | setStateIpv6 (t : UInt64) (dest src : List UInt8) (dport sport : UInt16) (sk : UInt64)
      (txRx : UInt32)
  | closeSockInfo (t sk : UInt64)
  | rttEstimator (t : UInt64) (msg : RttEstimator)
  | resetTcpCounters (t : UInt64) (msg : ResetTcpCounters)
  | endOfPoll (t : UInt64)
  | allProbesLoaded
  deriving DecidableEq, Repr

/-- `n_epochs`. -/
def nEpochs : ℕ := 2

/-- What of a `BufferedPoller` its TCP handlers use. -/
structure BufferedPoller where
  tcpSocketTable : FixedHash UInt64 TcpSocketEntry
  tcpSocketTableEverFull : Bool
  allProbesLoaded : Bool
  tcpIndexToSk : ℕ → UInt64
  /-- the queues of `tcp_socket_stats_` -/
  tcpSocketStats : Util.MetricStore
  /-- the metrics of `tcp_socket_stats_`: `arr_[index].m[epoch]` -/
  tcpStats : ℕ → ℕ → TcpStatistics
  writer : List Telemetry
  log : List LogLine

/-- The difference of two readings of a `u64` counter, zero when it is negative as an `s64`. -/
def diff64 (now before : UInt64) : UInt64 :=
  if (now - before).toInt64 < 0 then 0 else now - before

/-- The difference of two readings of a `u32` counter, zero when it is negative as an `s32`. -/
def diff32 (now before : UInt32) : UInt32 :=
  if (now - before).toInt32 < 0 then 0 else now - before

/-- The metric of `index` in `epoch` set to `v`. -/
def setStats (f : ℕ → ℕ → TcpStatistics) (index epoch : ℕ) (v : TcpStatistics) :
    ℕ → ℕ → TcpStatistics :=
  fun i e => if i = index ∧ e = epoch then v else f i e

/-- The messages `send_socket_stats` writes for `stats`: the sent direction (`is_rx = 0`) when
bytes were acked or packets retransmitted, and the received direction (`is_rx = 1`) when bytes
were received or holes seen. -/
def statsMessages (t sk : UInt64) (stats : TcpStatistics) : List Telemetry :=
  (if stats.diffBytesAcked > 0 ∨ stats.diffRetrans > 0 then
    [.socketStats t sk stats.diffBytesAcked stats.diffDelivered stats.diffRetrans stats.maxSrtt 0]
    else []) ++
  (if stats.diffBytesReceived > 0 ∨ stats.diffRcvHoles > 0 then
    [.socketStats t sk stats.diffBytesReceived stats.diffRcvDelivered stats.diffRcvHoles
      stats.maxRcvRtt 1]
    else [])

namespace BufferedPoller

variable (SIZE : ℕ) (repr : TcpSocketEntry → List UInt8)

/-- Whether a handler logs a socket it does not find:
`!tcp_socket_table_ever_full_ && all_probes_loaded_`. -/
def logsMissing (p : BufferedPoller) : Bool := !p.tcpSocketTableEverFull && p.allProbesLoaded

/-- `handle_new_socket`. -/
def handleNewSocket (p : BufferedPoller) (t : UInt64) (pid : UInt32) (sk : UInt64) :
    BufferedPoller :=
  if p.tcpSocketTable.full SIZE then
    { p with
      log := p.log ++ [.tableFull .handleNewSocket]
      tcpSocketTableEverFull := true }
  else
    let pos := p.tcpSocketTable.insert SIZE repr sk .zero
    if pos.1.index ≠ invalid SIZE then
      { p with
        tcpSocketTable := pos.2
        tcpIndexToSk := Function.update p.tcpIndexToSk pos.1.index sk
        writer := p.writer ++ [.newSockInfo t pid sk] }
    else
      { p with
        tcpSocketTable := pos.2
        log := p.log ++ [.duplicate .handleNewSocket sk pid] }

/-- `handle_set_state_ipv4` and `handle_set_state_ipv6`: the message `m` about `sk` is written
when the socket is in the table.  `find` forms the position with `operator[]`, whose assertion
fails for an element not allocated. -/
def handleSetState (handler : TcpHandler) (p : BufferedPoller) (sk : UInt64) (m : Telemetry) :
    Except String BufferedPoller :=
  let pos := p.tcpSocketTable.find SIZE sk
  if pos.index = invalid SIZE then
    .ok (if p.logsMissing then { p with log := p.log ++ [.notTracked handler sk] } else p)
  else
    match pos.entry with
    | none => .error "assert"
    | some _ => .ok { p with writer := p.writer ++ [m] }

/-- `handle_set_state_ipv4`. -/
def handleSetStateIpv4 (p : BufferedPoller) (t : UInt64) (dest src : UInt32)
    (dport sport : UInt16) (sk : UInt64) (txRx : UInt32) : Except String BufferedPoller :=
  p.handleSetState SIZE .handleSetStateIpv4 sk (.setStateIpv4 t dest src dport sport sk txRx)

/-- `handle_set_state_ipv6`. -/
def handleSetStateIpv6 (p : BufferedPoller) (t : UInt64) (dest src : List UInt8)
    (dport sport : UInt16) (sk : UInt64) (txRx : UInt32) : Except String BufferedPoller :=
  p.handleSetState SIZE .handleSetStateIpv6 sk (.setStateIpv6 t dest src dport sport sk txRx)

/-- `send_socket_stats(t, sk, stats)` for the statistics of `index` in `epoch`: the messages of
`statsMessages`, and the statistics become invalid. -/
def sendSocketStats (p : BufferedPoller) (t sk : UInt64) (index epoch : ℕ) : BufferedPoller :=
  let stats := p.tcpStats index epoch
  { p with
    writer := p.writer ++ statsMessages t sk stats
    tcpStats := setStats p.tcpStats index epoch { stats with valid := false } }

/-- `if (stats.valid) send_socket_stats(t, sk, stats)`. -/
def sendIfValid (p : BufferedPoller) (t sk : UInt64) (index epoch : ℕ) : BufferedPoller :=
  if (p.tcpStats index epoch).valid then p.sendSocketStats t sk index epoch else p

/-- The statistics loop of `handle_close_socket` over the epochs: the statistics of the
socket's element in each, `lookup_relative(index, epoch, false)`, sent when valid. -/
def sendEpochStats (t sk : UInt64) (index : ℕ) :
    List ℕ → BufferedPoller → Except String BufferedPoller
  | [], p => .ok p
  | epoch :: epochs, p =>
    match p.tcpSocketStats.lookupRelative SIZE nEpochs (UInt32.ofNat index)
        (UInt32.ofNat epoch) false with
    | none => .error "assert"
    | some ((_, e), store) =>
      let p := { p with tcpSocketStats := store }
      sendEpochStats t sk index epochs (p.sendIfValid t sk index e)

/-- `handle_close_socket`; `none` for the entry of the position fails the assertion of
`operator[]` in `find`. -/
def handleCloseSocket (p : BufferedPoller) (t sk : UInt64) : Except String BufferedPoller :=
  let pos := p.tcpSocketTable.find SIZE sk
  if pos.index = invalid SIZE then
    .ok (if p.logsMissing then { p with log := p.log ++ [.notFound sk] } else p)
  else if pos.entry.isNone then .error "assert"
  else do
    let p ← sendEpochStats SIZE t sk pos.index (List.range nEpochs) p
    let r := p.tcpSocketTable.erase SIZE sk
    if r.1 then .ok { p with tcpSocketTable := r.2, writer := p.writer ++ [.closeSockInfo t sk] }
    else .error ("handle_close_socket: removing socket from table failed sk=" ++
      String.ofList (Nat.toDigits 16 sk.toNat))

/-- The statistics after an estimate: reset to the differences when not valid, else
accumulated, the round-trip times their maximum. -/
def accumulate (stats : TcpStatistics) (msg : RttEstimator) (entry : TcpSocketEntry) :
    TcpStatistics :=
  let diffBytesAcked := diff64 msg.bytesAcked entry.bytesAcked
  let diffDelivered := diff32 msg.packetsDelivered entry.packetsDelivered
  let diffRetrans := diff32 msg.packetsRetrans entry.packetsRetrans
  let diffBytesReceived := diff64 msg.bytesReceived entry.bytesReceived
  let diffRcvHoles := diff32 msg.rcvHoles entry.rcvHoles
  let diffRcvDelivered := diff32 msg.rcvDelivered entry.rcvDelivered
  if !stats.valid then
    ⟨diffBytesAcked, diffDelivered, diffRetrans, msg.srtt, diffRcvHoles, diffBytesReceived,
      diffRcvDelivered, msg.rcvRtt, true⟩
  else
    ⟨stats.diffBytesAcked + diffBytesAcked, stats.diffDelivered + diffDelivered,
      stats.diffRetrans + diffRetrans, max stats.maxSrtt msg.srtt,
      stats.diffRcvHoles + diffRcvHoles, stats.diffBytesReceived + diffBytesReceived,
      stats.diffRcvDelivered + diffRcvDelivered, max stats.maxRcvRtt msg.rcvRtt, true⟩

/-- `handle_rtt_estimator`. -/
def handleRttEstimator (p : BufferedPoller) (t : UInt64) (msg : RttEstimator) :
    Except String BufferedPoller :=
  let pos := p.tcpSocketTable.find SIZE msg.sk
  if pos.index = invalid SIZE then .ok p
  else
    match pos.entry with
    | none => .error "assert"
    | some entry =>
      -- the entry is updated through the position's pointer
      let table : FixedHash UInt64 TcpSocketEntry :=
        ⟨p.tcpSocketTable.map, p.tcpSocketTable.pool.set repr pos.index msg.entry⟩
      match p.tcpSocketStats.lookup SIZE nEpochs (UInt32.ofNat pos.index) t true with
      | none => .error "assert"
      | some ((_, e), store) =>
        .ok { p with
          tcpSocketTable := table
          tcpSocketStats := store
          tcpStats := setStats p.tcpStats pos.index e
            (accumulate (p.tcpStats pos.index e) msg entry) }

/-- `handle_reset_tcp_counters`: `new_sock_info` is written first. -/
def handleResetTcpCounters (p : BufferedPoller) (t : UInt64) (msg : ResetTcpCounters) :
    Except String BufferedPoller :=
  let p : BufferedPoller := { p with writer := p.writer ++ [.newSockInfo t msg.pid msg.sk] }
  if p.tcpSocketTable.full SIZE then
    .ok { p with
      log := p.log ++ [.tableFull .handleResetTcpCounters]
      tcpSocketTableEverFull := true }
  else
    let pos := p.tcpSocketTable.insert SIZE repr msg.sk .zero
    if pos.1.index ≠ invalid SIZE then
      match pos.1.entry with
      | none => .error "assert"
      | some entry =>
        let entry := { entry with
          bytesAcked := msg.bytesAcked
          packetsDelivered := msg.packetsDelivered
          packetsRetrans := msg.packetsRetrans
          bytesReceived := msg.bytesReceived }
        .ok { p with
          tcpSocketTable := ⟨pos.2.map, pos.2.pool.set repr pos.1.index entry⟩
          tcpIndexToSk := Function.update p.tcpIndexToSk pos.1.index msg.sk }
    else
      .ok { p with
        tcpSocketTable := pos.2
        log := p.log ++ [.duplicate .handleResetTcpCounters msg.sk msg.pid] }

/-- The `while (!queue.empty())` loop of `send_stats_from_queue`, on fuel: each element of the
current queue has its valid statistics of the current epoch sent under `tcp_index_to_sk_`, and
leaves the queue. -/
def drainQueue (t : UInt64) : ℕ → BufferedPoller → Except String BufferedPoller
  | 0, _ => .error "fuel"
  | fuel + 1, p =>
    match p.tcpSocketStats.peek SIZE nEpochs with
    | none => .ok p
    | some index =>
      match p.tcpSocketStats.lookupRelative SIZE nEpochs (UInt32.ofNat index) 0 false with
      | none => .error "assert"
      | some ((_, e), store) =>
        let p := { p with tcpSocketStats := store }
        let p := p.sendIfValid t (p.tcpIndexToSk index) index e
        match p.tcpSocketStats.pop SIZE nEpochs with
        | none => .error "assert"
        | some store => drainQueue t fuel { p with tcpSocketStats := store }

/-- `send_stats_from_queue(t)`: nothing in the current timeslot; else the current queue is
drained, its `SIZE` elements at most, and the store advances. -/
def sendStatsFromQueue (p : BufferedPoller) (t : UInt64) : Except String BufferedPoller :=
  let r := p.tcpSocketStats.relativeTimeslot t
  let p := { p with tcpSocketStats := r.2 }
  if r.1 = 0 then .ok p
  else do
    let p ← drainQueue SIZE t (SIZE + 1) p
    .ok { p with tcpSocketStats := p.tcpSocketStats.advance nEpochs }

/-- The end of a poll: the statistics are sent when the timeslot moved on. -/
def endOfPoll (p : BufferedPoller) (t : UInt64) : Except String BufferedPoller :=
  let r := p.tcpSocketStats.relativeTimeslot t
  let p := { p with tcpSocketStats := r.2 }
  if r.1 ≠ 0 then p.sendStatsFromQueue SIZE t else .ok p

/-- The poller after an event. -/
def call (p : BufferedPoller) : TcpEvent → Except String BufferedPoller
  | .newSockCreated t pid sk => .ok (p.handleNewSocket SIZE repr t pid sk)
  | .setStateIpv4 t dest src dport sport sk txRx =>
    p.handleSetStateIpv4 SIZE t dest src dport sport sk txRx
  | .setStateIpv6 t dest src dport sport sk txRx =>
    p.handleSetStateIpv6 SIZE t dest src dport sport sk txRx
  | .closeSockInfo t sk => p.handleCloseSocket SIZE t sk
  | .rttEstimator t msg => p.handleRttEstimator SIZE repr t msg
  | .resetTcpCounters t msg => p.handleResetTcpCounters SIZE repr t msg
  | .endOfPoll t => p.endOfPoll SIZE t
  | .allProbesLoaded => .ok { p with allProbesLoaded := true }

/-- The poller after a sequence of events, or the error that stopped it. -/
def run (p : BufferedPoller) (events : List TcpEvent) : Except String BufferedPoller :=
  events.foldlM (call SIZE repr) p

variable (es : ℕ) in
/-- A new poller: a new table, a new store with the poller's `tslot_`, nothing written. The
array `tcp_index_to_sk_` is left as it was. -/
def Init (p : BufferedPoller) : Prop :=
  p.tcpSocketTable.Init SIZE es ∧ p.tcpSocketTableEverFull = false ∧ p.allProbesLoaded = false ∧
    (∃ tToTimeslot, p.tcpSocketStats = Util.MetricStore.new SIZE tToTimeslot) ∧
    p.tcpStats = (fun _ _ => TcpStatistics.zero) ∧ p.writer = [] ∧ p.log = []

variable (es : ℕ) in
/-- `BufferedPoller(...)`, as far as its TCP handlers go: the table over the storage `mem`, the
store with `tslot`, and `tcp_index_to_sk` as it was. -/
def new (mem : ℕ → UInt8) (tslot : Util.FastDiv) (tcpIndexToSk : ℕ → UInt64) : BufferedPoller :=
  ⟨FixedHash.new SIZE es mem, false, false, tcpIndexToSk, Util.MetricStore.new SIZE tslot,
    fun _ _ => .zero, [], []⟩

variable {SIZE} {es : ℕ} in
theorem init_new (mem : ℕ → UInt8) (tslot : Util.FastDiv) (tcpIndexToSk : ℕ → UInt64)
    (hpos : 0 < SIZE) (hSIZE : SIZE < 2 ^ 32) (hes : 4 ≤ es) (hes' : es < 2 ^ 32) :
    (new SIZE es mem tslot tcpIndexToSk).Init SIZE es :=
  ⟨FixedHash.init_new SIZE es mem hpos hSIZE hes hes', rfl, rfl, ⟨tslot, rfl⟩, rfl, rfl, rfl⟩

end BufferedPoller

/-! ### What the reducer expects -/

/-- The socket a message is about. -/
def Telemetry.sk : Telemetry → UInt64
  | .newSockInfo _ _ sk => sk
  | .setStateIpv4 _ _ _ _ _ sk _ => sk
  | .setStateIpv6 _ _ _ _ _ sk _ => sk
  | .closeSockInfo _ sk => sk
  | .socketStats _ sk _ _ _ _ _ => sk

/-- What a message does to its socket at the reducer: `new_sock_info` opens it,
`close_sock_info` closes it, and every other message is about an open socket. -/
def Telemetry.phase : Telemetry → Session.Phase
  | .newSockInfo .. => .opens
  | .closeSockInfo .. => .closes
  | _ => .uses

/-- Whether an event is a `reset_tcp_counters`. -/
def TcpEvent.resets : TcpEvent → Bool
  | .resetTcpCounters .. => true
  | _ => false

/-- The sockets a table of `SIZE` entries tracks, as a set: a socket that `new_sock_created` or
`reset_tcp_counters` reports joins while there is room, and `close_sock_info` takes one out. -/
def trackedStep (SIZE : ℕ) (S : Finset UInt64) : TcpEvent → Finset UInt64
  | .newSockCreated _ _ sk => if S.card < SIZE then insert sk S else S
  | .closeSockInfo _ sk => S.erase sk
  | .resetTcpCounters _ msg => if S.card < SIZE then insert msg.sk S else S
  | _ => S

/-- The sockets tracked after a sequence of events. -/
def tracked (SIZE : ℕ) (events : List TcpEvent) : Finset UInt64 :=
  events.foldl (trackedStep SIZE) ∅

/-- What `if (stats.valid) send_socket_stats(t, sk, stats)` writes. -/
def sentMessages (t sk : UInt64) (stats : TcpStatistics) : List Telemetry :=
  if stats.valid then statsMessages t sk stats else []

/-- What `handle_close_socket` writes for a socket in element `index`: the valid statistics of
the current epoch and of the next, then `close_sock_info`. -/
def BufferedPoller.closeMessages (p : BufferedPoller) (t sk : UInt64) (index : ℕ) : List Telemetry :=
  sentMessages t sk (p.tcpStats index (p.tcpSocketStats.epoch nEpochs 0)) ++
    sentMessages t sk (p.tcpStats index (p.tcpSocketStats.epoch nEpochs 1)) ++
    [.closeSockInfo t sk]

/-- Statistics are sent only when valid, as uses of their socket. -/
theorem mem_sentMessages {t sk : UInt64} {stats : TcpStatistics} {m : Telemetry}
    (hm : m ∈ sentMessages t sk stats) : stats.valid = true ∧ m.phase = .uses ∧ m.sk = sk := by
  unfold sentMessages statsMessages at hm
  split_ifs at hm <;> simp only [List.mem_append, List.mem_singleton, List.not_mem_nil,
    or_false, false_or] at hm <;> rcases hm with rfl | rfl <;> simp_all [Telemetry.phase, Telemetry.sk]

@[simp] theorem setStats_apply (f : ℕ → ℕ → TcpStatistics) (index epoch : ℕ) (v : TcpStatistics)
    (i e : ℕ) : setStats f index epoch v i e = if i = index ∧ e = epoch then v else f i e := rfl

/-! ### Two epochs -/

section Epochs

variable {s : Util.MetricStore}

theorem currentQueue_cases (h : s.currentQueue.toNat < nEpochs) :
    s.currentQueue.toNat = 0 ∨ s.currentQueue.toNat = 1 := by
  unfold nEpochs at h
  omega

/-- Bin `0` is the current epoch. -/
theorem epoch_zero (h : s.currentQueue.toNat < nEpochs) :
    s.epoch nEpochs 0 = s.currentQueue.toNat := by
  rcases currentQueue_cases h with h0 | h1 <;> simp [Util.MetricStore.epoch, nEpochs, *]

/-- Bin `1` is the other epoch. -/
theorem epoch_one (h : s.currentQueue.toNat < nEpochs) :
    s.epoch nEpochs 1 = 1 - s.currentQueue.toNat := by
  rcases currentQueue_cases h with h0 | h1 <;>
    simp [Util.MetricStore.epoch, UInt32.toNat_add, nEpochs, *]

/-- `advance()` moves to the other epoch. -/
theorem advance_currentQueue (h : s.currentQueue.toNat < nEpochs) :
    (s.advance nEpochs).currentQueue.toNat = (s.currentQueue.toNat + 1) % nEpochs := by
  rcases currentQueue_cases h with h0 | h1 <;>
    simp [Util.MetricStore.advance, UInt32.toNat_add, nEpochs, *]

end Epochs

namespace BufferedPoller

/-! ### What the handlers change -/

variable {SIZE es : ℕ} {repr : TcpSocketEntry → List UInt8} {p p' : BufferedPoller}
  {S : Finset UInt64} {t sk : UInt64} {index epoch : ℕ}

@[simp] theorem sendSocketStats_writer :
    (p.sendSocketStats t sk index epoch).writer =
      p.writer ++ statsMessages t sk (p.tcpStats index epoch) := rfl

@[simp] theorem sendSocketStats_tcpStats :
    (p.sendSocketStats t sk index epoch).tcpStats =
      setStats p.tcpStats index epoch { p.tcpStats index epoch with valid := false } := rfl

@[simp] theorem sendIfValid_tcpSocketTable :
    (p.sendIfValid t sk index epoch).tcpSocketTable = p.tcpSocketTable := by
  unfold sendIfValid
  split <;> rfl

@[simp] theorem sendIfValid_tcpIndexToSk :
    (p.sendIfValid t sk index epoch).tcpIndexToSk = p.tcpIndexToSk := by
  unfold sendIfValid
  split <;> rfl

@[simp] theorem sendIfValid_tcpSocketStats :
    (p.sendIfValid t sk index epoch).tcpSocketStats = p.tcpSocketStats := by
  unfold sendIfValid
  split <;> rfl

theorem sendIfValid_writer :
    (p.sendIfValid t sk index epoch).writer =
      p.writer ++ sentMessages t sk (p.tcpStats index epoch) := by
  unfold sendIfValid sentMessages
  split <;> simp_all

/-- The statistics sent are invalid afterwards, and no other changes. -/
theorem sendIfValid_tcpStats (i e : ℕ) :
    (p.sendIfValid t sk index epoch).tcpStats i e =
      if i = index ∧ e = epoch then { p.tcpStats i e with valid := false } else p.tcpStats i e := by
  unfold sendIfValid
  split
  · simp only [sendSocketStats_tcpStats, setStats_apply]
    split
    · obtain ⟨rfl, rfl⟩ := ‹i = index ∧ e = epoch›
      rfl
    · rfl
  · split
    · obtain ⟨rfl, rfl⟩ := ‹i = index ∧ e = epoch›
      -- the statistics were invalid already
      cases hs : p.tcpStats i e
      simp_all
    · rfl

theorem sendIfValid_valid_of_valid {i e : ℕ}
    (h : ((p.sendIfValid t sk index epoch).tcpStats i e).valid = true) :
    ¬ (i = index ∧ e = epoch) ∧ (p.tcpStats i e).valid = true := by
  rw [sendIfValid_tcpStats] at h
  split at h
  · simp at h
  · exact ⟨‹_›, h⟩

/-! ### The invariant -/

variable (SIZE es repr) in
/-- A poller whose table tracks the sockets `S`: the table holds them, `tcp_index_to_sk_` gives
the socket of each of its elements, the store's queues hold lists, and valid statistics belong
to an element in use and are queued in their epoch. -/
structure Inv (p : BufferedPoller) (S : Finset UInt64) : Prop where
  table : ∃ look, FixedHash.Abs SIZE es repr p.tcpSocketTable look S.card
  tracked : ∀ sk, p.tcpSocketTable.map[sk]? = none ↔ sk ∉ S
  indexToSk : ∀ sk i, p.tcpSocketTable.map[sk]? = some i → p.tcpIndexToSk i = sk
  store : Util.MetricStore.Inv SIZE nEpochs p.tcpSocketStats
  valid : ∀ i e, (p.tcpStats i e).valid = true →
    e < nEpochs ∧ ∃ sk : UInt64, p.tcpSocketTable.map[sk]? = some i
  queued : ∀ i e, (p.tcpStats i e).valid = true → p.tcpSocketStats.next i e ≠ Util.invalid SIZE

namespace Inv

variable (h : Inv SIZE es repr p S)
include h

theorem size_le : SIZE ≤ 2 ^ 30 := by
  obtain ⟨look, habs⟩ := h.table
  exact habs.pool.size_le_two_pow_30

theorem lt_of_map {sk : UInt64} {i : ℕ} (hk : p.tcpSocketTable.map[sk]? = some i) : i < SIZE := by
  obtain ⟨look, habs⟩ := h.table
  exact habs.pool.lt_of_mem (habs.inUse sk i hk)

theorem card_le : S.card ≤ SIZE := by
  obtain ⟨look, habs⟩ := h.table
  exact habs.le_size

theorem full_iff : p.tcpSocketTable.full SIZE = true ↔ S.card = SIZE := by
  obtain ⟨look, habs⟩ := h.table
  exact habs.full_iff

/-- The table has room exactly while it tracks fewer than `SIZE` sockets. -/
theorem card_lt_iff : S.card < SIZE ↔ p.tcpSocketTable.full SIZE = false := by
  rw [← Bool.not_eq_true, h.full_iff]
  have := h.card_le
  omega

theorem contains_eq (sk : UInt64) : p.tcpSocketTable.contains sk = decide (sk ∈ S) := by
  rw [FixedHash.contains, Std.HashMap.contains_eq_isSome_getElem?]
  by_cases hsk : sk ∈ S
  · rw [decide_eq_true hsk, Option.isSome_iff_ne_none]
    exact mt (h.tracked sk).1 (not_not.2 hsk)
  · rw [decide_eq_false hsk, (h.tracked sk).2 hsk]
    rfl

/-- A tracked socket is found in an element below `SIZE`, with its entry. -/
theorem find_of_mem (hsk : sk ∈ S) :
    ∃ i v, p.tcpSocketTable.map[sk]? = some i ∧ p.tcpSocketTable.find SIZE sk = ⟨i, some v⟩ ∧
      i < SIZE := by
  obtain ⟨look, habs⟩ := h.table
  obtain ⟨i, hi⟩ := Option.ne_none_iff_exists'.1 (mt (h.tracked sk).1 (not_not.2 hsk))
  obtain ⟨hlook, hsome⟩ := habs.look_of_some hi
  obtain ⟨v, hv⟩ := Option.isSome_iff_exists.1 hsome
  refine ⟨i, v, hi, ?_, h.lt_of_map hi⟩
  simp only [habs.find sk, hi, hlook, hv]

theorem find_of_not_mem (hsk : sk ∉ S) : p.tcpSocketTable.find SIZE sk = ⟨invalid SIZE, none⟩ := by
  simp [FixedHash.find, (h.tracked sk).2 hsk]

/-- `find` returns `invalid` exactly for a socket that is not tracked. -/
theorem find_index_eq_invalid : (p.tcpSocketTable.find SIZE sk).index = invalid SIZE ↔ sk ∉ S := by
  obtain ⟨look, habs⟩ := h.table
  rw [habs.find_index_eq_invalid, h.tracked]

/-- What the invariant reads is the table, `tcp_index_to_sk_`, the store and the statistics. -/
theorem of_frame (htable : p'.tcpSocketTable = p.tcpSocketTable)
    (hidx : p'.tcpIndexToSk = p.tcpIndexToSk) (hstore : p'.tcpSocketStats = p.tcpSocketStats)
    (hstats : p'.tcpStats = p.tcpStats) : Inv SIZE es repr p' S where
  table := htable ▸ h.table
  tracked := htable ▸ h.tracked
  indexToSk := htable ▸ hidx ▸ h.indexToSk
  store := hstore ▸ h.store
  valid := htable ▸ hstats ▸ h.valid
  queued := hstore ▸ hstats ▸ h.queued

/-- A table with the same map and as many entries. -/
theorem of_map_eq {look : UInt64 → Option TcpSocketEntry}
    (habs : FixedHash.Abs SIZE es repr p'.tcpSocketTable look S.card)
    (hmap : ∀ a : UInt64, p'.tcpSocketTable.map[a]? = p.tcpSocketTable.map[a]?)
    (hidx : p'.tcpIndexToSk = p.tcpIndexToSk) (hstore : p'.tcpSocketStats = p.tcpSocketStats)
    (hstats : p'.tcpStats = p.tcpStats) : Inv SIZE es repr p' S where
  table := ⟨look, habs⟩
  tracked a := by
    rw [hmap a]
    exact h.tracked a
  indexToSk a i ha := by
    rw [hmap a] at ha
    rw [hidx]
    exact h.indexToSk a i ha
  store := hstore ▸ h.store
  valid i e hv := by
    rw [hstats] at hv
    obtain ⟨he, sk', hsk'⟩ := h.valid i e hv
    exact ⟨he, sk', by rw [hmap sk']; exact hsk'⟩
  queued i e hv := by
    rw [hstats] at hv
    rw [hstore]
    exact h.queued i e hv

/-- A line logged, or not. -/
theorem of_log (b : Bool) (l : List LogLine) :
    Inv SIZE es repr (if b then { p with log := l } else p) S := by
  split
  · exact h.of_frame rfl rfl rfl rfl
  · exact h

/-- Another store that keeps its own invariant and has the valid statistics queued. -/
theorem of_store {s : Util.MetricStore} (hs : Util.MetricStore.Inv SIZE nEpochs s)
    (hnext : ∀ i e, (p.tcpStats i e).valid = true → s.next i e ≠ Util.invalid SIZE) :
    Inv SIZE es repr { p with tcpSocketStats := s } S where
  table := h.table
  tracked := h.tracked
  indexToSk := h.indexToSk
  store := hs
  valid := h.valid
  queued := hnext

/-- A store with the same links. -/
theorem of_links {s : Util.MetricStore} (hs : Util.MetricStore.Inv SIZE nEpochs s)
    (hnext : s.next = p.tcpSocketStats.next) : Inv SIZE es repr { p with tcpSocketStats := s } S :=
  h.of_store hs fun i e hv => hnext ▸ h.queued i e hv

/-- Sending statistics keeps the invariant. -/
theorem sendIfValid {t sk : UInt64} {index epoch : ℕ} :
    Inv SIZE es repr (p.sendIfValid t sk index epoch) S where
  table := by rw [sendIfValid_tcpSocketTable]; exact h.table
  tracked := by rw [sendIfValid_tcpSocketTable]; exact h.tracked
  indexToSk := by rw [sendIfValid_tcpSocketTable, sendIfValid_tcpIndexToSk]; exact h.indexToSk
  store := by rw [sendIfValid_tcpSocketStats]; exact h.store
  valid i e hv := by
    rw [sendIfValid_tcpSocketTable]
    exact h.valid i e (sendIfValid_valid_of_valid hv).2
  queued i e hv := by
    rw [sendIfValid_tcpSocketStats]
    exact h.queued i e (sendIfValid_valid_of_valid hv).2

/-- The socket of an element with valid statistics is tracked. -/
theorem indexToSk_mem {i e : ℕ} (hv : (p.tcpStats i e).valid = true) : p.tcpIndexToSk i ∈ S := by
  obtain ⟨-, sk, hsk⟩ := h.valid i e hv
  rw [h.indexToSk sk i hsk]
  by_contra hn
  rw [(h.tracked sk).2 hn] at hsk
  cases hsk

/-- A socket that joins the table in element `i`, its socket in `tcp_index_to_sk_`. -/
theorem track {sk : UInt64} (hsk : sk ∉ S) {i : ℕ} {look : UInt64 → Option TcpSocketEntry}
    (habs : FixedHash.Abs SIZE es repr p'.tcpSocketTable look (S.card + 1))
    (hmap : ∀ a, p'.tcpSocketTable.map[a]? =
      if a = sk then some i else p.tcpSocketTable.map[a]?)
    (hidx : p'.tcpIndexToSk = Function.update p.tcpIndexToSk i sk)
    (hstore : p'.tcpSocketStats = p.tcpSocketStats) (hstats : p'.tcpStats = p.tcpStats) :
    Inv SIZE es repr p' (insert sk S) where
  table := ⟨look, by rw [Finset.card_insert_of_notMem hsk]; exact habs⟩
  tracked a := by
    rw [hmap a]
    by_cases ha : a = sk
    · simp [ha]
    · simp [ha, h.tracked a]
  indexToSk a j ha := by
    rw [hidx]
    by_cases has : a = sk
    · subst has
      rw [hmap a, if_pos rfl] at ha
      rw [← Option.some.inj ha, Function.update_self]
    · have hold : p.tcpSocketTable.map[a]? = some j := by rwa [hmap a, if_neg has] at ha
      -- another socket's element is not the new one
      have hji : j ≠ i := fun hji =>
        has (habs.inj a sk i (hji ▸ ha) (by rw [hmap sk, if_pos rfl]))
      rw [Function.update_of_ne hji]
      exact h.indexToSk a j hold
  store := hstore ▸ h.store
  valid j e hv := by
    rw [hstats] at hv
    obtain ⟨he, sk', hsk'⟩ := h.valid j e hv
    have hne : sk' ≠ sk := by
      rintro rfl
      rw [(h.tracked sk').2 hsk] at hsk'
      cases hsk'
    exact ⟨he, sk', by rw [hmap sk', if_neg hne, hsk']⟩
  queued j e hv := by
    rw [hstore]
    rw [hstats] at hv
    exact h.queued j e hv

/-- A tracked socket that leaves the table from element `i`, whose statistics are then no longer
valid. -/
theorem untrack {sk : UInt64} {i : ℕ} (hk : p.tcpSocketTable.map[sk]? = some i)
    {look : UInt64 → Option TcpSocketEntry}
    (habs : FixedHash.Abs SIZE es repr p'.tcpSocketTable look (S.erase sk).card)
    (hmap : ∀ a : UInt64,
      p'.tcpSocketTable.map[a]? = if a = sk then none else p.tcpSocketTable.map[a]?)
    (hidx : p'.tcpIndexToSk = p.tcpIndexToSk) (hstore : p'.tcpSocketStats = p.tcpSocketStats)
    (hvalid : ∀ j e, (p'.tcpStats j e).valid = true → j ≠ i ∧ (p.tcpStats j e).valid = true) :
    Inv SIZE es repr p' (S.erase sk) where
  table := ⟨look, habs⟩
  tracked a := by
    rw [hmap a]
    by_cases ha : a = sk
    · simp [ha]
    · simp [ha, h.tracked a]
  indexToSk a j ha := by
    rw [hmap a] at ha
    split at ha
    · cases ha
    · rw [hidx]
      exact h.indexToSk a j ha
  store := hstore ▸ h.store
  valid j e hv := by
    obtain ⟨hji, hv'⟩ := hvalid j e hv
    obtain ⟨he, sk', hsk'⟩ := h.valid j e hv'
    -- the socket of another element is another socket
    have hne : sk' ≠ sk := by
      rintro rfl
      rw [hk] at hsk'
      exact hji (Option.some.inj hsk').symm
    exact ⟨he, sk', by rw [hmap sk', if_neg hne, hsk']⟩
  queued j e hv := by
    rw [hstore]
    exact h.queued j e (hvalid j e hv).2

end Inv

theorem Inv.init (hfits : SIZE * es ≤ 2 ^ 32) (h₀ : p.Init SIZE es) : Inv SIZE es repr p ∅ := by
  obtain ⟨htable, -, -, ⟨tslot, hstore⟩, hstats, -, -⟩ := h₀
  have hmap : p.tcpSocketTable.map = ∅ := htable.1
  refine ⟨⟨_, FixedHash.Abs.init hfits htable⟩, fun sk => ?_, fun sk i hk => ?_, ?_,
    fun i e hv => ?_, fun i e hv => ?_⟩
  · simp [hmap]
  · simp [hmap] at hk
  · rw [hstore]
    exact Util.MetricStore.inv_new (by decide) tslot
  all_goals rw [hstats] at hv; cases hv

/-! ### The handlers -/

/-- A round of `handle_close_socket`'s loop over the epochs, for an element below `SIZE`. -/
theorem sendEpochStats_cons (hs : SIZE ≤ 2 ^ 30) {i b : ℕ} (hi : i < SIZE) (hb : b < nEpochs)
    (t sk : UInt64) (bs : List ℕ) (q : BufferedPoller) :
    sendEpochStats SIZE t sk i (b :: bs) q =
      sendEpochStats SIZE t sk i bs
        (q.sendIfValid t sk i (q.tcpSocketStats.epoch nEpochs (UInt32.ofNat b))) := by
  have hi' : (UInt32.ofNat i).toNat = i :=
    UInt32.toNat_ofNat_of_lt' (by rw [UInt32.size]; omega)
  have hb' : (UInt32.ofNat b).toNat = b :=
    UInt32.toNat_ofNat_of_lt' (by rw [UInt32.size]; unfold nEpochs at hb; omega)
  rw [sendEpochStats, Util.MetricStore.lookupRelative_false, if_pos ⟨hi'.symm ▸ hi, hb'.symm ▸ hb⟩]


section Handlers

variable (hrepr : ∀ v, (repr v).length ≤ es) (h : Inv SIZE es repr p S)
include h

include hrepr in
/-- `handle_new_socket`: an untracked socket joins a table with room and `new_sock_info` is
written; a full table or a duplicate changes what is tracked in no way, and writes nothing. -/
theorem handleNewSocket_spec (t : UInt64) (pid : UInt32) (sk : UInt64) :
    Inv SIZE es repr (p.handleNewSocket SIZE repr t pid sk)
        (trackedStep SIZE S (.newSockCreated t pid sk)) ∧
      (p.handleNewSocket SIZE repr t pid sk).writer =
        p.writer ++ if sk ∉ S ∧ S.card < SIZE then [.newSockInfo t pid sk] else [] := by
  obtain ⟨look, habs⟩ := h.table
  by_cases hfull : p.tcpSocketTable.full SIZE = true
  · -- a full table drops the socket
    have hcard : ¬ S.card < SIZE := fun hc => by rw [h.card_lt_iff.1 hc] at hfull; cases hfull
    have he : p.handleNewSocket SIZE repr t pid sk =
        { p with
          log := p.log ++ [.tableFull .handleNewSocket]
          tcpSocketTableEverFull := true } := if_pos hfull
    rw [he, trackedStep, if_neg hcard]
    exact ⟨h.of_frame rfl rfl rfl rfl, by simp [hcard]⟩
  have hfull' : p.tcpSocketTable.full SIZE = false := Bool.eq_false_iff.2 hfull
  have hcard : S.card < SIZE := h.card_lt_iff.2 hfull'
  rw [trackedStep, if_pos hcard]
  by_cases hsk : sk ∈ S
  · -- a duplicate leaves the map as it was
    obtain ⟨hpos, habs', hmap⟩ := habs.insert_present (v := TcpSocketEntry.zero)
      (mt habs.look_eq_none.1 (mt (h.tracked sk).1 (not_not.2 hsk)))
    have he : p.handleNewSocket SIZE repr t pid sk =
        { p with
          tcpSocketTable := (p.tcpSocketTable.insert SIZE repr sk .zero).2
          log := p.log ++ [.duplicate .handleNewSocket sk pid] } := by
      simp [handleNewSocket, hfull', hpos]
    rw [he, Finset.insert_eq_of_mem hsk]
    exact ⟨h.of_map_eq habs' hmap rfl rfl rfl, by simp [hsk]⟩
  · obtain ⟨i, hpos, hne, habs', hmap⟩ :=
      habs.insert_fresh hrepr (v := TcpSocketEntry.zero)
        (habs.look_eq_none.2 ((h.tracked sk).2 hsk)) hfull'
    have he : p.handleNewSocket SIZE repr t pid sk =
        { p with
          tcpSocketTable := (p.tcpSocketTable.insert SIZE repr sk .zero).2
          tcpIndexToSk := Function.update p.tcpIndexToSk i sk
          writer := p.writer ++ [.newSockInfo t pid sk] } := by
      simp [handleNewSocket, hfull', hpos, hne]
    rw [he]
    exact ⟨h.track hsk habs' hmap rfl rfl rfl, by simp [hsk, hcard]⟩

/-- `handle_set_state_ipv4` and `handle_set_state_ipv6`: the message is written exactly for a
tracked socket. -/
theorem handleSetState_spec (handler : TcpHandler) (sk : UInt64) (m : Telemetry) :
    ∃ p', p.handleSetState SIZE handler sk m = .ok p' ∧ Inv SIZE es repr p' S ∧
      p'.writer = p.writer ++ if sk ∈ S then [m] else [] := by
  by_cases hsk : sk ∈ S
  · -- a tracked socket's element is allocated, so `operator[]` holds
    obtain ⟨i, v, -, hfind, hi⟩ := h.find_of_mem hsk
    have hne : i ≠ invalid SIZE := Nat.ne_of_lt (lt_invalid h.size_le hi)
    refine ⟨{ p with writer := p.writer ++ [m] }, ?_, h.of_frame rfl rfl rfl rfl, by simp [hsk]⟩
    simp only [handleSetState, hfind, if_neg hne]
  · refine ⟨if p.logsMissing then { p with log := p.log ++ [.notTracked handler sk] } else p,
      if_pos (h.find_index_eq_invalid.2 hsk), h.of_log _ _, by rw [if_neg hsk]; split <;> simp⟩

include hrepr in
/-- `handle_reset_tcp_counters` writes `new_sock_info` whatever follows; the socket then joins
the table as in `handle_new_socket`, with the counters of the message. -/
theorem handleResetTcpCounters_spec (t : UInt64) (msg : ResetTcpCounters) :
    ∃ p', p.handleResetTcpCounters SIZE repr t msg = .ok p' ∧
      Inv SIZE es repr p' (trackedStep SIZE S (.resetTcpCounters t msg)) ∧
      p'.writer = p.writer ++ [.newSockInfo t msg.pid msg.sk] := by
  obtain ⟨look, habs⟩ := h.table
  -- the handler's first write
  set p₁ : BufferedPoller := { p with writer := p.writer ++ [.newSockInfo t msg.pid msg.sk] }
  have h₁ : Inv SIZE es repr p₁ S := h.of_frame rfl rfl rfl rfl
  by_cases hfull : p.tcpSocketTable.full SIZE = true
  · have hcard : ¬ S.card < SIZE := fun hc => by rw [h.card_lt_iff.1 hc] at hfull; cases hfull
    refine ⟨{ p₁ with
      log := p₁.log ++ [.tableFull .handleResetTcpCounters]
      tcpSocketTableEverFull := true }, if_pos hfull, ?_, rfl⟩
    rw [trackedStep, if_neg hcard]
    exact h₁.of_frame rfl rfl rfl rfl
  have hfull' : p.tcpSocketTable.full SIZE = false := Bool.eq_false_iff.2 hfull
  have hcard : S.card < SIZE := h.card_lt_iff.2 hfull'
  by_cases hsk : msg.sk ∈ S
  · obtain ⟨hpos, habs', hmap⟩ := habs.insert_present (v := TcpSocketEntry.zero)
      (mt habs.look_eq_none.1 (mt (h.tracked msg.sk).1 (not_not.2 hsk)))
    refine ⟨{ p₁ with
      tcpSocketTable := (p.tcpSocketTable.insert SIZE repr msg.sk .zero).2
      log := p₁.log ++ [.duplicate .handleResetTcpCounters msg.sk msg.pid] }, ?_, ?_, rfl⟩
    · simp [handleResetTcpCounters, p₁, hfull', hpos]
    rw [trackedStep, if_pos hcard, Finset.insert_eq_of_mem hsk]
    exact h.of_map_eq habs' hmap rfl rfl rfl
  · obtain ⟨i, hpos, hne, habs', hmap⟩ :=
      habs.insert_fresh hrepr (v := TcpSocketEntry.zero)
        (habs.look_eq_none.2 ((h.tracked msg.sk).2 hsk)) hfull'
    -- the counters are written through the new entry
    set entry : TcpSocketEntry := { TcpSocketEntry.zero with
      bytesAcked := msg.bytesAcked
      packetsDelivered := msg.packetsDelivered
      packetsRetrans := msg.packetsRetrans
      bytesReceived := msg.bytesReceived }
    set ins := p.tcpSocketTable.insert SIZE repr msg.sk .zero
    have hk : ins.2.map[msg.sk]? = some i := by rw [hmap msg.sk, if_pos rfl]
    refine ⟨{ p₁ with
      tcpSocketTable := ⟨ins.2.map, ins.2.pool.set repr i entry⟩
      tcpIndexToSk := Function.update p.tcpIndexToSk i msg.sk }, ?_, ?_, rfl⟩
    · simp [handleResetTcpCounters, p₁, hfull', ins, hpos, hne, entry]
    rw [trackedStep, if_pos hcard]
    exact h.track hsk (habs'.set hrepr hk entry) hmap rfl rfl rfl

/-- Both epochs' statistics of a tracked socket's element, sent in `handle_close_socket`: what
is written, and that they are invalid afterwards. -/
theorem sendEpochStats_spec {i : ℕ} (hi : i < SIZE) (t sk : UInt64) :
    let p₂ := (p.sendIfValid t sk i (p.tcpSocketStats.epoch nEpochs 0)).sendIfValid t sk i
      (p.tcpSocketStats.epoch nEpochs 1)
    sendEpochStats SIZE t sk i (List.range nEpochs) p = .ok p₂ ∧
      p₂.writer = p.writer ++ sentMessages t sk (p.tcpStats i (p.tcpSocketStats.epoch nEpochs 0)) ++
        sentMessages t sk (p.tcpStats i (p.tcpSocketStats.epoch nEpochs 1)) ∧
      ∀ j e, (p₂.tcpStats j e).valid = true → j ≠ i ∧ (p.tcpStats j e).valid = true := by
  intro p₂
  have hcq := h.store.currentQueue_lt
  have hne : p.tcpSocketStats.epoch nEpochs 1 ≠ p.tcpSocketStats.epoch nEpochs 0 := by
    rw [epoch_zero hcq, epoch_one hcq]
    rcases currentQueue_cases hcq with h0 | h1 <;> omega
  refine ⟨?_, ?_, fun j e hv => ?_⟩
  · rw [show List.range nEpochs = [0, 1] from rfl, sendEpochStats_cons h.size_le hi (by decide),
      sendEpochStats_cons h.size_le hi (by decide), sendIfValid_tcpSocketStats]
    rfl
  · rw [sendIfValid_writer, sendIfValid_writer, sendIfValid_tcpStats, if_neg fun hie => hne hie.2]
  · obtain ⟨hne₁, hv₁⟩ := sendIfValid_valid_of_valid hv
    obtain ⟨hne₀, hv₀⟩ := sendIfValid_valid_of_valid hv₁
    refine ⟨fun hji => ?_, hv₀⟩
    -- an element's statistics are valid only in one of the two epochs
    subst hji
    have he := (h.valid j e hv₀).1
    rcases currentQueue_cases hcq with hq | hq <;>
      simp only [epoch_zero hcq, epoch_one hcq, true_and, hq] at hne₀ hne₁ <;>
      (unfold nEpochs at he; omega)

include hrepr in
/-- `handle_close_socket`: a tracked socket's valid statistics of both epochs are sent and become
invalid, it leaves the table and `close_sock_info` is written; for an untracked socket nothing
is tracked otherwise and nothing written. -/
theorem handleCloseSocket_spec (t sk : UInt64) :
    ∃ p', p.handleCloseSocket SIZE t sk = .ok p' ∧ Inv SIZE es repr p' (S.erase sk) ∧
      p'.writer = p.writer ++
        (if sk ∈ S then p.closeMessages t sk (p.tcpSocketTable.find SIZE sk).index else []) ∧
      (sk ∈ S → ∀ e, (p'.tcpStats (p.tcpSocketTable.find SIZE sk).index e).valid = false) := by
  by_cases hsk : sk ∈ S
  · obtain ⟨i, v, hk, hfind, hi⟩ := h.find_of_mem hsk
    obtain ⟨look, habs⟩ := h.table
    have hne : i ≠ invalid SIZE := Nat.ne_of_lt (lt_invalid h.size_le hi)
    have hlook : look sk ≠ none := by
      rw [(habs.look_of_some hk).1]
      exact Option.isSome_iff_ne_none.1 (habs.look_of_some hk).2
    obtain ⟨hflag, habs', hmap⟩ := habs.erase_present hrepr hlook
    obtain ⟨hloop, hwriter, hvalid⟩ := sendEpochStats_spec h hi t sk
    set p₂ := (p.sendIfValid t sk i (p.tcpSocketStats.epoch nEpochs 0)).sendIfValid t sk i
      (p.tcpSocketStats.epoch nEpochs 1)
    have htable : p₂.tcpSocketTable = p.tcpSocketTable := by simp [p₂]
    refine ⟨{ p₂ with
      tcpSocketTable := (p.tcpSocketTable.erase SIZE sk).2
      writer := p₂.writer ++ [.closeSockInfo t sk] }, ?_, ?_, ?_, ?_⟩
    · simp only [handleCloseSocket, hfind, if_neg hne, Option.isNone_some, Bool.false_eq_true,
        if_false, hloop, bind, Except.bind, htable, hflag, if_true]
    · exact h.untrack hk (by rw [Finset.card_erase_of_mem hsk]; exact habs') hmap
        (by simp [p₂]) (by simp [p₂]) hvalid
    · show p₂.writer ++ [.closeSockInfo t sk] = _
      rw [hwriter, if_pos hsk, hfind, closeMessages]
      simp
    · intro _ e
      rw [hfind]
      by_contra hv
      exact (hvalid i e (by simpa using hv)).1 rfl
  · refine ⟨if p.logsMissing then { p with log := p.log ++ [.notFound sk] } else p, ?_, ?_, ?_,
      fun hn => absurd hn hsk⟩
    · simp [handleCloseSocket, h.find_of_not_mem hsk]
    · rw [Finset.erase_eq_of_notMem hsk]
      exact h.of_log _ _
    · rw [if_neg hsk]
      split <;> simp

include hrepr in
/-- `handle_rtt_estimator`: a tracked socket's entry takes the counters of the estimate, and its
statistics in the epoch of `t` the differences, queued there; nothing is written. -/
theorem handleRttEstimator_spec (t : UInt64) (msg : RttEstimator) :
    ∃ p', p.handleRttEstimator SIZE repr t msg = .ok p' ∧ Inv SIZE es repr p' S ∧
      p'.writer = p.writer := by
  by_cases hsk : msg.sk ∈ S
  · obtain ⟨i, v, hk, hfind, hi⟩ := h.find_of_mem hsk
    obtain ⟨look, habs⟩ := h.table
    have hne : i ≠ invalid SIZE := Nat.ne_of_lt (lt_invalid h.size_le hi)
    have hi' : (UInt32.ofNat i).toNat = i :=
      UInt32.toNat_ofNat_of_lt' (by rw [UInt32.size]; have := h.size_le; omega)
    obtain ⟨w, e, s', hl, he, hs', hnext, hmono, -⟩ :=
      h.store.lookup_enqueue (by have := h.size_le; omega) (by decide) (hi'.symm ▸ hi) t
    rw [hi'] at hnext
    refine ⟨{ p with
      tcpSocketTable := ⟨p.tcpSocketTable.map, p.tcpSocketTable.pool.set repr i msg.entry⟩
      tcpSocketStats := s'
      tcpStats := setStats p.tcpStats i e (accumulate (p.tcpStats i e) msg v) }, ?_, ?_, rfl⟩
    · simp only [handleRttEstimator, hfind, if_neg hne, hl]
    refine ⟨⟨_, habs.set hrepr hk msg.entry⟩, h.tracked, h.indexToSk, hs', fun j f hv => ?_,
      fun j f hv => ?_⟩ <;>
      change (setStats p.tcpStats i e (accumulate (p.tcpStats i e) msg v) j f).valid = true at hv
    · by_cases hjf : j = i ∧ f = e
      · obtain ⟨rfl, rfl⟩ := hjf
        exact ⟨he, msg.sk, hk⟩
      · rw [setStats_apply, if_neg hjf] at hv
        exact h.valid j f hv
    · show s'.next j f ≠ _
      by_cases hjf : j = i ∧ f = e
      · obtain ⟨rfl, rfl⟩ := hjf
        exact hnext
      · rw [setStats_apply, if_neg hjf] at hv
        obtain ⟨-, sk', hsk'⟩ := h.valid j f hv
        exact hmono j f (h.lt_of_map hsk') (h.queued j f hv)
  · exact ⟨p, by simp [handleRttEstimator, h.find_of_not_mem hsk], h, rfl⟩

end Handlers

/-! ### The statistics of an epoch -/

/-- A round of the loop of `send_stats_from_queue` whose queue has head `a`: the statistics of
`a` in the current epoch are sent when valid, and `a` leaves the queue. -/
theorem drainQueue_succ (hs : SIZE ≤ 2 ^ 30) {t : UInt64} {a fuel : ℕ} (ha : a < SIZE)
    {q : BufferedPoller} {s' : Util.MetricStore}
    (hpeek : q.tcpSocketStats.peek SIZE nEpochs = some a)
    (hpop : q.tcpSocketStats.pop SIZE nEpochs = some s') :
    drainQueue SIZE t (fuel + 1) q = drainQueue SIZE t fuel
      { q.sendIfValid t (q.tcpIndexToSk a) a (q.tcpSocketStats.epoch nEpochs 0) with
        tcpSocketStats := s' } := by
  have ha' : (UInt32.ofNat a).toNat = a := UInt32.toNat_ofNat_of_lt' (by rw [UInt32.size]; omega)
  have hguard : (UInt32.ofNat a).toNat < SIZE ∧ (0 : UInt32).toNat < nEpochs :=
    ⟨ha'.symm ▸ ha, by decide⟩
  simp only [drainQueue, hpeek, Util.MetricStore.lookupRelative_false, if_pos hguard,
    sendIfValid_tcpSocketStats, hpop]

/-- The loop of `send_stats_from_queue` over a current queue that holds `l`, with more fuel than
`l` is long: each element of `l` in order has its valid statistics of the epoch sent under its
socket in `tcp_index_to_sk_`, and the loop ends with no valid statistics left in the epoch. -/
theorem drainQueue_spec (t : UInt64) : ∀ (l : List ℕ) (fuel : ℕ) (q : BufferedPoller),
    Inv SIZE es repr q S →
    Util.MetricStore.Queue SIZE q.tcpSocketStats q.tcpSocketStats.currentQueue.toNat l →
    l.length < fuel →
    ∃ q', drainQueue SIZE t fuel q = .ok q' ∧ Inv SIZE es repr q' S ∧
      q'.writer = q.writer ++ l.flatMap (fun i => sentMessages t (q.tcpIndexToSk i)
        (q.tcpStats i q.tcpSocketStats.currentQueue.toNat)) ∧
      (∀ i, (q'.tcpStats i q.tcpSocketStats.currentQueue.toNat).valid = false) ∧
      q'.tcpSocketTable = q.tcpSocketTable ∧ q'.tcpIndexToSk = q.tcpIndexToSk ∧
      q'.tcpSocketStats.currentQueue = q.tcpSocketStats.currentQueue
  | [], fuel, q, hq, hqueue, hfuel => by
    obtain ⟨f, rfl⟩ : ∃ f, fuel = f + 1 := ⟨fuel - 1, by simp at hfuel; omega⟩
    refine ⟨q, by rw [drainQueue, Util.MetricStore.peek_of_nil hqueue], hq, by simp, fun i => ?_,
      rfl, rfl, rfl⟩
    -- nothing is queued, so nothing is valid
    by_contra hv
    have hv' : (q.tcpStats i q.tcpSocketStats.currentQueue.toNat).valid = true := by simpa using hv
    obtain ⟨-, sk', hsk'⟩ := hq.valid i _ hv'
    exact List.not_mem_nil ((hqueue.2 i).2 ⟨hq.lt_of_map hsk', hq.queued i _ hv'⟩)
  | a :: l, fuel, q, hq, hqueue, hfuel => by
    obtain ⟨f, rfl⟩ : ∃ f, fuel = f + 1 := ⟨fuel - 1, by simp at hfuel; omega⟩
    have hcq := hq.store.currentQueue_lt
    obtain ⟨hpeek, s', hpop, hqueue', -, hsame⟩ := Util.MetricStore.pop_spec hcq hqueue
    have ha : a < SIZE := ((hqueue.2 a).1 List.mem_cons_self).1
    have hal : a ∉ l := (List.nodup_cons.1 hqueue.nodup).1
    set cq := q.tcpSocketStats.currentQueue.toNat
    set q₁ := q.sendIfValid t (q.tcpIndexToSk a) a cq
    -- after the round, every valid statistic is still queued
    have hq₂ : Inv SIZE es repr { q₁ with tcpSocketStats := s' } S := by
      refine hq.sendIfValid.of_store (hq.store.pop hpop) fun j e hv => ?_
      obtain ⟨hne, hv'⟩ := sendIfValid_valid_of_valid hv
      have hnext := hq.queued j e hv'
      by_cases he : e = cq
      · subst he
        have hj : j < SIZE := by
          obtain ⟨-, sk', hsk'⟩ := hq.valid j _ hv'
          exact hq.lt_of_map hsk'
        have hjl : j ∈ l := by
          rcases List.mem_cons.1 ((hqueue.2 j).2 ⟨hj, hnext⟩) with rfl | hjl
          · exact absurd ⟨rfl, rfl⟩ hne
          · exact hjl
        exact ((hqueue'.2 j).1 hjl).2
      · rw [hsame.next e he j]
        exact hnext
    have hqueue₂ : Util.MetricStore.Queue SIZE s' s'.currentQueue.toNat l := by
      rw [hsame.currentQueue]
      exact hqueue'
    obtain ⟨q', hrun, hq', hw, hvalid, htab, hidx, hcq'⟩ :=
      drainQueue_spec t l f _ hq₂ hqueue₂ (by simp at hfuel; omega)
    have hcq₂ : s'.currentQueue.toNat = cq := by rw [hsame.currentQueue]
    refine ⟨q', ?_, hq', ?_, ?_, ?_, ?_, ?_⟩
    · rw [drainQueue_succ hq.size_le ha hpeek hpop, epoch_zero hcq]
      exact hrun
    · -- the statistics of the rest are as they were
      have hrest : ∀ j ∈ l, sentMessages t (q₁.tcpIndexToSk j) (q₁.tcpStats j cq) =
          sentMessages t (q.tcpIndexToSk j) (q.tcpStats j cq) := by
        intro j hj
        have hja : j ≠ a := fun hja => hal (hja ▸ hj)
        rw [sendIfValid_tcpIndexToSk, sendIfValid_tcpStats, if_neg fun hje => hja hje.1]
      rw [hw]
      simp only [hcq₂, List.flatMap_cons, ← List.append_assoc]
      rw [List.flatMap_congr hrest, sendIfValid_writer]
    · rw [← hcq₂]
      exact hvalid
    · rw [htab, sendIfValid_tcpSocketTable]
    · rw [hidx, sendIfValid_tcpIndexToSk]
    · rw [hcq', hsame.currentQueue]

section Poll

variable (h : Inv SIZE es repr p S)
include h

theorem Inv.relativeTimeslot (t : UInt64) :
    Inv SIZE es repr { p with tcpSocketStats := (p.tcpSocketStats.relativeTimeslot t).2 } S :=
  h.of_links (h.store.relativeTimeslot t) (Util.MetricStore.relativeTimeslot_snd _ t).1

/-- The end of a poll in the current timeslot writes nothing. -/
theorem endOfPoll_same_slot (t : UInt64) (h0 : (p.tcpSocketStats.relativeTimeslot t).1 = 0) :
    ∃ p', p.endOfPoll SIZE t = .ok p' ∧ Inv SIZE es repr p' S ∧ p'.writer = p.writer :=
  ⟨{ p with tcpSocketStats := (p.tcpSocketStats.relativeTimeslot t).2 }, by simp [endOfPoll, h0],
    h.relativeTimeslot t, rfl⟩

/-- The end of a poll in a new timeslot: the valid statistics of the current epoch are sent, for
each element of its queue in order, under its socket in `tcp_index_to_sk_`; none is left valid
in the epoch, and the store moves on to the other epoch. -/
theorem endOfPoll_new_slot (t : UInt64) (h0 : (p.tcpSocketStats.relativeTimeslot t).1 ≠ 0) :
    ∃ (p' : BufferedPoller) (l : List ℕ), p.endOfPoll SIZE t = .ok p' ∧ Inv SIZE es repr p' S ∧
      l.Nodup ∧
      (∀ i, (p.tcpStats i p.tcpSocketStats.currentQueue.toNat).valid = true → i ∈ l) ∧
      p'.writer = p.writer ++ l.flatMap (fun i => sentMessages t (p.tcpIndexToSk i)
        (p.tcpStats i p.tcpSocketStats.currentQueue.toNat)) ∧
      (∀ i, (p'.tcpStats i p.tcpSocketStats.currentQueue.toNat).valid = false) ∧
      p'.tcpSocketStats.currentQueue.toNat = (p.tcpSocketStats.currentQueue.toNat + 1) % nEpochs := by
  set p₁ : BufferedPoller := { p with tcpSocketStats := (p.tcpSocketStats.relativeTimeslot t).2 }
  have h₁ : Inv SIZE es repr p₁ S := h.relativeTimeslot t
  have hcq : p₁.tcpSocketStats.currentQueue = p.tcpSocketStats.currentQueue :=
    (Util.MetricStore.relativeTimeslot_snd p.tcpSocketStats t).2.2
  obtain ⟨l, hqueue⟩ := h₁.store.queue _ h₁.store.currentQueue_lt
  have hlen : l.length < SIZE + 1 := Nat.lt_succ_of_le hqueue.length_le
  obtain ⟨p₂, hrun, h₂, hw, hvalid, -, -, hcq₂⟩ := drainQueue_spec t l (SIZE + 1) p₁ h₁ hqueue hlen
  rw [hcq] at hqueue hw hvalid
  refine ⟨{ p₂ with tcpSocketStats := p₂.tcpSocketStats.advance nEpochs }, l, ?_,
    h₂.of_links (h₂.store.advance (by decide)) rfl, hqueue.nodup, fun i hv => ?_, hw, hvalid, ?_⟩
  · simp only [endOfPoll, ne_eq, h0, not_false_eq_true, if_true]
    simp only [sendStatsFromQueue, Util.MetricStore.relativeTimeslot_idem, h0, if_false]
    rw [show drainQueue SIZE t (SIZE + 1) p₁ = .ok p₂ from hrun]
    rfl
  · obtain ⟨-, sk', hsk'⟩ := h.valid i _ hv
    exact (hqueue.2 i).2 ⟨h.lt_of_map hsk', h₁.queued i _ hv⟩
  · show (p₂.tcpSocketStats.advance nEpochs).currentQueue.toNat = _
    rw [advance_currentQueue h₂.store.currentQueue_lt, hcq₂, hcq]

end Poll

/-! ### Every event -/

section Calls

variable (hrepr : ∀ v, (repr v).length ≤ es) (h : Inv SIZE es repr p S)
include h

/-- The end of a poll keeps the invariant, and writes only valid statistics of tracked
sockets. -/
theorem endOfPoll_spec (t : UInt64) :
    ∃ p', p.endOfPoll SIZE t = .ok p' ∧ Inv SIZE es repr p' S ∧
      ∃ ms : List Telemetry, p'.writer = p.writer ++ ms ∧ ∀ m ∈ ms, m.phase = .uses ∧ m.sk ∈ S := by
  by_cases h0 : (p.tcpSocketStats.relativeTimeslot t).1 = 0
  · obtain ⟨p', he, hinv, hw⟩ := endOfPoll_same_slot h t h0
    exact ⟨p', he, hinv, [], by rw [hw, List.append_nil], by simp⟩
  · obtain ⟨p', l, he, hinv, -, -, hw, -, -⟩ := endOfPoll_new_slot h t h0
    refine ⟨p', he, hinv, _, hw, fun m hm => ?_⟩
    obtain ⟨i, -, hmi⟩ := List.mem_flatMap.1 hm
    obtain ⟨hv, hp, hk⟩ := mem_sentMessages hmi
    exact ⟨hp, hk ▸ h.indexToSk_mem hv⟩

include hrepr in
/-- Every event returns and keeps the invariant, the table tracking the sockets `trackedStep`
says; and every event but `reset_tcp_counters` keeps the stream in order, with the sockets it
leaves open those the table tracks. -/
theorem call_spec (ev : TcpEvent) :
    ∃ p', p.call SIZE repr ev = .ok p' ∧ Inv SIZE es repr p' (trackedStep SIZE S ev) ∧
      (ev.resets = false → Session.Follows Telemetry.sk Telemetry.phase S p.writer →
        Session.Follows Telemetry.sk Telemetry.phase (trackedStep SIZE S ev) p'.writer) := by
  cases ev with
  | newSockCreated t pid sk =>
    obtain ⟨hinv, hw⟩ := handleNewSocket_spec hrepr h t pid sk
    refine ⟨_, rfl, hinv, fun _ ho => ?_⟩
    rw [hw, trackedStep]
    by_cases hc : sk ∉ S ∧ S.card < SIZE
    · rw [if_pos hc, if_pos hc.2]
      exact ho.opens rfl hc.1
    · -- a full table, or a socket tracked already
      rw [if_neg hc, List.append_nil]
      split
      · rw [Finset.insert_eq_of_mem (by tauto)]
        exact ho
      · exact ho
  | setStateIpv4 t dest src dport sport sk txRx =>
    obtain ⟨p', he, hinv, hw⟩ := handleSetState_spec h .handleSetStateIpv4 sk
      (.setStateIpv4 t dest src dport sport sk txRx)
    refine ⟨p', he, hinv, fun _ ho => ?_⟩
    show Session.Follows _ _ S p'.writer
    rw [hw]
    split
    · exact ho.uses rfl ‹_›
    · simpa using ho
  | setStateIpv6 t dest src dport sport sk txRx =>
    obtain ⟨p', he, hinv, hw⟩ := handleSetState_spec h .handleSetStateIpv6 sk
      (.setStateIpv6 t dest src dport sport sk txRx)
    refine ⟨p', he, hinv, fun _ ho => ?_⟩
    show Session.Follows _ _ S p'.writer
    rw [hw]
    split
    · exact ho.uses rfl ‹_›
    · simpa using ho
  | closeSockInfo t sk =>
    obtain ⟨p', he, hinv, hw, -⟩ := handleCloseSocket_spec hrepr h t sk
    refine ⟨p', he, hinv, fun _ ho => ?_⟩
    rw [hw, trackedStep]
    by_cases hsk : sk ∈ S
    · -- the statistics are uses of the open socket, then it is closed
      rw [if_pos hsk, closeMessages, ← List.append_assoc]
      refine (ho.append_uses fun m hm => ?_).closes rfl hsk
      rcases List.mem_append.1 hm with hm | hm <;>
        exact ⟨(mem_sentMessages hm).2.1, (mem_sentMessages hm).2.2 ▸ hsk⟩
    · rw [if_neg hsk, List.append_nil, Finset.erase_eq_of_notMem hsk]
      exact ho
  | rttEstimator t msg =>
    obtain ⟨p', he, hinv, hw⟩ := handleRttEstimator_spec hrepr h t msg
    exact ⟨p', he, hinv, fun _ ho => hw ▸ ho⟩
  | resetTcpCounters t msg =>
    obtain ⟨p', he, hinv, -⟩ := handleResetTcpCounters_spec hrepr h t msg
    exact ⟨p', he, hinv, fun hres => by cases hres⟩
  | endOfPoll t =>
    obtain ⟨p', he, hinv, ms, hw, hms⟩ := endOfPoll_spec h t
    exact ⟨p', he, hinv, fun _ ho => hw ▸ ho.append_uses hms⟩
  | allProbesLoaded => exact ⟨_, rfl, h.of_frame rfl rfl rfl rfl, fun _ ho => ho⟩

end Calls

/-! ### Runs -/

section Runs

variable (hrepr : ∀ v, (repr v).length ≤ es)
include hrepr

/-- From a poller with the invariant, every sequence of events returns and keeps it. -/
theorem run_inv (h : Inv SIZE es repr p S) (events : List TcpEvent) :
    ∃ p', p.run SIZE repr events = .ok p' ∧
      Inv SIZE es repr p' (events.foldl (trackedStep SIZE) S) :=
  foldlM_sim (call SIZE repr) (trackedStep SIZE) (Inv SIZE es repr) (fun _ => True)
    (fun _ _ ev _ h => (call_spec hrepr h ev).imp fun _ hp => ⟨hp.1, hp.2.1⟩) events p S
    (fun _ _ => trivial) h

/-- ... and a sequence without `reset_tcp_counters` keeps the stream in order. -/
theorem run_follows (h : Inv SIZE es repr p S)
    (ho : Session.Follows Telemetry.sk Telemetry.phase S p.writer) (events : List TcpEvent)
    (hev : ∀ ev ∈ events, ev.resets = false) :
    ∃ p', p.run SIZE repr events = .ok p' ∧
      Inv SIZE es repr p' (events.foldl (trackedStep SIZE) S) ∧
      Session.Follows Telemetry.sk Telemetry.phase (events.foldl (trackedStep SIZE) S) p'.writer :=
  foldlM_sim (call SIZE repr) (trackedStep SIZE)
    (fun p S => Inv SIZE es repr p S ∧ Session.Follows Telemetry.sk Telemetry.phase S p.writer)
    (fun ev => ev.resets = false)
    (fun _ _ ev hev h => (call_spec hrepr h.1 ev).imp fun _ hp => ⟨hp.1, hp.2.1, hp.2.2 hev h.2⟩)
    events p S hev ⟨h, ho⟩

end Runs

theorem run_snoc {events : List TcpEvent} (hrun : p.run SIZE repr events = .ok p') (ev : TcpEvent) :
    p.run SIZE repr (events ++ [ev]) = p'.call SIZE repr ev := by
  have hfold : events.foldlM (call SIZE repr) p = .ok p' := hrun
  show (events ++ [ev]).foldlM (call SIZE repr) p = _
  rw [List.foldlM_append, hfold]
  show [ev].foldlM (call SIZE repr) p' = _
  simp

/-! ### Runs from a new poller -/

theorem Init.follows (h₀ : p.Init SIZE es) : Session.Follows Telemetry.sk Telemetry.phase ∅ p.writer := by
  rw [h₀.2.2.2.2.2.1]
  exact Session.follows_nil

section New

variable {p₀ : BufferedPoller} (hfits : SIZE * es ≤ 2 ^ 32)
  (hrepr : ∀ v, (repr v).length ≤ es) (h₀ : p₀.Init SIZE es)
include hfits hrepr h₀

/-- A run from a new poller keeps the invariant with the sockets of `tracked`. -/
theorem inv_of_run (events : List TcpEvent) :
    ∃ p, p₀.run SIZE repr events = .ok p ∧ Inv SIZE es repr p (tracked SIZE events) :=
  run_inv hrepr (Inv.init hfits h₀) events

/-- ... and, without `reset_tcp_counters`, the stream in order. -/
theorem follows_of_run (events : List TcpEvent) (hev : ∀ ev ∈ events, ev.resets = false) :
    ∃ p, p₀.run SIZE repr events = .ok p ∧ Inv SIZE es repr p (tracked SIZE events) ∧
      Session.Follows Telemetry.sk Telemetry.phase (tracked SIZE events) p.writer :=
  run_follows hrepr (Inv.init hfits h₀) h₀.follows events hev

/-- **The table tracks the sockets reported open, while there is room.**  From a new poller,
every sequence of kernel events returns: no `assert` fails, `handle_close_socket` never throws,
and the loop of `send_stats_from_queue` ends.  The table then holds exactly the sockets of the
bounded set `tracked`: those reported by `new_sock_created` or `reset_tcp_counters` when the
table had room, and not closed since; and `tcp_index_to_sk_` gives each of them back from its
element. -/
theorem tracked_of_run (events : List TcpEvent) :
    ∃ p, p₀.run SIZE repr events = .ok p ∧
      (∀ sk, p.tcpSocketTable.contains sk = decide (sk ∈ tracked SIZE events)) ∧
      ∀ sk ∈ tracked SIZE events, p.tcpIndexToSk (p.tcpSocketTable.find SIZE sk).index = sk := by
  obtain ⟨p, hrun, h⟩ := inv_of_run hfits hrepr h₀ events
  refine ⟨p, hrun, h.contains_eq, fun sk hsk => ?_⟩
  obtain ⟨i, v, hk, hfind, -⟩ := h.find_of_mem hsk
  rw [hfind]
  exact h.indexToSk sk i hk

/-- **The telemetry of each socket is in order.**  Along every sequence of kernel events without
`reset_tcp_counters`, the messages written about each socket alternate `new_sock_info` and
`close_sock_info`, starting with `new_sock_info`; its `set_state` and `socket_stats` messages
all come while it is open; and the sockets left open are exactly those the table tracks. -/
theorem telemetry_of_run (events : List TcpEvent) (hev : ∀ ev ∈ events, ev.resets = false) :
    ∃ p, p₀.run SIZE repr events = .ok p ∧
      Session.Follows Telemetry.sk Telemetry.phase (tracked SIZE events) p.writer := by
  obtain ⟨p, hrun, -, hf⟩ := follows_of_run hfits hrepr h₀ events hev
  exact ⟨p, hrun, hf⟩

/-- **`reset_tcp_counters` of a tracked socket opens it twice.**  The handler writes
`new_sock_info` before it looks at the table, so for a socket the table already tracks (and
whose telemetry is open), the stream of that socket is out of order. -/
theorem reset_reopens_tracked (events : List TcpEvent) (hev : ∀ ev ∈ events, ev.resets = false)
    (t : UInt64) (msg : ResetTcpCounters) (hsk : msg.sk ∈ tracked SIZE events) :
    ∃ p, p₀.run SIZE repr (events ++ [.resetTcpCounters t msg]) = .ok p ∧
      Session.state Telemetry.sk Telemetry.phase msg.sk p.writer = none := by
  obtain ⟨p, hrun, h, hf⟩ := follows_of_run hfits hrepr h₀ events hev
  obtain ⟨p', he, -, hw⟩ := handleResetTcpCounters_spec hrepr h t msg
  refine ⟨p', by rw [run_snoc hrun]; exact he, ?_⟩
  rw [hw]
  exact Session.state_opens_of_open (m := Telemetry.newSockInfo t msg.pid msg.sk) hf rfl hsk

/-- **`reset_tcp_counters` on a full table leaves a socket open but untracked.**  When the table
is full, the handler has written `new_sock_info` for a socket it then drops: the socket's
telemetry is open while the table does not track it, and its `close_sock_info` event, which the
handler does not find in the table, writes nothing. -/
theorem reset_full_table_untracked (events : List TcpEvent)
    (hev : ∀ ev ∈ events, ev.resets = false) (hfull : (tracked SIZE events).card = SIZE)
    (t : UInt64) (msg : ResetTcpCounters) (hsk : msg.sk ∉ tracked SIZE events) :
    ∃ p, p₀.run SIZE repr (events ++ [.resetTcpCounters t msg]) = .ok p ∧
      Session.state Telemetry.sk Telemetry.phase msg.sk p.writer = some true ∧
      p.tcpSocketTable.contains msg.sk = false ∧
      ∀ t', ∃ p', p.handleCloseSocket SIZE t' msg.sk = .ok p' ∧ p'.writer = p.writer := by
  obtain ⟨p, hrun, h, hf⟩ := follows_of_run hfits hrepr h₀ events hev
  obtain ⟨p', he, h', hw⟩ := handleResetTcpCounters_spec hrepr h t msg
  -- the full table tracks what it tracked
  have hstep : trackedStep SIZE (tracked SIZE events) (.resetTcpCounters t msg) =
      tracked SIZE events := by
    rw [trackedStep, if_neg (by rw [hfull]; exact Nat.lt_irrefl SIZE)]
  rw [hstep] at h'
  refine ⟨p', by rw [run_snoc hrun]; exact he, ?_, ?_, fun t' => ?_⟩
  · rw [hw, (hf.opens (m := Telemetry.newSockInfo t msg.pid msg.sk) rfl hsk) msg.sk]
    simp [Telemetry.sk]
  · rw [h'.contains_eq, decide_eq_false hsk]
  · obtain ⟨p'', hc, -, hw', -⟩ := handleCloseSocket_spec hrepr h' t' msg.sk
    exact ⟨p'', hc, by rw [hw', if_neg hsk, List.append_nil]⟩

/-- **No statistic of an epoch is lost or sent twice.**  From every poller a run of events
reaches, the end of a poll in a new timeslot sends, for each element of the current epoch's
queue in order, its statistics when valid, under the socket `tcp_index_to_sk_` gives it, a
socket the table tracks; every valid statistic of the epoch is queued there once; none is valid
afterwards, and the store moves on to the other epoch. -/
theorem stats_of_poll (events : List TcpEvent) :
    ∃ p, p₀.run SIZE repr events = .ok p ∧ ∀ t, (p.tcpSocketStats.relativeTimeslot t).1 ≠ 0 →
      ∃ (p' : BufferedPoller) (l : List ℕ), p.endOfPoll SIZE t = .ok p' ∧ l.Nodup ∧
        (∀ i, (p.tcpStats i p.tcpSocketStats.currentQueue.toNat).valid = true →
          i ∈ l ∧ p.tcpIndexToSk i ∈ tracked SIZE events) ∧
        p'.writer = p.writer ++ l.flatMap (fun i => sentMessages t (p.tcpIndexToSk i)
          (p.tcpStats i p.tcpSocketStats.currentQueue.toNat)) ∧
        (∀ i, (p'.tcpStats i p.tcpSocketStats.currentQueue.toNat).valid = false) ∧
        p'.tcpSocketStats.currentQueue.toNat =
          (p.tcpSocketStats.currentQueue.toNat + 1) % nEpochs := by
  obtain ⟨p, hrun, h⟩ := inv_of_run hfits hrepr h₀ events
  refine ⟨p, hrun, fun t h0 => ?_⟩
  obtain ⟨p', l, he, -, hnodup, hmem, hw, hvalid, hcq⟩ := endOfPoll_new_slot h t h0
  exact ⟨p', l, he, hnodup, fun i hv => ⟨hmem i hv, h.indexToSk_mem hv⟩, hw, hvalid, hcq⟩

/-- **Closing a socket flushes its statistics.**  From every poller a run of events reaches,
`close_sock_info` of a tracked socket writes its valid statistics of the current epoch and of
the next, then `close_sock_info`; it leaves no valid statistic in the socket's element, so none
is sent later under the socket that takes the element next; and the socket leaves the table. -/
theorem close_flushes_stats (events : List TcpEvent) :
    ∃ p, p₀.run SIZE repr events = .ok p ∧ ∀ t sk, sk ∈ tracked SIZE events →
      ∃ p', p.handleCloseSocket SIZE t sk = .ok p' ∧
        p'.writer = p.writer ++ p.closeMessages t sk (p.tcpSocketTable.find SIZE sk).index ∧
        (∀ e, (p'.tcpStats (p.tcpSocketTable.find SIZE sk).index e).valid = false) ∧
        p'.tcpSocketTable.contains sk = false := by
  obtain ⟨p, hrun, h⟩ := inv_of_run hfits hrepr h₀ events
  refine ⟨p, hrun, fun t sk hsk => ?_⟩
  obtain ⟨p', he, h', hw, hvalid⟩ := handleCloseSocket_spec hrepr h t sk
  refine ⟨p', he, by rw [hw, if_pos hsk], hvalid hsk, ?_⟩
  rw [h'.contains_eq]
  simp

end New

/-- Two sockets of 32-byte entries: a socket opened, estimated, and a poll in a later
timeslot. -/
theorem tracked_of_run_two_sockets :
    ∃ p, (new 2 32 (fun _ => 0) ⟨1, 0⟩ (fun _ => 0)).run 2 TcpSocketEntry.bytes
        [.newSockCreated 0 7 5, .rttEstimator 1 ⟨10, 100, 5, 1, 0, 0, 0, 0, 0⟩, .endOfPoll 9] = .ok p ∧
      (∀ sk, p.tcpSocketTable.contains sk = decide (sk ∈ tracked 2
        [.newSockCreated 0 7 5, .rttEstimator 1 ⟨10, 100, 5, 1, 0, 0, 0, 0, 0⟩, .endOfPoll 9])) ∧
      ∀ sk ∈ tracked 2
        [.newSockCreated 0 7 5, .rttEstimator 1 ⟨10, 100, 5, 1, 0, 0, 0, 0, 0⟩, .endOfPoll 9],
        p.tcpIndexToSk (p.tcpSocketTable.find 2 sk).index = sk :=
  tracked_of_run (by decide : 2 * 32 ≤ 2 ^ 32) (fun v => (TcpSocketEntry.length_bytes v).le)
    (init_new _ _ _ (by decide) (by decide) (by decide) (by decide)) _

/-- A socket opened, its state set, and closed. -/
theorem telemetry_of_run_open_close :
    ∃ p, (new 2 32 (fun _ => 0) ⟨1, 0⟩ (fun _ => 0)).run 2 TcpSocketEntry.bytes
        [.newSockCreated 0 7 5, .setStateIpv4 1 1 2 80 8080 5 0, .closeSockInfo 2 5] = .ok p ∧
      Session.Follows Telemetry.sk Telemetry.phase
        (tracked 2 [.newSockCreated 0 7 5, .setStateIpv4 1 1 2 80 8080 5 0, .closeSockInfo 2 5])
        p.writer :=
  telemetry_of_run (by decide : 2 * 32 ≤ 2 ^ 32) (fun v => (TcpSocketEntry.length_bytes v).le)
    (init_new _ _ _ (by decide) (by decide) (by decide) (by decide)) _
    (by simp [TcpEvent.resets])

/-- A socket opened, then reset. -/
theorem reset_reopens_tracked_one_socket :
    ∃ p, (new 2 32 (fun _ => 0) ⟨1, 0⟩ (fun _ => 0)).run 2 TcpSocketEntry.bytes
        ([.newSockCreated 0 7 5] ++ [.resetTcpCounters 1 ⟨5, 0, 0, 0, 0, 7⟩]) = .ok p ∧
      Session.state Telemetry.sk Telemetry.phase 5 p.writer = none :=
  reset_reopens_tracked (by decide : 2 * 32 ≤ 2 ^ 32) (fun v => (TcpSocketEntry.length_bytes v).le)
    (init_new _ _ _ (by decide) (by decide) (by decide) (by decide)) [.newSockCreated 0 7 5]
    (by simp [TcpEvent.resets]) 1 ⟨5, 0, 0, 0, 0, 7⟩ (by decide)

/-- A table of one socket, full, and the reset of another. -/
theorem reset_full_table_untracked_one_socket :
    ∃ p, (new 1 32 (fun _ => 0) ⟨1, 0⟩ (fun _ => 0)).run 1 TcpSocketEntry.bytes
        ([.newSockCreated 0 7 5] ++ [.resetTcpCounters 1 ⟨6, 0, 0, 0, 0, 7⟩]) = .ok p ∧
      Session.state Telemetry.sk Telemetry.phase 6 p.writer = some true ∧
      p.tcpSocketTable.contains 6 = false ∧
      ∀ t', ∃ p', p.handleCloseSocket 1 t' 6 = .ok p' ∧ p'.writer = p.writer :=
  reset_full_table_untracked (by decide : 1 * 32 ≤ 2 ^ 32)
    (fun v => (TcpSocketEntry.length_bytes v).le)
    (init_new _ _ _ (by decide) (by decide) (by decide) (by decide)) [.newSockCreated 0 7 5]
    (by simp [TcpEvent.resets]) (by decide) 1 ⟨6, 0, 0, 0, 0, 7⟩ (by decide)

/-- A socket opened and estimated. -/
theorem stats_of_poll_one_estimate :
    ∃ p, (new 2 32 (fun _ => 0) ⟨1, 0⟩ (fun _ => 0)).run 2 TcpSocketEntry.bytes
        [.newSockCreated 0 7 5, .rttEstimator 1 ⟨10, 100, 5, 1, 0, 0, 0, 0, 0⟩] = .ok p ∧
      ∀ t, (p.tcpSocketStats.relativeTimeslot t).1 ≠ 0 →
      ∃ (p' : BufferedPoller) (l : List ℕ), p.endOfPoll 2 t = .ok p' ∧ l.Nodup ∧
        (∀ i, (p.tcpStats i p.tcpSocketStats.currentQueue.toNat).valid = true →
          i ∈ l ∧ p.tcpIndexToSk i ∈ tracked 2
            [.newSockCreated 0 7 5, .rttEstimator 1 ⟨10, 100, 5, 1, 0, 0, 0, 0, 0⟩]) ∧
        p'.writer = p.writer ++ l.flatMap (fun i => sentMessages t (p.tcpIndexToSk i)
          (p.tcpStats i p.tcpSocketStats.currentQueue.toNat)) ∧
        (∀ i, (p'.tcpStats i p.tcpSocketStats.currentQueue.toNat).valid = false) ∧
        p'.tcpSocketStats.currentQueue.toNat =
          (p.tcpSocketStats.currentQueue.toNat + 1) % nEpochs :=
  stats_of_poll (by decide : 2 * 32 ≤ 2 ^ 32) (fun v => (TcpSocketEntry.length_bytes v).le)
    (init_new _ _ _ (by decide) (by decide) (by decide) (by decide)) _

/-- A socket opened and estimated. -/
theorem close_flushes_stats_one_estimate :
    ∃ p, (new 2 32 (fun _ => 0) ⟨1, 0⟩ (fun _ => 0)).run 2 TcpSocketEntry.bytes
        [.newSockCreated 0 7 5, .rttEstimator 1 ⟨10, 100, 5, 1, 0, 0, 0, 0, 0⟩] = .ok p ∧
      ∀ t sk, sk ∈ tracked 2 [.newSockCreated 0 7 5, .rttEstimator 1 ⟨10, 100, 5, 1, 0, 0, 0, 0, 0⟩] →
      ∃ p', p.handleCloseSocket 2 t sk = .ok p' ∧
        p'.writer = p.writer ++ p.closeMessages t sk (p.tcpSocketTable.find 2 sk).index ∧
        (∀ e, (p'.tcpStats (p.tcpSocketTable.find 2 sk).index e).valid = false) ∧
        p'.tcpSocketTable.contains sk = false :=
  close_flushes_stats (by decide : 2 * 32 ≤ 2 ^ 32) (fun v => (TcpSocketEntry.length_bytes v).le)
    (init_new _ _ _ (by decide) (by decide) (by decide) (by decide)) _

end BufferedPoller

end Collector

end OtelEbpf
