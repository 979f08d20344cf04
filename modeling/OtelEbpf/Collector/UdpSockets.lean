import Mathlib
import OtelEbpf.Collector.TcpSockets
import OtelEbpf.Collector.NatHandler
import OtelEbpf.Reducer.DnsCache

/-!
# The UDP socket table of the collector

`BufferedPoller` (`collector/kernel/buffered_poller.cc`) tracks the UDP sockets the kernel
reports in `udp_socket_table_`, a `FixedHash` from the socket's `sk` to its entry
(`udp_socket_entry`): its local address, whether it was reported to the server, and per
direction (`is_rx`, `0` for TX and `1` for RX) its remote address and whether that changed.
The reducer knows a socket by `sk_id`, the index of its element.  Per direction,
`udp_socket_stats_[is_rx]`, a `MetricStore` of `n_epochs = 2` epochs, accumulates the packets,
bytes and drops of each element (`udp_statistics`) and queues the elements that changed.

* `handle_udp_new_socket` inserts the socket and reports it with `udp_new_socket`, but only
  when its local port is not `0` (`udp_send_new_socket`); a full table drops it, a duplicate is
  logged;
* `handle_udp_stats` adds a message's counts to the statistics of its direction in the epoch of
  its time; on an address change it first sends the valid statistics under the old address,
  sets the new one (the NAT mapping's for IPv4, when there is one), and sends the statistics
  again at once;
* `handle_udp_destroy_socket` of a reported socket sends its valid statistics of both directions
  and epochs and writes `udp_destroy_socket`; the socket is erased in every case;
* `udp_send_stats_from_queue`, for each direction in a new timeslot, sends the valid statistics
  of the elements of the current queue through `operator[]`, whose `assert` wants the element in
  use, and advances the store.

`udp_send_stats` reports an unreported socket first, writes the statistics message of the
address family that changed, and the drops of the RX direction.  The metrics
`arr_[index].m[epoch]` of the stores are the field `udpStats`; the `while` loop runs on fuel,
which suffices.  A failed `assert`, and an `is_rx` outside the two stores, are errors.  Debug
and trace logs, and the DNS requests that `handle_udp_destroy_socket` times out, are left out.

What the reducer expects is `Session.Follows` over `UdpTelemetry.skId`: per `sk_id`,
`udp_new_socket` and `udp_destroy_socket` alternate, and statistics come while it is open; and
it adds up the packets and bytes of every statistics message (`UdpTelemetry.traffic`).

* `Inv p S` : the table tracks `S`, the stores' queues hold lists, and valid statistics are
  below `SIZE`, in an epoch, and queued there; `Reported p` : every socket in the table was
  reported, and valid statistics belong to an element in use; `InOrder p S` : `Reported`, and
  the stream in order with the `sk_id`s of `S` open;
* `call_spec` : every event with an `is_rx` of `0` or `1`, whose new socket has a local port,
  returns and keeps `Inv` and `InOrder`;
* `udp_telemetry_in_order` : from a new poller, every such run returns, the table holds the
  sockets of `udpTracked`, and the stream of each `sk_id` is in order;
* `destroy_flushes_stats`, `udp_stats_of_poll` : the traffic written on destroying a socket, and
  by `udp_send_stats_from_queue`, is that of the valid statistics, each once, and none of them
  is valid afterwards;
* `address_change_double_counts` : an address change writes the statistics of its epoch under
  the old address when they are valid, and then again under the new one;
* `unreported_stats_assert` : the statistics of a socket reported without a local port, and
  destroyed before any address change, outlive it, and the next `udp_send_stats_from_queue` in a
  new timeslot stops on the `assert` of `operator[]`.

The handlers keep `Inv` on their own; `Reported` is what keeps the `assert` of
`udp_send_stats_from_queue` from failing, and a socket without a local port breaks it.
-/

namespace OtelEbpf

namespace Collector

open Container Refinement Bytes Reducer

/-- `AF_INET`. -/
def AF_INET : UInt8 := 2

/-- `AF_INET6`. -/
def AF_INET6 : UInt8 := 10

/-- `IPPROTO_UDP`. -/
def IPPROTO_UDP : UInt32 := 17

/-- `ntohs` on a little-endian host, the same swap as `htons`. -/
def ntohs (x : UInt16) : UInt16 := htons x

/-- `NatHandler::get_nat_mapping(src, dst, sport, dport, proto)`: the NAT mapping of the tuple,
its ports back in network order. -/
def NatHandler.getNatMapping (h : NatHandler) (src dst : UInt32) (sport dport : UInt16)
    (proto : UInt32) : Option HostportTuple :=
  h.natTable ⟨src, dst, htons sport, htons dport, proto⟩

/-- The address `{0, 0, 0, 0}`. -/
def zeroAddress : IPv6Address := ⟨List.replicate 16 0, List.length_replicate⟩

/-- `((u32 *)addr)[3]`, the IPv4 address of an IPv4-mapped address: its last four bytes, read on
a little-endian host. -/
def addrWord3 (a : IPv6Address) : UInt32 := UInt32.ofNat (leValue (a.bytes.drop 12))

/-- `struct udp_statistics`. -/
structure UdpStatistics where
  valid : Bool
  packets : UInt32
  bytes : UInt64
  drops : UInt32
  deriving DecidableEq, Repr

/-- The `udp_statistics` the store constructs: all zero, not valid. -/
def UdpStatistics.zero : UdpStatistics := ⟨false, 0, 0, 0⟩

/-- `struct udp_remote_endpoint`: `changed_af` is the address family when the address changed
since it was last reported, `0` otherwise. -/
structure UdpRemoteEndpoint where
  addr : IPv6Address
  port : UInt16
  changedAf : UInt8
  deriving DecidableEq

/-- The `udp_remote_endpoint` of a new entry. -/
def UdpRemoteEndpoint.zero : UdpRemoteEndpoint := ⟨zeroAddress, 0, 0⟩

/-- `struct udp_socket_entry`; `addrs` is indexed by `is_rx`. -/
structure UdpSocketEntry where
  laddr : IPv6Address
  lport : UInt16
  reported : Bool
  pid : UInt32
  sk : UInt64
  addrs : Fin 2 → UdpRemoteEndpoint

/-- The `udp_socket_entry` `insert` constructs. -/
def UdpSocketEntry.zero : UdpSocketEntry := ⟨zeroAddress, 0, false, 0, 0, fun _ => .zero⟩

/-- The 20 bytes of a `udp_remote_endpoint` on a little-endian host, the padding zero. -/
def UdpRemoteEndpoint.bytes (a : UdpRemoteEndpoint) : List UInt8 :=
  a.addr.bytes ++ leBytes 2 a.port.toNat ++ [a.changedAf, 0]

/-- The 72 bytes of a `udp_socket_entry` on a little-endian host, the padding zero. -/
def UdpSocketEntry.bytes (e : UdpSocketEntry) : List UInt8 :=
  e.laddr.bytes ++ leBytes 2 e.lport.toNat ++ [if e.reported then 1 else 0, 0] ++
    leBytes 4 e.pid.toNat ++ leBytes 8 e.sk.toNat ++ (e.addrs 0).bytes ++ (e.addrs 1).bytes

theorem UdpSocketEntry.length_bytes (e : UdpSocketEntry) : e.bytes.length = 72 := by
  simp [bytes, UdpRemoteEndpoint.bytes, IPv6Address.length_bytes]

/-- `jb_agent_internal__udp_new_socket`. -/
structure UdpNewSocket where
  pid : UInt32
  sk : UInt64
  laddr : IPv6Address
  lport : UInt16
  deriving DecidableEq

/-- `jb_agent_internal__udp_stats`. -/
structure UdpStats where
  sk : UInt64
  raddr : IPv6Address
  packets : UInt32
  bytes : UInt32
  changedAf : UInt8
  rport : UInt16
  isRx : UInt8
  laddr : IPv6Address
  lport : UInt16
  drops : UInt32
  deriving DecidableEq

/-- A message `writer_` sends to the reducer about a UDP socket, with its timestamp; the socket
is named by its `sk_id`. -/
inductive UdpTelemetry
  | udpNewSocket (t : UInt64) (pid skId : UInt32) (laddr : IPv6Address) (lport : UInt16)
  | udpStatsAddrChangedV4 (t : UInt64) (skId : UInt32) (isRx : UInt8) (packets bytes raddr : UInt32)
      (rport : UInt16)
  | udpStatsAddrChangedV6 (t : UInt64) (skId : UInt32) (isRx : UInt8) (packets bytes : UInt32)
      (raddr : IPv6Address) (rport : UInt16)
  | udpStatsAddrUnchanged (t : UInt64) (skId : UInt32) (isRx : UInt8) (packets bytes : UInt32)
  | udpStatsDropsChanged (t : UInt64) (skId drops : UInt32)
  | udpDestroySocket (t : UInt64) (skId : UInt32)
  deriving DecidableEq

/-- A line `log_` writes from a UDP handler: `"handle_udp_new_socket: udp socket table full!
dropping socket"`, `"handle_udp_new_socket: duplicate udp socket"`,
`"handle_udp_destroy_socket: removing socket from table failed sk=…"` and
`"handle_udp_stats: stats for missing socket sk=…"`. -/
inductive UdpLogLine
  | tableFull
  | duplicate
  | eraseFailed (sk : UInt64)
  | missingSocket (sk : UInt64)
  deriving DecidableEq, Repr

/-- A kernel event the poller hands to a UDP handler, `udp_send_stats_from_queue(t)`, which
`process_samples` calls at the end of a poll, or `set_all_probes_loaded()`. -/
inductive UdpEvent
  | udpNewSocket (t : UInt64) (msg : UdpNewSocket)
  | udpDestroySocket (t sk : UInt64)
  | udpStats (t : UInt64) (msg : UdpStats)
  | udpSendStatsFromQueue (t : UInt64)
  | allProbesLoaded

/-- What of a `BufferedPoller` its UDP handlers use. -/
structure UdpPoller where
  udpSocketTable : FixedHash UInt64 UdpSocketEntry
  udpSocketTableEverFull : Bool
  allProbesLoaded : Bool
  /-- the queues of `udp_socket_stats_[is_rx]` -/
  udpSocketStats : Fin 2 → Util.MetricStore
  /-- the metrics of `udp_socket_stats_[is_rx]`: `arr_[index].m[epoch]` -/
  udpStats : Fin 2 → ℕ → ℕ → UdpStatistics
  natHandler : NatHandler
  writer : List UdpTelemetry
  log : List UdpLogLine

/-- `udp_send_new_socket(ts, entry, index)`: a socket with a local port is reported; the
messages, and the entry after. -/
def udpSendNewSocket (ts : UInt64) (entry : UdpSocketEntry) (index : ℕ) :
    List UdpTelemetry × UdpSocketEntry :=
  if entry.lport ≠ 0 then
    ([.udpNewSocket ts entry.pid (UInt32.ofNat index) entry.laddr entry.lport],
      { entry with reported := true })
  else ([], entry)

/-- The `switch (addr.changed_af)` of `udp_send_stats`: the statistics under a changed IPv4 or
IPv6 address, or with the address unchanged. -/
def statsMessage (t : UInt64) (skId : UInt32) (isRx : Fin 2) (addr : UdpRemoteEndpoint)
    (stats : UdpStatistics) : UdpTelemetry :=
  if addr.changedAf = AF_INET then
    .udpStatsAddrChangedV4 t skId (UInt8.ofNat isRx) stats.packets stats.bytes.toUInt32
      (addrWord3 addr.addr) addr.port
  else if addr.changedAf = AF_INET6 then
    .udpStatsAddrChangedV6 t skId (UInt8.ofNat isRx) stats.packets stats.bytes.toUInt32 addr.addr
      addr.port
  else .udpStatsAddrUnchanged t skId (UInt8.ofNat isRx) stats.packets stats.bytes.toUInt32

/-- `udp_send_stats(t, sk_id, is_rx, entry, stats)`: the messages, the entry after (its address
of `is_rx` no longer changed) and the statistics after (no longer valid). -/
def udpSendStats (t : UInt64) (skId : UInt32) (isRx : Fin 2) (entry : UdpSocketEntry)
    (stats : UdpStatistics) : List UdpTelemetry × UdpSocketEntry × UdpStatistics :=
  let addr := entry.addrs isRx
  let r := if entry.reported = false then udpSendNewSocket t entry skId.toNat else ([], entry)
  let drops : List UdpTelemetry :=
    if isRx = 1 ∧ stats.drops > 0 then [.udpStatsDropsChanged t skId stats.drops] else []
  (r.1 ++ statsMessage t skId isRx addr stats :: drops,
    { r.2 with addrs := Function.update r.2.addrs isRx { addr with changedAf := 0 } },
    { stats with valid := false })

/-- The entry after the address change of `handle_udp_stats`: the local address and the remote
address of `is_rx` are the NAT mapping's for an IPv4 socket that has one, else the message's,
and `changed_af` is the message's. -/
def changedEntry (nat : NatHandler) (entry : UdpSocketEntry) (isRx : Fin 2) (msg : UdpStats) :
    UdpSocketEntry :=
  let ft := if msg.changedAf = AF_INET then
      nat.getNatMapping (addrWord3 msg.laddr) (addrWord3 msg.raddr) (ntohs msg.lport)
        (ntohs msg.rport) IPPROTO_UDP
    else none
  match ft with
  | some ft =>
    { entry with
      laddr := ipv4Mapped ft.srcIp
      lport := ntohs ft.srcPort
      addrs := Function.update entry.addrs isRx
        ⟨ipv4Mapped ft.dstIp, ntohs ft.dstPort, msg.changedAf⟩ }
  | none =>
    { entry with
      laddr := msg.laddr
      lport := ntohs msg.lport
      addrs := Function.update entry.addrs isRx ⟨msg.raddr, ntohs msg.rport, msg.changedAf⟩ }

/-- The statistics after a message: reset to the message's counts when not valid, else
accumulated. -/
def UdpStatistics.accumulate (stats : UdpStatistics) (msg : UdpStats) : UdpStatistics :=
  if !stats.valid then ⟨true, msg.packets, msg.bytes.toUInt64, msg.drops⟩
  else ⟨true, stats.packets + msg.packets, stats.bytes + msg.bytes.toUInt64, stats.drops + msg.drops⟩

namespace UdpPoller

variable (SIZE : ℕ) (repr : UdpSocketEntry → List UInt8)

/-- Whether a handler logs a socket it does not find:
`!udp_socket_table_ever_full_ && all_probes_loaded_`. -/
def logsMissing (p : UdpPoller) : Bool := !p.udpSocketTableEverFull && p.allProbesLoaded

/-- The entry of element `index` written through its reference. -/
def setEntry (p : UdpPoller) (index : ℕ) (entry : UdpSocketEntry) : UdpPoller :=
  { p with udpSocketTable := ⟨p.udpSocketTable.map, p.udpSocketTable.pool.set repr index entry⟩ }

/-- The statistics of element `index` in `epoch` of `udp_socket_stats_[is_rx]` set to `v`. -/
def setStats (p : UdpPoller) (isRx : Fin 2) (index epoch : ℕ) (v : UdpStatistics) : UdpPoller :=
  { p with udpStats := fun d i e => if d = isRx ∧ i = index ∧ e = epoch then v else p.udpStats d i e }

/-- The store `udp_socket_stats_[is_rx]` replaced. -/
def setStore (p : UdpPoller) (isRx : Fin 2) (s : Util.MetricStore) : UdpPoller :=
  { p with udpSocketStats := Function.update p.udpSocketStats isRx s }

/-- `udp_send_stats(t, index, is_rx, entry, stats)` on the entry `entry` of element `index` and
its statistics of `is_rx` in `epoch`: the messages are written and the entry and the statistics
written back; the entry is returned for the caller's reference. -/
def sendStats (p : UdpPoller) (t : UInt64) (index : ℕ) (isRx : Fin 2) (epoch : ℕ)
    (entry : UdpSocketEntry) : UdpPoller × UdpSocketEntry :=
  let r := udpSendStats t (UInt32.ofNat index) isRx entry (p.udpStats isRx index epoch)
  ({ (p.setEntry repr index r.2.1).setStats isRx index epoch r.2.2 with
    writer := p.writer ++ r.1 }, r.2.1)

/-- `if (stats.valid) udp_send_stats(t, index, is_rx, entry, stats)`. -/
def sendIfValid (p : UdpPoller) (t : UInt64) (index : ℕ) (isRx : Fin 2) (epoch : ℕ)
    (entry : UdpSocketEntry) : UdpPoller × UdpSocketEntry :=
  if (p.udpStats isRx index epoch).valid then p.sendStats repr t index isRx epoch entry
  else (p, entry)

/-- `handle_udp_new_socket`. -/
def handleUdpNewSocket (p : UdpPoller) (t : UInt64) (msg : UdpNewSocket) :
    Except String UdpPoller :=
  if p.udpSocketTable.full SIZE then
    .ok { p with log := p.log ++ [.tableFull], udpSocketTableEverFull := true }
  else
    let pos := p.udpSocketTable.insert SIZE repr msg.sk .zero
    if pos.1.index = invalid SIZE then
      .ok { p with udpSocketTable := pos.2, log := p.log ++ [.duplicate] }
    else
      match pos.1.entry with
      | none => .error "assert"
      | some entry =>
        -- the fields are written through `pos.entry`, then `udp_send_new_socket` reports it
        let r := udpSendNewSocket t
          { entry with pid := msg.pid, sk := msg.sk, laddr := msg.laddr, lport := msg.lport }
          pos.1.index
        .ok { p with
          udpSocketTable := ⟨pos.2.map, pos.2.pool.set repr pos.1.index r.2⟩
          writer := p.writer ++ r.1 }

/-- The statistics loop of `handle_udp_destroy_socket` over the directions and the epochs: the
statistics of the socket's element in each, `lookup_relative(index, epoch, false)`, sent through
the entry's reference when valid. -/
def sendEpochStats (t : UInt64) (index : ℕ) :
    List (Fin 2 × ℕ) → UdpPoller × UdpSocketEntry → Except String (UdpPoller × UdpSocketEntry)
  | [], q => .ok q
  | (isRx, epoch) :: rounds, (p, entry) =>
    match (p.udpSocketStats isRx).lookupRelative SIZE nEpochs (UInt32.ofNat index)
        (UInt32.ofNat epoch) false with
    | none => .error "assert"
    | some ((_, e), store) =>
      sendEpochStats t index rounds ((p.setStore isRx store).sendIfValid repr t index isRx e entry)

/-- The rounds of that loop: `is_rx` from `0` to `1`, and for each the epochs from `0` to
`n_epochs - 1`. -/
def destroyRounds : List (Fin 2 × ℕ) :=
  (List.finRange 2).flatMap fun isRx => (List.range nEpochs).map fun epoch => (isRx, epoch)

/-- `handle_udp_destroy_socket`. -/
def handleUdpDestroySocket (p : UdpPoller) (t sk : UInt64) : Except String UdpPoller :=
  let pos := p.udpSocketTable.find SIZE sk
  if pos.index = invalid SIZE then .ok p
  else
    match pos.entry with
    | none => .error "assert"
    | some entry => do
      let p ← if entry.reported then do
          let q ← sendEpochStats SIZE repr t pos.index destroyRounds (p, entry)
          .ok { q.1 with writer := q.1.writer ++ [.udpDestroySocket t (UInt32.ofNat pos.index)] }
        else .ok p
      let r := p.udpSocketTable.erase SIZE sk
      .ok { p with
        udpSocketTable := r.2
        log := if r.1 then p.log else p.log ++ [.eraseFailed sk] }

/-- The `if (msg.changed_af != 0)` branch of `handle_udp_stats` on the entry `entry` of element
`index` and its statistics of `is_rx` in `epoch`: valid statistics are sent under the old
address, and, the address changed, sent again at once. -/
def changeAddress (p : UdpPoller) (t : UInt64) (index : ℕ) (isRx : Fin 2) (epoch : ℕ)
    (entry : UdpSocketEntry) (msg : UdpStats) : UdpPoller :=
  let q := p.sendIfValid repr t index isRx epoch entry
  (q.1.sendStats repr t index isRx epoch (changedEntry q.1.natHandler q.2 isRx msg)).1

/-- `handle_udp_stats`. -/
def handleUdpStats (p : UdpPoller) (t : UInt64) (msg : UdpStats) : Except String UdpPoller :=
  let pos := p.udpSocketTable.find SIZE msg.sk
  if pos.index = invalid SIZE then
    .ok (if p.logsMissing then { p with log := p.log ++ [.missingSocket msg.sk] } else p)
  else
    match pos.entry with
    | none => .error "assert"
    | some entry =>
      if h : msg.isRx.toNat < 2 then
        let isRx : Fin 2 := ⟨msg.isRx.toNat, h⟩
        match (p.udpSocketStats isRx).lookup SIZE nEpochs (UInt32.ofNat pos.index) t true with
        | none => .error "assert"
        | some ((_, e), store) =>
          let p := p.setStore isRx store
          let p := if msg.changedAf ≠ 0 then p.changeAddress repr t pos.index isRx e entry msg
            else p
          .ok (p.setStats isRx pos.index e ((p.udpStats isRx pos.index e).accumulate msg))
      -- `udp_socket_stats_[is_rx]` out of the array's bounds
      else .error "is_rx"

/-- `if (stats.valid) udp_send_stats(t, index, is_rx, udp_socket_table_[index], stats)` in the
loop of `udp_send_stats_from_queue`: `operator[]` asserts that the element is in use. -/
def sendQueued (p : UdpPoller) (t : UInt64) (index : ℕ) (isRx : Fin 2) (epoch : ℕ) :
    Except String UdpPoller :=
  if (p.udpStats isRx index epoch).valid then
    match p.udpSocketTable.pool.get SIZE index with
    | none => .error "assert"
    | some entry => .ok (p.sendStats repr t index isRx epoch entry).1
  else .ok p

/-- The `while (!queue.empty())` loop of `udp_send_stats_from_queue` for the store of `is_rx`,
on fuel: each element of the current queue has its valid statistics of the current epoch sent,
and leaves the queue. -/
def drainQueue (t : UInt64) (isRx : Fin 2) : ℕ → UdpPoller → Except String UdpPoller
  | 0, _ => .error "fuel"
  | fuel + 1, p =>
    match (p.udpSocketStats isRx).peek SIZE nEpochs with
    | none => .ok p
    | some index =>
      match (p.udpSocketStats isRx).lookupRelative SIZE nEpochs (UInt32.ofNat index) 0 false with
      | none => .error "assert"
      | some ((_, e), store) =>
        match (p.setStore isRx store).sendQueued SIZE repr t index isRx e with
        | .error err => .error err
        | .ok p =>
          match (p.udpSocketStats isRx).pop SIZE nEpochs with
          | none => .error "assert"
          | some store => drainQueue t isRx fuel (p.setStore isRx store)

/-- A round of `udp_send_stats_from_queue(t)`, for the store of `is_rx`: nothing in its current
timeslot; else its current queue is drained, `SIZE` elements at most, and it advances. -/
def sendStoreFromQueue (p : UdpPoller) (t : UInt64) (isRx : Fin 2) : Except String UdpPoller :=
  let r := (p.udpSocketStats isRx).relativeTimeslot t
  let p := p.setStore isRx r.2
  if r.1 = 0 then .ok p
  else do
    let p ← drainQueue SIZE repr t isRx (SIZE + 1) p
    .ok (p.setStore isRx ((p.udpSocketStats isRx).advance nEpochs))

/-- `udp_send_stats_from_queue(t)`: TX, then RX. -/
def udpSendStatsFromQueue (p : UdpPoller) (t : UInt64) : Except String UdpPoller := do
  let p ← p.sendStoreFromQueue SIZE repr t 0
  p.sendStoreFromQueue SIZE repr t 1

/-- The poller after an event. -/
def call (p : UdpPoller) : UdpEvent → Except String UdpPoller
  | .udpNewSocket t msg => p.handleUdpNewSocket SIZE repr t msg
  | .udpDestroySocket t sk => p.handleUdpDestroySocket SIZE repr t sk
  | .udpStats t msg => p.handleUdpStats SIZE repr t msg
  | .udpSendStatsFromQueue t => p.udpSendStatsFromQueue SIZE repr t
  | .allProbesLoaded => .ok { p with allProbesLoaded := true }

/-- The poller after a sequence of events, or the error that stopped it. -/
def run (p : UdpPoller) (events : List UdpEvent) : Except String UdpPoller :=
  events.foldlM (call SIZE repr) p

variable (es : ℕ) in
/-- A new poller: a new table, new stores with the poller's `tslot_`, nothing written. -/
def Init (p : UdpPoller) : Prop :=
  p.udpSocketTable.Init SIZE es ∧ p.udpSocketTableEverFull = false ∧ p.allProbesLoaded = false ∧
    (∃ tToTimeslot, p.udpSocketStats = fun _ => Util.MetricStore.new SIZE tToTimeslot) ∧
    p.udpStats = (fun _ _ _ => UdpStatistics.zero) ∧ p.writer = [] ∧ p.log = []

variable (es : ℕ) in
/-- `BufferedPoller(...)`, as far as its UDP handlers go: the table over the storage `mem`, both
stores with `tslot`, and the NAT handler `nat`. -/
def new (mem : ℕ → UInt8) (tslot : Util.FastDiv) (nat : NatHandler) : UdpPoller :=
  ⟨FixedHash.new SIZE es mem, false, false, fun _ => Util.MetricStore.new SIZE tslot,
    fun _ _ _ => .zero, nat, [], []⟩

variable {SIZE} {es : ℕ} in
theorem init_new (mem : ℕ → UInt8) (tslot : Util.FastDiv) (nat : NatHandler)
    (hpos : 0 < SIZE) (hSIZE : SIZE < 2 ^ 32) (hes : 4 ≤ es) (hes' : es < 2 ^ 32) :
    (new SIZE es mem tslot nat).Init SIZE es :=
  ⟨FixedHash.init_new SIZE es mem hpos hSIZE hes hes', rfl, rfl, ⟨tslot, rfl⟩, rfl, rfl, rfl⟩

end UdpPoller

/-! ### What the reducer expects -/

/-- The `sk_id` a message is about. -/
def UdpTelemetry.skId : UdpTelemetry → UInt32
  | .udpNewSocket _ _ skId _ _ => skId
  | .udpStatsAddrChangedV4 _ skId _ _ _ _ _ => skId
  | .udpStatsAddrChangedV6 _ skId _ _ _ _ _ => skId
  | .udpStatsAddrUnchanged _ skId _ _ _ => skId
  | .udpStatsDropsChanged _ skId _ => skId
  | .udpDestroySocket _ skId => skId

/-- What a message does to its `sk_id` at the reducer: `udp_new_socket` starts the span,
`udp_destroy_socket` ends it, and the statistics are about a live span. -/
def UdpTelemetry.phase : UdpTelemetry → Session.Phase
  | .udpNewSocket .. => .opens
  | .udpDestroySocket .. => .closes
  | _ => .uses

/-- The packets and bytes a message adds to its flow at the reducer: `update_udp_stats` adds
those of every statistics message. -/
def UdpTelemetry.traffic : UdpTelemetry → ℕ × ℕ
  | .udpStatsAddrChangedV4 _ _ _ packets bytes _ _ => (packets.toNat, bytes.toNat)
  | .udpStatsAddrChangedV6 _ _ _ packets bytes _ _ => (packets.toNat, bytes.toNat)
  | .udpStatsAddrUnchanged _ _ _ packets bytes => (packets.toNat, bytes.toNat)
  | _ => (0, 0)

/-- The packets and bytes a stream of messages adds at the reducer. -/
def trafficOf (ms : List UdpTelemetry) : ℕ × ℕ := (ms.map UdpTelemetry.traffic).sum

/-- The packets and bytes statistics report: the bytes as the `u32` of the message. -/
def UdpStatistics.traffic (s : UdpStatistics) : ℕ × ℕ := (s.packets.toNat, s.bytes.toUInt32.toNat)

/-- The traffic statistics add when they are sent if valid: none when they are not. -/
def UdpStatistics.validTraffic (s : UdpStatistics) : ℕ × ℕ := if s.valid then s.traffic else 0

/-- The sockets a table of `SIZE` entries tracks, as a set: a socket `udp_new_socket` reports
joins while there is room, and `udp_destroy_socket` takes one out. -/
def udpTrackedStep (SIZE : ℕ) (S : Finset UInt64) : UdpEvent → Finset UInt64
  | .udpNewSocket _ msg => if S.card < SIZE then insert msg.sk S else S
  | .udpDestroySocket _ sk => S.erase sk
  | _ => S

/-- The sockets tracked after a sequence of events. -/
def udpTracked (SIZE : ℕ) (events : List UdpEvent) : Finset UInt64 :=
  events.foldl (udpTrackedStep SIZE) ∅

/-- An event as the kernel sends it: the `is_rx` of statistics is `0` or `1`. -/
def UdpEvent.inRange : UdpEvent → Bool
  | .udpStats _ msg => decide (msg.isRx.toNat < 2)
  | _ => true

/-- A new socket reported with a local port. -/
def UdpEvent.bound : UdpEvent → Bool
  | .udpNewSocket _ msg => msg.lport != 0
  | _ => true

/-- The `sk_id`s of the sockets `S`: the indices of their elements. -/
def UdpPoller.skIds (SIZE : ℕ) (p : UdpPoller) (S : Finset UInt64) : Finset UInt32 :=
  S.image fun sk => UInt32.ofNat (p.udpSocketTable.find SIZE sk).index

/-- The epoch that `lookup(index, t, ·)` of the store of `is_rx` returns for time `t`. -/
def UdpPoller.epochOf (p : UdpPoller) (isRx : Fin 2) (t : UInt64) : ℕ :=
  let r := (p.udpSocketStats isRx).relativeTimeslot t
  r.2.epoch nEpochs (Util.histogramBin (UInt32.ofNat nEpochs) r.1.toInt32)

@[simp] theorem trafficOf_nil : trafficOf [] = 0 := rfl

@[simp] theorem trafficOf_cons (m : UdpTelemetry) (ms : List UdpTelemetry) :
    trafficOf (m :: ms) = m.traffic + trafficOf ms := by
  simp [trafficOf]

@[simp] theorem trafficOf_append (ms ms' : List UdpTelemetry) :
    trafficOf (ms ++ ms') = trafficOf ms + trafficOf ms' := by
  simp [trafficOf]

/-! ### One `udp_send_stats` -/

section Send

variable {t : UInt64} {skId : UInt32} {isRx : Fin 2} {addr : UdpRemoteEndpoint}
  {entry : UdpSocketEntry} {stats : UdpStatistics}

theorem statsMessage_traffic : (statsMessage t skId isRx addr stats).traffic = stats.traffic := by
  unfold statsMessage
  split_ifs <;> rfl

theorem statsMessage_skId : (statsMessage t skId isRx addr stats).skId = skId := by
  unfold statsMessage
  split_ifs <;> rfl

theorem statsMessage_phase : (statsMessage t skId isRx addr stats).phase = .uses := by
  unfold statsMessage
  split_ifs <;> rfl

/-- A socket with a local port is reported. -/
theorem udpSendNewSocket_reported (index : ℕ) (h : entry.lport ≠ 0) :
    udpSendNewSocket t entry index =
      ([.udpNewSocket t entry.pid (UInt32.ofNat index) entry.laddr entry.lport],
        { entry with reported := true }) :=
  if_pos h

/-- ... and one without is not. -/
theorem udpSendNewSocket_unbound (index : ℕ) (h : entry.lport = 0) :
    udpSendNewSocket t entry index = ([], entry) :=
  if_neg (not_not.2 h)

/-- The messages of a reported socket: its statistics under the address of the direction, and
the drops of the RX direction. -/
theorem udpSendStats_of_reported (h : entry.reported = true) :
    (udpSendStats t skId isRx entry stats).1 = statsMessage t skId isRx (entry.addrs isRx) stats ::
      if isRx = 1 ∧ stats.drops > 0 then [.udpStatsDropsChanged t skId stats.drops] else [] := by
  simp [udpSendStats, h]

/-- The messages about a reported socket are uses of its `sk_id`. -/
theorem mem_udpSendStats (h : entry.reported = true) {m : UdpTelemetry}
    (hm : m ∈ (udpSendStats t skId isRx entry stats).1) : m.phase = .uses ∧ m.skId = skId := by
  rw [udpSendStats_of_reported h] at hm
  rcases List.mem_cons.1 hm with rfl | hm
  · exact ⟨statsMessage_phase, statsMessage_skId⟩
  · split_ifs at hm
    · rw [List.mem_singleton.1 hm]
      exact ⟨rfl, rfl⟩
    · cases hm

/-- `udp_send_stats` writes the traffic of the statistics once: a report of the socket and the
drops carry none. -/
theorem trafficOf_udpSendStats :
    trafficOf (udpSendStats t skId isRx entry stats).1 = stats.traffic := by
  have hnew : ∀ index, trafficOf (udpSendNewSocket t entry index).1 = 0 := by
    intro index
    unfold udpSendNewSocket
    split <;> rfl
  have hdrops : trafficOf (if isRx = 1 ∧ stats.drops > 0 then
      [UdpTelemetry.udpStatsDropsChanged t skId stats.drops] else []) = 0 := by
    split <;> rfl
  simp only [udpSendStats, trafficOf_append, trafficOf_cons, statsMessage_traffic, hdrops]
  split
  · rw [hnew]
    simp
  · simp

/-- A reported socket stays reported. -/
theorem udpSendStats_reported (h : entry.reported = true) :
    (udpSendStats t skId isRx entry stats).2.1.reported = true := by
  simp [udpSendStats, h]

@[simp] theorem udpSendStats_stats :
    (udpSendStats t skId isRx entry stats).2.2 = { stats with valid := false } := rfl

end Send

namespace UdpPoller

/-! ### What the handlers change -/

variable {SIZE es : ℕ} {repr : UdpSocketEntry → List UInt8} {p p' : UdpPoller}
  {S : Finset UInt64} {t : UInt64} {index epoch : ℕ} {isRx : Fin 2} {entry : UdpSocketEntry}
  {v : UdpStatistics} {s : Util.MetricStore}

@[simp] theorem setEntry_map :
    (p.setEntry repr index entry).udpSocketTable.map = p.udpSocketTable.map := rfl

@[simp] theorem setEntry_udpStats : (p.setEntry repr index entry).udpStats = p.udpStats := rfl

@[simp] theorem setEntry_udpSocketStats :
    (p.setEntry repr index entry).udpSocketStats = p.udpSocketStats := rfl

@[simp] theorem setStats_udpSocketTable :
    (p.setStats isRx index epoch v).udpSocketTable = p.udpSocketTable := rfl

@[simp] theorem setStats_udpSocketStats :
    (p.setStats isRx index epoch v).udpSocketStats = p.udpSocketStats := rfl

@[simp] theorem setStats_writer : (p.setStats isRx index epoch v).writer = p.writer := rfl

theorem setStats_udpStats (d : Fin 2) (i e : ℕ) :
    (p.setStats isRx index epoch v).udpStats d i e =
      if d = isRx ∧ i = index ∧ e = epoch then v else p.udpStats d i e := rfl

@[simp] theorem setStore_udpSocketTable : (p.setStore isRx s).udpSocketTable = p.udpSocketTable :=
  rfl

@[simp] theorem setStore_udpStats : (p.setStore isRx s).udpStats = p.udpStats := rfl

@[simp] theorem setStore_natHandler : (p.setStore isRx s).natHandler = p.natHandler := rfl

@[simp] theorem setStore_writer : (p.setStore isRx s).writer = p.writer := rfl

@[simp] theorem setStore_udpSocketStats (d : Fin 2) :
    (p.setStore isRx s).udpSocketStats d = if d = isRx then s else p.udpSocketStats d :=
  Function.update_apply _ _ _ _

@[simp] theorem setStore_self : p.setStore isRx (p.udpSocketStats isRx) = p := by
  simp [setStore]

@[simp] theorem sendStats_writer :
    (p.sendStats repr t index isRx epoch entry).1.writer =
      p.writer ++ (udpSendStats t (UInt32.ofNat index) isRx entry (p.udpStats isRx index epoch)).1 :=
  rfl

@[simp] theorem sendStats_map :
    (p.sendStats repr t index isRx epoch entry).1.udpSocketTable.map = p.udpSocketTable.map := rfl

@[simp] theorem sendStats_udpSocketStats :
    (p.sendStats repr t index isRx epoch entry).1.udpSocketStats = p.udpSocketStats := rfl

@[simp] theorem sendStats_natHandler :
    (p.sendStats repr t index isRx epoch entry).1.natHandler = p.natHandler := rfl

@[simp] theorem sendStats_snd :
    (p.sendStats repr t index isRx epoch entry).2 =
      (udpSendStats t (UInt32.ofNat index) isRx entry (p.udpStats isRx index epoch)).2.1 := rfl

theorem sendStats_pool :
    (p.sendStats repr t index isRx epoch entry).1.udpSocketTable.pool =
      p.udpSocketTable.pool.set repr index (p.sendStats repr t index isRx epoch entry).2 := rfl

/-- The statistics sent are invalid afterwards, and no others change. -/
theorem sendStats_udpStats (d : Fin 2) (i e : ℕ) :
    (p.sendStats repr t index isRx epoch entry).1.udpStats d i e =
      if d = isRx ∧ i = index ∧ e = epoch then { p.udpStats d i e with valid := false }
      else p.udpStats d i e := by
  show (if d = isRx ∧ i = index ∧ e = epoch then _ else _) = _
  split
  · obtain ⟨rfl, rfl, rfl⟩ := ‹d = isRx ∧ i = index ∧ e = epoch›
    rfl
  · rfl

theorem sendStats_valid {d : Fin 2} {i e : ℕ}
    (hv : ((p.sendStats repr t index isRx epoch entry).1.udpStats d i e).valid = true) :
    ¬ (d = isRx ∧ i = index ∧ e = epoch) ∧ (p.udpStats d i e).valid = true := by
  rw [sendStats_udpStats] at hv
  split at hv
  · simp at hv
  · exact ⟨‹_›, hv⟩

@[simp] theorem sendIfValid_map :
    (p.sendIfValid repr t index isRx epoch entry).1.udpSocketTable.map = p.udpSocketTable.map := by
  unfold sendIfValid
  split <;> rfl

@[simp] theorem sendIfValid_udpSocketStats :
    (p.sendIfValid repr t index isRx epoch entry).1.udpSocketStats = p.udpSocketStats := by
  unfold sendIfValid
  split <;> rfl

@[simp] theorem sendIfValid_natHandler :
    (p.sendIfValid repr t index isRx epoch entry).1.natHandler = p.natHandler := by
  unfold sendIfValid
  split <;> rfl

theorem sendIfValid_writer :
    (p.sendIfValid repr t index isRx epoch entry).1.writer = p.writer ++
      if (p.udpStats isRx index epoch).valid then
        (udpSendStats t (UInt32.ofNat index) isRx entry (p.udpStats isRx index epoch)).1
      else [] := by
  unfold sendIfValid
  split <;> simp

/-- The reference of a reported entry stays reported. -/
theorem sendIfValid_reported (hrep : entry.reported = true) :
    (p.sendIfValid repr t index isRx epoch entry).2.reported = true := by
  unfold sendIfValid
  split
  · rw [sendStats_snd]
    exact udpSendStats_reported hrep
  · exact hrep

/-- The statistics sent are invalid afterwards, and no others change. -/
theorem sendIfValid_udpStats (d : Fin 2) (i e : ℕ) :
    (p.sendIfValid repr t index isRx epoch entry).1.udpStats d i e =
      if d = isRx ∧ i = index ∧ e = epoch then { p.udpStats d i e with valid := false }
      else p.udpStats d i e := by
  unfold sendIfValid
  split
  · exact sendStats_udpStats d i e
  · split
    · obtain ⟨rfl, rfl, rfl⟩ := ‹d = isRx ∧ i = index ∧ e = epoch›
      -- the statistics were invalid already
      cases hs : p.udpStats d i e
      simp_all
    · rfl

/-- What `sendIfValid` writes carries the traffic of the statistics when they are valid. -/
theorem trafficOf_sendIfValid :
    trafficOf ((p.sendIfValid repr t index isRx epoch entry).1.writer.drop p.writer.length) =
      (p.udpStats isRx index epoch).validTraffic := by
  rw [sendIfValid_writer, List.drop_left, UdpStatistics.validTraffic]
  split
  · exact trafficOf_udpSendStats
  · rfl

/-! ### The invariant -/

variable (SIZE es repr) in
/-- A poller whose table tracks the sockets `S`: the stores' queues hold lists, and valid
statistics are below `SIZE`, in an epoch, and queued there. -/
structure Inv (p : UdpPoller) (S : Finset UInt64) : Prop where
  table : p.udpSocketTable.Tracks SIZE es repr S
  store : ∀ d, Util.MetricStore.Inv SIZE nEpochs (p.udpSocketStats d)
  valid : ∀ d i e, (p.udpStats d i e).valid = true → e < nEpochs ∧ i < SIZE
  queued : ∀ d i e, (p.udpStats d i e).valid = true →
    (p.udpSocketStats d).next i e ≠ Util.invalid SIZE

/-- Every socket in the table was reported, and valid statistics belong to an element in
use. -/
structure Reported (p : UdpPoller) : Prop where
  reported : ∀ (sk : UInt64) (i : ℕ) (w : UdpSocketEntry), p.udpSocketTable.map[sk]? = some i →
    p.udpSocketTable.pool.objects i = some w → w.reported = true
  inUse : ∀ d i e, (p.udpStats d i e).valid = true → ∃ sk : UInt64, p.udpSocketTable.map[sk]? = some i

variable (SIZE) in
/-- `Reported`, and the stream in order with the `sk_id`s of the sockets `S` open. -/
def InOrder (p : UdpPoller) (S : Finset UInt64) : Prop :=
  Reported p ∧ Session.Follows UdpTelemetry.skId UdpTelemetry.phase (p.skIds SIZE S) p.writer

/-! ### The `sk_id`s of a table -/

/-- The `sk_id`s read only the map. -/
theorem skIds_congr (hmap : ∀ a : UInt64, p'.udpSocketTable.map[a]? = p.udpSocketTable.map[a]?) :
    p'.skIds SIZE S = p.skIds SIZE S := by
  unfold skIds
  simp only [FixedHash.find_index, hmap]

section SkIds

variable (h : p.udpSocketTable.Tracks SIZE es repr S)
include h

/-- An element below `SIZE` is an `sk_id` of `S` exactly when a socket has it. -/
theorem ofNat_mem_skIds {i : ℕ} (hi : i < SIZE) :
    UInt32.ofNat i ∈ p.skIds SIZE S ↔ ∃ sk : UInt64, p.udpSocketTable.map[sk]? = some i := by
  unfold skIds
  rw [Finset.mem_image]
  constructor
  · rintro ⟨sk, hsk, he⟩
    obtain ⟨j, w, hj, hfind, hjlt, -⟩ := h.find_of_mem hsk
    rw [hfind] at he
    exact ⟨sk, by rw [hj, h.ofNat_inj hjlt hi he]⟩
  · rintro ⟨sk, hsk⟩
    exact ⟨sk, h.mem_of_map hsk, by rw [FixedHash.find_index, hsk]; rfl⟩

/-- The `sk_id` of a socket of `S`. -/
theorem mem_skIds {sk : UInt64} {i : ℕ} (hk : p.udpSocketTable.map[sk]? = some i) :
    UInt32.ofNat i ∈ p.skIds SIZE S :=
  (ofNat_mem_skIds h (h.lt_of_map hk)).2 ⟨sk, hk⟩

omit h in
/-- A socket that joins in element `i` adds the `sk_id` `i`. -/
theorem skIds_insert {sk : UInt64} (hsk : sk ∉ S) {i : ℕ}
    (hmap : ∀ a : UInt64, p'.udpSocketTable.map[a]? =
      if a = sk then some i else p.udpSocketTable.map[a]?) :
    p'.skIds SIZE (insert sk S) = insert (UInt32.ofNat i) (p.skIds SIZE S) := by
  unfold skIds
  rw [Finset.image_insert, FixedHash.find_index, hmap sk, if_pos rfl]
  congr 1
  refine Finset.image_congr fun a ha => ?_
  have hne : a ≠ sk := fun has => hsk (has ▸ ha)
  simp only [FixedHash.find_index, hmap a, if_neg hne]

/-- A socket that leaves from element `i` takes the `sk_id` `i` out. -/
theorem skIds_erase {sk : UInt64} {i : ℕ} (hk : p.udpSocketTable.map[sk]? = some i)
    (hmap : ∀ a : UInt64, p'.udpSocketTable.map[a]? =
      if a = sk then none else p.udpSocketTable.map[a]?) :
    p'.skIds SIZE (S.erase sk) = (p.skIds SIZE S).erase (UInt32.ofNat i) := by
  ext k
  simp only [skIds, Finset.mem_image, Finset.mem_erase, FixedHash.find_index]
  constructor
  · rintro ⟨a, ⟨hne, ha⟩, rfl⟩
    obtain ⟨j, w, hj, -, hjlt, -⟩ := h.find_of_mem ha
    rw [hmap a, if_neg hne, hj]
    -- another socket has another element
    refine ⟨fun he => hne (h.inj hj ?_), a, ha, by rw [hj]⟩
    rw [h.ofNat_inj hjlt (h.lt_of_map hk) he]
    exact hk
  · rintro ⟨hki, a, ha, rfl⟩
    have hne : a ≠ sk := by
      rintro rfl
      rw [hk] at hki
      exact hki rfl
    exact ⟨a, ⟨hne, ha⟩, by rw [hmap a, if_neg hne]⟩

end SkIds

namespace Inv

variable (h : Inv SIZE es repr p S)
include h

/-- What the invariant reads is the table, the stores and the statistics. -/
theorem of_frame (htable : p'.udpSocketTable = p.udpSocketTable)
    (hstore : p'.udpSocketStats = p.udpSocketStats) (hstats : p'.udpStats = p.udpStats) :
    Inv SIZE es repr p' S where
  table := htable ▸ h.table
  store := hstore ▸ h.store
  valid := hstats ▸ h.valid
  queued := hstore ▸ hstats ▸ h.queued

/-- Another table of the same keys. -/
theorem of_table {T : Finset UInt64} (htable : p'.udpSocketTable.Tracks SIZE es repr T)
    (hstore : p'.udpSocketStats = p.udpSocketStats) (hstats : p'.udpStats = p.udpStats) :
    Inv SIZE es repr p' T where
  table := htable
  store := hstore ▸ h.store
  valid := hstats ▸ h.valid
  queued := hstore ▸ hstats ▸ h.queued

/-- Another store of `is_rx` that keeps its own invariant and has the valid statistics
queued. -/
theorem setStore (hs : Util.MetricStore.Inv SIZE nEpochs s)
    (hnext : ∀ i e, (p.udpStats isRx i e).valid = true → s.next i e ≠ Util.invalid SIZE) :
    Inv SIZE es repr (p.setStore isRx s) S where
  table := h.table
  store d := by
    rw [setStore_udpSocketStats]
    split
    · exact hs
    · exact h.store d
  valid := h.valid
  queued d i e hv := by
    rw [setStore_udpSocketStats]
    split
    · subst d
      exact hnext i e hv
    · exact h.queued d i e hv

/-- A store of `is_rx` with the same links. -/
theorem setStore_links (hs : Util.MetricStore.Inv SIZE nEpochs s)
    (hnext : s.next = (p.udpSocketStats isRx).next) : Inv SIZE es repr (p.setStore isRx s) S :=
  h.setStore hs fun i e hv => hnext ▸ h.queued isRx i e hv

/-- Valid statistics written in element `index`, below `SIZE`, and in an epoch where the store
queues it. -/
theorem setStats (hv : v.valid = true → epoch < nEpochs ∧ index < SIZE ∧
      (p.udpSocketStats isRx).next index epoch ≠ Util.invalid SIZE) :
    Inv SIZE es repr (p.setStats isRx index epoch v) S where
  table := h.table
  store := h.store
  valid d i e hv' := by
    rw [setStats_udpStats] at hv'
    split at hv'
    · obtain ⟨rfl, rfl, rfl⟩ := ‹d = isRx ∧ i = index ∧ e = epoch›
      exact ⟨(hv hv').1, (hv hv').2.1⟩
    · exact h.valid d i e hv'
  queued d i e hv' := by
    rw [setStats_udpStats] at hv'
    split at hv'
    · obtain ⟨rfl, rfl, rfl⟩ := ‹d = isRx ∧ i = index ∧ e = epoch›
      exact (hv hv').2.2
    · exact h.queued d i e hv'

variable (hrepr : ∀ w, (repr w).length ≤ es)
include hrepr

/-- Statistics sent through the entry of a socket's element keep the invariant. -/
theorem sendStats {sk : UInt64} (hk : p.udpSocketTable.map[sk]? = some index) :
    Inv SIZE es repr (p.sendStats repr t index isRx epoch entry).1 S where
  table := h.table.set hrepr hk _
  store := h.store
  valid d i e hv := h.valid d i e (sendStats_valid hv).2
  queued d i e hv := h.queued d i e (sendStats_valid hv).2

theorem sendIfValid {sk : UInt64} (hk : p.udpSocketTable.map[sk]? = some index) :
    Inv SIZE es repr (p.sendIfValid repr t index isRx epoch entry).1 S := by
  unfold UdpPoller.sendIfValid
  split
  · exact h.sendStats hrepr hk
  · exact h

end Inv

theorem Inv.init (hfits : SIZE * es ≤ 2 ^ 32) (h₀ : p.Init SIZE es) : Inv SIZE es repr p ∅ := by
  obtain ⟨htable, -, -, ⟨tslot, hstore⟩, hstats, -, -⟩ := h₀
  have hmap : p.udpSocketTable.map = ∅ := htable.1
  refine ⟨⟨⟨_, FixedHash.Abs.init hfits htable⟩, fun sk => by simp [hmap]⟩, fun d => ?_,
    fun d i e hv => ?_, fun d i e hv => ?_⟩
  · rw [hstore]
    exact Util.MetricStore.inv_new (by decide) tslot
  all_goals rw [hstats] at hv; cases hv

namespace Reported

variable (hr : Reported p)
include hr

theorem of_frame (hmap : ∀ a : UInt64, p'.udpSocketTable.map[a]? = p.udpSocketTable.map[a]?)
    (hobj : p'.udpSocketTable.pool.objects = p.udpSocketTable.pool.objects)
    (hstats : p'.udpStats = p.udpStats) : Reported p' where
  reported sk i w hk hw := by
    rw [hmap] at hk
    rw [hobj] at hw
    exact hr.reported sk i w hk hw
  inUse d i e hv := by
    rw [hstats] at hv
    obtain ⟨sk, hk⟩ := hr.inUse d i e hv
    exact ⟨sk, by rw [hmap]; exact hk⟩

theorem setStore : Reported (p.setStore isRx s) := hr.of_frame (fun _ => rfl) rfl rfl

/-- Statistics written in an element in use. -/
theorem setStats (hv : v.valid = true → ∃ sk : UInt64, p.udpSocketTable.map[sk]? = some index) :
    Reported (p.setStats isRx index epoch v) where
  reported := hr.reported
  inUse d i e hv' := by
    rw [setStats_udpStats] at hv'
    split at hv'
    · obtain ⟨rfl, rfl, rfl⟩ := ‹d = isRx ∧ i = index ∧ e = epoch›
      exact hv hv'
    · exact hr.inUse d i e hv'

/-- Statistics sent through a reported entry of an element. -/
theorem sendStats (hrep : entry.reported = true) :
    Reported (p.sendStats repr t index isRx epoch entry).1 where
  reported sk i w hk hw := by
    rw [sendStats_map] at hk
    rw [sendStats_pool] at hw
    -- the objects of a pool after `set`
    change Function.update p.udpSocketTable.pool.objects index (some _) i = some w at hw
    by_cases hi : i = index
    · subst hi
      rw [Function.update_self, Option.some.injEq] at hw
      rw [← hw, sendStats_snd]
      exact udpSendStats_reported hrep
    · rw [Function.update_of_ne hi] at hw
      exact hr.reported sk i w hk hw
  inUse d i e hv := hr.inUse d i e (sendStats_valid hv).2

/-- The reference of a reported entry stays reported. -/
theorem sendIfValid (hrep : entry.reported = true) :
    Reported (p.sendIfValid repr t index isRx epoch entry).1 ∧
      (p.sendIfValid repr t index isRx epoch entry).2.reported = true := by
  unfold UdpPoller.sendIfValid
  split
  · exact ⟨hr.sendStats hrep, by rw [sendStats_snd]; exact udpSendStats_reported hrep⟩
  · exact ⟨hr, hrep⟩

end Reported

/-! ### What is written -/

variable (K : Finset UInt32) in
/-- After `p`, `p'` has written only statistics, each about an `sk_id` of `K`. -/
def WritesUses (p p' : UdpPoller) : Prop :=
  ∃ ms : List UdpTelemetry, p'.writer = p.writer ++ ms ∧ ∀ m ∈ ms, m.phase = .uses ∧ m.skId ∈ K

namespace WritesUses

variable {K : Finset UInt32} {p'' : UdpPoller}

theorem of_writer (hw : p'.writer = p.writer) : WritesUses K p p' := ⟨[], by simp [hw], by simp⟩

theorem trans (h₁ : WritesUses K p p') (h₂ : WritesUses K p' p'') : WritesUses K p p'' := by
  obtain ⟨ms₁, hw₁, hms₁⟩ := h₁
  obtain ⟨ms₂, hw₂, hms₂⟩ := h₂
  refine ⟨ms₁ ++ ms₂, by rw [hw₂, hw₁, List.append_assoc], fun m hm => ?_⟩
  rcases List.mem_append.1 hm with hm | hm
  · exact hms₁ m hm
  · exact hms₂ m hm

/-- Statistics sent through a reported entry are uses of the element's `sk_id`. -/
theorem sendStats (hrep : entry.reported = true) (hK : UInt32.ofNat index ∈ K) :
    WritesUses K p (p.sendStats repr t index isRx epoch entry).1 :=
  ⟨_, sendStats_writer, fun _ hm => by
    obtain ⟨hp, hk⟩ := mem_udpSendStats hrep hm
    exact ⟨hp, hk ▸ hK⟩⟩

theorem sendIfValid (hrep : entry.reported = true) (hK : UInt32.ofNat index ∈ K) :
    WritesUses K p (p.sendIfValid repr t index isRx epoch entry).1 := by
  unfold UdpPoller.sendIfValid
  split
  · exact sendStats hrep hK
  · exact of_writer rfl

/-- A stream in order stays in order. -/
theorem follows (hw : WritesUses K p p')
    (ho : Session.Follows UdpTelemetry.skId UdpTelemetry.phase K p.writer) :
    Session.Follows UdpTelemetry.skId UdpTelemetry.phase K p'.writer := by
  obtain ⟨ms, hw, hms⟩ := hw
  rw [hw]
  exact ho.append_uses hms

end WritesUses

/-! ### An address change -/

@[simp] theorem changeAddress_map {msg : UdpStats} :
    (p.changeAddress repr t index isRx epoch entry msg).udpSocketTable.map =
      p.udpSocketTable.map := by
  simp [changeAddress]

@[simp] theorem changeAddress_udpSocketStats {msg : UdpStats} :
    (p.changeAddress repr t index isRx epoch entry msg).udpSocketStats = p.udpSocketStats := by
  simp [changeAddress]

theorem changedEntry_reported (nat : NatHandler) (msg : UdpStats) :
    (changedEntry nat entry isRx msg).reported = entry.reported := by
  unfold changedEntry
  split
  · -- an IPv4 change looks up the NAT mapping
    dsimp only
    split <;> rfl
  · rfl

/-- Both sends of an address change leave the statistics invalid, and no others change. -/
theorem changeAddress_udpStats {msg : UdpStats} (d : Fin 2) (i e : ℕ) :
    (p.changeAddress repr t index isRx epoch entry msg).udpStats d i e =
      if d = isRx ∧ i = index ∧ e = epoch then { p.udpStats d i e with valid := false }
      else p.udpStats d i e := by
  unfold changeAddress
  rw [sendStats_udpStats, sendIfValid_udpStats]
  split
  · obtain ⟨rfl, rfl, rfl⟩ := ‹d = isRx ∧ i = index ∧ e = epoch›
    simp
  · rfl

/-- **An address change writes the statistics twice.**  The valid statistics go out under the
old address, and then, no longer valid but with their counts, under the new one. -/
theorem trafficOf_changeAddress {msg : UdpStats} :
    trafficOf ((p.changeAddress repr t index isRx epoch entry msg).writer.drop p.writer.length) =
      (p.udpStats isRx index epoch).validTraffic + (p.udpStats isRx index epoch).traffic := by
  set q := p.sendIfValid repr t index isRx epoch entry
  have hq : q.1.writer = p.writer ++ q.1.writer.drop p.writer.length := by
    rw [sendIfValid_writer, List.drop_left]
  unfold changeAddress
  rw [sendStats_writer, hq, List.append_assoc, List.drop_left, trafficOf_append,
    trafficOf_sendIfValid, trafficOf_udpSendStats]
  simp only [sendIfValid_udpStats, and_self, if_true]
  rfl

theorem writesUses_changeAddress {K : Finset UInt32} {msg : UdpStats}
    (hrep : entry.reported = true) (hK : UInt32.ofNat index ∈ K) :
    WritesUses K p (p.changeAddress repr t index isRx epoch entry msg) :=
  (WritesUses.sendIfValid hrep hK).trans (WritesUses.sendStats
    (by rw [changedEntry_reported]; exact sendIfValid_reported hrep) hK)

theorem Inv.changeAddress (h : Inv SIZE es repr p S) (hrepr : ∀ w, (repr w).length ≤ es)
    {sk : UInt64} {msg : UdpStats} (hk : p.udpSocketTable.map[sk]? = some index) :
    Inv SIZE es repr (p.changeAddress repr t index isRx epoch entry msg) S :=
  (h.sendIfValid hrepr hk).sendStats hrepr (by rw [sendIfValid_map]; exact hk)

theorem Reported.changeAddress (hr : Reported p) {msg : UdpStats} (hrep : entry.reported = true) :
    Reported (p.changeAddress repr t index isRx epoch entry msg) :=
  (hr.sendIfValid hrep).1.sendStats (by rw [changedEntry_reported]; exact sendIfValid_reported hrep)

/-- What `InOrder` reads is the table, the statistics and the stream. -/
theorem InOrder.of_frame (hr : InOrder SIZE p S) (htable : p'.udpSocketTable = p.udpSocketTable)
    (hstats : p'.udpStats = p.udpStats) (hw : p'.writer = p.writer) : InOrder SIZE p' S :=
  ⟨hr.1.of_frame (fun _ => by rw [htable]) (by rw [htable]) hstats,
    by rw [hw, (skIds_congr fun _ => by rw [htable] : p'.skIds SIZE S = p.skIds SIZE S)]
       exact hr.2⟩

/-! ### The loop of `handle_udp_destroy_socket` -/

/-- The epochs the rounds of `handle_udp_destroy_socket`'s loop read, in the stores of `q`. -/
def roundEpochs (q : UdpPoller) (rounds : List (Fin 2 × ℕ)) : List (Fin 2 × ℕ) :=
  rounds.map fun r => (r.1, (q.udpSocketStats r.1).epoch nEpochs (UInt32.ofNat r.2))

/-- What a stream that grows twice has written since its first state. -/
theorem drop_length_trans {α : Type*} {a b c : List α} (hab : a <+: b) (hbc : b <+: c) :
    c.drop a.length = b.drop a.length ++ c.drop b.length := by
  obtain ⟨x, rfl⟩ := hab
  obtain ⟨y, rfl⟩ := hbc
  simp

theorem writer_prefix_sendIfValid :
    p.writer <+: (p.sendIfValid repr t index isRx epoch entry).1.writer :=
  ⟨_, sendIfValid_writer.symm⟩

/-- A round of `handle_udp_destroy_socket`'s loop, for an element below `SIZE` and an epoch. -/
theorem sendEpochStats_cons (hs : SIZE ≤ 2 ^ 30) {i b : ℕ} (hi : i < SIZE) (hb : b < nEpochs)
    (t : UInt64) (d : Fin 2) (rounds : List (Fin 2 × ℕ)) (q : UdpPoller) (w : UdpSocketEntry) :
    sendEpochStats SIZE repr t i ((d, b) :: rounds) (q, w) =
      sendEpochStats SIZE repr t i rounds
        (q.sendIfValid repr t i d ((q.udpSocketStats d).epoch nEpochs (UInt32.ofNat b)) w) := by
  have hi' : (UInt32.ofNat i).toNat = i :=
    UInt32.toNat_ofNat_of_lt' (by rw [UInt32.size]; omega)
  have hb' : (UInt32.ofNat b).toNat = b :=
    UInt32.toNat_ofNat_of_lt' (by rw [UInt32.size]; unfold nEpochs at hb; omega)
  rw [sendEpochStats, Util.MetricStore.lookupRelative_false, if_pos ⟨hi'.symm ▸ hi, hb'.symm ▸ hb⟩]
  simp only [setStore_self]

/-- The loop of `handle_udp_destroy_socket` over `rounds`, on the element `i` of a socket: the
valid statistics of each round's direction and epoch are sent through the entry, which stays
reported, and are invalid afterwards; on distinct epochs their traffic is written once each. -/
theorem sendEpochStats_spec (hrepr : ∀ w, (repr w).length ≤ es) {sk : UInt64} {i : ℕ}
    (t : UInt64) {K : Finset UInt32} (hK : UInt32.ofNat i ∈ K) :
    ∀ (rounds : List (Fin 2 × ℕ)) (q : UdpPoller) (w : UdpSocketEntry),
      (∀ r ∈ rounds, r.2 < nEpochs) → Inv SIZE es repr q S → q.udpSocketTable.map[sk]? = some i →
      ∃ q' w', sendEpochStats SIZE repr t i rounds (q, w) = .ok (q', w') ∧
        Inv SIZE es repr q' S ∧ q.writer <+: q'.writer ∧
        q'.udpSocketTable.map = q.udpSocketTable.map ∧ q'.udpSocketStats = q.udpSocketStats ∧
        (∀ d j e, q'.udpStats d j e = if j = i ∧ (d, e) ∈ roundEpochs q rounds then
          { q.udpStats d j e with valid := false } else q.udpStats d j e) ∧
        (w.reported = true → Reported q → Reported q' ∧ WritesUses K q q') ∧
        ((roundEpochs q rounds).Nodup → trafficOf (q'.writer.drop q.writer.length) =
          ((roundEpochs q rounds).map fun r => (q.udpStats r.1 i r.2).validTraffic).sum)
  | [], q, w, _, hq, _ =>
    ⟨q, w, rfl, hq, List.prefix_refl _, rfl, rfl, by simp [roundEpochs],
      fun _ hr => ⟨hr, WritesUses.of_writer rfl⟩, fun _ => by simp [roundEpochs]⟩
  | (d, b) :: rounds, q, w, hb, hq, hk => by
    have hi := hq.table.lt_of_map hk
    set e := (q.udpSocketStats d).epoch nEpochs (UInt32.ofNat b)
    set q₁ := q.sendIfValid repr t i d e w
    have hk₁ : q₁.1.udpSocketTable.map[sk]? = some i := by rw [sendIfValid_map]; exact hk
    have hre : roundEpochs q₁.1 rounds = roundEpochs q rounds := by simp [roundEpochs, q₁]
    obtain ⟨q', w', hrun, hq', hpre, hmap, hstore, hstats, hrep, htraffic⟩ :=
      sendEpochStats_spec hrepr t hK rounds q₁.1 q₁.2 (fun r hr => hb r (List.mem_cons_of_mem _ hr))
        (hq.sendIfValid hrepr hk) hk₁
    rw [hre] at hstats htraffic
    refine ⟨q', w', ?_, hq', writer_prefix_sendIfValid.trans hpre, ?_, ?_, fun d' j e' => ?_,
      fun hrep₀ hr => ?_, fun hnd => ?_⟩
    · rw [sendEpochStats_cons hq.table.size_le hi (hb (d, b) List.mem_cons_self)]
      exact hrun
    · rw [hmap, sendIfValid_map]
    · rw [hstore, sendIfValid_udpSocketStats]
    · have hmem : (d', e') ∈ roundEpochs q ((d, b) :: rounds) ↔
          (d' = d ∧ e' = e) ∨ (d', e') ∈ roundEpochs q rounds := by
        rw [show roundEpochs q ((d, b) :: rounds) = (d, e) :: roundEpochs q rounds from rfl,
          List.mem_cons, Prod.mk.injEq]
      rw [hstats, sendIfValid_udpStats]
      by_cases h1 : d' = d ∧ j = i ∧ e' = e
      · -- the round's own statistics
        rw [if_pos h1, if_pos (⟨h1.2.1, hmem.2 (Or.inl ⟨h1.1, h1.2.2⟩)⟩ :
          j = i ∧ (d', e') ∈ roundEpochs q ((d, b) :: rounds))]
        split <;> rfl
      by_cases h2 : j = i ∧ (d', e') ∈ roundEpochs q rounds
      · rw [if_neg h1, if_pos h2, if_pos (⟨h2.1, hmem.2 (Or.inr h2.2)⟩ :
          j = i ∧ (d', e') ∈ roundEpochs q ((d, b) :: rounds))]
      · rw [if_neg h1, if_neg h2, if_neg]
        rintro ⟨hj, hm⟩
        rcases hmem.1 hm with ⟨hd, he⟩ | hm
        · exact h1 ⟨hd, hj, he⟩
        · exact h2 ⟨hj, hm⟩
    · obtain ⟨hr₁, hrep₁⟩ := hr.sendIfValid hrep₀
      obtain ⟨hr', hw'⟩ := hrep hrep₁ hr₁
      exact ⟨hr', (WritesUses.sendIfValid hrep₀ hK).trans hw'⟩
    · obtain ⟨hde, hnd'⟩ :=
        List.nodup_cons.1 (show ((d, e) :: roundEpochs q rounds).Nodup from hnd)
      rw [drop_length_trans writer_prefix_sendIfValid hpre, trafficOf_append,
        trafficOf_sendIfValid, htraffic hnd']
      simp only [roundEpochs, List.map_cons, List.sum_cons]
      -- the other rounds read statistics the first one left alone
      refine congrArg _ (congrArg List.sum (List.map_congr_left fun r hr => ?_))
      have hne : ¬ (r.1 = d ∧ i = i ∧ r.2 = e) := fun hc =>
        hde (by rw [← hc.1, ← hc.2.2]; exact hr)
      rw [sendIfValid_udpStats, if_neg hne]

theorem roundEpochs_destroyRounds (q : UdpPoller) :
    roundEpochs q destroyRounds =
      [(0, (q.udpSocketStats 0).epoch nEpochs 0), (0, (q.udpSocketStats 0).epoch nEpochs 1),
        (1, (q.udpSocketStats 1).epoch nEpochs 0), (1, (q.udpSocketStats 1).epoch nEpochs 1)] :=
  rfl

/-- The rounds of `handle_udp_destroy_socket` read every epoch of both directions, once. -/
theorem Inv.cover_destroyRounds (h : Inv SIZE es repr p S) :
    (roundEpochs p destroyRounds).Nodup ∧
      ∀ d e, e < nEpochs → (d, e) ∈ roundEpochs p destroyRounds := by
  have h0 := (h.store 0).currentQueue_lt
  have h1 := (h.store 1).currentQueue_lt
  rw [roundEpochs_destroyRounds, epoch_zero h0, epoch_one h0, epoch_zero h1, epoch_one h1]
  unfold nEpochs at *
  refine ⟨by simp; omega, fun d e he => ?_⟩
  fin_cases d <;> simp <;> omega

/-- A sum over those rounds is the sum over both directions and both epochs. -/
theorem Inv.sum_destroyRounds (h : Inv SIZE es repr p S) (f : Fin 2 × ℕ → ℕ × ℕ) :
    ((roundEpochs p destroyRounds).map f).sum = ∑ d : Fin 2, ∑ e ∈ Finset.range nEpochs, f (d, e) := by
  have h0 := (h.store 0).currentQueue_lt
  have h1 := (h.store 1).currentQueue_lt
  rw [roundEpochs_destroyRounds, epoch_zero h0, epoch_one h0, epoch_zero h1, epoch_one h1]
  rcases currentQueue_cases h0 with c0 | c0 <;> rcases currentQueue_cases h1 with c1 | c1 <;>
    simp [c0, c1, Fin.sum_univ_two, Finset.sum_range_succ, nEpochs] <;> abel

/-- A socket whose element has no valid statistics leaves the table, and every other socket
stays reported. -/
theorem Reported.erase (hr : Reported p) (htab : p.udpSocketTable.Tracks SIZE es repr S)
    (hrepr : ∀ w, (repr w).length ≤ es) {sk : UInt64} {i : ℕ}
    (hk : p.udpSocketTable.map[sk]? = some i) (hinv : ∀ d e, (p.udpStats d i e).valid = false) :
    Reported { p with udpSocketTable := (p.udpSocketTable.erase SIZE sk).2 } := by
  obtain ⟨-, -, hmap, hobj, -⟩ := htab.erase_present hrepr hk
  refine ⟨fun sk' j w hk' hw => ?_, fun d j e hv => ?_⟩
  · change (p.udpSocketTable.erase SIZE sk).2.map[sk']? = some j at hk'
    change (p.udpSocketTable.erase SIZE sk).2.pool.objects j = some w at hw
    rw [hmap] at hk'
    split at hk'
    · cases hk'
    · rw [hobj] at hw
      have hji : j ≠ i := by
        rintro rfl
        rw [Function.update_self] at hw
        cases hw
      rw [Function.update_of_ne hji] at hw
      exact hr.reported sk' j w hk' hw
  · obtain ⟨sk', hk'⟩ := hr.inUse d j e hv
    have hji : j ≠ i := by
      rintro rfl
      rw [hinv] at hv
      cases hv
    have hne : sk' ≠ sk := by
      rintro rfl
      exact hji (Option.some.inj (hk'.symm.trans hk))
    refine ⟨sk', ?_⟩
    change (p.udpSocketTable.erase SIZE sk).2.map[sk']? = some j
    rw [hmap, if_neg hne]
    exact hk'

/-- A socket that joins in an element no socket had, with a reported entry, keeps every socket
reported. -/
theorem Reported.insert (hr : Reported p) {sk : UInt64} {i : ℕ}
    {T : FixedHash UInt64 UdpSocketEntry} {w₀ : UdpSocketEntry} (W : List UdpTelemetry)
    (hnone : p.udpSocketTable.map[sk]? = none) (hfresh : ∀ a : UInt64, p.udpSocketTable.map[a]? ≠ some i)
    (hmap : ∀ a : UInt64, T.map[a]? = if a = sk then some i else p.udpSocketTable.map[a]?)
    (hother : ∀ (a : UInt64) (j : ℕ), p.udpSocketTable.map[a]? = some j →
      T.pool.objects j = p.udpSocketTable.pool.objects j)
    (hrep : w₀.reported = true) :
    Reported { p with udpSocketTable := ⟨T.map, T.pool.set repr i w₀⟩, writer := W } := by
  refine ⟨fun sk' j w hk' hw => ?_, fun d j e hv => ?_⟩
  · change Function.update T.pool.objects i (some w₀) j = some w at hw
    change T.map[sk']? = some j at hk'
    rw [hmap] at hk'
    split at hk'
    · -- the new socket, in the new element
      cases hk'
      rw [Function.update_self, Option.some.injEq] at hw
      rw [← hw, hrep]
    · have hji : j ≠ i := fun hji => hfresh sk' (hji ▸ hk')
      rw [Function.update_of_ne hji, hother sk' j hk'] at hw
      exact hr.reported sk' j w hk' hw
  · obtain ⟨sk', hk'⟩ := hr.inUse d j e hv
    have hne : sk' ≠ sk := by
      rintro rfl
      rw [hnone] at hk'
      cases hk'
    refine ⟨sk', ?_⟩
    change T.map[sk']? = some j
    rw [hmap, if_neg hne]
    exact hk'

/-- The epoch `lookup(index, t, ·)` returns is `epochOf`. -/
theorem epochOf_of_lookup {d : Fin 2} {index : UInt32} {t : UInt64} {enqueue w : Bool} {e : ℕ}
    {s' : Util.MetricStore}
    (hl : (p.udpSocketStats d).lookup SIZE nEpochs index t enqueue = some ((w, e), s')) :
    e = p.epochOf d t :=
  (Util.MetricStore.lookupRelative_epoch (by rw [← Util.MetricStore.lookup_eq]; exact hl)).1

/-- The first `lookup` of a store without a current timeslot is in its current epoch, and makes
the timeslot of `t` current. -/
theorem lookup_of_none {s s' : Util.MetricStore} (hs : s.currentTimeslot = none) {index : UInt32}
    {t : UInt64} {enqueue w : Bool} {e : ℕ}
    (hl : s.lookup SIZE nEpochs index t enqueue = some ((w, e), s')) :
    e = s.epoch nEpochs 0 ∧ s'.currentQueue = s.currentQueue ∧
      s'.currentTimeslot = some (Util.FastDiv.divide t s.tToTimeslot).toUInt16 ∧
      s'.tToTimeslot = s.tToTimeslot := by
  have h0 : (s.relativeTimeslot t).1 = 0 :=
    (Util.MetricStore.relativeTimeslot_fst_eq_zero s t).2 (Or.inl hs)
  have hbin : Util.histogramBin (UInt32.ofNat nEpochs) (0 : Int16).toInt32 = 0 := by decide
  rw [Util.MetricStore.lookup_eq, h0, hbin, Util.MetricStore.relativeTimeslot_of_none hs] at hl
  obtain ⟨he, hc, ht⟩ := Util.MetricStore.lookupRelative_epoch hl
  exact ⟨he, by rw [Util.MetricStore.lookupRelative_currentQueue hl], hc, ht⟩

/-! ### The handlers -/

section Handlers

variable (hrepr : ∀ w, (repr w).length ≤ es) (h : Inv SIZE es repr p S)
include h

include hrepr in
/-- `handle_udp_new_socket`: an untracked socket joins a table with room, in a new element, and
is reported there when it has a local port; a full table or a duplicate changes nothing tracked
and writes nothing. -/
theorem handleUdpNewSocket_spec (t : UInt64) (msg : UdpNewSocket) :
    ∃ p', p.handleUdpNewSocket SIZE repr t msg = .ok p' ∧
      Inv SIZE es repr p' (udpTrackedStep SIZE S (.udpNewSocket t msg)) ∧
      (msg.lport ≠ 0 → InOrder SIZE p S →
        InOrder SIZE p' (udpTrackedStep SIZE S (.udpNewSocket t msg))) := by
  by_cases hfull : p.udpSocketTable.full SIZE = true
  · have hcard : ¬ S.card < SIZE := fun hc => by
      rw [h.table.card_lt_iff.1 hc] at hfull
      cases hfull
    refine ⟨_, if_pos hfull, ?_, fun _ hr => ?_⟩ <;> rw [udpTrackedStep, if_neg hcard]
    · exact h.of_frame rfl rfl rfl
    · exact hr.of_frame rfl rfl rfl
  have hfull' : p.udpSocketTable.full SIZE = false := Bool.eq_false_iff.2 hfull
  have hcard : S.card < SIZE := h.table.card_lt_iff.2 hfull'
  rw [udpTrackedStep, if_pos hcard]
  by_cases hsk : msg.sk ∈ S
  · -- a duplicate leaves the map and the elements as they were
    obtain ⟨hpos, htab, hmap⟩ := h.table.insert_present hsk UdpSocketEntry.zero
    have hmem : msg.sk ∈ p.udpSocketTable.map := by
      rw [Std.HashMap.mem_iff_isSome_getElem?, Option.isSome_iff_ne_none]
      exact mt (h.table.tracked msg.sk).1 (not_not.2 hsk)
    have hpool : (p.udpSocketTable.insert SIZE repr msg.sk .zero).2.pool = p.udpSocketTable.pool :=
      FixedHash.insert_pool_of_mem hmem _
    refine ⟨{ p with
      udpSocketTable := (p.udpSocketTable.insert SIZE repr msg.sk .zero).2
      log := p.log ++ [.duplicate] }, ?_, ?_, fun _ hr => ?_⟩
    · simp [handleUdpNewSocket, hfull', hpos]
    · rw [Finset.insert_eq_of_mem hsk]
      exact h.of_table htab rfl rfl
    · rw [Finset.insert_eq_of_mem hsk]
      exact ⟨hr.1.of_frame hmap (by rw [hpool]) rfl, by rw [skIds_congr hmap]; exact hr.2⟩
  · obtain ⟨i, hpos, hne, hi, hfresh, htab, -, hother, hmap⟩ :=
      h.table.insert_fresh hrepr hsk hfull' UdpSocketEntry.zero
    set ins := p.udpSocketTable.insert SIZE repr msg.sk .zero
    set e₀ : UdpSocketEntry := { UdpSocketEntry.zero with
      pid := msg.pid, sk := msg.sk, laddr := msg.laddr, lport := msg.lport }
    set r := udpSendNewSocket t e₀ i
    have hk : ins.2.map[msg.sk]? = some i := by rw [hmap, if_pos rfl]
    refine ⟨{ p with
      udpSocketTable := ⟨ins.2.map, ins.2.pool.set repr i r.2⟩
      writer := p.writer ++ r.1 }, ?_, h.of_table (htab.set hrepr hk r.2) rfl rfl,
      fun hport hr => ?_⟩
    · simp only [handleUdpNewSocket, hfull', Bool.false_eq_true, if_false]
      rw [hpos]
      simp only [if_neg hne]
      rfl
    -- the new socket is reported, in an element no socket had
    have hr₂ : r = ([.udpNewSocket t msg.pid (UInt32.ofNat i) msg.laddr msg.lport],
        { e₀ with reported := true }) := udpSendNewSocket_reported i hport
    refine ⟨hr.1.insert _ ((h.table.tracked _).2 hsk) hfresh hmap hother (by rw [hr₂]), ?_⟩
    · show Session.Follows _ _ (UdpPoller.skIds SIZE _ (insert msg.sk S)) (p.writer ++ r.1)
      have hids : UdpPoller.skIds SIZE { p with
          udpSocketTable := ⟨ins.2.map, ins.2.pool.set repr i r.2⟩
          writer := p.writer ++ r.1 } (insert msg.sk S) =
          insert (UInt32.ofNat i) (p.skIds SIZE S) := skIds_insert hsk hmap
      rw [hids, hr₂]
      exact hr.2.opens rfl fun hmem => by
        obtain ⟨sk', hk'⟩ := (ofNat_mem_skIds h.table hi).1 hmem
        exact hfresh sk' hk'

include hrepr in
/-- `handle_udp_stats` with an `is_rx` of `0` or `1`: for a tracked socket, the message's counts
are accumulated into the statistics of its direction in the epoch of `t`, queued there, after an
address change has sent them under the old address and again under the new one; only
statistics of the socket are written, and nothing else is tracked. -/
theorem handleUdpStats_spec (t : UInt64) (msg : UdpStats) (hin : msg.isRx.toNat < 2) :
    ∃ p', p.handleUdpStats SIZE repr t msg = .ok p' ∧ Inv SIZE es repr p' S ∧
      (InOrder SIZE p S → InOrder SIZE p' S) := by
  by_cases hsk : msg.sk ∉ S
  · refine ⟨if p.logsMissing then { p with log := p.log ++ [.missingSocket msg.sk] } else p,
      by simp [handleUdpStats, h.table.find_of_not_mem hsk], ?_, fun hr => ?_⟩ <;> split
    · exact h.of_frame rfl rfl rfl
    · exact h
    · exact hr.of_frame rfl rfl rfl
    · exact hr
  obtain ⟨i, v, hk, hfind, hi, hv⟩ := h.table.find_of_mem (not_not.1 hsk)
  have hne : i ≠ invalid SIZE := Nat.ne_of_lt (lt_invalid h.table.size_le hi)
  have hi' : (UInt32.ofNat i).toNat = i := h.table.toNat_ofNat hi
  set d : Fin 2 := ⟨msg.isRx.toNat, hin⟩
  obtain ⟨w, e, s', hl, he, hs', hnext, hmono, -⟩ :=
    (h.store d).lookup_enqueue (by have := h.table.size_le; omega) (by decide) (hi'.symm ▸ hi) t
  rw [hi'] at hnext
  -- the store queues the element in the epoch of `t`, and keeps every valid statistic queued
  have h₁ : Inv SIZE es repr (p.setStore d s') S :=
    h.setStore hs' fun j f hv => hmono j f (h.valid d j f hv).2 (h.queued d j f hv)
  set p₂ := if msg.changedAf ≠ 0 then (p.setStore d s').changeAddress repr t i d e v msg
    else p.setStore d s' with hp₂
  have h₂ : Inv SIZE es repr p₂ S := by
    rw [hp₂]
    split
    · exact h₁.changeAddress hrepr hk
    · exact h₁
  have hstore₂ : p₂.udpSocketStats d = s' := by
    rw [hp₂]
    split <;> simp
  have hmap₂ : ∀ a : UInt64, p₂.udpSocketTable.map[a]? = p.udpSocketTable.map[a]? := by
    rw [hp₂]
    split <;> simp
  refine ⟨p₂.setStats d i e ((p₂.udpStats d i e).accumulate msg), ?_,
    h₂.setStats fun _ => ⟨he, hi, by rw [hstore₂]; exact hnext⟩, fun hr => ?_⟩
  · simp only [handleUdpStats, hfind, if_neg hne, dif_pos hin]
    rw [hl]
  -- the entry of a tracked socket is reported, and stays so
  have hrep : v.reported = true := hr.1.reported msg.sk i v hk hv
  have hr₂ : Reported p₂ ∧ WritesUses (p.skIds SIZE S) p p₂ := by
    rw [hp₂]
    split
    · exact ⟨hr.1.setStore.changeAddress hrep,
        (WritesUses.of_writer rfl).trans (writesUses_changeAddress hrep (mem_skIds h.table hk))⟩
    · exact ⟨hr.1.setStore, WritesUses.of_writer rfl⟩
  refine ⟨hr₂.1.setStats fun _ => ⟨msg.sk, by rw [hmap₂]; exact hk⟩, ?_⟩
  rw [skIds_congr (p := p) (fun a => by rw [setStats_udpSocketTable, hmap₂])]
  exact hr₂.2.follows hr.2

/-- For a tracked socket, `handle_udp_stats` with an address change writes the statistics of the
message's epoch under the old address when they are valid, and then again under the new one,
with their counts, valid or not. -/
theorem trafficOf_handleUdpStats (t : UInt64) (msg : UdpStats) (hin : msg.isRx.toNat < 2)
    (hsk : msg.sk ∈ S) (hch : msg.changedAf ≠ 0) :
    ∃ p', p.handleUdpStats SIZE repr t msg = .ok p' ∧
      trafficOf (p'.writer.drop p.writer.length) =
        (p.udpStats ⟨msg.isRx.toNat, hin⟩ (p.udpSocketTable.find SIZE msg.sk).index
          (p.epochOf ⟨msg.isRx.toNat, hin⟩ t)).validTraffic +
        (p.udpStats ⟨msg.isRx.toNat, hin⟩ (p.udpSocketTable.find SIZE msg.sk).index
          (p.epochOf ⟨msg.isRx.toNat, hin⟩ t)).traffic := by
  obtain ⟨i, v, hk, hfind, hi, hv⟩ := h.table.find_of_mem hsk
  have hne : i ≠ invalid SIZE := Nat.ne_of_lt (lt_invalid h.table.size_le hi)
  have hi' : (UInt32.ofNat i).toNat = i := h.table.toNat_ofNat hi
  set d : Fin 2 := ⟨msg.isRx.toNat, hin⟩
  obtain ⟨w, e, s', hl, -⟩ :=
    (h.store d).lookup_enqueue (by have := h.table.size_le; omega) (by decide) (hi'.symm ▸ hi) t
  set p₂ := (p.setStore d s').changeAddress repr t i d e v msg
  refine ⟨p₂.setStats d i e ((p₂.udpStats d i e).accumulate msg), ?_, ?_⟩
  · simp only [handleUdpStats, hfind, if_neg hne, dif_pos hin]
    rw [hl]
    simp only [if_pos hch]
    rfl
  · rw [hfind, ← epochOf_of_lookup hl]
    exact trafficOf_changeAddress (p := p.setStore d s')

include hrepr in
/-- `handle_udp_destroy_socket` of a socket whose entry was never reported erases it and sends
nothing: its statistics stay as they are, valid ones included, and its element is free. -/
theorem handleUdpDestroySocket_unreported {t sk : UInt64} {i : ℕ} {v : UdpSocketEntry}
    (hk : p.udpSocketTable.map[sk]? = some i) (hv : p.udpSocketTable.pool.objects i = some v)
    (hrep : v.reported = false) :
    ∃ p', p.handleUdpDestroySocket SIZE repr t sk = .ok p' ∧ Inv SIZE es repr p' (S.erase sk) ∧
      p'.udpStats = p.udpStats ∧ p'.udpSocketStats = p.udpSocketStats ∧
      ∀ sk' : UInt64, p'.udpSocketTable.map[sk']? ≠ some i := by
  obtain ⟨i', v', hk', hfind, hi, hv'⟩ := h.table.find_of_mem (h.table.mem_of_map hk)
  obtain rfl : i' = i := Option.some.inj (hk'.symm.trans hk)
  obtain rfl : v' = v := Option.some.inj (hv'.symm.trans hv)
  have hne : i' ≠ invalid SIZE := Nat.ne_of_lt (lt_invalid h.table.size_le hi)
  obtain ⟨hflag, htab, hmap, -⟩ := h.table.erase_present hrepr hk
  refine ⟨{ p with udpSocketTable := (p.udpSocketTable.erase SIZE sk).2 }, ?_,
    h.of_table htab rfl rfl, rfl, rfl, fun sk' hsk' => ?_⟩
  · simp [handleUdpDestroySocket, hfind, hne, hrep, hflag, bind, Except.bind]
  · -- only the erased socket had the element
    change (p.udpSocketTable.erase SIZE sk).2.map[sk']? = some i' at hsk'
    rw [hmap] at hsk'
    split at hsk'
    · cases hsk'
    · exact ‹¬sk' = sk› (h.table.inj hsk' hk)

include hrepr in
/-- `handle_udp_destroy_socket`: a tracked socket leaves the table, after its valid statistics of
both directions and both epochs and `udp_destroy_socket` are written when it was reported; it
then leaves no valid statistics behind, and the traffic written is theirs, each once.  For an
untracked socket nothing changes. -/
theorem handleUdpDestroySocket_spec (t sk : UInt64) :
    ∃ p', p.handleUdpDestroySocket SIZE repr t sk = .ok p' ∧ Inv SIZE es repr p' (S.erase sk) ∧
      (InOrder SIZE p S → InOrder SIZE p' (S.erase sk) ∧
        (sk ∈ S → trafficOf (p'.writer.drop p.writer.length) =
            (∑ d : Fin 2, ∑ e ∈ Finset.range nEpochs,
              (p.udpStats d (p.udpSocketTable.find SIZE sk).index e).validTraffic) ∧
          ∀ d e, (p'.udpStats d (p.udpSocketTable.find SIZE sk).index e).valid = false)) := by
  by_cases hsk : sk ∉ S
  · refine ⟨p, by simp [handleUdpDestroySocket, h.table.find_of_not_mem hsk], ?_, fun hr => ?_⟩
      <;> rw [Finset.erase_eq_of_notMem hsk]
    · exact h
    · exact ⟨hr, fun hn => absurd hn hsk⟩
  obtain ⟨i, v, hk, hfind, hi, hv⟩ := h.table.find_of_mem (not_not.1 hsk)
  have hne : i ≠ invalid SIZE := Nat.ne_of_lt (lt_invalid h.table.size_le hi)
  cases hrep : v.reported with
  | false =>
    -- an unreported socket leaves without its statistics, and breaks `Reported`
    obtain ⟨p', he, hinv, -⟩ := handleUdpDestroySocket_unreported hrepr h hk hv hrep (t := t)
    refine ⟨p', he, hinv, fun hr => ?_⟩
    have := hr.1.reported sk i v hk hv
    rw [hrep] at this
    cases this
  | true =>
    obtain ⟨q', w', hrun, hq', hpre, hmap, hstore, hstats, hrep', htraffic⟩ :=
      sendEpochStats_spec hrepr t (mem_skIds h.table hk) destroyRounds p v
        (by simp [destroyRounds, nEpochs]) h hk
    have hk' : q'.udpSocketTable.map[sk]? = some i := by rw [hmap]; exact hk
    obtain ⟨hflag, htab, hmap', -⟩ := hq'.table.erase_present hrepr hk'
    obtain ⟨hnd, hcover⟩ := h.cover_destroyRounds
    -- the loop leaves no valid statistics in the element
    have hinv : ∀ d e, (q'.udpStats d i e).valid = false := by
      intro d e
      rw [hstats]
      by_cases hm : (d, e) ∈ roundEpochs p destroyRounds
      · rw [if_pos ⟨rfl, hm⟩]
      · rw [if_neg fun hc => hm hc.2]
        cases hvd : (p.udpStats d i e).valid
        · rfl
        · exact absurd (hcover d e (h.valid d i e hvd).1) hm
    set p₃ : UdpPoller := { q' with writer := q'.writer ++ [.udpDestroySocket t (UInt32.ofNat i)] }
    refine ⟨{ p₃ with udpSocketTable := (q'.udpSocketTable.erase SIZE sk).2 }, ?_,
      hq'.of_table htab rfl rfl, fun hr => ?_⟩
    · simp only [handleUdpDestroySocket, hfind, if_neg hne, hrep, if_true, hrun, bind,
        Except.bind, hflag, p₃]
    obtain ⟨hr', hw'⟩ := hrep' hrep hr.1
    refine ⟨⟨Reported.erase (p := p₃) (hr'.of_frame (fun _ => rfl) rfl rfl) hq'.table hrepr hk' hinv, ?_⟩,
      fun _ => ⟨?_, ?_⟩⟩
    · rw [skIds_erase (p := p) h.table hk (fun a => by
        show (q'.udpSocketTable.erase SIZE sk).2.map[a]? = _
        rw [hmap', hmap])]
      exact (hw'.follows hr.2).closes rfl (mem_skIds h.table hk)
    · rw [hfind]
      show trafficOf ((q'.writer ++ _).drop p.writer.length) = _
      rw [List.drop_append_of_le_length hpre.length_le, trafficOf_append, htraffic hnd,
        h.sum_destroyRounds]
      simp [trafficOf, UdpTelemetry.traffic]
    · rw [hfind]
      exact hinv

include hrepr in
/-- `handle_udp_new_socket` of an untracked socket without a local port into a table with room:
the socket joins in a new element, with an entry that is not reported, and nothing is written. -/
theorem handleUdpNewSocket_unbound (t : UInt64) (msg : UdpNewSocket) (hsk : msg.sk ∉ S)
    (hcard : S.card < SIZE) (hport : msg.lport = 0) :
    ∃ p' i v, p.handleUdpNewSocket SIZE repr t msg = .ok p' ∧
      Inv SIZE es repr p' (insert msg.sk S) ∧ p'.udpSocketTable.map[msg.sk]? = some i ∧
      p'.udpSocketTable.pool.objects i = some v ∧ v.reported = false ∧
      p'.udpSocketStats = p.udpSocketStats ∧ p'.udpStats = p.udpStats := by
  have hfull : p.udpSocketTable.full SIZE = false := h.table.card_lt_iff.1 hcard
  obtain ⟨i, hpos, hne, -, -, htab, -, -, hmap⟩ :=
    h.table.insert_fresh hrepr hsk hfull UdpSocketEntry.zero
  set ins := p.udpSocketTable.insert SIZE repr msg.sk .zero
  set e₀ : UdpSocketEntry := { UdpSocketEntry.zero with
    pid := msg.pid, sk := msg.sk, laddr := msg.laddr, lport := msg.lport }
  set r := udpSendNewSocket t e₀ i
  have hk : ins.2.map[msg.sk]? = some i := by rw [hmap, if_pos rfl]
  -- without a local port the entry is not reported
  have hr : r = ([], e₀) := udpSendNewSocket_unbound i hport
  refine ⟨{ p with
    udpSocketTable := ⟨ins.2.map, ins.2.pool.set repr i r.2⟩
    writer := p.writer ++ r.1 }, i, r.2, ?_, h.of_table (htab.set hrepr hk r.2) rfl rfl, hk,
    Function.update_self .., by rw [hr]; rfl, rfl, rfl⟩
  simp only [handleUdpNewSocket, hfull, Bool.false_eq_true, if_false]
  rw [hpos]
  simp only [if_neg hne]
  rfl

include hrepr in
/-- `handle_udp_stats` without an address change, for a tracked socket: the table stays as it is,
and the message's counts are accumulated, valid, into the statistics of the socket's element in
the epoch that `lookup` returns for `t`, in the store that `lookup` leaves. -/
theorem handleUdpStats_unchanged (t : UInt64) (msg : UdpStats) (hin : msg.isRx.toNat < 2)
    (hsk : msg.sk ∈ S) (hch : msg.changedAf = 0) :
    ∃ p' w e s', p.handleUdpStats SIZE repr t msg = .ok p' ∧ Inv SIZE es repr p' S ∧
      (p.udpSocketStats ⟨msg.isRx.toNat, hin⟩).lookup SIZE nEpochs
        (UInt32.ofNat (p.udpSocketTable.find SIZE msg.sk).index) t true = some ((w, e), s') ∧
      p'.udpSocketTable = p.udpSocketTable ∧
      p'.udpSocketStats = Function.update p.udpSocketStats ⟨msg.isRx.toNat, hin⟩ s' ∧
      (p'.udpStats ⟨msg.isRx.toNat, hin⟩ (p.udpSocketTable.find SIZE msg.sk).index e).valid =
        true := by
  obtain ⟨i, v, hk, hfind, hi, hv⟩ := h.table.find_of_mem hsk
  have hne : i ≠ invalid SIZE := Nat.ne_of_lt (lt_invalid h.table.size_le hi)
  have hi' : (UInt32.ofNat i).toNat = i := h.table.toNat_ofNat hi
  set d : Fin 2 := ⟨msg.isRx.toNat, hin⟩
  obtain ⟨w, e, s', hl, -⟩ :=
    (h.store d).lookup_enqueue (by have := h.table.size_le; omega) (by decide) (hi'.symm ▸ hi) t
  set p₂ := p.setStore d s'
  have he : p.handleUdpStats SIZE repr t msg =
      .ok (p₂.setStats d i e ((p₂.udpStats d i e).accumulate msg)) := by
    simp only [handleUdpStats, hfind, if_neg hne, dif_pos hin]
    rw [hl]
    simp only [hch, ne_eq, not_true_eq_false, if_false]
    rfl
  obtain ⟨p', he', hinv, -⟩ := handleUdpStats_spec hrepr h t msg hin
  rw [he] at he'
  cases he'
  refine ⟨_, w, e, s', he, hinv, by rw [hfind]; exact hl, rfl, rfl, ?_⟩
  rw [hfind, setStats_udpStats, if_pos ⟨rfl, rfl, rfl⟩, UdpStatistics.accumulate]
  split <;> rfl

end Handlers

/-! ### The statistics of an epoch -/

section Drain

variable (hrepr : ∀ w, (repr w).length ≤ es)

include hrepr in
/-- A round of `udp_send_stats_from_queue` on element `index`, whose valid statistics belong to
an element in use: `operator[]` finds it, and they are sent through its entry, their traffic
once; no other statistics change, and with `Reported` only uses of the element's `sk_id` are
written. -/
theorem sendQueued_spec (h : Inv SIZE es repr p S) (t : UInt64) (index : ℕ) (d : Fin 2) (e : ℕ)
    (hu : (p.udpStats d index e).valid = true →
      ∃ sk : UInt64, p.udpSocketTable.map[sk]? = some index) :
    ∃ p', p.sendQueued SIZE repr t index d e = .ok p' ∧ Inv SIZE es repr p' S ∧
      p.writer <+: p'.writer ∧ (Reported p → Reported p' ∧ WritesUses (p.skIds SIZE S) p p') ∧
      trafficOf (p'.writer.drop p.writer.length) = (p.udpStats d index e).validTraffic ∧
      p'.udpSocketTable.map = p.udpSocketTable.map ∧ p'.udpSocketStats = p.udpSocketStats ∧
      ∀ d' i e', p'.udpStats d' i e' = if d' = d ∧ i = index ∧ e' = e then
        { p.udpStats d' i e' with valid := false } else p.udpStats d' i e' := by
  by_cases hv : (p.udpStats d index e).valid = true
  · obtain ⟨sk, hk⟩ := hu hv
    obtain ⟨i, w, hk', -, -, hw⟩ := h.table.find_of_mem (h.table.mem_of_map hk)
    obtain rfl : i = index := Option.some.inj (hk'.symm.trans hk)
    refine ⟨(p.sendStats repr t i d e w).1, ?_, h.sendStats hrepr hk, ⟨_, sendStats_writer.symm⟩,
      fun hr => ?_, ?_, rfl, rfl, sendStats_udpStats⟩
    · simp only [sendQueued, if_pos hv, h.table.get_of_map hk, hw]
    · -- the entry of a socket is reported
      have hrep := hr.reported sk i w hk hw
      exact ⟨hr.sendStats hrep, WritesUses.sendStats hrep (mem_skIds h.table hk)⟩
    · rw [sendStats_writer, List.drop_left, trafficOf_udpSendStats, UdpStatistics.validTraffic,
        if_pos hv]
  · -- invalid statistics are left as they are
    refine ⟨p, by simp [sendQueued, hv], h, List.prefix_refl _,
      fun hr => ⟨hr, WritesUses.of_writer rfl⟩, by simp [UdpStatistics.validTraffic, hv], rfl, rfl,
      fun d' i e' => ?_⟩
    split
    · obtain ⟨rfl, rfl, rfl⟩ := ‹d' = d ∧ i = index ∧ e' = e›
      cases hs : p.udpStats d' i e'
      simp_all
    · rfl

/-- A round of `udp_send_stats_from_queue` on valid statistics whose element no socket has stops
on the `assert` of `operator[]`. -/
theorem sendQueued_assert (h : Inv SIZE es repr p S) (t : UInt64) {index : ℕ} {d : Fin 2} {e : ℕ}
    (hv : (p.udpStats d index e).valid = true)
    (hfree : ∀ sk : UInt64, p.udpSocketTable.map[sk]? ≠ some index) :
    p.sendQueued SIZE repr t index d e = .error "assert" := by
  simp only [sendQueued, if_pos hv, h.table.get_eq_none_iff.2 hfree]

/-- The head of a queue passes the bounds of `lookup_relative(index, 0, false)`. -/
theorem lookupRelative_guard (hs : SIZE ≤ 2 ^ 30) {a : ℕ} (ha : a < SIZE) :
    (UInt32.ofNat a).toNat < SIZE ∧ (0 : UInt32).toNat < nEpochs :=
  ⟨(UInt32.toNat_ofNat_of_lt' (by rw [UInt32.size]; omega) : (UInt32.ofNat a).toNat = a).symm ▸ ha,
    by decide⟩

/-- A round of the loop of `udp_send_stats_from_queue` whose queue has head `a`: the statistics
of `a` in the current epoch are sent, and `a` leaves the queue. -/
theorem drainQueue_succ (hs : SIZE ≤ 2 ^ 30) {t : UInt64} {d : Fin 2} {a fuel : ℕ} (ha : a < SIZE)
    {q q₁ : UdpPoller} {s' : Util.MetricStore}
    (hpeek : (q.udpSocketStats d).peek SIZE nEpochs = some a)
    (hsend : q.sendQueued SIZE repr t a d ((q.udpSocketStats d).epoch nEpochs 0) = .ok q₁)
    (hpop : (q₁.udpSocketStats d).pop SIZE nEpochs = some s') :
    drainQueue SIZE repr t d (fuel + 1) q = drainQueue SIZE repr t d fuel (q₁.setStore d s') := by
  simp only [drainQueue, hpeek, Util.MetricStore.lookupRelative_false,
    if_pos (lookupRelative_guard hs ha), setStore_self, hsend, hpop]

/-- ... and a round that stops stops the loop. -/
theorem drainQueue_error (hs : SIZE ≤ 2 ^ 30) {t : UInt64} {d : Fin 2} {a fuel : ℕ} (ha : a < SIZE)
    {q : UdpPoller} {err : String} (hpeek : (q.udpSocketStats d).peek SIZE nEpochs = some a)
    (hsend : q.sendQueued SIZE repr t a d ((q.udpSocketStats d).epoch nEpochs 0) = .error err) :
    drainQueue SIZE repr t d (fuel + 1) q = .error err := by
  simp only [drainQueue, hpeek, Util.MetricStore.lookupRelative_false,
    if_pos (lookupRelative_guard hs ha), setStore_self, hsend]

/-- After a round on the head `a` of the current queue of `is_rx`, its statistics there sent and
`a` popped, every valid statistic is still queued. -/
theorem Inv.popRound {q q₁ : UdpPoller} (hq : Inv SIZE es repr q S) (hq₁ : Inv SIZE es repr q₁ S)
    {d : Fin 2} {a : ℕ} {l : List ℕ} {s' : Util.MetricStore}
    (hqueue : Util.MetricStore.Queue SIZE (q.udpSocketStats d)
      (q.udpSocketStats d).currentQueue.toNat (a :: l))
    (hqueue' : Util.MetricStore.Queue SIZE s' (q.udpSocketStats d).currentQueue.toNat l)
    (hsame : Util.MetricStore.SameOutside (q.udpSocketStats d).currentQueue.toNat
      (q.udpSocketStats d) s')
    (hs' : Util.MetricStore.Inv SIZE nEpochs s')
    (hstats₁ : ∀ d' i e, q₁.udpStats d' i e =
      if d' = d ∧ i = a ∧ e = (q.udpSocketStats d).currentQueue.toNat then
        { q.udpStats d' i e with valid := false } else q.udpStats d' i e) :
    Inv SIZE es repr (q₁.setStore d s') S := by
  refine hq₁.setStore hs' fun j e hv => ?_
  rw [hstats₁] at hv
  split at hv
  · simp at hv
  rename_i hne
  have hnext := hq.queued d j e hv
  by_cases he : e = (q.udpSocketStats d).currentQueue.toNat
  · -- the current queue holds what it held but `a`
    subst he
    have hjl : j ∈ l := by
      rcases List.mem_cons.1 ((hqueue.2 j).2 ⟨(hq.valid d j _ hv).2, hnext⟩) with rfl | hjl
      · exact absurd ⟨rfl, rfl, rfl⟩ hne
      · exact hjl
    exact ((hqueue'.2 j).1 hjl).2
  · rw [hsame.next e he j]
    exact hnext

include hrepr in
/-- The loop of `udp_send_stats_from_queue` for the store of `is_rx` over a current queue that
holds `l`, with more fuel than `l` is long, when the valid statistics of `l` in the epoch belong
to elements in use: each element of `l` in order has its valid statistics sent, their traffic
once each; none is left valid in the epoch, no other statistics change, nor the other store; with
`Reported`, only uses of `sk_id`s of the table are written. -/
theorem drainQueue_spec (t : UInt64) (d : Fin 2) : ∀ (l : List ℕ) (fuel : ℕ) (q : UdpPoller),
    Inv SIZE es repr q S →
    Util.MetricStore.Queue SIZE (q.udpSocketStats d) (q.udpSocketStats d).currentQueue.toNat l →
    l.length < fuel →
    (∀ i ∈ l, (q.udpStats d i (q.udpSocketStats d).currentQueue.toNat).valid = true →
      ∃ sk : UInt64, q.udpSocketTable.map[sk]? = some i) →
    ∃ q', drainQueue SIZE repr t d fuel q = .ok q' ∧ Inv SIZE es repr q' S ∧
      q.writer <+: q'.writer ∧ (Reported q → Reported q' ∧ WritesUses (q.skIds SIZE S) q q') ∧
      trafficOf (q'.writer.drop q.writer.length) =
        (l.map fun i => (q.udpStats d i (q.udpSocketStats d).currentQueue.toNat).validTraffic).sum ∧
      (∀ i, (q'.udpStats d i (q.udpSocketStats d).currentQueue.toNat).valid = false) ∧
      (∀ d' i e, ¬ (d' = d ∧ e = (q.udpSocketStats d).currentQueue.toNat) →
        q'.udpStats d' i e = q.udpStats d' i e) ∧
      q'.udpSocketTable.map = q.udpSocketTable.map ∧
      (q'.udpSocketStats d).currentQueue = (q.udpSocketStats d).currentQueue ∧
      ∀ d', d' ≠ d → q'.udpSocketStats d' = q.udpSocketStats d'
  | [], fuel, q, hq, hqueue, hfuel, _ => by
    obtain ⟨f, rfl⟩ : ∃ f, fuel = f + 1 := ⟨fuel - 1, by simp at hfuel; omega⟩
    refine ⟨q, by rw [drainQueue, Util.MetricStore.peek_of_nil hqueue], hq, List.prefix_refl _,
      fun hr => ⟨hr, WritesUses.of_writer rfl⟩, by simp, fun i => ?_, fun _ _ _ _ => rfl, rfl, rfl,
      fun _ _ => rfl⟩
    -- nothing is queued, so nothing is valid
    cases hv : (q.udpStats d i (q.udpSocketStats d).currentQueue.toNat).valid
    · rfl
    · exact absurd ((hqueue.2 i).2 ⟨(hq.valid d i _ hv).2, hq.queued d i _ hv⟩) List.not_mem_nil
  | a :: l, fuel, q, hq, hqueue, hfuel, hu => by
    obtain ⟨f, rfl⟩ : ∃ f, fuel = f + 1 := ⟨fuel - 1, by simp at hfuel; omega⟩
    have hcq := (hq.store d).currentQueue_lt
    obtain ⟨hpeek, s', hpop, hqueue', -, hsame⟩ := Util.MetricStore.pop_spec hcq hqueue
    have ha : a < SIZE := ((hqueue.2 a).1 List.mem_cons_self).1
    have hal : a ∉ l := (List.nodup_cons.1 hqueue.nodup).1
    set cq := (q.udpSocketStats d).currentQueue.toNat
    obtain ⟨q₁, hsend, hq₁, hpre₁, hrep₁, htraffic₁, hmap₁, hstore₁, hstats₁⟩ :=
      sendQueued_spec hrepr hq t a d cq (hu a List.mem_cons_self)
    set q₂ := q₁.setStore d s'
    have hstore₂ : q₂.udpSocketStats d = s' := by simp [q₂]
    have hcq₂ : (q₂.udpSocketStats d).currentQueue.toNat = cq := by
      rw [hstore₂, hsame.currentQueue]
    have hqueue₂ : Util.MetricStore.Queue SIZE (q₂.udpSocketStats d)
        (q₂.udpSocketStats d).currentQueue.toNat l := by
      rw [hcq₂, hstore₂]
      exact hqueue'
    -- the rest of the queue reads the statistics as they were
    have hrest : ∀ j ∈ l, q₂.udpStats d j cq = q.udpStats d j cq := by
      intro j hj
      have hja : j ≠ a := fun hja => hal (hja ▸ hj)
      simp [q₂, hstats₁, hja]
    have hmap₂ : q₂.udpSocketTable.map = q.udpSocketTable.map := hmap₁
    obtain ⟨q', hrun, hq', hpre', hrep', htraffic', hvalid', hother', hmap', hcq', hstore'⟩ :=
      drainQueue_spec t d l f q₂
        (hq.popRound hq₁ hqueue hqueue' hsame ((hq.store d).pop hpop) hstats₁) hqueue₂
        (by simp at hfuel; omega)
        (fun j hj hv => by
          rw [hcq₂, hrest j hj] at hv
          rw [hmap₂]
          exact hu j (List.mem_cons_of_mem a hj) hv)
    rw [hcq₂] at htraffic' hvalid' hother'
    refine ⟨q', ?_, hq', hpre₁.trans hpre', fun hr => ?_, ?_, hvalid', fun d' i e hne => ?_,
      hmap'.trans hmap₂, ?_, fun d' hd' => ?_⟩
    · rw [drainQueue_succ hq.table.size_le ha hpeek (by rw [epoch_zero hcq]; exact hsend)
        (by rw [hstore₁]; exact hpop)]
      exact hrun
    · obtain ⟨hr₁, hw₁⟩ := hrep₁ hr
      obtain ⟨hr', hw'⟩ := hrep' hr₁.setStore
      rw [skIds_congr (p := q) (fun a => by rw [hmap₂])] at hw'
      exact ⟨hr', hw₁.trans ((WritesUses.of_writer rfl).trans hw')⟩
    · rw [show q₂.writer = q₁.writer from rfl] at htraffic'
      rw [drop_length_trans hpre₁ hpre', trafficOf_append, htraffic₁, htraffic',
        List.map_congr_left fun j hj => by rw [hrest j hj]]
      rfl
    · rw [hother' d' i e hne]
      simp only [q₂, setStore_udpStats, hstats₁, if_neg fun hc : d' = d ∧ i = a ∧ e = cq =>
        hne ⟨hc.1, hc.2.2⟩]
    · rw [hcq', hstore₂, hsame.currentQueue]
    · rw [hstore' d' hd']
      simp [q₂, hd', hstore₁]

include hrepr in
/-- The loop of `udp_send_stats_from_queue` over a current queue that holds `l`, with more fuel
than `l` is long, stops on the `assert` of `operator[]` when an element of `l` has valid statistics
in the epoch but no socket: each element before it has its statistics sent, or stops the loop
there. -/
theorem drainQueue_assert (t : UInt64) (d : Fin 2) : ∀ (l : List ℕ) (fuel : ℕ) (q : UdpPoller),
    Inv SIZE es repr q S →
    Util.MetricStore.Queue SIZE (q.udpSocketStats d) (q.udpSocketStats d).currentQueue.toNat l →
    l.length < fuel → ∀ i ∈ l,
    (q.udpStats d i (q.udpSocketStats d).currentQueue.toNat).valid = true →
    (∀ sk : UInt64, q.udpSocketTable.map[sk]? ≠ some i) →
    drainQueue SIZE repr t d fuel q = .error "assert"
  | [], _, _, _, _, _, _, hi, _, _ => absurd hi List.not_mem_nil
  | a :: l, fuel, q, hq, hqueue, hfuel, i, hi, hv, hfree => by
    obtain ⟨f, rfl⟩ : ∃ f, fuel = f + 1 := ⟨fuel - 1, by simp at hfuel; omega⟩
    have hcq := (hq.store d).currentQueue_lt
    obtain ⟨hpeek, s', hpop, hqueue', -, hsame⟩ := Util.MetricStore.pop_spec hcq hqueue
    have ha : a < SIZE := ((hqueue.2 a).1 List.mem_cons_self).1
    have hal : a ∉ l := (List.nodup_cons.1 hqueue.nodup).1
    set cq := (q.udpSocketStats d).currentQueue.toNat
    by_cases hbad : (q.udpStats d a cq).valid = true ∧ ∀ sk : UInt64, q.udpSocketTable.map[sk]? ≠ some a
    · -- the head is the statistics of a free element
      exact drainQueue_error hq.table.size_le ha hpeek
        (by rw [epoch_zero hcq]; exact sendQueued_assert hq t hbad.1 hbad.2)
    have hu : (q.udpStats d a cq).valid = true → ∃ sk : UInt64, q.udpSocketTable.map[sk]? = some a := by
      intro hva
      by_contra hno
      exact hbad ⟨hva, fun sk hsk => hno ⟨sk, hsk⟩⟩
    have hil : i ∈ l := by
      rcases List.mem_cons.1 hi with rfl | hil
      · exact absurd ⟨hv, hfree⟩ hbad
      · exact hil
    obtain ⟨q₁, hsend, hq₁, -, -, -, hmap₁, hstore₁, hstats₁⟩ := sendQueued_spec hrepr hq t a d cq hu
    set q₂ := q₁.setStore d s'
    have hcq₂ : (q₂.udpSocketStats d).currentQueue.toNat = cq := by
      rw [show q₂.udpSocketStats d = s' by simp [q₂], hsame.currentQueue]
    have hia : i ≠ a := fun hia => hal (hia ▸ hil)
    rw [drainQueue_succ hq.table.size_le ha hpeek (by rw [epoch_zero hcq]; exact hsend)
      (by rw [hstore₁]; exact hpop)]
    refine drainQueue_assert t d l f q₂
      (hq.popRound hq₁ hqueue hqueue' hsame ((hq.store d).pop hpop) hstats₁)
      (by simp only [hcq₂]; simpa [q₂] using hqueue') (by simp at hfuel; omega) i hil ?_ ?_
    · rw [hcq₂]
      simpa [q₂, hstats₁, hia] using hv
    · intro sk
      simpa [q₂, hmap₁] using hfree sk

/-- A sum over a queue of distinct indices below `SIZE`, outside of which the terms are zero, is
the sum over all of them. -/
theorem sum_map_eq_sum_range {l : List ℕ} (hnd : l.Nodup) (hl : ∀ i ∈ l, i < SIZE)
    (f : ℕ → ℕ × ℕ) (hf : ∀ i < SIZE, i ∉ l → f i = 0) :
    (l.map f).sum = ∑ i ∈ Finset.range SIZE, f i := by
  rw [← List.sum_toFinset f hnd]
  refine Finset.sum_subset (fun i hi => Finset.mem_range.2 (hl i (List.mem_toFinset.1 hi)))
    fun i hi hni => hf i (Finset.mem_range.1 hi) fun h => hni (List.mem_toFinset.2 h)

/-- `relative_timeslot(t)` of the store of `is_rx` keeps the invariant. -/
theorem Inv.relativeTimeslot (h : Inv SIZE es repr p S) (t : UInt64) (d : Fin 2) :
    Inv SIZE es repr (p.setStore d ((p.udpSocketStats d).relativeTimeslot t).2) S :=
  h.setStore_links ((h.store d).relativeTimeslot t)
    (Util.MetricStore.relativeTimeslot_snd (p.udpSocketStats d) t).1

include hrepr in
/-- A round of `udp_send_stats_from_queue(t)` for the store of `is_rx`: in a new timeslot, when
the valid statistics of its current epoch belong to elements in use, they are sent, their traffic
once each, and none is left valid there; the other store and the statistics of the other
direction stay as they were. -/
theorem sendStoreFromQueue_spec (h : Inv SIZE es repr p S) (t : UInt64) (d : Fin 2)
    (hu : ((p.udpSocketStats d).relativeTimeslot t).1 ≠ 0 → ∀ i,
      (p.udpStats d i (p.udpSocketStats d).currentQueue.toNat).valid = true →
        ∃ sk : UInt64, p.udpSocketTable.map[sk]? = some i) :
    ∃ p', p.sendStoreFromQueue SIZE repr t d = .ok p' ∧ Inv SIZE es repr p' S ∧
      p.writer <+: p'.writer ∧ (Reported p → Reported p' ∧ WritesUses (p.skIds SIZE S) p p') ∧
      trafficOf (p'.writer.drop p.writer.length) =
        (if ((p.udpSocketStats d).relativeTimeslot t).1 = 0 then 0 else
          ∑ i ∈ Finset.range SIZE,
            (p.udpStats d i (p.udpSocketStats d).currentQueue.toNat).validTraffic) ∧
      (((p.udpSocketStats d).relativeTimeslot t).1 ≠ 0 →
        ∀ i, (p'.udpStats d i (p.udpSocketStats d).currentQueue.toNat).valid = false) ∧
      (∀ d' i e, d' ≠ d → p'.udpStats d' i e = p.udpStats d' i e) ∧
      p'.udpSocketTable.map = p.udpSocketTable.map ∧
      ∀ d', d' ≠ d → p'.udpSocketStats d' = p.udpSocketStats d' := by
  obtain ⟨hnext, -, hcq⟩ := Util.MetricStore.relativeTimeslot_snd (p.udpSocketStats d) t
  set p₁ := p.setStore d ((p.udpSocketStats d).relativeTimeslot t).2
  have h₁ : Inv SIZE es repr p₁ S := h.relativeTimeslot t d
  have hstore₁ : p₁.udpSocketStats d = ((p.udpSocketStats d).relativeTimeslot t).2 := by simp [p₁]
  by_cases h0 : ((p.udpSocketStats d).relativeTimeslot t).1 = 0
  · refine ⟨p₁, by simp [sendStoreFromQueue, h0, p₁], h₁, List.prefix_refl _,
      fun hr => ⟨hr.setStore, WritesUses.of_writer rfl⟩, by simp [h0, p₁],
      fun hne => absurd h0 hne, fun _ _ _ _ => rfl, rfl, fun d' hd' => by simp [p₁, hd']⟩
  obtain ⟨l, hqueue⟩ := (h₁.store d).queue _ (h₁.store d).currentQueue_lt
  have hlen : l.length < SIZE + 1 := Nat.lt_succ_of_le hqueue.length_le
  obtain ⟨p₂, hrun, h₂, hpre₂, hrep₂, htraffic₂, hvalid₂, hother₂, hmap₂, -, hstore₂⟩ :=
    drainQueue_spec hrepr t d l (SIZE + 1) p₁ h₁ hqueue hlen
      (fun i _ hv => by rw [hstore₁, hcq] at hv; exact hu h0 i hv)
  rw [hstore₁, hcq] at hqueue htraffic₂ hvalid₂ hother₂
  rw [show p₁.udpStats = p.udpStats from rfl] at htraffic₂ hother₂
  refine ⟨p₂.setStore d ((p₂.udpSocketStats d).advance nEpochs), ?_,
    h₂.setStore_links ((h₂.store d).advance (by decide)) rfl, hpre₂, fun hr => ?_, ?_,
    fun _ => hvalid₂, fun d' i e hd' => hother₂ d' i e fun hc => hd' hc.1, hmap₂,
    fun d' hd' => ?_⟩
  · simp only [sendStoreFromQueue, h0, if_false]
    rw [show drainQueue SIZE repr t d (SIZE + 1) p₁ = .ok p₂ from hrun]
    rfl
  · obtain ⟨hr₂, hw₂⟩ := hrep₂ hr.setStore
    rw [skIds_congr (p := p) (fun a => by simp [p₁])] at hw₂
    exact ⟨hr₂.setStore, hw₂⟩
  · rw [if_neg h0]
    refine htraffic₂.trans (sum_map_eq_sum_range hqueue.nodup (fun i hi => ((hqueue.2 i).1 hi).1)
      _ fun i hi hni => ?_)
    -- a valid statistic of the epoch is queued there
    cases hv : (p.udpStats d i (p.udpSocketStats d).currentQueue.toNat).valid
    · simp [UdpStatistics.validTraffic, hv]
    · refine absurd ((hqueue.2 i).2 ⟨hi, ?_⟩) hni
      rw [hnext]
      exact h.queued d i _ hv
  · rw [setStore_udpSocketStats, if_neg hd', hstore₂ d' hd']
    simp [p₁, hd']

include hrepr in
/-- A round of `udp_send_stats_from_queue(t)` for the store of `is_rx` in a new timeslot stops on
the `assert` of `operator[]` when valid statistics of its current epoch belong to an element no
socket has. -/
theorem sendStoreFromQueue_assert (h : Inv SIZE es repr p S) (t : UInt64) (d : Fin 2)
    (h0 : ((p.udpSocketStats d).relativeTimeslot t).1 ≠ 0) {i : ℕ}
    (hv : (p.udpStats d i (p.udpSocketStats d).currentQueue.toNat).valid = true)
    (hfree : ∀ sk : UInt64, p.udpSocketTable.map[sk]? ≠ some i) :
    p.sendStoreFromQueue SIZE repr t d = .error "assert" := by
  obtain ⟨hnext, -, hcq⟩ := Util.MetricStore.relativeTimeslot_snd (p.udpSocketStats d) t
  set p₁ := p.setStore d ((p.udpSocketStats d).relativeTimeslot t).2
  have h₁ : Inv SIZE es repr p₁ S := h.relativeTimeslot t d
  have hstore₁ : p₁.udpSocketStats d = ((p.udpSocketStats d).relativeTimeslot t).2 := by simp [p₁]
  obtain ⟨l, hqueue⟩ := (h₁.store d).queue _ (h₁.store d).currentQueue_lt
  have hlen : l.length < SIZE + 1 := Nat.lt_succ_of_le hqueue.length_le
  -- the statistics are queued in the current epoch
  have hil : i ∈ l := by
    refine (hqueue.2 i).2 ⟨(h.valid d i _ hv).2, ?_⟩
    rw [hstore₁, hnext, hcq]
    exact h.queued d i _ hv
  have hrun := drainQueue_assert hrepr t d l (SIZE + 1) p₁ h₁ hqueue hlen i hil
    (by rw [hstore₁, hcq]; exact hv) hfree
  simp only [sendStoreFromQueue, h0, if_false]
  rw [show drainQueue SIZE repr t d (SIZE + 1) p₁ = .error "assert" from hrun]
  rfl

include hrepr in
/-- `udp_send_stats_from_queue(t)` with `Reported`: for each direction in a new timeslot, the
valid statistics of its current epoch are sent, their traffic once each, and none is left valid
there. -/
theorem udpSendStatsFromQueue_spec (h : Inv SIZE es repr p S) (hr : Reported p) (t : UInt64) :
    ∃ p', p.udpSendStatsFromQueue SIZE repr t = .ok p' ∧ Inv SIZE es repr p' S ∧ Reported p' ∧
      WritesUses (p.skIds SIZE S) p p' ∧ p'.udpSocketTable.map = p.udpSocketTable.map ∧
      trafficOf (p'.writer.drop p.writer.length) = ∑ d : Fin 2,
        (if ((p.udpSocketStats d).relativeTimeslot t).1 = 0 then 0 else
          ∑ i ∈ Finset.range SIZE,
            (p.udpStats d i (p.udpSocketStats d).currentQueue.toNat).validTraffic) ∧
      ∀ d, ((p.udpSocketStats d).relativeTimeslot t).1 ≠ 0 →
        ∀ i, (p'.udpStats d i (p.udpSocketStats d).currentQueue.toNat).valid = false := by
  obtain ⟨p₁, hrun₁, h₁, hpre₁, hrep₁, htraffic₁, hvalid₁, hother₁, hmap₁, hstore₁⟩ :=
    sendStoreFromQueue_spec hrepr h t 0 fun _ i => hr.inUse 0 i _
  obtain ⟨hr₁, hw₁⟩ := hrep₁ hr
  obtain ⟨p₂, hrun₂, h₂, hpre₂, hrep₂, htraffic₂, hvalid₂, hother₂, hmap₂, -⟩ :=
    sendStoreFromQueue_spec hrepr h₁ t 1 fun _ i => hr₁.inUse 1 i _
  obtain ⟨hr₂, hw₂⟩ := hrep₂ hr₁
  -- the round of TX leaves the store and the statistics of RX as they were
  have hs₁ : p₁.udpSocketStats 1 = p.udpSocketStats 1 := hstore₁ 1 (by decide)
  have hst₁ : ∀ i e, p₁.udpStats 1 i e = p.udpStats 1 i e := fun i e => hother₁ 1 i e (by decide)
  rw [skIds_congr (p := p) (fun a => by rw [hmap₁])] at hw₂
  simp only [hs₁, hst₁] at htraffic₂ hvalid₂
  refine ⟨p₂, by simp only [udpSendStatsFromQueue, hrun₁, hrun₂, bind, Except.bind], h₂, hr₂,
    hw₁.trans hw₂, hmap₂.trans hmap₁, ?_, Fin.forall_fin_two.2 ⟨fun h0 i => ?_, hvalid₂⟩⟩
  · rw [drop_length_trans hpre₁ hpre₂, trafficOf_append, htraffic₁, htraffic₂, Fin.sum_univ_two]
  · rw [hother₂ 0 i _ (by decide)]
    exact hvalid₁ h0 i

include hrepr in
/-- `udp_send_stats_from_queue(t)` stops on the `assert` of `operator[]` when the store of a
direction in a new timeslot has valid statistics of its current epoch in an element no socket
has, and, for RX, the round of TX before it is in the current timeslot. -/
theorem udpSendStatsFromQueue_assert (h : Inv SIZE es repr p S) (t : UInt64) {d : Fin 2}
    (h0 : ((p.udpSocketStats d).relativeTimeslot t).1 ≠ 0) {i : ℕ}
    (hv : (p.udpStats d i (p.udpSocketStats d).currentQueue.toNat).valid = true)
    (hfree : ∀ sk : UInt64, p.udpSocketTable.map[sk]? ≠ some i)
    (hidle : d = 1 → ((p.udpSocketStats 0).relativeTimeslot t).1 = 0) :
    p.udpSendStatsFromQueue SIZE repr t = .error "assert" := by
  rcases (Fin.exists_fin_two.mp ⟨d, rfl⟩ : d = 0 ∨ d = 1) with rfl | rfl
  · simp only [udpSendStatsFromQueue, sendStoreFromQueue_assert hrepr h t _ h0 hv hfree]
    rfl
  · -- TX sends nothing and leaves RX as it was
    obtain ⟨p₁, hrun₁, h₁, -, -, -, -, hother₁, hmap₁, hstore₁⟩ :=
      sendStoreFromQueue_spec hrepr h t 0 fun hne => absurd (hidle rfl) hne
    have hs₁ : p₁.udpSocketStats 1 = p.udpSocketStats 1 := hstore₁ 1 (by decide)
    have hst₁ : ∀ i e, p₁.udpStats 1 i e = p.udpStats 1 i e := fun i e => hother₁ 1 i e (by decide)
    have hrun₂ := sendStoreFromQueue_assert hrepr h₁ t 1 (by rw [hs₁]; exact h0)
      (by rw [hs₁, hst₁]; exact hv) (i := i) (fun sk => by rw [hmap₁]; exact hfree sk)
    simp only [udpSendStatsFromQueue, hrun₁, hrun₂, bind, Except.bind]

end Drain

/-! ### Every event -/

/-- Every event with an `is_rx` of `0` or `1`, from a poller with the invariant and the stream in
order, returns and keeps both, the table tracking the sockets `udpTrackedStep` says, when its new
socket has a local port. -/
theorem call_spec (hrepr : ∀ w, (repr w).length ≤ es) (h : Inv SIZE es repr p S)
    (ho : InOrder SIZE p S) (ev : UdpEvent) (hin : ev.inRange = true) (hb : ev.bound = true) :
    ∃ p', p.call SIZE repr ev = .ok p' ∧ Inv SIZE es repr p' (udpTrackedStep SIZE S ev) ∧
      InOrder SIZE p' (udpTrackedStep SIZE S ev) := by
  cases ev with
  | udpNewSocket t msg =>
    obtain ⟨p', he, hinv, hord⟩ := handleUdpNewSocket_spec hrepr h t msg
    exact ⟨p', he, hinv, hord (by simpa [UdpEvent.bound] using hb) ho⟩
  | udpDestroySocket t sk =>
    obtain ⟨p', he, hinv, hord⟩ := handleUdpDestroySocket_spec hrepr h t sk
    exact ⟨p', he, hinv, (hord ho).1⟩
  | udpStats t msg =>
    obtain ⟨p', he, hinv, hord⟩ :=
      handleUdpStats_spec hrepr h t msg (by simpa [UdpEvent.inRange] using hin)
    exact ⟨p', he, hinv, hord ho⟩
  | udpSendStatsFromQueue t =>
    obtain ⟨p', he, hinv, hr', hw, hmap, -⟩ := udpSendStatsFromQueue_spec hrepr h ho.1 t
    refine ⟨p', he, hinv, hr', ?_⟩
    rw [skIds_congr (p := p) (fun a => by rw [hmap])]
    exact hw.follows ho.2
  | allProbesLoaded => exact ⟨_, rfl, h.of_frame rfl rfl rfl, ho.of_frame rfl rfl rfl⟩

/-! ### Runs -/

/-- From a poller with the invariant and the stream in order, every sequence of events with an
`is_rx` of `0` or `1`, whose new sockets have a local port, returns and keeps both. -/
theorem run_inOrder (hrepr : ∀ w, (repr w).length ≤ es) (h : Inv SIZE es repr p S)
    (ho : InOrder SIZE p S) (events : List UdpEvent)
    (hev : ∀ ev ∈ events, ev.inRange = true ∧ ev.bound = true) :
    ∃ p', p.run SIZE repr events = .ok p' ∧
      Inv SIZE es repr p' (events.foldl (udpTrackedStep SIZE) S) ∧
      InOrder SIZE p' (events.foldl (udpTrackedStep SIZE) S) :=
  foldlM_sim (call SIZE repr) (udpTrackedStep SIZE)
    (fun p S => Inv SIZE es repr p S ∧ InOrder SIZE p S)
    (fun ev => ev.inRange = true ∧ ev.bound = true)
    (fun _ _ ev hev h => call_spec hrepr h.1 h.2 ev hev.1 hev.2) events p S hev ⟨h, ho⟩

theorem run_snoc {events : List UdpEvent} (hrun : p.run SIZE repr events = .ok p') (ev : UdpEvent) :
    p.run SIZE repr (events ++ [ev]) = p'.call SIZE repr ev := by
  have hfold : events.foldlM (call SIZE repr) p = .ok p' := hrun
  show (events ++ [ev]).foldlM (call SIZE repr) p = _
  rw [List.foldlM_append, hfold]
  show [ev].foldlM (call SIZE repr) p' = _
  simp

/-- A new poller tracks nothing and has written nothing. -/
theorem Init.inOrder (h₀ : p.Init SIZE es) : InOrder SIZE p ∅ := by
  obtain ⟨htable, -, -, -, hstats, hw, -⟩ := h₀
  have hmap : p.udpSocketTable.map = ∅ := htable.1
  refine ⟨⟨fun sk i w hk _ => ?_, fun d i e hv => ?_⟩, ?_⟩
  · simp [hmap] at hk
  · rw [hstats] at hv
    cases hv
  · rw [hw, skIds, Finset.image_empty]
    exact Session.follows_nil

/-! ### Runs from a new poller -/

section New

variable {p₀ : UdpPoller} (hfits : SIZE * es ≤ 2 ^ 32) (hrepr : ∀ w, (repr w).length ≤ es)
  (h₀ : p₀.Init SIZE es)
include hfits hrepr h₀

/-- A run from a new poller keeps the invariant with the sockets of `udpTracked`, and the stream
in order. -/
theorem inOrder_of_run (events : List UdpEvent)
    (hev : ∀ ev ∈ events, ev.inRange = true ∧ ev.bound = true) :
    ∃ p, p₀.run SIZE repr events = .ok p ∧ Inv SIZE es repr p (udpTracked SIZE events) ∧
      InOrder SIZE p (udpTracked SIZE events) :=
  run_inOrder hrepr (Inv.init hfits h₀) (Init.inOrder h₀) events hev

/-- **The UDP telemetry of each `sk_id` is in order.**  From a new poller, along every sequence
of kernel events whose statistics have an `is_rx` of `0` or `1` and whose new sockets have a
local port, every event returns: no `assert` fails.  The table then holds exactly the sockets of
`udpTracked`; the messages about each `sk_id` alternate `udp_new_socket` and
`udp_destroy_socket`, starting with `udp_new_socket`, its statistics all come while it is open,
and the `sk_id`s left open are those of the sockets the table holds. -/
theorem udp_telemetry_in_order (events : List UdpEvent)
    (hev : ∀ ev ∈ events, ev.inRange = true ∧ ev.bound = true) :
    ∃ p, p₀.run SIZE repr events = .ok p ∧
      (∀ sk, p.udpSocketTable.contains sk = decide (sk ∈ udpTracked SIZE events)) ∧
      Session.Follows UdpTelemetry.skId UdpTelemetry.phase
        (p.skIds SIZE (udpTracked SIZE events)) p.writer := by
  obtain ⟨p, hrun, h, ho⟩ := inOrder_of_run hfits hrepr h₀ events hev
  exact ⟨p, hrun, h.table.contains_eq, ho.2⟩

/-- **Destroying a socket flushes its statistics.**  From every poller such a run reaches,
`handle_udp_destroy_socket` of a tracked socket writes the traffic of its valid statistics, of
both directions and both epochs, each once; it leaves none of them valid, so none is sent later
under the socket that takes the element next; and the socket leaves the table. -/
theorem destroy_flushes_stats (events : List UdpEvent)
    (hev : ∀ ev ∈ events, ev.inRange = true ∧ ev.bound = true) :
    ∃ p, p₀.run SIZE repr events = .ok p ∧ ∀ t sk, sk ∈ udpTracked SIZE events →
      ∃ p', p.handleUdpDestroySocket SIZE repr t sk = .ok p' ∧
        trafficOf (p'.writer.drop p.writer.length) = ∑ d : Fin 2, ∑ e ∈ Finset.range nEpochs,
          (p.udpStats d (p.udpSocketTable.find SIZE sk).index e).validTraffic ∧
        (∀ d e, (p'.udpStats d (p.udpSocketTable.find SIZE sk).index e).valid = false) ∧
        p'.udpSocketTable.contains sk = false := by
  obtain ⟨p, hrun, h, ho⟩ := inOrder_of_run hfits hrepr h₀ events hev
  refine ⟨p, hrun, fun t sk hsk => ?_⟩
  obtain ⟨p', he, h', hord⟩ := handleUdpDestroySocket_spec hrepr h t sk
  obtain ⟨htraffic, hvalid⟩ := (hord ho).2 hsk
  refine ⟨p', he, htraffic, hvalid, ?_⟩
  rw [h'.table.contains_eq]
  simp

/-- **No statistic of an epoch is lost or sent twice.**  From every poller such a run reaches,
`udp_send_stats_from_queue(t)` returns, and for each direction whose store is in a new timeslot
it writes the traffic of every valid statistic of the current epoch, once, and leaves none of
them valid. -/
theorem udp_stats_of_poll (events : List UdpEvent)
    (hev : ∀ ev ∈ events, ev.inRange = true ∧ ev.bound = true) :
    ∃ p, p₀.run SIZE repr events = .ok p ∧ ∀ t, ∃ p', p.udpSendStatsFromQueue SIZE repr t = .ok p' ∧
      trafficOf (p'.writer.drop p.writer.length) = ∑ d : Fin 2,
        (if ((p.udpSocketStats d).relativeTimeslot t).1 = 0 then 0 else
          ∑ i ∈ Finset.range SIZE,
            (p.udpStats d i (p.udpSocketStats d).currentQueue.toNat).validTraffic) ∧
      ∀ d, ((p.udpSocketStats d).relativeTimeslot t).1 ≠ 0 →
        ∀ i, (p'.udpStats d i (p.udpSocketStats d).currentQueue.toNat).valid = false := by
  obtain ⟨p, hrun, h, ho⟩ := inOrder_of_run hfits hrepr h₀ events hev
  refine ⟨p, hrun, fun t => ?_⟩
  obtain ⟨p', he, -, -, -, -, htraffic, hvalid⟩ := udpSendStatsFromQueue_spec hrepr h ho.1 t
  exact ⟨p', he, htraffic, hvalid⟩

/-- **An address change counts the statistics twice.**  From every poller such a run reaches,
`handle_udp_stats` with an address change, for a tracked socket, sends the statistics of its
direction in the epoch of `t` under the old address when they are valid, and then sends them
again under the new one: the reducer, which adds the traffic of every statistics message, counts
valid statistics twice, and counts again those already sent. -/
theorem address_change_double_counts (events : List UdpEvent)
    (hev : ∀ ev ∈ events, ev.inRange = true ∧ ev.bound = true) :
    ∃ p, p₀.run SIZE repr events = .ok p ∧
      ∀ (t : UInt64) (msg : UdpStats) (hin : msg.isRx.toNat < 2), msg.sk ∈ udpTracked SIZE events →
        msg.changedAf ≠ 0 → ∃ p', p.handleUdpStats SIZE repr t msg = .ok p' ∧
          trafficOf (p'.writer.drop p.writer.length) =
            (p.udpStats ⟨msg.isRx.toNat, hin⟩ (p.udpSocketTable.find SIZE msg.sk).index
              (p.epochOf ⟨msg.isRx.toNat, hin⟩ t)).validTraffic +
            (p.udpStats ⟨msg.isRx.toNat, hin⟩ (p.udpSocketTable.find SIZE msg.sk).index
              (p.epochOf ⟨msg.isRx.toNat, hin⟩ t)).traffic := by
  obtain ⟨p, hrun, h, -⟩ := inOrder_of_run hfits hrepr h₀ events hev
  exact ⟨p, hrun, fun t msg hin hsk hch => trafficOf_handleUdpStats h t msg hin hsk hch⟩

end New

/-- A socket opened, its statistics, and the socket destroyed. -/
theorem udp_telemetry_in_order_open_destroy :
    ∃ p, (new 2 72 (fun _ => 0) ⟨1, 0⟩ NatHandler.empty).run 2 UdpSocketEntry.bytes
        [.udpNewSocket 0 ⟨7, 5, zeroAddress, 53⟩,
          .udpStats 1 ⟨5, zeroAddress, 10, 100, 0, 53, 0, zeroAddress, 53, 0⟩,
          .udpDestroySocket 2 5] = .ok p ∧
      (∀ sk, p.udpSocketTable.contains sk = decide (sk ∈ udpTracked 2
        [.udpNewSocket 0 ⟨7, 5, zeroAddress, 53⟩,
          .udpStats 1 ⟨5, zeroAddress, 10, 100, 0, 53, 0, zeroAddress, 53, 0⟩,
          .udpDestroySocket 2 5])) ∧
      Session.Follows UdpTelemetry.skId UdpTelemetry.phase
        (p.skIds 2 (udpTracked 2 [.udpNewSocket 0 ⟨7, 5, zeroAddress, 53⟩,
          .udpStats 1 ⟨5, zeroAddress, 10, 100, 0, 53, 0, zeroAddress, 53, 0⟩,
          .udpDestroySocket 2 5])) p.writer :=
  udp_telemetry_in_order (by decide : 2 * 72 ≤ 2 ^ 32) (fun w => (UdpSocketEntry.length_bytes w).le)
    (init_new _ _ _ (by decide) (by decide) (by decide) (by decide)) _ (by decide)

/-- A socket opened, with its statistics. -/
theorem destroy_flushes_stats_one_socket :
    ∃ p, (new 2 72 (fun _ => 0) ⟨1, 0⟩ NatHandler.empty).run 2 UdpSocketEntry.bytes
        [.udpNewSocket 0 ⟨7, 5, zeroAddress, 53⟩,
          .udpStats 1 ⟨5, zeroAddress, 10, 100, 0, 53, 0, zeroAddress, 53, 0⟩] = .ok p ∧
      ∀ t sk, sk ∈ udpTracked 2 [.udpNewSocket 0 ⟨7, 5, zeroAddress, 53⟩,
          .udpStats 1 ⟨5, zeroAddress, 10, 100, 0, 53, 0, zeroAddress, 53, 0⟩] →
      ∃ p', p.handleUdpDestroySocket 2 UdpSocketEntry.bytes t sk = .ok p' ∧
        trafficOf (p'.writer.drop p.writer.length) = ∑ d : Fin 2, ∑ e ∈ Finset.range nEpochs,
          (p.udpStats d (p.udpSocketTable.find 2 sk).index e).validTraffic ∧
        (∀ d e, (p'.udpStats d (p.udpSocketTable.find 2 sk).index e).valid = false) ∧
        p'.udpSocketTable.contains sk = false :=
  destroy_flushes_stats (by decide : 2 * 72 ≤ 2 ^ 32) (fun w => (UdpSocketEntry.length_bytes w).le)
    (init_new _ _ _ (by decide) (by decide) (by decide) (by decide)) _ (by decide)

/-- A socket opened, with its statistics. -/
theorem udp_stats_of_poll_one_socket :
    ∃ p, (new 2 72 (fun _ => 0) ⟨1, 0⟩ NatHandler.empty).run 2 UdpSocketEntry.bytes
        [.udpNewSocket 0 ⟨7, 5, zeroAddress, 53⟩,
          .udpStats 1 ⟨5, zeroAddress, 10, 100, 0, 53, 0, zeroAddress, 53, 0⟩] = .ok p ∧
      ∀ t, ∃ p', p.udpSendStatsFromQueue 2 UdpSocketEntry.bytes t = .ok p' ∧
        trafficOf (p'.writer.drop p.writer.length) = ∑ d : Fin 2,
          (if ((p.udpSocketStats d).relativeTimeslot t).1 = 0 then 0 else
            ∑ i ∈ Finset.range 2,
              (p.udpStats d i (p.udpSocketStats d).currentQueue.toNat).validTraffic) ∧
        ∀ d, ((p.udpSocketStats d).relativeTimeslot t).1 ≠ 0 →
          ∀ i, (p'.udpStats d i (p.udpSocketStats d).currentQueue.toNat).valid = false :=
  udp_stats_of_poll (by decide : 2 * 72 ≤ 2 ^ 32) (fun w => (UdpSocketEntry.length_bytes w).le)
    (init_new _ _ _ (by decide) (by decide) (by decide) (by decide)) _ (by decide)

/-- A socket opened, with its statistics. -/
theorem address_change_double_counts_one_socket :
    ∃ p, (new 2 72 (fun _ => 0) ⟨1, 0⟩ NatHandler.empty).run 2 UdpSocketEntry.bytes
        [.udpNewSocket 0 ⟨7, 5, zeroAddress, 53⟩,
          .udpStats 1 ⟨5, zeroAddress, 10, 100, 0, 53, 0, zeroAddress, 53, 0⟩] = .ok p ∧
      ∀ (t : UInt64) (msg : UdpStats) (hin : msg.isRx.toNat < 2),
        msg.sk ∈ udpTracked 2 [.udpNewSocket 0 ⟨7, 5, zeroAddress, 53⟩,
          .udpStats 1 ⟨5, zeroAddress, 10, 100, 0, 53, 0, zeroAddress, 53, 0⟩] →
        msg.changedAf ≠ 0 → ∃ p', p.handleUdpStats 2 UdpSocketEntry.bytes t msg = .ok p' ∧
          trafficOf (p'.writer.drop p.writer.length) =
            (p.udpStats ⟨msg.isRx.toNat, hin⟩ (p.udpSocketTable.find 2 msg.sk).index
              (p.epochOf ⟨msg.isRx.toNat, hin⟩ t)).validTraffic +
            (p.udpStats ⟨msg.isRx.toNat, hin⟩ (p.udpSocketTable.find 2 msg.sk).index
              (p.epochOf ⟨msg.isRx.toNat, hin⟩ t)).traffic :=
  address_change_double_counts (by decide : 2 * 72 ≤ 2 ^ 32)
    (fun w => (UdpSocketEntry.length_bytes w).le)
    (init_new _ _ _ (by decide) (by decide) (by decide) (by decide)) _ (by decide)

/-! ### A socket never reported -/

section Unreported

variable {mem : ℕ → UInt8} {tslot : Util.FastDiv} {nat : NatHandler} (hpos : 0 < SIZE)
  (hSIZE : SIZE < 2 ^ 32) (hes : 4 ≤ es) (hes' : es < 2 ^ 32) (hfits : SIZE * es ≤ 2 ^ 32)
  (hrepr : ∀ w, (repr w).length ≤ es)
include hpos hSIZE hes hes' hfits hrepr

/-- **The statistics of a socket never reported outlive it.**  From a new poller, a socket that
`udp_new_socket` reports without a local port joins the table but is not reported; statistics
without an address change are accumulated, valid, in the current epoch of their direction's
store.  `handle_udp_destroy_socket` sends nothing for an entry that was not reported and frees
its element, leaving the statistics valid and queued; the next `udp_send_stats_from_queue` in
another timeslot finds them and stops on the `assert` of `operator[]`, since their element is no
longer in use. -/
theorem unreported_stats_assert (t₀ t₁ t₂ t₃ : UInt64) (msg : UdpNewSocket) (m : UdpStats)
    (hport : msg.lport = 0) (hsk : m.sk = msg.sk) (hin : m.isRx.toNat < 2)
    (hch : m.changedAf = 0)
    (hslot : (Util.FastDiv.divide t₃ tslot).toUInt16 ≠ (Util.FastDiv.divide t₁ tslot).toUInt16) :
    (new SIZE es mem tslot nat).run SIZE repr
      [.udpNewSocket t₀ msg, .udpStats t₁ m, .udpDestroySocket t₂ msg.sk,
        .udpSendStatsFromQueue t₃] = .error "assert" := by
  have h₀ : Inv SIZE es repr (new SIZE es mem tslot nat) ∅ :=
    Inv.init hfits (init_new mem tslot nat hpos hSIZE hes hes')
  -- the socket joins the table without being reported
  obtain ⟨p₁, i, v, he₁, h₁, hk₁, hv₁, hrep, hs₁, hst₁⟩ := handleUdpNewSocket_unbound hrepr h₀ t₀
    msg (Finset.notMem_empty _) (by simpa using hpos) hport
  -- its statistics go to the current epoch of a store that had no timeslot
  set d : Fin 2 := ⟨m.isRx.toNat, hin⟩
  have hfind : (p₁.udpSocketTable.find SIZE m.sk).index = i := by
    rw [FixedHash.find_index, hsk, hk₁]
    rfl
  obtain ⟨p₂, w, e, s', he₂, h₂, hl, htab₂, hs₂, hv₂⟩ := handleUdpStats_unchanged hrepr h₁ t₁ m
    hin (by simp [hsk]) hch
  rw [hfind] at hl hv₂
  have hnew : ∀ d', p₁.udpSocketStats d' = Util.MetricStore.new SIZE tslot := fun d' => by
    rw [hs₁]
    rfl
  rw [hnew] at hl
  obtain ⟨he, hcq, hct, htt⟩ := lookup_of_none rfl hl
  -- the current epoch of a new store is `0`
  have he0 : e = (Util.MetricStore.new SIZE tslot).currentQueue.toNat :=
    he.trans (epoch_zero (by simp [Util.MetricStore.new, nEpochs]))
  -- the destroy sends nothing and frees the element
  obtain ⟨p₃, he₃, h₃, hst₃, hs₃, hfree⟩ := handleUdpDestroySocket_unreported hrepr h₂
    (by rw [htab₂]; exact hk₁) (by rw [htab₂]; exact hv₁) hrep (t := t₂)
  have hstore₃ : p₃.udpSocketStats d = s' := by rw [hs₃, hs₂, Function.update_self]
  have hpoll : p₃.udpSendStatsFromQueue SIZE repr t₃ = .error "assert" := by
    refine udpSendStatsFromQueue_assert hrepr h₃ t₃ (d := d) (i := i) ?_ ?_ hfree ?_
    · -- another timeslot
      rw [hstore₃, Ne, Util.MetricStore.relativeTimeslot_fst_eq_zero, hct, htt]
      simpa using fun h => hslot h.symm
    · rw [hst₃, hstore₃, hcq, ← he0]
      exact hv₂
    · -- TX, before RX, has no timeslot yet
      intro hd
      rw [hs₃, hs₂, Function.update_of_ne fun h0 => absurd (h0.trans hd) (by decide), hnew,
        Util.MetricStore.relativeTimeslot_fst_eq_zero]
      exact Or.inl rfl
  simp only [run, List.foldlM_cons, call, he₁, he₂, bind, Except.bind, he₃, hpoll]

end Unreported

/-- A socket without a local port, its statistics, its destroy, and a poll in a later
timeslot. -/
theorem unreported_stats_assert_one_socket :
    (new 2 72 (fun _ => 0) ⟨1, 0⟩ NatHandler.empty).run 2 UdpSocketEntry.bytes
      [.udpNewSocket 0 ⟨7, 5, zeroAddress, 0⟩,
        .udpStats 1 ⟨5, zeroAddress, 10, 100, 0, 53, 0, zeroAddress, 53, 0⟩, .udpDestroySocket 2 5,
        .udpSendStatsFromQueue 3] = .error "assert" :=
  unreported_stats_assert (by decide) (by decide) (by decide) (by decide) (by decide)
    (fun w => (UdpSocketEntry.length_bytes w).le) 0 1 2 3 ⟨7, 5, zeroAddress, 0⟩
    ⟨5, zeroAddress, 10, 100, 0, 53, 0, zeroAddress, 53, 0⟩ rfl rfl (by decide) rfl (by decide)

end UdpPoller

end Collector

end OtelEbpf
