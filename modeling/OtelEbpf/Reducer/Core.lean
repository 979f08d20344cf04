import OtelEbpf.Reducer.VirtualClock
import OtelEbpf.Lib.Bytes

/-!
# `Core::handle_rpc`

`reducer/core.cc`: a reducer core reads the messages of its RPC clients, one element queue
per client, each message beginning with a `u64` timestamp.  One call of `handle_rpc` goes
once round the clients, starting where the last call stopped.  A client is served only while
the virtual clock lets its input be updated; each message's timestamp first updates the
client's input, and the message is read and passed to the client's handler only if the input
is then in the clock's timeslot.  Otherwise the message stays at the head of the queue, and
the client is not served again until the clock has caught up.  At the end of the call the
clock advances if it can.

The queues are the elements a writer has published and the core not yet read, in order (the
ring buffer underneath is `ElementQueue`).  The handlers are outside the model: the ghost
`log` records each message read, with what was done with it.  Reads of the monotonic clock
are an oracle `late`: `late n` says whether the `n`-th reading in the call is past the
call's deadline.

* `batchLoop_invariant`, `clientsLoop_invariant`, `handleRpc_invariant` : a property of the
  core that one message of the inner loop keeps, that moving to the next client keeps and
  that `advance` keeps holds after `handle_rpc`, also when it throws.
-/

namespace OtelEbpf

namespace Reducer

/-- `kMaxRpcBatchPerQueue`: the most iterations of the inner loop for one client. -/
def kMaxRpcBatchPerQueue : ℕ := 10 * 1000

/-- The timestamp a message begins with, as `peek_value<u64>` reads it: the first 8 bytes of
the element, little-endian; an element shorter than that has none (`-EINVAL`). -/
def msgTimestamp (msg : List UInt8) : Option UInt64 :=
  if 8 ≤ msg.length then some (UInt64.ofNat (Bytes.leValue (msg.take 8))) else none

/-- `ElementQueue::peek` on the elements not yet read: the length of the next, or
`-ENOENT`. -/
def peek : List (List UInt8) → ℤ
  | [] => -ENOENT
  | msg :: _ => msg.length

/-- `ElementQueue::peek_value<u64>` on the elements not yet read. -/
def peekValue : List (List UInt8) → Option UInt64
  | [] => none
  | msg :: _ => msgTimestamp msg

/-- What the core did with a message it read: passed it to the client's handler, in the
clock's timeslot `timeslot` and with `current_timestamp_` as `timestamp`, or dropped it for
want of a timestamp. -/
inductive Delivery
  | handled (client : ℕ) (msg : List UInt8) (timeslot : UInt16) (timestamp : UInt64)
  | skipped (client : ℕ) (msg : List UInt8)

/-- The part of `Core` that `handle_rpc` reads and writes: the name and shard its exceptions
cite, the queue of each RPC client, the virtual clock, `current_timestamp_`,
`next_rpc_client_`, and the ghost `log`. -/
structure Core where
  appName : String
  shardNum : ℕ
  queues : List (List (List UInt8))
  clock : VirtualClock
  currentTimestamp : UInt64
  nextRpcClient : ℕ
  log : List Delivery

namespace Core

/-- The core as its constructor and `add_rpc_clients` leave it, on queues that already hold
`queues`: one clock input per client, none of them with a timeslot. -/
def init (appName : String) (shardNum : ℕ) (initialTimestamp : UInt64) (divider : FastDiv)
    (queues : List (List (List UInt8))) : Core :=
  ⟨appName, shardNum, queues, (VirtualClock.new divider).addInputs queues.length, initialTimestamp,
    0, []⟩

/-- `rpc_clients_[i].queue`. -/
def queue (core : Core) (i : ℕ) : List (List UInt8) := core.queues.getD i []

/-- `rpc_client.queue.read(msg_buf)`: take the next message of client `i` off its queue and
log what was done with it.  The loop reads only after `peek() > 0`, so the queue is not
empty. -/
def read (core : Core) (i : ℕ) (entry : List UInt8 → Delivery) : Core :=
  match core.queue i with
  | [] => core
  | msg :: rest => { core with queues := core.queues.set i rest, log := core.log ++ [entry msg] }

/-- A message without a timestamp: "could not read timestamp from a message", read and not
processed. -/
def skip (core : Core) (i : ℕ) : Core := core.read i (Delivery.skipped i)

/-- The `is_current` branch: `current_timestamp_ = std::max(current_timestamp_,
msg_timestamp)`, then read the message and pass it to the handler with
`current_timestamp_`. -/
def deliver (core : Core) (i : ℕ) (timestamp : UInt64) : Core :=
  let core := { core with currentTimestamp := max core.currentTimestamp timestamp }
  core.read i fun msg => .handled i msg (core.clock.currentTimeslot.getD 0) core.currentTimestamp

end Core

/-- The exception `handle_rpc` throws when `update` returns the error `r`. -/
def updateError (core : Core) (r : ℤ) : CppException :=
  if r = -EINVAL then
    .runtimeError (core.appName ++ "-" ++ toString core.shardNum ++ ": out-of-order message")
  else
    .runtimeError (core.appName ++ "-" ++ toString core.shardNum ++ ": unexpected error: " ++
      toString r)

/-- The locals of `handle_rpc` its loops carry: the core, how many times the monotonic clock
has been read, `timed_out` and `any_handled`. -/
structure Round where
  core : Core
  checks : ℕ
  timedOut : Bool
  anyHandled : Bool

section Loops

variable (late : ℕ → Bool)

/-- One iteration of the inner loop on client `idx`, entered with the loop's condition true:
skip a message without a timestamp; otherwise update the clock, throw if that fails, read
and handle the message if the client is current, and read the monotonic clock. -/
def batchStep (idx : ℕ) (r : Round) : Except (CppException × Core) Round :=
  match peekValue (r.core.queue idx) with
  | none => .ok { r with core := r.core.skip idx }
  | some timestamp =>
    match r.core.clock.update idx timestamp with
    | (clock, res) =>
      if res < 0 then .error (updateError r.core res, r.core)
      else
        let current := clock.isCurrent idx
        let core := { r.core with clock := clock }
        .ok { core := if current then core.deliver idx timestamp else core
              checks := r.checks + 1
              timedOut := late r.checks
              anyHandled := r.anyHandled || current }

/-- The inner loop of `handle_rpc` on client `idx`, with `k` of its iterations left: it goes
on while the clock lets the client be updated, the queue has a message and the call has not
timed out. -/
def batchLoop (idx : ℕ) : ℕ → Round → Except (CppException × Core) Round
  | 0, r => .ok r
  | k + 1, r =>
    if r.core.clock.canUpdate idx = true ∧ 0 < peek (r.core.queue idx) ∧ r.timedOut = false then
      match batchStep late idx r with
      | .ok r => batchLoop idx k r
      | .error e => .error e
    else .ok r

/-- The outer loop of `handle_rpc`, with `k` of its iterations left: serve the next client in
line, if the clock lets it be updated, and move `next_rpc_client_` on. -/
def clientsLoop : ℕ → Round → Except (CppException × Core) Round
  | 0, r => .ok r
  | k + 1, r =>
    if r.timedOut then .ok r
    else
      let idx := r.core.nextRpcClient
      let r := { r with core := { r.core with nextRpcClient := (idx + 1) % r.core.queues.length } }
      if r.core.clock.canUpdate idx then
        match batchLoop late idx kMaxRpcBatchPerQueue r with
        | .ok r => clientsLoop k r
        | .error e => .error e
      else clientsLoop k r

/-- `Core::handle_rpc`: the core afterwards and whether a message was handled, or the
exception thrown, with the core as it was then.  `on_timeslot_complete` touches neither the
queues nor the clock and is not modelled. -/
def handleRpc (core : Core) : Core × Except CppException Bool :=
  match clientsLoop late core.queues.length ⟨core, 0, false, false⟩ with
  | .error (e, core) => (core, .error e)
  | .ok r => ({ r.core with clock := r.core.clock.advance.1 }, .ok r.anyHandled)

end Loops

/-! ### Reading a message -/

namespace Core

variable {core : Core} {i j : ℕ}

theorem read_of_cons {f : List UInt8 → Delivery} {msg : List UInt8} {rest : List (List UInt8)}
    (h : core.queue i = msg :: rest) :
    core.read i f = { core with queues := core.queues.set i rest, log := core.log ++ [f msg] } := by
  rw [read, h]

@[simp] theorem clock_read (f : List UInt8 → Delivery) : (core.read i f).clock = core.clock := by
  unfold read
  split <;> rfl

@[simp] theorem nextRpcClient_read (f : List UInt8 → Delivery) :
    (core.read i f).nextRpcClient = core.nextRpcClient := by
  unfold read
  split <;> rfl

@[simp] theorem length_queues_read (f : List UInt8 → Delivery) :
    (core.read i f).queues.length = core.queues.length := by
  unfold read
  split
  · rfl
  · exact List.length_set

end Core

/-! ### Invariant rules for the loops -/

section Rules

variable {late : ℕ → Bool} {idx : ℕ}

/-- When an iteration throws, the core is the one it started with. -/
theorem batchStep_error {r : Round} {e : CppException} {c : Core}
    (h : batchStep late idx r = .error (e, c)) : c = r.core := by
  unfold batchStep at h
  split at h
  · cases h
  · split at h
    · split at h
      · cases h
        rfl
      · cases h

/-- **What an iteration of the inner loop does**, on a client the clock lets be updated and
whose next message is `msg`: it skips a message without a timestamp; otherwise, when it does
not throw, it sets the client's input to the message's timeslot and, if that makes the client
current, reads and handles the message. -/
theorem batchStep_cases {r r' : Round} {msg : List UInt8} {rest : List (List UInt8)}
    (hcan : r.core.clock.canUpdate idx = true) (hq : r.core.queue idx = msg :: rest)
    (h : batchStep late idx r = .ok r') :
    (msgTimestamp msg = none ∧ r'.core = r.core.skip idx) ∨
      ∃ ts, msgTimestamp msg = some ts ∧
        r'.core = if (r.core.clock.setInput idx (timeslotOf r.core.clock.divider ts)).isCurrent idx
          then { r.core with clock := r.core.clock.setInput idx (timeslotOf r.core.clock.divider ts) }.deliver idx ts
          else { r.core with clock := r.core.clock.setInput idx (timeslotOf r.core.clock.divider ts) } := by
  unfold batchStep at h
  rw [hq] at h
  cases hts : msgTimestamp msg with
  | none =>
    simp only [peekValue, hts] at h
    cases h
    exact Or.inl ⟨rfl, rfl⟩
  | some ts =>
    simp only [peekValue, hts] at h
    right
    refine ⟨ts, rfl, ?_⟩
    rcases VirtualClock.update_of_canUpdate ts hcan with ⟨hu, -⟩ | hu
    · rw [hu] at h
      -- the update failed: the iteration throws
      simp only at h
      rw [if_pos (by decide)] at h
      cases h
    · rw [hu] at h
      simp only at h
      rw [if_neg (by decide)] at h
      cases h
      rfl

/-- **The inner loop keeps an invariant** that every iteration keeps, also when it throws. -/
theorem batchLoop_invariant (P : Core → Prop)
    (hstep : ∀ r r', P r.core → r.core.clock.canUpdate idx = true → 0 < peek (r.core.queue idx) →
      batchStep late idx r = .ok r' → P r'.core) :
    ∀ (k : ℕ) (r : Round), P r.core →
      (∀ r', batchLoop late idx k r = .ok r' → P r'.core) ∧
        ∀ e c, batchLoop late idx k r = .error (e, c) → P c := by
  intro k
  -- induction on the iterations left; each one is an iteration of `batchStep`
  induction k with
  | zero =>
    intro r hr
    refine ⟨fun r' h => ?_, fun e c h => ?_⟩
    · cases h
      exact hr
    · cases h
  | succ k ih =>
    intro r hr
    unfold batchLoop
    split
    · rename_i hcond
      split
      · rename_i r₁ hr₁
        exact ih r₁ (hstep r r₁ hr hcond.1 hcond.2.1 hr₁)
      · rename_i e₁ hr₁
        refine ⟨(fun r' h => by cases h), fun e c h => ?_⟩
        cases h
        rw [batchStep_error hr₁]
        exact hr
    · refine ⟨fun r' h => ?_, fun e c h => by cases h⟩
      cases h
      exact hr

/-- **The outer loop keeps an invariant** that moving to the next client keeps and that the
inner loop keeps on the client that was next in line. -/
theorem clientsLoop_invariant (P : Core → Prop)
    (hnext : ∀ core, P core →
      P { core with nextRpcClient := (core.nextRpcClient + 1) % core.queues.length })
    (hbatch : ∀ (i : ℕ) (r r' : Round), P r.core → r.core.clock.canUpdate i = true →
      (∀ core, P core → core.nextRpcClient < core.queues.length) →
      i < r.core.queues.length → batchLoop late i kMaxRpcBatchPerQueue r = .ok r' → P r'.core)
    (hbatchError : ∀ (i : ℕ) (r : Round) (e : CppException) (c : Core), P r.core →
      i < r.core.queues.length → batchLoop late i kMaxRpcBatchPerQueue r = .error (e, c) → P c)
    (hlt : ∀ core, P core → core.nextRpcClient < core.queues.length) :
    ∀ (k : ℕ) (r : Round), P r.core →
      (∀ r', clientsLoop late k r = .ok r' → P r'.core) ∧
        ∀ e c, clientsLoop late k r = .error (e, c) → P c := by
  intro k
  induction k with
  | zero =>
    intro r hr
    refine ⟨fun r' h => ?_, fun e c h => ?_⟩
    · cases h
      exact hr
    · cases h
  | succ k ih =>
    intro r hr
    have hlen : r.core.nextRpcClient < r.core.queues.length := hlt _ hr
    have hr₁ := hnext r.core hr
    unfold clientsLoop
    split
    · refine ⟨fun r' h => ?_, fun e c h => by cases h⟩
      cases h
      exact hr
    · dsimp only
      split
      · rename_i hcan
        split
        · rename_i r₂ hr₂
          exact ih r₂ (hbatch _
            { r with core := { r.core with nextRpcClient := (r.core.nextRpcClient + 1) % _ } } r₂
            hr₁ hcan hlt hlen hr₂)
        · rename_i e₂ hr₂
          refine ⟨(fun r' h => by cases h), fun e c h => ?_⟩
          cases h
          exact hbatchError _
            { r with core := { r.core with nextRpcClient := (r.core.nextRpcClient + 1) % _ } } _ _
            hr₁ hlen hr₂
      · exact ih _ hr₁

/-- **`handle_rpc` keeps an invariant** that its outer loop keeps and that `advance` keeps,
also when it throws. -/
theorem handleRpc_invariant (P : Core → Prop)
    (hloop : ∀ (k : ℕ) (r : Round), P r.core →
      (∀ r', clientsLoop late k r = .ok r' → P r'.core) ∧
        ∀ e c, clientsLoop late k r = .error (e, c) → P c)
    (hadvance : ∀ core, P core → P { core with clock := core.clock.advance.1 })
    {core : Core} (h : P core) : P (handleRpc late core).1 := by
  have hl := hloop core.queues.length ⟨core, 0, false, false⟩ h
  unfold handleRpc
  split
  · rename_i e c hc
    exact hl.2 e c hc
  · rename_i r hr
    exact hadvance _ (hl.1 r hr)

end Rules

end Reducer

end OtelEbpf
