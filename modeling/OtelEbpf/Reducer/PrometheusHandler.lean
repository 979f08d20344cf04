import OtelEbpf.Lib.Bytes
import OtelEbpf.Lib.Drain
import OtelEbpf.Reducer.Core

/-!
# Serving a Prometheus scrape from the element queues

`PrometheusHandler` (`reducer/prometheus_handler.cc`) answers a scrape with the metric lines
the reducer's workers formatted into their element queues.  `read_from_queue` copies whole
elements from one queue into a buffer while they fit in a byte budget.
`write_content_from_queues` visits every queue once, round robin from `next_queue_`, packs the
elements into one `chunk_buffer` of `chunk_buffer_size` bytes, sends the chunk with
`mg_send_chunk` when the next element does not fit, and keeps to `scrape_size_limit_bytes` by
bounding each read by the limit less the bytes already sent.  `write_content_from_queue` serves
one queue, reading a chunk and sending it at once.

A queue is read through its contents, the list of its elements in FIFO order
(`ElementQueue.Spsc` proves that the reader sees them so), with `peek` as in `Reducer.Core`.
What the call meets from outside is an `Env`: whether `mg_send_http_ok` succeeds, the answer of
each check `monotonic() >= timeout_ns`, what each `mg_send_chunk` returns for its payload, and
the bytes the uninitialised `chunk_buffer` starts with.  A `memcpy` past the end of
`chunk_buffer` is undefined behaviour, where the model stops with `none`.  The `u64` byte
counts are numbers: a scrape cannot send `2 ^ 64` bytes.

* `writeContentFromQueues_spec` : for every handler whose elements fit in the chunk buffer and
  every environment, a scrape of all queues never writes past `chunk_buffer`, and the payloads it
  hands to `mg_send_chunk`, each at most `chunk_buffer_size` bytes, are the elements it removed,
  in order: a prefix of each queue it visited, the queues visited round robin from
  `next_queue_`.
* `writeContentFromQueue_spec` : the same for a scrape of one queue, whose payloads moreover
  add up to at most `scrape_size_limit_bytes` when `mg_send_chunk` reports at least the bytes it
  was given.
* `scrape_exceeds_limit` : a scrape of all queues does not keep to the limit: each read is
  bounded by the limit less the bytes *sent*, not less the bytes already in the chunk, so two
  queues of one line each send both lines under a limit of one line.
-/

namespace OtelEbpf

namespace Reducer

/-- `chunk_buffer_size`. -/
def chunkBufferSize : ℕ := 2 ^ 20

/-- `memcpy(chunk_buffer + dst, src, src.length)`; undefined past the end of `chunk_buffer`. -/
def chunkCopy (buf : ℕ → UInt8) (dst : ℕ) (src : List UInt8) : Option (ℕ → UInt8) :=
  if dst + src.length ≤ chunkBufferSize then some (Bytes.copyIn buf dst src) else none

/-- What `read_from_queue` returns and leaves: the bytes read, whether more is left, the queue
and the buffer after it, and the elements it read. -/
structure ReadResult where
  len : UInt32
  more : Bool
  queue : List (List UInt8)
  buffer : ℕ → UInt8
  read : List (List UInt8)

/-- The loop of `read_from_queue` into the buffer at `chunk_buffer + base`, `len` bytes and the
elements `read` in.  `peek()` is `-ENOENT` on an empty queue; `len + peek()` is computed in
`u32`. -/
def readLoop (bufferSize : UInt32) (base : ℕ) :
    List (List UInt8) → (ℕ → UInt8) → UInt32 → List (List UInt8) → Option ReadResult
  | [], buffer, len, read => some ⟨len, false, [], buffer, read⟩
  | e :: queue, buffer, len, read =>
    if 0 < peek (e :: queue) then
      if len + e.length.toUInt32 > bufferSize then some ⟨len, true, e :: queue, buffer, read⟩
      else
        match chunkCopy buffer (base + len.toNat) e with
        | none => none
        | some buffer' => readLoop bufferSize base queue buffer' (len + e.length.toUInt32) (read ++ [e])
    else some ⟨len, false, e :: queue, buffer, read⟩

/-- `read_from_queue(queue, chunk_buffer + base, buffer_size)`. -/
def readFromQueue (queue : List (List UInt8)) (buffer : ℕ → UInt8) (base : ℕ) (bufferSize : UInt32) :
    Option ReadResult :=
  readLoop bufferSize base queue buffer 0 []

/-! ### What `read_from_queue` does -/

/-- How `read_from_queue` stops, `used` bytes in: at the end of the queue or at an empty
element, with nothing more to read, or at an element that does not fit, with more. -/
def Stops (bufferSize used : ℕ) : List (List UInt8) → Bool → Prop
  | [], more => more = false
  | e :: _, more => (e = [] ∧ more = false) ∨ (e ≠ [] ∧ bufferSize < used + e.length ∧ more = true)

/-- `read_from_queue` took the first elements of `queue`, all non-empty and `len` bytes in all,
copied them to the buffer after the bytes before `base`, and stopped as `Stops` says. -/
structure ReadResult.Spec (r : ReadResult) (bufferSize base : ℕ) (queue : List (List UInt8))
    (buffer : ℕ → UInt8) : Prop where
  split : queue = r.read ++ r.queue
  len_eq : r.len.toNat = r.read.flatten.length
  len_le : r.len.toNat ≤ bufferSize
  copied : Bytes.copyOut r.buffer 0 (base + r.len.toNat) = Bytes.copyOut buffer 0 base ++ r.read.flatten
  nonempty : ∀ e ∈ r.read, e ≠ []
  stops : Stops bufferSize r.len.toNat r.queue r.more

theorem peek_cons_pos_iff (e : List UInt8) (q : List (List UInt8)) : 0 < peek (e :: q) ↔ e ≠ [] := by
  rw [peek, Int.natCast_pos, List.length_pos_iff]

/-- `len + elem_len` does not wrap for a buffer and an element of at most `chunk_buffer_size`. -/
theorem toNat_add_length {len : UInt32} {e : List UInt8} (hlen : len.toNat ≤ chunkBufferSize)
    (he : e.length ≤ chunkBufferSize) : (len + e.length.toUInt32).toNat = len.toNat + e.length := by
  have hcbs : chunkBufferSize = 2 ^ 20 := rfl
  rw [UInt32.toNat_add, UInt32.toNat_ofNat_of_lt' (show e.length < 2 ^ 32 by omega),
    Nat.mod_eq_of_lt (by omega)]

theorem chunkCopy_of_le {buf : ℕ → UInt8} {dst : ℕ} {src : List UInt8}
    (h : dst + src.length ≤ chunkBufferSize) : chunkCopy buf dst src = some (Bytes.copyIn buf dst src) :=
  if_pos h

/-- The loop of `read_from_queue`, with what it has read so far. -/
theorem readLoop_spec {bufferSize : UInt32} {base : ℕ}
    (hfit : base + bufferSize.toNat ≤ chunkBufferSize) :
    ∀ (queue : List (List UInt8)) (buffer : ℕ → UInt8) (len : UInt32) (read : List (List UInt8)),
      (∀ e ∈ queue, e.length ≤ chunkBufferSize) → len.toNat ≤ bufferSize.toNat →
      ∃ r taken, readLoop bufferSize base queue buffer len read = some r ∧
        queue = taken ++ r.queue ∧ r.read = read ++ taken ∧
        r.len.toNat = len.toNat + taken.flatten.length ∧ r.len.toNat ≤ bufferSize.toNat ∧
        Bytes.copyOut r.buffer 0 (base + r.len.toNat) =
          Bytes.copyOut buffer 0 (base + len.toNat) ++ taken.flatten ∧
        (∀ e ∈ taken, e ≠ []) ∧ Stops bufferSize.toNat r.len.toNat r.queue r.more := by
  intro queue
  induction queue with
  | nil =>
    intro buffer len read _ hlen
    exact ⟨_, [], rfl, rfl, by simp, by simp, hlen, by simp, by simp, rfl⟩
  | cons e queue ih =>
    intro buffer len read hq hlen
    have he := hq e (List.mem_cons_self ..)
    by_cases hnil : e = []
    · -- `peek()` is `0`: nothing more
      have hpeek : ¬0 < peek (e :: queue) := fun h => (peek_cons_pos_iff e queue).1 h hnil
      exact ⟨⟨len, false, e :: queue, buffer, read⟩, [], by rw [readLoop, if_neg hpeek], rfl,
        by simp, by simp, hlen, by simp, by simp, Or.inl ⟨hnil, rfl⟩⟩
    have hpeek : 0 < peek (e :: queue) := (peek_cons_pos_iff e queue).2 hnil
    have hsum := toNat_add_length (show len.toNat ≤ chunkBufferSize by omega) he
    by_cases hbig : len + e.length.toUInt32 > bufferSize
    · -- the element does not fit: more
      have hgt : bufferSize.toNat < len.toNat + e.length := by
        rw [← hsum]
        exact UInt32.lt_iff_toNat_lt.1 hbig
      exact ⟨⟨len, true, e :: queue, buffer, read⟩, [], by rw [readLoop, if_pos hpeek, if_pos hbig],
        rfl, by simp, by simp, hlen, by simp, by simp, Or.inr ⟨hnil, hgt, rfl⟩⟩
    · -- the element fits: copy it and go on
      have hle : len.toNat + e.length ≤ bufferSize.toNat := by
        rw [← hsum]
        exact UInt32.le_iff_toNat_le.1 (UInt32.not_lt.1 hbig)
      obtain ⟨r, taken, hr, hsplit, hread, hlen', hle', hcopied, hne, hstops⟩ :=
        ih (Bytes.copyIn buffer (base + len.toNat) e) (len + e.length.toUInt32) (read ++ [e])
          (fun e' he' => hq e' (List.mem_cons_of_mem _ he')) (by omega)
      refine ⟨r, e :: taken, ?_, by rw [hsplit, List.cons_append], by rw [hread]; simp,
        by rw [hlen', hsum]; simp; omega, hle', ?_, ?_, hstops⟩
      · rw [readLoop, if_pos hpeek, if_neg hbig, chunkCopy_of_le (by omega)]
        exact hr
      · rw [hcopied, hsum, ← Nat.add_assoc, Bytes.copyOut_copyIn_end]
        simp
      · intro e' he'
        rcases List.mem_cons.1 he' with rfl | he'
        · exact hnil
        · exact hne e' he'

/-- `read_from_queue` into a buffer that has room for `buffer_size` bytes after `base`. -/
theorem readFromQueue_spec {queue : List (List UInt8)} {buffer : ℕ → UInt8} {base : ℕ}
    {bufferSize : UInt32} (hq : ∀ e ∈ queue, e.length ≤ chunkBufferSize)
    (hfit : base + bufferSize.toNat ≤ chunkBufferSize) :
    ∃ r, readFromQueue queue buffer base bufferSize = some r ∧ r.Spec bufferSize.toNat base queue buffer := by
  obtain ⟨r, taken, hr, hsplit, hread, hlen, hle, hcopied, hne, hstops⟩ :=
    readLoop_spec hfit queue buffer 0 [] hq (by simp)
  simp only [List.nil_append] at hread
  subst hread
  refine ⟨r, hr, hsplit, by simpa using hlen, hle, by simpa using hcopied, hne, hstops⟩

/-- A read of no bytes read no element. -/
theorem ReadResult.Spec.read_eq_nil {r : ReadResult} {bufferSize base : ℕ} {queue buffer}
    (h : r.Spec bufferSize base queue buffer) (h0 : r.len.toNat = 0) : r.read = [] := by
  have hflat : r.read.flatten = [] := List.eq_nil_of_length_eq_zero (h.len_eq ▸ h0)
  rw [List.flatten_eq_nil_iff] at hflat
  cases hr : r.read with
  | nil => rfl
  | cons e _ =>
    exact absurd (hflat e (by simp [hr])) (h.nonempty e (by simp [hr]))

/-- What a scrape meets: whether `mg_send_http_ok` succeeds, the answer of the `i`-th check
`monotonic() >= timeout_ns`, what the `k`-th `mg_send_chunk` returns for its payload, and the
initial bytes of `chunk_buffer`. -/
structure Env where
  httpOk : Bool
  timeUp : ℕ → Bool
  reply : ℕ → List UInt8 → ℤ
  stack : ℕ → UInt8

/-- `mg_send_chunk` fails or reports at least the bytes it was given. -/
def Env.SendsWhole (env : Env) : Prop := ∀ k p, env.reply k p ≤ 0 ∨ (p.length : ℤ) ≤ env.reply k p

/-- `PrometheusHandler`: the queues' contents, `scrape_size_limit_bytes_`, the two counters and
`next_queue_`. -/
structure PrometheusHandler where
  queues : List (List (List UInt8))
  scrapeSizeLimitBytes : Option ℕ
  bytesServed : ℕ
  numFailedScrapes : ℕ
  nextQueue : ℕ

/-! ### `write_content_from_queues` -/

/-- The state of `write_content_from_queues`: the queues, `next_queue_`, `chunk_buffer`,
`chunk_len`, `bytes_sent` and `error`, with the payloads handed to `mg_send_chunk` and the
elements removed, with their queue. -/
structure Scrape where
  queues : List (List (List UInt8))
  nextQueue : ℕ
  chunkBuffer : ℕ → UInt8
  chunkLen : UInt32
  bytesSent : ℕ
  error : Bool
  sent : List (List UInt8)
  removed : List (ℕ × List UInt8)

namespace Scrape

/-- The bytes in the chunk, `chunk_buffer[0, chunk_len)`. -/
def chunk (s : Scrape) : List UInt8 := Bytes.copyOut s.chunkBuffer 0 s.chunkLen.toNat

/-- The lambda `send_chunk`. -/
def sendChunk (env : Env) (s : Scrape) : Scrape :=
  let nsent := env.reply s.sent.length s.chunk
  let s' := { s with sent := s.sent ++ [s.chunk] }
  if 0 < nsent then { s' with bytesSent := s.bytesSent + nsent.toNat, chunkLen := 0 }
  else { s' with error := true }

/-- One pass of the `do … while` body on queue `qi` under the limit `scrapeLimit`: the state,
`more`, and whether it broke out with `scrape_size_limited` set. -/
def readStep (env : Env) (scrapeLimit qi : ℕ) (s : Scrape) : Option (Scrape × Bool × Bool) :=
  let scrapeRemaining := scrapeLimit - s.bytesSent
  let chunkRemaining := chunkBufferSize - s.chunkLen.toNat
  (readFromQueue (s.queues.getD qi []) s.chunkBuffer s.chunkLen.toNat
      (min chunkRemaining scrapeRemaining).toUInt32).map fun r =>
    let s := { s with
      queues := s.queues.set qi r.queue
      chunkBuffer := r.buffer
      chunkLen := if r.len > 0 then s.chunkLen + r.len else s.chunkLen
      removed := s.removed ++ r.read.map (qi, ·) }
    if r.more then
      if chunkRemaining < scrapeRemaining then (sendChunk env s, true, false) else (s, true, true)
    else (s, false, false)

/-- The `do … while` loop on queue `qi`, with `rem = 2 - repeat` repetitions left; it returns
`scrape_size_limited`. -/
def drain (env : Env) (scrapeLimit qi : ℕ) : ℕ → Scrape → Option (Scrape × Bool)
  | rem, s =>
    match readStep env scrapeLimit qi s with
    | none => none
    | some (s, more, limited) =>
      if limited then some (s, true)
      else if more && !s.error && decide (s.bytesSent < scrapeLimit) then
        match rem with
        | 0 => some (s, false)
        | rem + 1 => drain env scrapeLimit qi rem s
      else some (s, false)

/-- The `for` loop over the `n` queues, `k` iterations left at index `i`. -/
def visit (env : Env) (scrapeLimit n : ℕ) : ℕ → ℕ → Bool → Scrape → Option Scrape
  | 0, _, _, s => some s
  | k + 1, i, limited, s =>
    if s.error then some s
    else if env.timeUp i then some s
    else if limited then some s
    else if scrapeLimit ≤ s.bytesSent then some s
    else
      match drain env scrapeLimit s.nextQueue 2 { s with nextQueue := (s.nextQueue + 1) % n } with
      | none => none
      | some (s, limited) => visit env scrapeLimit n k (i + 1) limited s

end Scrape

/-- `write_content_from_queues`: the handler after it, the payloads handed to `mg_send_chunk`
(the last one the terminating chunk) and the elements removed; `none` if it writes past
`chunk_buffer`. -/
def writeContentFromQueues (h : PrometheusHandler) (env : Env) :
    Option (PrometheusHandler × List (List UInt8) × List (ℕ × List UInt8)) :=
  if !env.httpOk then some ({ h with numFailedScrapes := h.numFailedScrapes + 1 }, [], [])
  else
    let scrapeLimit := h.scrapeSizeLimitBytes.getD (2 ^ 64 - 1)
    (Scrape.visit env scrapeLimit h.queues.length h.queues.length 0 false
        ⟨h.queues, h.nextQueue, env.stack, 0, 0, false, [], []⟩).map fun s =>
      let s := if !s.error && s.chunkLen > 0 then s.sendChunk env else s
      ({ h with
          queues := s.queues
          nextQueue := s.nextQueue
          bytesServed := h.bytesServed + s.bytesSent
          numFailedScrapes := h.numFailedScrapes + if s.error then 1 else 0 },
        s.sent ++ [[]], s.removed)

/-! ### `write_content_from_queue` -/

/-- The state of `write_content_from_queue`: the queue, `chunk_buffer`, `bytes_sent` and
`error`, with the payloads handed to `mg_send_chunk` and the elements removed. -/
structure Serve where
  queue : List (List UInt8)
  chunkBuffer : ℕ → UInt8
  bytesSent : ℕ
  error : Bool
  sent : List (List UInt8)
  removed : List (List UInt8)

namespace Serve

/-- `read_size` for the next read, or `none` when the limit is reached (`break`). -/
def readSize (scrapeSizeLimitBytes : Option ℕ) (bytesSent : ℕ) : Option ℕ :=
  match scrapeSizeLimitBytes with
  | none => some chunkBufferSize
  | some limit => if limit > bytesSent then some (min chunkBufferSize (limit - bytesSent)) else none

/-- One iteration of the `while` loop, at the `i`-th check of the clock: the state after it,
and whether the loop goes on; `none` if it writes past `chunk_buffer`. -/
def iteration (env : Env) (limit : Option ℕ) (i : ℕ) (s : Serve) : Option (Serve × Bool) :=
  if env.timeUp i then some (s, false)
  else
    match readSize limit s.bytesSent with
    | none => some (s, false)
    | some size =>
      (readFromQueue s.queue s.chunkBuffer 0 size.toUInt32).map fun r =>
        let s := { s with queue := r.queue, chunkBuffer := r.buffer, removed := s.removed ++ r.read }
        if r.len = 0 then (s, false)
        else
          let payload := Bytes.copyOut s.chunkBuffer 0 r.len.toNat
          let nsent := env.reply s.sent.length payload
          let s := { s with sent := s.sent ++ [payload] }
          if 0 < nsent then ({ s with bytesSent := s.bytesSent + nsent.toNat }, r.more)
          else ({ s with error := true }, false)

/-- The `while` loop from the `i`-th check of the clock; `fuel` bounds the iterations. -/
def loop (env : Env) (limit : Option ℕ) : ℕ → ℕ → Serve → Option Serve
  | 0, _, s => some s
  | fuel + 1, i, s =>
    match iteration env limit i s with
    | none => none
    | some (s, true) => loop env limit fuel (i + 1) s
    | some (s, false) => some s

end Serve

/-- `write_content_from_queue(queue_num)`: the handler after it, the payloads handed to
`mg_send_chunk` (the last one the terminating chunk) and the elements removed; `none` if it
writes past `chunk_buffer`.  Each iteration that goes on removes an element, so one more
iteration than the queue has elements is as many as the loop makes (`loop_fuel`). -/
def writeContentFromQueue (h : PrometheusHandler) (env : Env) (queueNum : ℕ) :
    Option (PrometheusHandler × List (List UInt8) × List (List UInt8)) :=
  if !env.httpOk then some ({ h with numFailedScrapes := h.numFailedScrapes + 1 }, [], [])
  else
    let queue := h.queues.getD queueNum []
    (Serve.loop env h.scrapeSizeLimitBytes (queue.length + 1) 0
        ⟨queue, env.stack, 0, false, [], []⟩).map fun s =>
      ({ h with
          queues := h.queues.set queueNum s.queue
          bytesServed := h.bytesServed + s.bytesSent
          numFailedScrapes := h.numFailedScrapes + if s.error then 1 else 0 },
        s.sent ++ [[]], s.removed)

/-! ### A scrape of all queues -/

/-- `chunk_len += nread` when `nread > 0`, without a wrap. -/
theorem toNat_add_of_pos {a b : UInt32} (h : a.toNat + b.toNat < 2 ^ 32) :
    (if b > 0 then a + b else a).toNat = a.toNat + b.toNat := by
  split_ifs with hb
  · rw [UInt32.toNat_add, Nat.mod_eq_of_lt h]
  · have : b.toNat = 0 := by
      have := UInt32.lt_iff_toNat_lt.not.1 hb
      simp only [UInt32.toNat_zero] at this
      omega
    rw [this, Nat.add_zero]

namespace Scrape

open Drain

variable {Q₀ : List (List (List UInt8))} {start : ℕ}

/-- What holds between the steps of a scrape of the queues `Q₀` from queue `start`, `v` queues
visited: the chunk is inside `chunk_buffer`; the payloads handed to `mg_send_chunk`, then the
chunk unless a send failed, are the elements removed; and these are prefixes of the queues
visited, round robin. -/
structure Inv (Q₀ : List (List (List UInt8))) (start v : ℕ) (s : Scrape) : Prop where
  chunk_le : s.chunkLen.toNat ≤ chunkBufferSize
  sent_le : ∀ p ∈ s.sent, p.length ≤ chunkBufferSize
  sent_chunk : s.sent.flatten ++ (if s.error then [] else s.chunk) = (s.removed.map Prod.snd).flatten
  next : s.nextQueue = (start + v) % Q₀.length
  drained : Drained Q₀ (roundRobin start Q₀.length v) s.queues s.removed

theorem inv_start (buf : ℕ → UInt8) (hnext : start < Q₀.length ∨ Q₀ = []) :
    Inv Q₀ start 0 ⟨Q₀, start, buf, 0, 0, false, [], []⟩ where
  chunk_le := Nat.zero_le _
  sent_le := by simp
  sent_chunk := by simp [chunk, Bytes.copyOut]
  next := by
    rcases hnext with h | rfl
    · exact (Nat.mod_eq_of_lt h).symm
    · simp
  drained := drained_start Q₀

/-- A send keeps the invariant: a payload that went out leaves an empty chunk, and one that
did not stops the scrape. -/
theorem Inv.sendChunk {v : ℕ} {s : Scrape} (hi : Inv Q₀ start v s) (env : Env)
    (herr : s.error = false) : Inv Q₀ start v (s.sendChunk env) := by
  have hsent := hi.sent_chunk
  rw [herr, if_neg Bool.false_ne_true] at hsent
  dsimp only [Scrape.sendChunk]
  split_ifs
  · exact {
      chunk_le := by simp
      sent_le := fun p hp => by
        rcases List.mem_append.1 hp with hp | hp
        · exact hi.sent_le p hp
        · rw [List.mem_singleton.1 hp, chunk, Bytes.length_copyOut]
          exact hi.chunk_le
      sent_chunk := by simpa [chunk, Bytes.copyOut, herr] using hsent
      next := hi.next
      drained := hi.drained }
  · exact {
      chunk_le := hi.chunk_le
      sent_le := fun p hp => by
        rcases List.mem_append.1 hp with hp | hp
        · exact hi.sent_le p hp
        · rw [List.mem_singleton.1 hp, chunk, Bytes.length_copyOut]
          exact hi.chunk_le
      sent_chunk := by simpa using hsent
      next := hi.next
      drained := hi.drained }

/-- One pass of the `do … while` body on the queue of the `v`-th visit keeps the invariant. -/
theorem Inv.readStep {v : ℕ} {s : Scrape} (hi : Inv Q₀ start (v + 1) s) (env : Env)
    (scrapeLimit : ℕ) (hq : ∀ q ∈ Q₀, ∀ e ∈ q, e.length ≤ chunkBufferSize) (hv : v < Q₀.length)
    (herr : s.error = false) :
    ∃ s' more limited, readStep env scrapeLimit ((start + v) % Q₀.length) s = some (s', more, limited) ∧
      Inv Q₀ start (v + 1) s' := by
  set qi := (start + v) % Q₀.length
  set size := min (chunkBufferSize - s.chunkLen.toNat) (scrapeLimit - s.bytesSent)
  have hchunk := hi.chunk_le
  have hsize : size.toUInt32.toNat = size := UInt32.toNat_ofNat_of_lt' (show size < 2 ^ 32 by
    have : size ≤ chunkBufferSize := le_trans (min_le_left _ _) (Nat.sub_le _ _)
    exact lt_of_le_of_lt this (by decide))
  have hqe : ∀ e ∈ s.queues.getD qi [], e.length ≤ chunkBufferSize := fun e he => by
    obtain ⟨q, hq', he'⟩ := exists_mem_of_mem_getD (hi.drained.mem he)
    exact hq q hq' e he'
  obtain ⟨r, hr, hspec⟩ := @readFromQueue_spec _ s.chunkBuffer s.chunkLen.toNat size.toUInt32 hqe
    (by rw [hsize]; omega)
  have hlen : r.len.toNat ≤ chunkBufferSize - s.chunkLen.toNat := by
    have := hspec.len_le
    rw [hsize] at this
    exact le_trans this (min_le_left _ _)
  -- the state after the read, before a send
  set s₁ : Scrape := { s with
    queues := s.queues.set qi r.queue
    chunkBuffer := r.buffer
    chunkLen := if r.len > 0 then s.chunkLen + r.len else s.chunkLen
    removed := s.removed ++ r.read.map (qi, ·) } with hs₁
  have hlen₁ : s₁.chunkLen.toNat = s.chunkLen.toNat + r.len.toNat :=
    toNat_add_of_pos (lt_of_le_of_lt (by omega) (show chunkBufferSize < 2 ^ 32 by decide))
  have hchunk₁ : s₁.chunk = s.chunk ++ r.read.flatten := by
    show Bytes.copyOut r.buffer 0 s₁.chunkLen.toNat = _
    rw [hlen₁, hspec.copied]
    rfl
  have hi₁ : Inv Q₀ start (v + 1) s₁ := by
    have hdrained := hi.drained
    rw [roundRobin_succ] at hdrained
    have htake := hdrained.take (not_mem_roundRobin hv) r.read.length
    rw [hspec.split, List.drop_left, List.take_left] at htake
    exact {
      chunk_le := by rw [hlen₁]; omega
      sent_le := hi.sent_le
      sent_chunk := by
        have hsent := hi.sent_chunk
        rw [herr, if_neg Bool.false_ne_true] at hsent
        show s.sent.flatten ++ (if s.error then [] else s₁.chunk) =
          ((s.removed ++ r.read.map (qi, ·)).map Prod.snd).flatten
        rw [herr, if_neg Bool.false_ne_true, hchunk₁, ← List.append_assoc, hsent]
        simp
      next := hi.next
      drained := by
        rw [roundRobin_succ]
        exact htake }
  have hstep : Scrape.readStep env scrapeLimit qi s =
      some (if r.more then
        if chunkBufferSize - s.chunkLen.toNat < scrapeLimit - s.bytesSent then (s₁.sendChunk env, true, false)
        else (s₁, true, true)
      else (s₁, false, false)) := by
    simp only [Scrape.readStep]
    rw [show (min (chunkBufferSize - s.chunkLen.toNat) (scrapeLimit - s.bytesSent)).toUInt32 =
      size.toUInt32 from rfl, hr, Option.map_some]
  rw [hstep]
  split_ifs
  · exact ⟨_, _, _, rfl, hi₁.sendChunk env herr⟩
  · exact ⟨_, _, _, rfl, hi₁⟩
  · exact ⟨_, _, _, rfl, hi₁⟩

/-- The `do … while` loop on the queue of the `v`-th visit keeps the invariant. -/
theorem Inv.drain {v : ℕ} (env : Env) (scrapeLimit : ℕ)
    (hq : ∀ q ∈ Q₀, ∀ e ∈ q, e.length ≤ chunkBufferSize) (hv : v < Q₀.length) :
    ∀ (rem : ℕ) (s : Scrape), Inv Q₀ start (v + 1) s → s.error = false →
      ∃ s' limited, drain env scrapeLimit ((start + v) % Q₀.length) rem s = some (s', limited) ∧
        Inv Q₀ start (v + 1) s' := by
  intro rem
  induction rem with
  | zero =>
    intro s hi herr
    obtain ⟨s', more, limited, hstep, hi'⟩ := hi.readStep env scrapeLimit hq hv herr
    rw [Scrape.drain, hstep]
    dsimp only
    split_ifs <;> exact ⟨_, _, rfl, hi'⟩
  | succ rem ih =>
    intro s hi herr
    obtain ⟨s', more, limited, hstep, hi'⟩ := hi.readStep env scrapeLimit hq hv herr
    rw [Scrape.drain, hstep]
    dsimp only
    split_ifs with hlimited hmore
    · exact ⟨_, _, rfl, hi'⟩
    · -- the loop repeats only when no send failed
      have herr' : s'.error = false := by
        simp only [Bool.and_eq_true, Bool.not_eq_eq_eq_not, Bool.not_true] at hmore
        exact hmore.1.2
      exact ih s' hi' herr'
    · exact ⟨_, _, rfl, hi'⟩

/-- Moving `next_queue_` on to visit a queue not visited yet. -/
theorem Inv.advance {v : ℕ} {s : Scrape} (hi : Inv Q₀ start v s) (hv : v < Q₀.length) :
    Inv Q₀ start (v + 1) { s with nextQueue := ((start + v) % Q₀.length + 1) % Q₀.length } where
  chunk_le := hi.chunk_le
  sent_le := hi.sent_le
  sent_chunk := hi.sent_chunk
  next := by simp only [Nat.mod_add_mod, Nat.add_assoc]
  drained := by
    rw [roundRobin_succ]
    exact hi.drained.visit (not_mem_roundRobin hv)

/-- The `for` loop over the queues keeps the invariant, and visits at most every queue. -/
theorem Inv.visit (env : Env) (scrapeLimit : ℕ)
    (hq : ∀ q ∈ Q₀, ∀ e ∈ q, e.length ≤ chunkBufferSize) :
    ∀ (k i : ℕ) (limited : Bool) (s : Scrape), Inv Q₀ start i s → i + k = Q₀.length →
      ∃ s', visit env scrapeLimit Q₀.length k i limited s = some s' ∧
        ∃ v ≤ Q₀.length, Inv Q₀ start v s' := by
  intro k
  induction k with
  | zero =>
    intro i _ s hi hik
    exact ⟨s, rfl, i, by omega, hi⟩
  | succ k ih =>
    intro i limited s hi hik
    rw [Scrape.visit]
    split_ifs with herr
    · exact ⟨s, rfl, i, by omega, hi⟩
    · exact ⟨s, rfl, i, by omega, hi⟩
    · exact ⟨s, rfl, i, by omega, hi⟩
    · exact ⟨s, rfl, i, by omega, hi⟩
    · -- visit the queue at `next_queue_`
      rw [hi.next]
      obtain ⟨s', limited', hdrain, hi'⟩ :=
        (hi.advance (by omega)).drain env scrapeLimit hq (by omega) 2 _ (by simpa using herr)
      rw [hdrain]
      exact ih (i + 1) limited' s' hi' (by omega)

/-- After a send, the chunk is empty unless the send failed. -/
theorem error_or_chunk_sendChunk (env : Env) (s : Scrape) :
    (s.sendChunk env).error = true ∨ (s.sendChunk env).chunk = [] := by
  dsimp only [Scrape.sendChunk]
  split_ifs
  · exact .inr (by simp [chunk, Bytes.copyOut])
  · exact .inl rfl

/-- With the chunk empty or a send failed, the payloads are the elements removed. -/
theorem Inv.sent_eq {v : ℕ} {s : Scrape} (hi : Inv Q₀ start v s) (h : s.error = true ∨ s.chunk = []) :
    s.sent.flatten = (s.removed.map Prod.snd).flatten := by
  have hsent := hi.sent_chunk
  rcases h with h | h
  · simpa [h] using hsent
  · simpa [h] using hsent

/-- The send after the loop, of what is left in the chunk. -/
theorem Inv.finish {v : ℕ} {s : Scrape} (hi : Inv Q₀ start v s) (env : Env) :
    Inv Q₀ start v (if !s.error && s.chunkLen > 0 then s.sendChunk env else s) ∧
      (if !s.error && s.chunkLen > 0 then s.sendChunk env else s).sent.flatten =
        ((if !s.error && s.chunkLen > 0 then s.sendChunk env else s).removed.map Prod.snd).flatten := by
  split_ifs with hsend
  · have herr : s.error = false := by simp_all
    have hi' := hi.sendChunk env herr
    exact ⟨hi', hi'.sent_eq (error_or_chunk_sendChunk env s)⟩
  · refine ⟨hi, hi.sent_eq ?_⟩
    -- no send: a send failed, or the chunk is empty
    cases herr : s.error with
    | true => exact .inl rfl
    | false =>
      have h0 : s.chunkLen.toNat = 0 := by
        simp only [herr, Bool.not_false, Bool.true_and, decide_eq_true_eq] at hsend
        have := UInt32.lt_iff_toNat_lt.not.1 hsend
        simp only [UInt32.toNat_zero] at this
        omega
      exact .inr (by simp [chunk, h0, Bytes.copyOut])

end Scrape

/-- **A scrape of all queues.**  For every handler whose queues hold elements of at most
`chunk_buffer_size` bytes and whose `next_queue_` is a queue, and every environment:
`write_content_from_queues` never writes past `chunk_buffer`; every payload it hands to
`mg_send_chunk` is at most `chunk_buffer_size` bytes; the payloads are the elements it removed,
in order; and these are a prefix of each queue it visited, the queues visited round robin from
`next_queue_`, which it leaves at the queue after the last one visited. -/
theorem writeContentFromQueues_spec (h : PrometheusHandler) (env : Env)
    (hnext : h.nextQueue < h.queues.length ∨ h.queues = [])
    (hq : ∀ q ∈ h.queues, ∀ e ∈ q, e.length ≤ chunkBufferSize) :
    ∃ h' sent removed, writeContentFromQueues h env = some (h', sent, removed) ∧
      (∀ p ∈ sent, p.length ≤ chunkBufferSize) ∧
      sent.flatten = (removed.map Prod.snd).flatten ∧
      ∃ v ≤ h.queues.length, h'.nextQueue = (h.nextQueue + v) % h.queues.length ∧
        Drain.Drained h.queues (Drain.roundRobin h.nextQueue h.queues.length v) h'.queues removed := by
  have hi₀ := Scrape.inv_start env.stack hnext
  unfold writeContentFromQueues
  split_ifs with hok
  · -- `mg_send_http_ok` failed: nothing is read or sent
    refine ⟨_, _, _, rfl, by simp, rfl, 0, Nat.zero_le _, hi₀.next, hi₀.drained⟩
  · obtain ⟨s, hvisit, v, hv, hi⟩ :=
      Scrape.Inv.visit env (h.scrapeSizeLimitBytes.getD (2 ^ 64 - 1)) hq h.queues.length 0 false _ hi₀
        (Nat.zero_add _)
    dsimp only
    rw [hvisit, Option.map_some]
    obtain ⟨hi', hflat⟩ := hi.finish env
    refine ⟨_, _, _, rfl, fun p hp => ?_, by simpa using hflat, v, hv, hi'.next, hi'.drained⟩
    rcases List.mem_append.1 hp with hp | hp
    · exact hi'.sent_le p hp
    · rw [List.mem_singleton.1 hp]
      exact Nat.zero_le _

/-- **A scrape of all queues exceeds its limit.**  A limit of 4 bytes and two queues of one
line of 4 bytes each, `a 1\n` and `b 2\n`; no clock runs out and every send goes out whole.
The first read is bounded by `min(chunk_buffer_size, 4 - 0)` and takes the first line; the
second is bounded by the same `4 - 0`, since nothing has been sent yet, and takes the second;
the send after the loop hands over 8 bytes. -/
theorem scrape_exceeds_limit :
    (⟨true, fun _ => false, fun _ p => p.length, fun _ => 0⟩ : Env).SendsWhole ∧
      (writeContentFromQueues ⟨[[[97, 32, 49, 10]], [[98, 32, 50, 10]]], some 4, 0, 0, 0⟩
          ⟨true, fun _ => false, fun _ p => p.length, fun _ => 0⟩).map
        (fun r => r.2.1.flatten.length) = some 8 :=
  ⟨fun _ _ => .inr le_rfl, by decide⟩

/-! ### A scrape of one queue -/

namespace Serve

/-- What holds between the iterations of a scrape of the queue `q₀`: the queue is what is left
after the elements removed, and the payloads handed to `mg_send_chunk`, each inside
`chunk_buffer`, are the elements removed. -/
structure Inv (q₀ : List (List UInt8)) (s : Serve) : Prop where
  split : q₀ = s.removed ++ s.queue
  sent_eq : s.sent.flatten = s.removed.flatten
  sent_le : ∀ p ∈ s.sent, p.length ≤ chunkBufferSize

/-- The payloads keep to the limit and, as long as no send failed, to the bytes counted sent. -/
structure Within (limit : Option ℕ) (s : Serve) : Prop where
  le_limit : ∀ l, limit = some l → s.sent.flatten.length ≤ l
  le_sent : s.error = false → s.sent.flatten.length ≤ s.bytesSent

theorem readSize_spec {limit : Option ℕ} {bytesSent size : ℕ} (h : readSize limit bytesSent = some size) :
    size ≤ chunkBufferSize ∧ ∀ l, limit = some l → bytesSent < l ∧ size ≤ l - bytesSent := by
  cases limit with
  | none =>
    cases h
    exact ⟨le_rfl, fun _ h => by cases h⟩
  | some l =>
    simp only [readSize] at h
    split_ifs at h with hl
    cases h
    exact ⟨min_le_left _ _, fun l' hl' => by cases hl'; exact ⟨hl, min_le_right _ _⟩⟩

variable {q₀ : List (List UInt8)}

/-- One iteration: it leaves a suffix of the queue, and a shorter one when the loop goes on;
it keeps the invariant, and what is sent within the limit. -/
theorem iteration_spec (env : Env) (limit : Option ℕ) (i : ℕ) {s : Serve}
    (hq : ∀ e ∈ s.queue, e.length ≤ chunkBufferSize) :
    ∃ s' more, iteration env limit i s = some (s', more) ∧ (∃ t, s.queue = t ++ s'.queue) ∧
      (more = true → s'.error = s.error ∧ s'.queue.length < s.queue.length) ∧
      (∀ q₀, Inv q₀ s → Inv q₀ s') ∧
      (env.SendsWhole → s.error = false → Within limit s → Within limit s') := by
  unfold Serve.iteration
  split_ifs with htime
  · exact ⟨s, false, rfl, ⟨[], rfl⟩, by simp, fun _ hi => hi, fun _ _ hw => hw⟩
  split
  · exact ⟨s, false, rfl, ⟨[], rfl⟩, by simp, fun _ hi => hi, fun _ _ hw => hw⟩
  · rename_i size hsize
    obtain ⟨hsize_le, hsize_lim⟩ := readSize_spec hsize
    have hsize' : size.toUInt32.toNat = size :=
      UInt32.toNat_ofNat_of_lt' (show size < 2 ^ 32 from lt_of_le_of_lt hsize_le (by decide))
    obtain ⟨r, hr, hspec⟩ := @readFromQueue_spec _ s.chunkBuffer 0 size.toUInt32 hq (by omega)
    have hpayload : Bytes.copyOut r.buffer 0 r.len.toNat = r.read.flatten := by
      simpa [Bytes.copyOut] using hspec.copied
    have hlen := hspec.len_le
    rw [hsize'] at hlen
    have hread : r.read.flatten.length = r.len.toNat := hspec.len_eq.symm
    have hsplit : ∀ q₀, Inv q₀ s → q₀ = (s.removed ++ r.read) ++ r.queue := fun q₀ hi => by
      rw [List.append_assoc, ← hspec.split]
      exact hi.split
    -- the payload of a send is inside `chunk_buffer`
    have hsent_le : ∀ q₀, Inv q₀ s → ∀ p ∈ s.sent ++ [r.read.flatten], p.length ≤ chunkBufferSize :=
      fun q₀ hi p hp => by
        rcases List.mem_append.1 hp with hp | hp
        · exact hi.sent_le p hp
        · rw [List.mem_singleton.1 hp, hread]
          omega
    rw [hr, Option.map_some]
    dsimp only
    split_ifs with h0 hsent
    · -- nothing read: the loop ends
      have hnil := hspec.read_eq_nil (by rw [h0]; rfl)
      exact ⟨_, false, rfl, ⟨r.read, hspec.split⟩, by simp,
        fun q₀ hi => ⟨hsplit q₀ hi, by simpa [hnil] using hi.sent_eq, hi.sent_le⟩,
        fun _ _ hw => ⟨hw.le_limit, hw.le_sent⟩⟩
    · -- the chunk went out
      rw [hpayload] at hsent ⊢
      have hne : r.read ≠ [] := fun h => h0 (UInt32.toNat_inj.1 (by rw [hspec.len_eq, h]; rfl))
      refine ⟨_, _, rfl, ⟨r.read, hspec.split⟩, fun _ => ⟨rfl, ?_⟩,
        fun q₀ hi => ⟨hsplit q₀ hi, by simp [hi.sent_eq], hsent_le q₀ hi⟩, ?_⟩
      · show r.queue.length < s.queue.length
        have := congrArg List.length hspec.split
        simp only [List.length_append] at this
        have : 0 < r.read.length := List.length_pos_iff.2 hne
        omega
      · intro hwhole herr hw
        have hreply := (hwhole s.sent.length r.read.flatten).resolve_left (by omega)
        have hle_sent := hw.le_sent herr
        refine ⟨fun l hl => ?_, fun _ => ?_⟩
        · obtain ⟨hlt, hle⟩ := hsize_lim l hl
          simp only [List.flatten_append, List.length_append, List.flatten_singleton]
          omega
        · simp only [List.flatten_append, List.length_append, List.flatten_singleton]
          omega
    · -- the send failed: the loop ends
      rw [hpayload] at hsent ⊢
      refine ⟨_, false, rfl, ⟨r.read, hspec.split⟩, by simp,
        fun q₀ hi => ⟨hsplit q₀ hi, by simp [hi.sent_eq], hsent_le q₀ hi⟩, ?_⟩
      intro _ herr hw
      refine ⟨fun l hl => ?_, fun h => by cases h⟩
      obtain ⟨hlt, hle⟩ := hsize_lim l hl
      have := hw.le_sent herr
      simp only [List.flatten_append, List.length_append, List.flatten_singleton]
      omega

/-- The loop keeps the invariant, and what it sends within the limit. -/
theorem Inv.loop (env : Env) (limit : Option ℕ) (hq₀ : ∀ e ∈ q₀, e.length ≤ chunkBufferSize) :
    ∀ (fuel i : ℕ) (s : Serve), Inv q₀ s →
      ∃ s', loop env limit fuel i s = some s' ∧ Inv q₀ s' ∧
        (env.SendsWhole → s.error = false → Within limit s → Within limit s') := by
  intro fuel
  induction fuel with
  | zero => exact fun i s hi => ⟨s, rfl, hi, fun _ _ hw => hw⟩
  | succ fuel ih =>
    intro i s hi
    have hq : ∀ e ∈ s.queue, e.length ≤ chunkBufferSize := fun e he =>
      hq₀ e (hi.split ▸ List.mem_append_right _ he)
    obtain ⟨s', more, hit, -, hmore, hinv, hw⟩ := iteration_spec env limit i hq
    rw [Serve.loop, hit]
    cases more with
    | false => exact ⟨s', rfl, hinv q₀ hi, hw⟩
    | true =>
      obtain ⟨s'', hloop, hi'', hw'⟩ := ih (i + 1) s' (hinv q₀ hi)
      exact ⟨s'', hloop, hi'', fun hwhole herr hws =>
        hw' hwhole ((hmore rfl).1.trans herr) (hw hwhole herr hws)⟩

/-- The loop never runs out of fuel: each iteration that goes on removes an element, so fuel
beyond the length of the queue changes nothing. -/
theorem loop_fuel (env : Env) (limit : Option ℕ) :
    ∀ (fuel i : ℕ) (s : Serve), (∀ e ∈ s.queue, e.length ≤ chunkBufferSize) →
      s.queue.length < fuel → loop env limit (fuel + 1) i s = loop env limit fuel i s := by
  intro fuel
  induction fuel with
  | zero => exact fun _ _ _ h => absurd h (Nat.not_lt_zero _)
  | succ fuel ih =>
    intro i s hq hlen
    obtain ⟨s', more, hit, ⟨t, ht⟩, hmore, -, -⟩ := iteration_spec env limit i hq
    conv_lhs => rw [Serve.loop, hit]
    conv_rhs => rw [Serve.loop, hit]
    cases more with
    | false => rfl
    | true =>
      exact ih (i + 1) s' (fun e he => hq e (ht ▸ List.mem_append_right _ he))
        (by have := (hmore rfl).2; omega)

end Serve

/-- **A scrape of one queue.**  For every handler whose queue `queue_num` holds elements of at
most `chunk_buffer_size` bytes, and every environment: `write_content_from_queue` never writes
past `chunk_buffer`; every payload it hands to `mg_send_chunk` is at most `chunk_buffer_size`
bytes; the payloads are the elements it removed, a prefix of the queue, and no other queue
changes; and when `mg_send_chunk` fails or reports at least the bytes it was given, the payloads
add up to at most `scrape_size_limit_bytes`. -/
theorem writeContentFromQueue_spec (h : PrometheusHandler) (env : Env) (queueNum : ℕ)
    (hq : ∀ e ∈ h.queues.getD queueNum [], e.length ≤ chunkBufferSize) :
    ∃ h' sent removed, writeContentFromQueue h env queueNum = some (h', sent, removed) ∧
      (∀ p ∈ sent, p.length ≤ chunkBufferSize) ∧ sent.flatten = removed.flatten ∧
      h.queues.getD queueNum [] = removed ++ h'.queues.getD queueNum [] ∧
      (∀ i ≠ queueNum, h'.queues.getD i [] = h.queues.getD i []) ∧
      (env.SendsWhole → ∀ l, h.scrapeSizeLimitBytes = some l → sent.flatten.length ≤ l) := by
  unfold writeContentFromQueue
  split_ifs with hok
  · -- `mg_send_http_ok` failed: nothing is read or sent
    exact ⟨_, _, _, rfl, by simp, rfl, rfl, fun _ _ => rfl, fun _ _ _ => by simp⟩
  · have hi₀ : Serve.Inv (h.queues.getD queueNum []) ⟨h.queues.getD queueNum [], env.stack, 0, false, [], []⟩ :=
      ⟨rfl, rfl, by simp⟩
    obtain ⟨s, hloop, hi, hw⟩ :=
      Serve.Inv.loop env h.scrapeSizeLimitBytes hq ((h.queues.getD queueNum []).length + 1) 0 _ hi₀
    dsimp only
    rw [hloop, Option.map_some]
    refine ⟨_, _, _, rfl, fun p hp => ?_, by simpa using hi.sent_eq, ?_, fun i hi => ?_,
      fun hwhole l hl => ?_⟩
    · rcases List.mem_append.1 hp with hp | hp
      · exact hi.sent_le p hp
      · rw [List.mem_singleton.1 hp]
        exact Nat.zero_le _
    · rw [Drain.getD_set]
      split_ifs with hin
      · exact hi.split
      · -- a queue past the end is empty, and so is what was removed from it
        have hnil : h.queues.getD queueNum [] = [] := by
          rw [List.getD_eq_getElem?_getD, List.getElem?_eq_none (by simpa using hin)]
          rfl
        have hsplit := hi.split
        rw [hnil] at hsplit ⊢
        rw [(List.append_eq_nil_iff.1 hsplit.symm).1]
        rfl
    · rw [Drain.getD_set, if_neg fun h' => hi h'.1]
    · have := (hw hwhole rfl ⟨fun _ _ => by simp, fun _ => by simp⟩).le_limit l hl
      simpa using this

end Reducer

end OtelEbpf
