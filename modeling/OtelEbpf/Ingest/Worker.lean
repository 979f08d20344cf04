import OtelEbpf.Ingest.Lz4
import OtelEbpf.Platform

/-!
# The ingest receive path

`reducer/ingest/ingest_worker.cc`: every read of an agent's TCP connection ends in
`TCPChannel::conn_read_cb` (`channel/tcp_channel.cc`), which appends the bytes to the channel's
receive buffer, passes the whole buffer to `IngestWorker::Callbacks::received_data`, and drops
the number of bytes it returns from the front of the buffer.

`received_data` hands the raw bytes to `NpmConnection::handle` until the first message has been
handled; that switches the decompressor on, and from then on it runs the rest through
`Lz4Decompressor::process` and hands the decompressed bytes to
`NpmConnection::handle_multiple`, in a loop that stops when the decompressor reads nothing or
the input is used up.  It then returns `end - data`: the whole buffer.

`NpmConnection` decodes the agent's messages and is outside this model: its two calls are a
parameter.  The model keeps, as a ghost, the bytes the two calls reported as handled.

* `receivedData_of_stall` : when the second loop stops because the decompressor read nothing,
  `received_data` still returns the whole buffer, although the library never read the rest.
-/

namespace OtelEbpf

namespace Ingest

/-- `NpmConnection::handle` and `NpmConnection::handle_multiple`: the connection after the
call and the `int` result, or the exception thrown. -/
structure NpmConnection (κ : Type) where
  handle : κ → List UInt8 → Except String (κ × ℤ)
  handleMultiple : κ → List UInt8 → Except String (κ × ℤ)

/-- What the receive path assumes of the connection: each call returns `-EAGAIN`, another
negative error, or a number of leading bytes no greater than it was given. -/
def NpmConnection.Reports {κ : Type} (conn : NpmConnection κ) : Prop :=
  ∀ k data k' res, (conn.handle k data = .ok (k', res) ∨ conn.handleMultiple k data = .ok (k', res)) →
    res < 0 ∨ res ≤ data.length

/-- `Worker::kBufferSize`: the capacity of the decompressor's output buffer. -/
def kBufferSize : ℕ := 64 * 1024

/-- The part of `IngestWorker::Callbacks` the receive path reads and writes, with the ghost
`handled`: what `handle` and `handle_multiple` reported as handled, in order. -/
structure Callbacks (σ κ : Type) where
  decompressorActive : Bool
  firstMessageSeen : Bool
  decompressor : Lz4Decompressor σ
  connection : κ
  closed : Bool
  handled : List UInt8

/-- The constructor: no message seen, an empty decompressor of `Worker::kBufferSize`. -/
def Callbacks.new {σ κ : Type} (ctx : σ) (connection : κ) : Callbacks σ κ :=
  ⟨false, false, Lz4Decompressor.new kBufferSize ctx, connection, false, []⟩

section ReceivedData

variable {σ κ : Type} (decompress : Lz4fDecompress σ) (conn : NpmConnection κ)

/-- `received_data_internal`: hand `data` to `handle` (before the first message) or
`handle_multiple`; `none` is the `std::nullopt` that makes the caller close the channel. -/
def receivedDataInternal (cb : Callbacks σ κ) (data : List UInt8) : Callbacks σ κ × Option ℕ :=
  match (if cb.firstMessageSeen then conn.handleMultiple else conn.handle) cb.connection data with
  | .error _ => (cb, none)
  | .ok (k, res) =>
    let cb := { cb with connection := k }
    if res = -EAGAIN then (cb, some 0)
    else if res < 0 then (cb, none)
    else
      let cb := { cb with handled := cb.handled ++ data.take res.toNat }
      -- the first message switches decompression on
      if !cb.firstMessageSeen then
        ({ cb with decompressorActive := true, firstMessageSeen := true }, some res.toNat)
      else (cb, some res.toNat)

/-- How the first loop of `received_data` ends: a `return`, a failed `ASSUME` (the program
stops), or the decompressor is active and the second loop starts at `begin`. -/
inductive RawExit
  | ret (v : UInt32)
  | panic
  | decompress (begin : List UInt8)
  deriving DecidableEq, Repr

/-- The first loop of `received_data`: `while (!decompressor_active_)`, with `begin` the bytes
from `begin` to `end`. -/
def rawLoop (cb : Callbacks σ κ) (begin : List UInt8) (dataLen : ℕ) : Callbacks σ κ × RawExit :=
  if !cb.decompressorActive then
    match receivedDataInternal conn cb begin with
    | (cb, none) => ({ cb with closed := true }, .ret 0)
    | (cb, some 0) => (cb, .ret 0)
    | (cb, some (n + 1)) =>
      if n + 1 ≤ begin.length then
        if begin.drop (n + 1) = [] then (cb, .ret (UInt32.ofNat dataLen))
        else rawLoop cb (begin.drop (n + 1)) dataLen
      else (cb, .panic)
  else (cb, .decompress begin)
termination_by begin.length
decreasing_by
  rw [List.length_drop]
  omega

/-- The second loop of `received_data`: `none` when it returns 0 on an error, else the bytes
from `begin` to `end` when the loop condition fails. -/
def decompressLoop (cb : Callbacks σ κ) (begin : List UInt8) :
    Callbacks σ κ × Option (List UInt8) :=
  let p := cb.decompressor.process decompress begin
  match p.error with
  | some _ => ({ cb with decompressor := p.dec, closed := true }, none)
  | none =>
    let rest := begin.drop p.consumedLen
    match receivedDataInternal conn { cb with decompressor := p.dec } p.dec.outputBuf with
    | (cb₁, none) => ({ cb₁ with closed := true }, none)
    | (cb₁, some n) =>
      let cb₂ := { cb₁ with decompressor := cb₁.decompressor.discard n }
      if h : 0 < p.consumedLen ∧ rest ≠ [] then decompressLoop cb₂ rest
      else (cb₂, some rest)
termination_by begin.length
decreasing_by
  have hle := Lz4Decompressor.process_consumed_le decompress cb.decompressor begin
  have hpos : 0 < (cb.decompressor.process decompress begin).consumedLen := h.1
  rw [List.length_drop]
  omega

/-- `IngestWorker::Callbacks::received_data` on the bytes `data` of the receive buffer: the
callbacks after it and the `uint32_t` it returns, or `none` when an `ASSUME` stops the
program. -/
def receivedData (cb : Callbacks σ κ) (data : List UInt8) : Callbacks σ κ × Option UInt32 :=
  match rawLoop conn cb data data.length with
  | (cb, .ret v) => (cb, some v)
  | (cb, .panic) => (cb, none)
  | (cb, .decompress begin) =>
    match decompressLoop decompress conn cb begin with
    | (cb, none) => (cb, some 0)
    | (cb, some _) => (cb, some (UInt32.ofNat data.length))

end ReceivedData

/-! ### The second loop -/

section Loop

variable {σ κ : Type} {decompress : Lz4fDecompress σ} {conn : NpmConnection κ}

/-- `received_data_internal` hands data to the connection and leaves the decompressor alone. -/
@[simp] theorem decompressor_receivedDataInternal (cb : Callbacks σ κ) (data : List UInt8) :
    (receivedDataInternal conn cb data).1.decompressor = cb.decompressor := by
  unfold receivedDataInternal
  split
  · rfl
  · dsimp only
    split_ifs <;> rfl

/-- The second loop returns 0 when `process` fails. -/
theorem decompressLoop_of_error {cb : Callbacks σ κ} {begin : List UInt8} {v : ℕ}
    (herr : (cb.decompressor.process decompress begin).error = some v) :
    decompressLoop decompress conn cb begin =
      ({ cb with decompressor := (cb.decompressor.process decompress begin).dec, closed := true },
        none) := by
  rw [decompressLoop]
  simp only [herr]

/-- The second loop returns 0 when the connection fails on the decompressed bytes. -/
theorem decompressLoop_of_null {cb cb₁ : Callbacks σ κ} {begin : List UInt8}
    (herr : (cb.decompressor.process decompress begin).error = none)
    (hint : receivedDataInternal conn { cb with decompressor := (cb.decompressor.process decompress begin).dec }
      (cb.decompressor.process decompress begin).dec.outputBuf = (cb₁, none)) :
    decompressLoop decompress conn cb begin = ({ cb₁ with closed := true }, none) := by
  rw [decompressLoop]
  simp only [herr, hint]

/-- One pass of the second loop that goes on: `process` read something and the input is not
used up. -/
theorem decompressLoop_of_continue {cb cb₁ : Callbacks σ κ} {begin : List UInt8} {n : ℕ}
    (herr : (cb.decompressor.process decompress begin).error = none)
    (hint : receivedDataInternal conn { cb with decompressor := (cb.decompressor.process decompress begin).dec }
      (cb.decompressor.process decompress begin).dec.outputBuf = (cb₁, some n))
    (hgo : 0 < (cb.decompressor.process decompress begin).consumedLen ∧
      begin.drop (cb.decompressor.process decompress begin).consumedLen ≠ []) :
    decompressLoop decompress conn cb begin =
      decompressLoop decompress conn { cb₁ with decompressor := cb₁.decompressor.discard n }
        (begin.drop (cb.decompressor.process decompress begin).consumedLen) := by
  rw [decompressLoop]
  simp only [herr, hint]
  exact dif_pos hgo

/-- The pass that ends the second loop: `process` read nothing, or the input is used up. -/
theorem decompressLoop_of_exit {cb cb₁ : Callbacks σ κ} {begin : List UInt8} {n : ℕ}
    (herr : (cb.decompressor.process decompress begin).error = none)
    (hint : receivedDataInternal conn { cb with decompressor := (cb.decompressor.process decompress begin).dec }
      (cb.decompressor.process decompress begin).dec.outputBuf = (cb₁, some n))
    (hstop : ¬ (0 < (cb.decompressor.process decompress begin).consumedLen ∧
      begin.drop (cb.decompressor.process decompress begin).consumedLen ≠ [])) :
    decompressLoop decompress conn cb begin =
      ({ cb₁ with decompressor := cb₁.decompressor.discard n },
        some (begin.drop (cb.decompressor.process decompress begin).consumedLen)) := by
  rw [decompressLoop]
  simp only [herr, hint]
  exact dif_neg hstop

variable {dec : List UInt8 → List UInt8} {fed emitted : σ → List UInt8} {canBuffer : σ → Prop}

/-- **What the second loop reads.**  When the loop ends with the bytes `rest` from `begin` to
`end`, the library has read exactly the bytes before them: `rest` is never offered again. -/
theorem decompressLoop_fed (hspec : Lz4fSpec decompress dec fed emitted canBuffer)
    (cb : Callbacks σ κ) (begin : List UInt8) {cb' : Callbacks σ κ} {rest : List UInt8}
    (h : decompressLoop decompress conn cb begin = (cb', some rest)) :
    ∃ used, begin = used ++ rest ∧ fed cb'.decompressor.ctx = fed cb.decompressor.ctx ++ used := by
  -- induction on the bytes left, along the passes of the loop
  obtain ⟨k, hk⟩ : ∃ k, begin.length = k := ⟨_, rfl⟩
  induction k using Nat.strongRecOn generalizing cb begin cb' rest with
  | ind k ih =>
    have hfed := Lz4Decompressor.process_fed hspec cb.decompressor begin
    have hle := Lz4Decompressor.process_consumed_le decompress cb.decompressor begin
    set p := cb.decompressor.process decompress begin with hp
    rcases herr : p.error with _ | v
    · rcases hint : receivedDataInternal conn { cb with decompressor := p.dec } p.dec.outputBuf
        with ⟨cb₁, _ | n⟩
      · rw [decompressLoop_of_null herr hint] at h
        exact absurd h (by simp)
      · have hctx := @decompressor_receivedDataInternal _ _ conn
          { cb with decompressor := p.dec } p.dec.outputBuf
        rw [hint] at hctx
        by_cases hgo : 0 < p.consumedLen ∧ begin.drop p.consumedLen ≠ []
        · -- the loop goes on with the bytes the library has not read
          rw [decompressLoop_of_continue herr hint hgo] at h
          have hlt : (begin.drop p.consumedLen).length < k := by
            rw [List.length_drop, ← hk]
            omega
          obtain ⟨used, hrest, hfed'⟩ := ih _ hlt _ _ h rfl
          refine ⟨begin.take p.consumedLen ++ used, ?_, ?_⟩
          · rw [List.append_assoc, ← hrest]
            exact (List.take_append_drop _ _).symm
          · rw [hfed', Lz4Decompressor.ctx_discard, hctx, hfed, List.append_assoc]
        · rw [decompressLoop_of_exit herr hint hgo] at h
          obtain ⟨rfl, hrest⟩ := Prod.mk.inj h
          cases hrest
          refine ⟨begin.take p.consumedLen, (List.take_append_drop _ _).symm, ?_⟩
          rw [Lz4Decompressor.ctx_discard, hctx, hfed]
    · rw [decompressLoop_of_error herr] at h
      exact absurd h (by simp)

/-- **`received_data` counts bytes the library never read.**  When the first loop hands the
bytes `begin` to the second and the second stops with the bytes `rest` still before `end`,
`received_data` returns the length of the whole buffer, but the library has read only the bytes
of `begin` before `rest`. -/
theorem receivedData_of_stall (hspec : Lz4fSpec decompress dec fed emitted canBuffer)
    {cb cb₁ cb₂ : Callbacks σ κ} {data begin rest : List UInt8}
    (hraw : rawLoop conn cb data data.length = (cb₁, .decompress begin))
    (hloop : decompressLoop decompress conn cb₁ begin = (cb₂, some rest)) :
    receivedData decompress conn cb data = (cb₂, some (UInt32.ofNat data.length)) ∧
      ∃ used, begin = used ++ rest ∧ fed cb₂.decompressor.ctx = fed cb₁.decompressor.ctx ++ used := by
  refine ⟨?_, decompressLoop_fed hspec cb₁ begin hloop⟩
  unfold receivedData
  rw [hraw]
  dsimp only
  rw [hloop]

end Loop

/-! ### The channel -/

/-- `TCPChannel::rx_buffer_size`. -/
def rxBufferSize : ℕ := 64 * 1024

/-- The part of `TCPChannel` a read touches: the bytes `rx_buffer_[0, rx_len_)`, the
callbacks, `connected_`, the error last passed to `on_error`, and the ghost `acked`: the bytes
`received_data`'s results dropped from the buffer, in order. -/
structure TcpChannel (σ κ : Type) where
  rxBuffer : List UInt8
  callbacks : Callbacks σ κ
  connected : Bool
  lastError : Option ℤ
  acked : List UInt8

section Channel

variable {σ κ : Type} (decompress : Lz4fDecompress σ) (conn : NpmConnection κ)

/-- `TCPChannel::conn_read_cb` for a read that returned an error `nread < 0` or the bytes read
into the free end of the buffer; `none` when an `ASSUME` stops the program. -/
def connReadCb (ch : TcpChannel σ κ) (read : Except ℤ (List UInt8)) : Option (TcpChannel σ κ) :=
  match read with
  | .error nread => some { ch with connected := false, lastError := some nread }
  | .ok bytes =>
    let rx := ch.rxBuffer ++ bytes
    match receivedData decompress conn ch.callbacks rx with
    | (_, none) => none
    | (cb, some res) =>
      if res.toNat ≤ rx.length then
        let ch := { ch with
          callbacks := cb
          rxBuffer := rx.drop res.toNat
          acked := ch.acked ++ rx.take res.toNat }
        if ch.rxBuffer.length = rxBufferSize then
          some { ch with connected := false, lastError := some (-EOVERFLOW) }
        else some ch
      else none

/-- A read that `received_data` accepts, returning no more than the buffer holds, and that does
not leave the buffer full: the buffer loses the bytes `received_data` counted, and they are
acknowledged. -/
theorem connReadCb_of_receivedData {ch : TcpChannel σ κ} {bytes : List UInt8}
    {cb : Callbacks σ κ} {res : UInt32}
    (h : receivedData decompress conn ch.callbacks (ch.rxBuffer ++ bytes) = (cb, some res))
    (hle : res.toNat ≤ (ch.rxBuffer ++ bytes).length)
    (hroom : ((ch.rxBuffer ++ bytes).drop res.toNat).length ≠ rxBufferSize) :
    connReadCb decompress conn ch (.ok bytes) =
      some { ch with
        callbacks := cb
        rxBuffer := (ch.rxBuffer ++ bytes).drop res.toNat
        acked := ch.acked ++ (ch.rxBuffer ++ bytes).take res.toNat } := by
  unfold connReadCb
  simp only [h]
  rw [if_pos hle]
  exact if_neg hroom

end Channel

end Ingest

end OtelEbpf
