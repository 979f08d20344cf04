import Mathlib
import OtelEbpf.DataChannel.Handler

/-!
# The data channel, end to end

`tcp_events_submit_tcp_data` sends a TCP stream's bytes as records of `data_channel_submit` on
the CPU's data ring, then a `tcp_data` message on its control ring; `BufferedPoller` hands each
`tcp_data` message to `TCPDataHandler::process`, which pops the data records until it has the
message's `length` bytes.  The two sides agree on no count: the receiver rebuilds the records'
lengths from their headers.

The kernel's part is a parameter: `fmt raw` is the record the kernel stores for a `perf_submit`
of `raw`, and `RawSampleFormat fmt` is what perf_event_open(2) documents for `PERF_SAMPLE_RAW`;
`perfSampleRaw` is one such format.

* `processLoop_records` : the receiver pops a run of data records and hands over their bytes.
* `process_submit` : one `process` call pops exactly one submission's records.
* `flatten_chunkSlices`, `contiguous_chunkSlices` : the bytes handed over are the submission's,
  at offsets that run on from the message's.
-/

namespace OtelEbpf

namespace DataChannel

open PerfRing

/-- What the kernel documents for a `perf_submit` of `raw` to a `PERF_SAMPLE_RAW` ring: a
sample whose payload is a `u32` size, `raw`, and padding to a multiple of 8 bytes. -/
structure RawSampleFormat (fmt : List UInt8 → PerfRecord) : Prop where
  type : ∀ raw, (fmt raw).type = PERF_RECORD_SAMPLE
  payload : ∀ raw, ∃ size pad, (fmt raw).payload = size ++ raw ++ pad ∧ size.length = 4 ∧
    pad.length < 8

/-- The sample the kernel stores for `raw`: the size of the padded data, the data, and zero
padding that aligns the record to 8 bytes. -/
def perfSampleRaw (raw : List UInt8) : PerfRecord :=
  let pad := (8 - (4 + raw.length) % 8) % 8
  ⟨PERF_RECORD_SAMPLE, Bytes.leBytes 4 (raw.length + pad) ++ raw ++ List.replicate pad 0⟩

theorem rawSampleFormat_perfSampleRaw : RawSampleFormat perfSampleRaw where
  type _ := rfl
  payload raw := ⟨_, _, rfl, Bytes.length_leBytes 4 _, by
    rw [List.length_replicate]
    exact Nat.mod_lt _ (by decide)⟩

/-! ### The chunks handed over -/

/-- The chunks of the runs `bs` of `src` from `start`, at offsets from `off`. -/
def chunkSlices (src : List UInt8) : ℕ → UInt64 → List ℕ → List (UInt64 × List UInt8)
  | _, _, [] => []
  | start, off, b :: bs =>
    (off, (src.drop start).take b) :: chunkSlices src (start + b) (off + UInt64.ofNat b) bs

/-- Each chunk starts where the one before it ends, the first at `off`. -/
def Contiguous : UInt64 → List (UInt64 × List UInt8) → Prop
  | _, [] => True
  | off, c :: cs => c.1 = off ∧ Contiguous (off + UInt64.ofNat c.2.length) cs

instance decContiguous : ∀ off cs, Decidable (Contiguous off cs)
  | _, [] => isTrue trivial
  | off, c :: cs =>
    haveI := decContiguous (off + UInt64.ofNat c.2.length) cs
    inferInstanceAs (Decidable (c.1 = off ∧ _))

/-- The chunks of consecutive runs are the bytes from `start` on. -/
theorem flatten_chunkSlices (src : List UInt8) (start : ℕ) (off : UInt64) (bs : List ℕ) :
    ((chunkSlices src start off bs).map Prod.snd).flatten = (src.drop start).take bs.sum := by
  induction bs generalizing start off with
  | nil => simp [chunkSlices]
  | cons b bs ih =>
    rw [chunkSlices, List.map_cons, List.flatten_cons, ih, List.sum_cons, List.take_add,
      List.drop_drop]

theorem contiguous_chunkSlices {src : List UInt8} {start : ℕ} (off : UInt64) {bs : List ℕ}
    (hsrc : start + bs.sum ≤ src.length) : Contiguous off (chunkSlices src start off bs) := by
  induction bs generalizing start off with
  | nil => trivial
  | cons b bs ih =>
    rw [List.sum_cons, ← Nat.add_assoc] at hsrc
    have hlen : ((src.drop start).take b).length = b := by
      rw [List.length_take, List.length_drop]
      omega
    refine ⟨rfl, ?_⟩
    rw [hlen]
    exact ih _ hsrc

/-! ### The receiver drains the records -/

section Receive

variable {fmt : List UInt8 → PerfRecord} {src : List UInt8} {rest pending : List PerfRecord}
  {lost : UInt64}

/-- The stored record of a run of `b ≤ 256` bytes is a data sample of those bytes. -/
theorem RawSampleFormat.dataSample (hfmt : RawSampleFormat fmt) {start b : ℕ} (hb : b ≤ 256)
    (hsrc : start + b ≤ src.length) :
    DataSample (fmt (record src start b)) ((src.drop start).take b) := by
  have hlen : ((src.drop start).take b).length = b := by
    rw [List.length_take, List.length_drop]
    omega
  obtain ⟨size, pad, hpay, hsize, hpad⟩ := hfmt.payload (record src start b)
  refine ⟨hfmt.type _, ⟨size, pad, ?_, hsize, hpad⟩, by rw [hlen]; exact hb⟩
  rw [hpay, hlen, record]

/-- **The receiver loop over one submission.**  With `bs.sum` bytes to go and the records of
the runs `bs` first in the ring, the loop pops exactly those records, hands over their bytes at
running offsets, and stops. -/
theorem processLoop_records (hfmt : RawSampleFormat fmt) {start : ℕ} {bs : List ℕ}
    (hbs : ∀ b ∈ bs, 0 < b ∧ b ≤ 256) (hsrc : start + bs.sum ≤ src.length)
    (hsum : bs.sum < 2 ^ 32) (off : UInt64) (chunks : List (UInt64 × List UInt8))
    (dataLens : List UInt32) :
    processLoop ⟨(records src start bs).map fmt ++ rest, pending⟩ (UInt32.ofNat bs.sum) off lost
        chunks dataLens =
      ⟨⟨rest, pending⟩, lost, chunks ++ chunkSlices src start off bs, none,
        dataLens ++ bs.map UInt32.ofNat⟩ := by
  induction bs generalizing start off chunks dataLens with
  | nil =>
    simp only [records, chunkSlices, List.map_nil, List.nil_append, List.append_nil, List.sum_nil]
    exact processLoop_zero _
  | cons b bs ih =>
    obtain ⟨hpos, hb⟩ := hbs b List.mem_cons_self
    rw [List.sum_cons] at hsrc hsum
    have hlen : ((src.drop start).take b).length = b := by
      rw [List.length_take, List.length_drop]
      omega
    have hx := hfmt.dataSample hb (Nat.le_trans (Nat.le_add_right _ bs.sum)
      (by rw [Nat.add_assoc]; exact hsrc))
    have hrem : UInt32.ofNat (b + bs.sum) - UInt32.ofNat b = UInt32.ofNat bs.sum := by
      apply UInt32.toNat_inj.1
      rw [Word.toNat_ofNat_sub_ofNat (Nat.le_add_right _ _) (by omega),
        UInt32.toNat_ofNat_of_lt' (show bs.sum < 2 ^ 32 by omega), Nat.add_sub_cancel_left]
    -- one sample, then the rest of the submission from `start + b`
    rw [records, List.map_cons, List.cons_append, List.sum_cons,
      processLoop_sample hx (by rw [hlen]; exact hpos)
        (by rw [hlen, UInt32.toNat_ofNat_of_lt' (show _ < 2 ^ 32 from hsum)]; omega),
      hlen, hrem, ih (fun b' hb' => hbs b' (List.mem_cons_of_mem _ hb')) (by omega) (by omega)]
    simp [chunkSlices]

/-- **One message.**  The `process` call for the `tcp_data` message of a submission pops exactly
that submission's records and hands over the chunks of `sizes` of the clipped length. -/
theorem process_submit (hfmt : RawSampleFormat fmt) {dataLen : UInt64} (total : UInt64)
    (hsrc : (clippedLen dataLen).toNat ≤ src.length) :
    process ⟨(tcpEventsSubmitTcpData src dataLen total).1.map fmt ++ rest, pending⟩ lost
        (tcpEventsSubmitTcpData src dataLen total).2.length
        (tcpEventsSubmitTcpData src dataLen total).2.offset =
      ⟨⟨rest, pending⟩, lost, chunkSlices src 0 total (sizes (clippedLen dataLen).toNat), none,
        (sizes (clippedLen dataLen).toNat).map UInt32.ofNat⟩ := by
  have hn := clippedLen_le dataLen
  have hlen : (clippedLen dataLen).toUInt64.toUInt32 = UInt32.ofNat (sizes (clippedLen dataLen).toNat).sum := by
    rw [sum_sizes, UInt32.ofNat_toNat]
    exact UInt32.toUInt32_toUInt64 _
  have hrecs := dataChannelSubmit_records src dataLen hsrc
  have hactual : (dataChannelSubmit src dataLen).2 = (clippedLen dataLen).toUInt64 := rfl
  simp only [tcpEventsSubmitTcpData, process]
  rw [hrecs, hactual, hlen, processLoop_records hfmt (fun b hb => mem_sizes hb)
    (by rw [sum_sizes, Nat.zero_add]; exact hsrc) (by rw [sum_sizes]; omega), List.nil_append,
    List.nil_append]

end Receive

/-! ### A CPU's data channel over many submissions -/

/-- One call of `tcp_events_submit_tcp_data`: the bytes at `data`, `data_len`, and the stream's
`total` it reports as the offset. -/
structure TcpDataCall where
  data : List UInt8
  dataLen : UInt64
  total : UInt64
  deriving DecidableEq, Repr

/-- The records the call leaves in the data ring. -/
def TcpDataCall.dataRecords (fmt : List UInt8 → PerfRecord) (c : TcpDataCall) : List PerfRecord :=
  (tcpEventsSubmitTcpData c.data c.dataLen c.total).1.map fmt

/-- The `tcp_data` message the call sends on the control ring. -/
def TcpDataCall.msg (c : TcpDataCall) : TcpDataMsg :=
  (tcpEventsSubmitTcpData c.data c.dataLen c.total).2

/-- `BufferedPoller::handle_tcp_data` for each `tcp_data` message of one CPU, in order. -/
def handleTcpDataMsgs (ring : RecordRing) (lost : UInt64) : List TcpDataMsg → List Processed
  | [] => []
  | m :: ms =>
    let p := process ring lost m.length m.offset
    p :: handleTcpDataMsgs p.ring p.lostRecordTotalCount ms

/-- The data channel of one CPU: the kernel has stored the records of `calls`, then `rest`, in
the data ring, and the receiver handles the calls' `tcp_data` messages in order. -/
def channelRun (fmt : List UInt8 → PerfRecord) (calls : List TcpDataCall)
    (rest pending : List PerfRecord) (lost : UInt64) : List Processed :=
  handleTcpDataMsgs ⟨calls.flatMap (TcpDataCall.dataRecords fmt) ++ rest, pending⟩ lost
    (calls.map TcpDataCall.msg)

section Run

variable {fmt : List UInt8 → PerfRecord} {rest pending : List PerfRecord} {lost : UInt64}

/-- The `process` call of one message pops the call's records and hands over its chunks. -/
theorem process_msg (hfmt : RawSampleFormat fmt) {c : TcpDataCall}
    (hdata : (clippedLen c.dataLen).toNat ≤ c.data.length) :
    process ⟨c.dataRecords fmt ++ rest, pending⟩ lost c.msg.length c.msg.offset =
      ⟨⟨rest, pending⟩, lost, chunkSlices c.data 0 c.total (sizes (clippedLen c.dataLen).toNat),
        none, (sizes (clippedLen c.dataLen).toNat).map UInt32.ofNat⟩ :=
  process_submit hfmt c.total hdata

theorem channelRun_cons (hfmt : RawSampleFormat fmt) {c : TcpDataCall} {calls : List TcpDataCall}
    (hdata : (clippedLen c.dataLen).toNat ≤ c.data.length) :
    channelRun fmt (c :: calls) rest pending lost =
      ⟨⟨calls.flatMap (TcpDataCall.dataRecords fmt) ++ rest, pending⟩, lost,
        chunkSlices c.data 0 c.total (sizes (clippedLen c.dataLen).toNat), none,
        (sizes (clippedLen c.dataLen).toNat).map UInt32.ofNat⟩ ::
        channelRun fmt calls rest pending lost := by
  rw [channelRun, List.flatMap_cons, List.map_cons, handleTcpDataMsgs, List.append_assoc,
    process_msg hfmt hdata]
  rfl

/-- The chunks of one call are its first `min (data_len mod 2 ^ 32) 16383` bytes, at offsets
that run on from `total`. -/
theorem chunkSlices_sizes {c : TcpDataCall} (hdata : (clippedLen c.dataLen).toNat ≤ c.data.length) :
    ((chunkSlices c.data 0 c.total (sizes (clippedLen c.dataLen).toNat)).map Prod.snd).flatten =
        c.data.take (min (c.dataLen.toNat % 2 ^ 32) 16383) ∧
      Contiguous c.total (chunkSlices c.data 0 c.total (sizes (clippedLen c.dataLen).toNat)) := by
  refine ⟨?_, contiguous_chunkSlices _ (by rw [sum_sizes, Nat.zero_add]; exact hdata)⟩
  rw [flatten_chunkSlices, sum_sizes, List.drop_zero, toNat_clippedLen]

/-- **The data channel round-trips the stream's bytes.**  Whatever the calls on a CPU, and
whatever follows their records in the data ring, the receiver's `process` call for the `i`-th
`tcp_data` message pops exactly the `i`-th call's records, ends without error, counts no lost
record, and hands over the call's first `min (data_len mod 2 ^ 32) DATA_CHANNEL_CHUNK_MAX` bytes
in chunks at offsets that run on from the reported `total`. -/
theorem channelRun_roundTrip (hfmt : RawSampleFormat fmt) (calls : List TcpDataCall)
    (hdata : ∀ c ∈ calls, (clippedLen c.dataLen).toNat ≤ c.data.length) :
    (channelRun fmt calls rest pending lost).length = calls.length ∧
      ∀ (i : ℕ) (c : TcpDataCall), calls[i]? = some c →
        ∃ p : Processed, (channelRun fmt calls rest pending lost)[i]? = some p ∧
        p.error = none ∧ p.lostRecordTotalCount = lost ∧
        p.ring = ⟨(calls.drop (i + 1)).flatMap (TcpDataCall.dataRecords fmt) ++ rest, pending⟩ ∧
        (p.chunks.map Prod.snd).flatten = c.data.take (min (c.dataLen.toNat % 2 ^ 32) 16383) ∧
        Contiguous c.total p.chunks := by
  induction calls with
  | nil => exact ⟨rfl, fun i c h => by simp at h⟩
  | cons c calls ih =>
    have hc := hdata c List.mem_cons_self
    obtain ⟨hlen, hall⟩ := ih fun c' hc' => hdata c' (List.mem_cons_of_mem _ hc')
    rw [channelRun_cons hfmt hc]
    refine ⟨by rw [List.length_cons, hlen, List.length_cons], ?_⟩
    rintro (_ | i) c' hc'
    · -- the first message: the call's own records, then the later calls'
      obtain rfl : c = c' := by simpa using hc'
      obtain ⟨hflat, hcont⟩ := chunkSlices_sizes hc
      exact ⟨_, rfl, rfl, rfl, rfl, hflat, hcont⟩
    · -- a later message: the run from the second call on
      exact hall i c' (by simpa using hc')

theorem channelRun_roundTrip_seven_bytes :
    RawSampleFormat perfSampleRaw ∧
      (∀ c ∈ [TcpDataCall.mk [1, 2, 3, 4, 5, 6, 7] 7 100],
        (clippedLen c.dataLen).toNat ≤ c.data.length) ∧
      ((channelRun perfSampleRaw [⟨[1, 2, 3, 4, 5, 6, 7], 7, 100⟩] [] [] 0).length = 1 ∧
        ∀ (i : ℕ) (c : TcpDataCall), [TcpDataCall.mk [1, 2, 3, 4, 5, 6, 7] 7 100][i]? = some c →
          ∃ p : Processed,
            (channelRun perfSampleRaw [⟨[1, 2, 3, 4, 5, 6, 7], 7, 100⟩] [] [] 0)[i]? = some p ∧
            p.error = none ∧ p.lostRecordTotalCount = 0 ∧
            p.ring = ⟨([TcpDataCall.mk [1, 2, 3, 4, 5, 6, 7] 7 100].drop (i + 1)).flatMap
              (TcpDataCall.dataRecords perfSampleRaw) ++ [], []⟩ ∧
            (p.chunks.map Prod.snd).flatten = c.data.take (min (c.dataLen.toNat % 2 ^ 32) 16383) ∧
            Contiguous c.total p.chunks) :=
  have hdata : ∀ c ∈ [TcpDataCall.mk [1, 2, 3, 4, 5, 6, 7] 7 100],
      (clippedLen c.dataLen).toNat ≤ c.data.length := by decide
  ⟨rawSampleFormat_perfSampleRaw, hdata, channelRun_roundTrip rawSampleFormat_perfSampleRaw _ hdata⟩


/-- A `data_len` of `2 ^ 32 + 5` is narrowed to 5 bytes before it is clipped. -/
theorem channelRun_dataLen_past_u32 :
    (channelRun perfSampleRaw [⟨List.replicate 16383 0, 2 ^ 32 + 5, 0⟩] [] [] 0).map
        (fun p => (p.chunks.map Prod.snd).flatten) = [List.replicate 5 0] ∧
      List.replicate 5 0 ≠ (List.replicate 16383 0).take (min (2 ^ 32 + 5) 16383) := by
  have hc : (clippedLen (2 ^ 32 + 5)).toNat = 5 := by
    rw [toNat_clippedLen]
    rfl
  have hdata : (clippedLen (2 ^ 32 + 5)).toNat ≤ (List.replicate 16383 (0 : UInt8)).length := by
    rw [hc, List.length_replicate]
    decide
  refine ⟨?_, ?_⟩
  · rw [channelRun_cons (c := ⟨List.replicate 16383 0, 2 ^ 32 + 5, 0⟩) rawSampleFormat_perfSampleRaw
      hdata]
    simp only [List.map_cons, flatten_chunkSlices, sum_sizes, hc, List.drop_zero,
      List.take_replicate]
    rfl
  · intro h
    have h5 := congrArg List.length h
    rw [List.length_replicate, List.length_take, List.length_replicate] at h5
    omega

end Run

end DataChannel

end OtelEbpf
