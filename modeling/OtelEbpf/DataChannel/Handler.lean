import OtelEbpf.DataChannel.Submit
import OtelEbpf.PerfRing.Records

/-!
# The receiving side of the data channel

`TCPDataHandler::process` (`collector/kernel/tcp_data_handler.cc`) is called for each `tcp_data`
message of the control ring.  It drains the data ring of the same CPU until it has handed
`length` bytes to the socket's protocol handler: a `PERF_RECORD_SAMPLE` carries, after the `u32`
size that `PERF_SAMPLE_RAW` puts in front, a `data_channel_header_t` and the bytes; a
`PERF_RECORD_LOST` adds to `lost_record_total_count_`; any other record is skipped.

The protocol handler is outside this model: `process` hands each chunk, with the same
`current_offset`, to the socket's handler and to every handler it upgrades to, and the model
records the arguments once per chunk: the offset and the bytes of the chunk buffer from the
data on, in `chunks`, and the `data_len` the handler is told to read, in `dataLens`.  The
handler reads inside the bytes copied from the ring exactly when the chunk's bytes are
`data_len` long.  The three checks that `return` early leave what was done before them in
place, and are reported in `error`.

* `processLoop_sample` : a sample of one record of `data_channel_submit` hands over its bytes.
* `processLoop_zero` : the loop stops once it has handed over `length` bytes.
* `processLoop_accounts` : whatever the ring holds, the `data_len`s handed over add up to at
  most `length`, and each chunk is handed at the offset where the one before it ended.
* `processLoop_inside` : when no sample's header length, narrowed to `u32`, wraps
  `chunk_length`, every handler reads only bytes copied out of the ring.
* `process_reads_past_chunk` : a sample of 16 bytes whose header length is `0xffffffff` makes
  `chunk_length` wrap to 11, and the handler is told to read 1000 bytes of it.
-/

namespace OtelEbpf

namespace DataChannel

open PerfRing

/-- The checks of `TCPDataHandler::process` that end it early, with the values they log. -/
inductive ProcessError
  | shortMessage (paddedChunkLength minLength : UInt32)
  | longMessage (paddedChunkLength maxLength : UInt32)
  | chunkPastEnd (chunkLength paddedChunkLength : UInt32)
  deriving DecidableEq, Repr

/-- The line `log_.error` writes for each of them. -/
def ProcessError.message : ProcessError → String
  | .shortMessage p m => "got message < sizeof header: padded_chunk_length(" ++ toString p ++
      ") < min_length(" ++ toString m ++ ")"
  | .longMessage p m => "got message > sizeof message: padded_chunk_length(" ++ toString p ++
      ") > max_length(" ++ toString m ++ ")"
  | .chunkPastEnd c p => "got chunk_length > padded_chunk_length: chunk_length(" ++ toString c ++
      ") > padded_chunk_length(" ++ toString p ++ ")"

/-- `min_length`: the `u32` size of `PERF_SAMPLE_RAW`. -/
def minLength : UInt32 := 4

/-- `max_length`: the size and the largest chunk, rounded up to 8 bytes. -/
def maxLength : UInt32 := ((4 + DATA_CHANNEL_CHUNK_MAX) + 7) &&& ~~~7

/-- What `TCPDataHandler::process` leaves: the data ring, `lost_record_total_count_`, the
`(current_offset, data[0, data_len))` it handed to the protocol handler, as far as the bytes
copied from the ring go, the check that ended it early, if any, and the `data_len` of each
chunk. -/
structure Processed where
  ring : RecordRing
  lostRecordTotalCount : UInt64
  chunks : List (UInt64 × List UInt8)
  error : Option ProcessError
  dataLens : List UInt32

/-- The `while (length_remaining > 0)` loop of `TCPDataHandler::process`.  Every pass pops a
record or leaves the loop. -/
def processLoop (ring : RecordRing) (lengthRemaining : UInt32) (currentOffset : UInt64)
    (lost : UInt64) (chunks : List (UInt64 × List UInt8)) (dataLens : List UInt32) : Processed :=
  if lengthRemaining > 0 then
    if hsize : ring.peekSize = -ENOENT then ⟨ring, lost, chunks, none, dataLens⟩
    else
      let type := ring.peekType
      if type = PERF_RECORD_SAMPLE then
        let paddedChunkLength := UInt32.ofInt ring.peekSize
        if paddedChunkLength < minLength then
          ⟨ring, lost, chunks, some (.shortMessage paddedChunkLength minLength), dataLens⟩
        else if paddedChunkLength > maxLength then
          ⟨ring, lost, chunks, some (.longMessage paddedChunkLength maxLength), dataLens⟩
        else
          let buf := ring.peekCopy 0 paddedChunkLength.toUInt16
          -- the `u64` header, narrowed to the `u32 data_len`
          let dataLen := UInt32.ofNat (Bytes.leValue ((buf.drop 4).take 8))
          let chunkLength := dataLen + 4 + 8
          if chunkLength > paddedChunkLength then
            ⟨ring.pop, lost, chunks, some (.chunkPastEnd chunkLength paddedChunkLength), dataLens⟩
          else
            let dataLen := if dataLen > lengthRemaining then lengthRemaining else dataLen
            processLoop ring.pop (lengthRemaining - dataLen) (currentOffset + dataLen.toUInt64)
              lost (chunks ++ [(currentOffset, (buf.drop 12).take dataLen.toNat)])
              (dataLens ++ [dataLen])
      else if type = PERF_RECORD_LOST then
        processLoop ring.pop lengthRemaining currentOffset (lost + ring.peekAlignedU64 8) chunks
          dataLens
      else processLoop ring.pop lengthRemaining currentOffset lost chunks dataLens
  else ⟨ring, lost, chunks, none, dataLens⟩
termination_by ring.visible.length
decreasing_by all_goals exact RecordRing.length_pop_lt hsize

/-- `TCPDataHandler::process` on the data ring of the message's CPU. -/
def process (ring : RecordRing) (lost : UInt64) (length : UInt32) (offset : UInt64) :
    Processed :=
  processLoop ring length offset lost [] []

/-! ### The loop, record by record -/

/-- A sample as `data_channel_submit` sends one record and the kernel stores it: the `u32` size
of `PERF_SAMPLE_RAW`, the header with the length of `bytes`, `bytes`, and up to 7 bytes of
padding. -/
structure DataSample (x : PerfRecord) (bytes : List UInt8) : Prop where
  type : x.type = PERF_RECORD_SAMPLE
  payload : ∃ size pad, x.payload = size ++ (Bytes.leBytes 8 bytes.length ++ bytes) ++ pad ∧
    size.length = 4 ∧ pad.length < 8
  short : bytes.length ≤ 256

section Loop

variable {lengthRemaining : UInt32} {currentOffset lost : UInt64}
  {chunks : List (UInt64 × List UInt8)} {dataLens : List UInt32} {x : PerfRecord}
  {xs pending : List PerfRecord}

theorem processLoop_zero (ring : RecordRing) :
    processLoop ring 0 currentOffset lost chunks dataLens = ⟨ring, lost, chunks, none, dataLens⟩ := by
  rw [processLoop]
  rfl

/-- What the checks of `process` read off a data sample: its padded length passes both bounds,
its header says the length of `bytes`, and `bytes` follow the header. -/
theorem DataSample.reads {bytes : List UInt8} (hx : DataSample x bytes) :
    ¬ UInt32.ofInt x.payload.length < minLength ∧ ¬ UInt32.ofInt x.payload.length > maxLength ∧
      (x.payload.drop 0).take (UInt32.ofInt x.payload.length).toUInt16.toNat = x.payload ∧
      Bytes.leValue ((x.payload.drop 4).take 8) = bytes.length ∧
      (x.payload.drop 12).take bytes.length = bytes ∧
      bytes.length + 12 ≤ x.payload.length ∧ x.payload.length < 276 := by
  obtain ⟨size, pad, hpay, hsize, hpad⟩ := hx.payload
  have hlen : x.payload.length = 12 + bytes.length + pad.length := by
    simp only [hpay, List.length_append, hsize, Bytes.length_leBytes]
    omega
  have hb := hx.short
  have hpl : (UInt32.ofNat x.payload.length).toNat = x.payload.length :=
    UInt32.toNat_ofNat_of_lt' (show _ < 2 ^ 32 by omega)
  have hmax : maxLength.toNat = 16392 := by decide
  have hmin : minLength.toNat = 4 := rfl
  have hrest : x.payload.drop 4 = Bytes.leBytes 8 bytes.length ++ (bytes ++ pad) := by
    rw [hpay, List.append_assoc, List.drop_left' hsize, List.append_assoc]
  rw [Word.ofInt_natCast, UInt32.lt_iff_toNat_lt, gt_iff_lt, UInt32.lt_iff_toNat_lt, hpl, hmin,
    hmax]
  refine ⟨by omega, by omega, ?_, ?_, ?_, by omega, by omega⟩
  · rw [List.drop_zero, UInt32.toNat_toUInt16, hpl]
    exact List.take_of_length_le (by omega)
  · rw [hrest, List.take_left' (Bytes.length_leBytes 8 _), Bytes.leValue_leBytes]
    exact Nat.mod_eq_of_lt (by omega)
  · have h12 : (12 : ℕ) = 4 + 8 := rfl
    rw [h12, ← List.drop_drop, hrest, List.drop_left' (Bytes.length_leBytes 8 _)]
    exact List.take_left' rfl

/-- **One data sample.** A sample of `bytes`, no more than `process` still waits for, is popped
and its bytes handed over at `current_offset`. -/
theorem processLoop_sample {bytes : List UInt8} (hx : DataSample x bytes)
    (hpos : 0 < bytes.length) (hle : bytes.length ≤ lengthRemaining.toNat) :
    processLoop ⟨x :: xs, pending⟩ lengthRemaining currentOffset lost chunks dataLens =
      processLoop ⟨xs, pending⟩ (lengthRemaining - UInt32.ofNat bytes.length)
        (currentOffset + UInt64.ofNat bytes.length) lost (chunks ++ [(currentOffset, bytes)])
        (dataLens ++ [UInt32.ofNat bytes.length]) := by
  obtain ⟨hmin, hmax, hbuf, hhdr, hdata, hfit, hsmall⟩ := hx.reads
  have hb := hx.short
  have hbl : (UInt32.ofNat bytes.length).toNat = bytes.length :=
    UInt32.toNat_ofNat_of_lt' (show _ < 2 ^ 32 by omega)
  have hrem : lengthRemaining > 0 := by
    rw [gt_iff_lt, UInt32.lt_iff_toNat_lt]
    exact Nat.lt_of_lt_of_le hpos hle
  have hne : ¬ RecordRing.peekSize ⟨x :: xs, pending⟩ = -ENOENT := by
    rw [RecordRing.peekSize_eq_iff]
    exact List.cons_ne_nil x xs
  -- the chunk ends inside the padded sample, and no clamp applies
  have hchunk : ¬ UInt32.ofNat bytes.length + 4 + 8 > UInt32.ofInt x.payload.length := by
    rw [Word.ofInt_natCast, gt_iff_lt, UInt32.lt_iff_toNat_lt, UInt32.toNat_add, UInt32.toNat_add,
      hbl, UInt32.toNat_ofNat_of_lt' (show _ < 2 ^ 32 by omega)]
    simp only [UInt32.reduceToNat]
    omega
  have hclamp : ¬ UInt32.ofNat bytes.length > lengthRemaining := by
    rw [gt_iff_lt, UInt32.lt_iff_toNat_lt, hbl]
    omega
  rw [processLoop, if_pos hrem, dif_neg hne]
  simp only [RecordRing.peekType_cons, hx.type, RecordRing.peekSize_cons, if_true, if_neg hmin,
    if_neg hmax, RecordRing.peekCopy_cons, UInt16.toNat_zero, hbuf, hhdr, if_neg hchunk,
    if_neg hclamp, RecordRing.pop_cons, hbl, hdata, Word.toUInt64_ofNat (show bytes.length < 2 ^ 32 by omega)]

end Loop

/-! ### What the handlers are handed -/

/-- The chunks `cs` with the `data_len`s `ls`: each handed at the offset where the one before
it ended, by its `data_len`, the first at `off`. -/
def Advances : UInt64 → List (UInt64 × List UInt8) → List UInt32 → Prop
  | _, [], [] => True
  | off, c :: cs, l :: ls => c.1 = off ∧ Advances (off + l.toUInt64) cs ls
  | _, _, _ => False

/-- Every chunk of `cs` holds the `data_len` bytes its handler reads: the data lies inside the
bytes copied from the ring, and inside the chunk buffer of `max_length` bytes. -/
def Inside (cs : List (UInt64 × List UInt8)) (ls : List UInt32) : Prop :=
  List.Forall₂ (fun c l => c.2.length = l.toNat ∧ 12 + l.toNat ≤ maxLength.toNat) cs ls

/-- The `u64` length of a sample's `data_channel_header_t`, narrowed to `u32`, leaves room for
the 12 bytes in front of the data: `chunk_length` does not wrap. -/
def HeaderFits (x : PerfRecord) : Prop :=
  x.type = PERF_RECORD_SAMPLE → Bytes.leValue ((x.payload.drop 4).take 8) % 2 ^ 32 + 12 < 2 ^ 32

/-- **The accounting of one `process` call**, whatever the data ring holds: the chunks and the
`data_len`s it hands over come in pairs, each chunk at the offset where the one before it
ended, and the `data_len`s add up to at most `length`. -/
theorem processLoop_accounts (ring : RecordRing) (lengthRemaining : UInt32)
    (currentOffset lost : UInt64) (chunks : List (UInt64 × List UInt8)) (dataLens : List UInt32) :
    ∃ cs ls,
      (processLoop ring lengthRemaining currentOffset lost chunks dataLens).chunks = chunks ++ cs ∧
      (processLoop ring lengthRemaining currentOffset lost chunks dataLens).dataLens =
        dataLens ++ ls ∧
      Advances currentOffset cs ls ∧ (ls.map UInt32.toNat).sum ≤ lengthRemaining.toNat := by
  -- one case per exit and per pass of the loop; only a sample's pass hands a chunk over
  fun_induction processLoop ring lengthRemaining currentOffset lost chunks dataLens
  case case5 rem off _ chunks dataLens _ _ _ _ _ _ _ buf dl _ _ dataLen ih =>
    obtain ⟨cs, ls, hc, hl, hadv, hsum⟩ := ih
    refine ⟨(off, (buf.drop 12).take dataLen.toNat) :: cs, dataLen :: ls, by rw [hc]; simp,
      by rw [hl]; simp, ⟨rfl, hadv⟩, ?_⟩
    -- the clamp keeps `data_len` within `length_remaining`
    have hle : dataLen ≤ rem := by
      show (if dl > rem then rem else dl) ≤ rem
      split_ifs with h
      · exact UInt32.le_refl _
      · exact UInt32.not_lt.1 h
    rw [UInt32.toNat_sub_of_le _ _ hle] at hsum
    have := UInt32.le_iff_toNat_le.1 hle
    simp only [List.map_cons, List.sum_cons]
    omega
  case case6 ih => exact ih
  case case7 ih => exact ih
  all_goals exact ⟨[], [], by simp, by simp, trivial, by simp⟩

/-- The narrowed header length of a sample whose header fits, read from the first
`padded_chunk_length` bytes of its payload, leaves room for the 12 bytes: fewer than 8 header
bytes read give a smaller number. -/
theorem narrowed_add_twelve_lt {payload : List UInt8} (P : ℕ)
    (hfit : Bytes.leValue ((payload.drop 4).take 8) % 2 ^ 32 + 12 < 2 ^ 32) :
    (UInt32.ofNat (Bytes.leValue (((payload.take P).drop 4).take 8))).toNat + 12 < 2 ^ 32 := by
  rw [UInt32.toNat_ofNat', List.drop_take, List.take_take, Bytes.leValue_take] at *
  have h8 : 2 ^ 32 ∣ 256 ^ 8 := ⟨2 ^ 32, rfl⟩
  rw [Nat.mod_mod_of_dvd _ h8] at hfit
  rcases Nat.lt_or_ge (min 8 (P - 4)) 4 with hm | hm
  · -- fewer than four bytes: a number below `2 ^ 24`
    have hlt : Bytes.leValue (payload.drop 4) % 256 ^ min 8 (P - 4) < 256 ^ min 8 (P - 4) :=
      Nat.mod_lt _ (Nat.pow_pos (show 0 < 256 by decide))
    have hpow : 256 ^ min 8 (P - 4) ≤ 256 ^ 3 := Nat.pow_le_pow_right (by decide) (by omega)
    have := Nat.mod_le (Bytes.leValue (payload.drop 4) % 256 ^ min 8 (P - 4)) (2 ^ 32)
    omega
  · -- four bytes or more: the low 32 bits are the header's
    have hdvd : 2 ^ 32 ∣ 256 ^ min 8 (P - 4) :=
      ⟨256 ^ (min 8 (P - 4) - 4), by
        rw [show (2 : ℕ) ^ 32 = 256 ^ 4 from rfl, ← Nat.pow_add, Nat.add_sub_cancel' hm]⟩
    rw [Nat.mod_mod_of_dvd _ hdvd]
    exact hfit

/-- A chunk whose `chunk_length` did not wrap and passed the check against the padded length
holds the `data_len` bytes its handler reads, clamped or not. -/
theorem chunk_inside {buf : List UInt8} {padded dl rem : UInt32} (hbuf : buf.length = padded.toNat)
    (hmax : padded.toNat ≤ maxLength.toNat) (hdl : dl.toNat + 12 < 2 ^ 32)
    (hchunk : ¬ dl + 4 + 8 > padded) :
    ((buf.drop 12).take (if dl > rem then rem else dl).toNat).length =
        (if dl > rem then rem else dl).toNat ∧
      12 + (if dl > rem then rem else dl).toNat ≤ maxLength.toNat := by
  have hchunk' : dl.toNat + 12 ≤ padded.toNat := by
    rw [gt_iff_lt, UInt32.lt_iff_toNat_lt, UInt32.toNat_add, UInt32.toNat_add] at hchunk
    simp only [UInt32.reduceToNat] at hchunk
    omega
  -- the clamp only makes `data_len` smaller
  have hle : (if dl > rem then rem else dl).toNat ≤ dl.toNat := by
    split_ifs with h
    · exact Nat.le_of_lt (UInt32.lt_iff_toNat_lt.1 h)
    · exact Nat.le_refl _
  rw [List.length_take, List.length_drop, hbuf]
  omega

/-- **The handlers read only copied bytes** when no sample's header length wraps
`chunk_length`: every chunk `process` hands over holds the `data_len` bytes its handler reads,
inside the chunk buffer. -/
theorem processLoop_inside (ring : RecordRing) (lengthRemaining : UInt32)
    (currentOffset lost : UInt64) (chunks : List (UInt64 × List UInt8)) (dataLens : List UInt32)
    (h : ∀ x ∈ ring.visible, HeaderFits x) :
    ∃ cs ls,
      (processLoop ring lengthRemaining currentOffset lost chunks dataLens).chunks = chunks ++ cs ∧
      (processLoop ring lengthRemaining currentOffset lost chunks dataLens).dataLens =
        dataLens ++ ls ∧
      Inside cs ls := by
  fun_induction processLoop ring lengthRemaining currentOffset lost chunks dataLens
  case case5 ring rem off _ chunks dataLens _ hne type htype padded _ hmax buf dl _ hchunk dataLen
      ih =>
    obtain ⟨x, xs, hv⟩ := List.exists_cons_of_ne_nil (mt RecordRing.peekSize_eq_iff.2 hne)
    obtain ⟨cs, ls, hc, hl, hin⟩ := ih fun y hy => h y (RecordRing.mem_of_mem_pop hy)
    refine ⟨(off, (buf.drop 12).take dataLen.toNat) :: cs, dataLen :: ls, by rw [hc]; simp,
      by rw [hl]; simp, List.Forall₂.cons ?_ hin⟩
    -- the sample at the head: its copy is `padded_chunk_length` bytes long
    have hx : x.type = PERF_RECORD_SAMPLE := by
      simpa [type, RecordRing.peekType, hv] using htype
    have hpadded : padded.toNat = x.payload.length % 2 ^ 32 := by
      simp only [padded, RecordRing.peekSize, hv, Word.ofInt_natCast, UInt32.toNat_ofNat']
    have hmax' : padded.toNat ≤ maxLength.toNat := by
      rw [gt_iff_lt, UInt32.lt_iff_toNat_lt] at hmax
      omega
    have hmaxv : maxLength.toNat = 16392 := by decide
    have hbuf : buf = x.payload.take padded.toNat := by
      simp only [buf, RecordRing.peekCopy, hv, UInt16.toNat_zero, List.drop_zero,
        UInt32.toNat_toUInt16]
      rw [Nat.mod_eq_of_lt (by omega)]
    have hlen : buf.length = padded.toNat := by
      rw [hbuf, List.length_take]
      omega
    have hdl : dl.toNat + 12 < 2 ^ 32 := by
      simp only [dl]
      rw [hbuf]
      exact narrowed_add_twelve_lt _ (h x (by rw [hv]; exact List.mem_cons_self) hx)
    exact chunk_inside hlen hmax' hdl hchunk
  -- a lost or an unknown record is popped and nothing is handed over
  case case6 ih => exact ih fun y hy => h y (RecordRing.mem_of_mem_pop hy)
  case case7 ih => exact ih fun y hy => h y (RecordRing.mem_of_mem_pop hy)
  all_goals exact ⟨[], [], by simp, by simp, List.Forall₂.nil⟩

/-- A sample of 16 bytes whose header gives the length `0xffffffff`: `chunk_length` wraps to
11, which passes the check against the padded length 16, and with 1000 bytes to go `process`
tells the handler to read 1000 bytes from offset 12 of a chunk that has 4. -/
theorem process_reads_past_chunk :
    process ⟨[⟨PERF_RECORD_SAMPLE, [16, 0, 0, 0, 255, 255, 255, 255, 0, 0, 0, 0, 0, 0, 0, 0]⟩], []⟩
        0 1000 0 = ⟨⟨[], []⟩, 0, [(0, [0, 0, 0, 0])], none, [1000]⟩ ∧
      ([16, 0, 0, 0, 255, 255, 255, 255, 0, 0, 0, 0, 0, 0, 0, 0] : List UInt8).length < 12 + 1000 := by
  refine ⟨?_, by decide⟩
  rw [process, processLoop, if_pos (by decide), dif_neg (by decide)]
  simp only [RecordRing.peekType_cons, RecordRing.peekSize_cons, RecordRing.peekCopy_cons,
    RecordRing.pop_cons, if_true]
  -- the checks on the padded length and on the wrapped `chunk_length` pass, the clamp applies
  simp +decide only [List.length_cons, List.length_nil]
  exact processLoop_zero _

end DataChannel

end OtelEbpf
