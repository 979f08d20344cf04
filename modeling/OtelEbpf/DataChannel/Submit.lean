import OtelEbpf.Lib.Bytes
import OtelEbpf.Lib.Word

/-!
# The sending side of the data channel

`tcp-processor/bpf_data_channel.h`: the BPF program copies the bytes of a TCP stream to the
`data_channel` perf ring in records of a `data_channel_header_t` (a `u64 length`) and at most
256 bytes.  `data_channel_submit` clips the length to `DATA_CHANNEL_CHUNK_MAX`, then walks its
binary digits: a set bit `B ≥ 256` gives `B / 256` records of 256 bytes, a set bit `B` from 128
down to 4 one record of `B` bytes, and the last two bits one record of 1 to 3 bytes.  The
records are built in one on-stack message whose header keeps the last length set; the input
pointer `in` is an offset into the buffer `src`, and `bpf_probe_read` is assumed to succeed.
-/

namespace OtelEbpf

namespace DataChannel

/-- `DATA_CHANNEL_CHUNK_MAX` (`render_bpf.h`). -/
def DATA_CHANNEL_CHUNK_MAX : UInt32 := 16383

/-- The on-stack message: `hdr.length` and the 256-byte `data`. -/
structure Msg where
  length : UInt64
  data : List UInt8

/-- The state of `data_channel_submit` between two macros: the input offset `in - data`, the
message, and the raw records submitted so far. -/
structure SubmitState where
  input : ℕ
  msg : Msg
  out : List (List UInt8)

section Macros

variable (src : List UInt8)

/-- `bpf_probe_read(&msg.data, n, in)`. -/
def probeRead (s : SubmitState) (n : ℕ) : SubmitState :=
  { s with msg := { s.msg with data := (src.drop s.input).take n ++ s.msg.data.drop n } }

/-- `data_channel.perf_submit(ctx, &msg, sizeof(struct data_channel_header_t) + n)`: the
header and the first `n` bytes of the message. -/
def perfSubmit (s : SubmitState) (n : ℕ) : SubmitState :=
  { s with out := s.out ++ [Bytes.leBytes 8 s.msg.length.toNat ++ s.msg.data.take n] }

/-- `COPY_CHUNK_256`. -/
def copyChunk256 (s : SubmitState) : SubmitState :=
  let s := perfSubmit (probeRead src s 256) 256
  { s with input := s.input + 256 }

/-- `COPY_BIT_256` to `COPY_BIT_8192`: `b / 256` chunks of 256 bytes when bit `b` is set. -/
def copyBitChunks (len : UInt32) (b : ℕ) (s : SubmitState) : SubmitState :=
  if len &&& UInt32.ofNat b ≠ 0 then (copyChunk256 src)^[b / 256] s else s

/-- `COPY_BIT_8192`. -/
def copyBit8192 (len : UInt32) : SubmitState → SubmitState := copyBitChunks src len 8192
/-- `COPY_BIT_4096`. -/
def copyBit4096 (len : UInt32) : SubmitState → SubmitState := copyBitChunks src len 4096
/-- `COPY_BIT_2048`. -/
def copyBit2048 (len : UInt32) : SubmitState → SubmitState := copyBitChunks src len 2048
/-- `COPY_BIT_1024`. -/
def copyBit1024 (len : UInt32) : SubmitState → SubmitState := copyBitChunks src len 1024
/-- `COPY_BIT_512`. -/
def copyBit512 (len : UInt32) : SubmitState → SubmitState := copyBitChunks src len 512
/-- `COPY_BIT_256`. -/
def copyBit256 (len : UInt32) : SubmitState → SubmitState := copyBitChunks src len 256

/-- `COPY_BIT(B)`: one record of `b` bytes when bit `b` is set. -/
def copyBit (len : UInt32) (b : ℕ) (s : SubmitState) : SubmitState :=
  if len &&& UInt32.ofNat b ≠ 0 then
    let s := { s with msg := { s.msg with length := UInt64.ofNat b } }
    let s := perfSubmit (probeRead src s b) b
    { s with input := s.input + b }
  else s

/-- `COPY_LAST_BITS`: one record of `len & 3` bytes, if any; `in` is not advanced. -/
def copyLastBits (len : UInt32) (s : SubmitState) : SubmitState :=
  let lastBits := (len &&& 3).toNat
  let s := { s with msg := { s.msg with length := UInt64.ofNat lastBits } }
  if lastBits = 0 then s else perfSubmit (probeRead src s lastBits) lastBits

end Macros

/-- `unsigned int len = data_len;` and the clip to `DATA_CHANNEL_CHUNK_MAX`. -/
def clippedLen (dataLen : UInt64) : UInt32 :=
  let len := dataLen.toUInt32
  if len > DATA_CHANNEL_CHUNK_MAX then DATA_CHANNEL_CHUNK_MAX else len

/-- `data_channel_submit`: the raw records submitted to `data_channel`, and `*actual_len`. -/
def dataChannelSubmit (src : List UInt8) (dataLen : UInt64) : List (List UInt8) × UInt64 :=
  let len := clippedLen dataLen
  let s : SubmitState := ⟨0, ⟨256, List.replicate 256 0⟩, []⟩
  let s := s |> copyBit8192 src len |> copyBit4096 src len |> copyBit2048 src len
    |> copyBit1024 src len |> copyBit512 src len |> copyBit256 src len
    |> copyBit src len 128 |> copyBit src len 64 |> copyBit src len 32 |> copyBit src len 16
    |> copyBit src len 8 |> copyBit src len 4 |> copyLastBits src len
  (s.out, len.toUInt64)

/-- The `tcp_data` message on the control ring: its `length` and `offset`. -/
structure TcpDataMsg where
  length : UInt32
  offset : UInt64
  deriving DecidableEq, Repr

/-- `tcp_events_submit_tcp_data`: the data records, then the control message announcing
`actual_len` bytes at the stream's `total`. -/
def tcpEventsSubmitTcpData (src : List UInt8) (dataLen total : UInt64) :
    List (List UInt8) × TcpDataMsg :=
  let (records, actualLen) := dataChannelSubmit src dataLen
  (records, ⟨actualLen.toUInt32, total⟩)

/-! ### The records sent -/

/-- The raw record of the `b` bytes of `src` from `start`: the header, then the bytes. -/
def record (src : List UInt8) (start b : ℕ) : List UInt8 :=
  Bytes.leBytes 8 b ++ (src.drop start).take b

/-- The records of consecutive runs of `src` of sizes `bs`, from `start`. -/
def records (src : List UInt8) : ℕ → List ℕ → List (List UInt8)
  | _, [] => []
  | start, b :: bs => record src start b :: records src (start + b) bs

/-- A run of `b` bytes when bit `b` of `n` is set. -/
def sizeIf (n b : ℕ) : List ℕ := if n / b % 2 = 1 then [b] else []

/-- The sizes of the records for `n` bytes: `n / 256` runs of 256, a run for each of the bits
128 to 4 that is set, and the last two bits. -/
def sizes (n : ℕ) : List ℕ :=
  List.replicate (n / 256) 256 ++ sizeIf n 128 ++ sizeIf n 64 ++ sizeIf n 32 ++ sizeIf n 16 ++
    sizeIf n 8 ++ sizeIf n 4 ++ (if n % 4 = 0 then [] else [n % 4])

theorem records_append (src : List UInt8) (start : ℕ) (xs ys : List ℕ) :
    records src start (xs ++ ys) = records src start xs ++ records src (start + xs.sum) ys := by
  induction xs generalizing start with
  | nil => simp [records]
  | cons b bs ih => simp [records, ih, Nat.add_assoc]

theorem sum_sizeIf (n b : ℕ) : (sizeIf n b).sum = b * (n / b % 2) := by
  unfold sizeIf
  split
  · rename_i h
    simp [h]
  · rename_i h
    have h0 : n / b % 2 = 0 := by omega
    simp [h0]

/-- **The runs cover the `n` bytes.** -/
theorem sum_sizes (n : ℕ) : (sizes n).sum = n := by
  simp only [sizes, List.sum_append, sum_sizeIf, List.sum_replicate_nat]
  split <;> simp <;> omega

theorem mem_sizes {n b : ℕ} (h : b ∈ sizes n) : 0 < b ∧ b ≤ 256 := by
  simp only [sizes, sizeIf, List.mem_append, List.mem_replicate] at h
  split_ifs at h <;> simp at h <;> omega

/-! ### The macros, one by one -/

/-- The submission has gone through the runs `xs`. -/
structure Reached (src : List UInt8) (s : SubmitState) (xs : List ℕ) : Prop where
  input : s.input = xs.sum
  out : s.out = records src 0 xs

section Steps

variable {src : List UInt8} {s : SubmitState} {xs : List ℕ}

/-- Reading `b` bytes and submitting them with a header that says `b` sends the next run. -/
theorem out_perfSubmit_probeRead (src : List UInt8) (s : SubmitState) {b : ℕ} (hl : s.msg.length.toNat = b)
    (hsrc : s.input + b ≤ src.length) :
    (perfSubmit (probeRead src s b) b).out = s.out ++ [record src s.input b] := by
  have hread : ((src.drop s.input).take b).length = b := by simp; omega
  simp only [perfSubmit, probeRead, hl, record]
  rw [List.take_left' hread]

theorem Reached.chunk256 (h : Reached src s xs) (hl : s.msg.length = 256)
    (hsrc : xs.sum + 256 ≤ src.length) :
    Reached src (copyChunk256 src s) (xs ++ [256]) ∧ (copyChunk256 src s).msg.length = 256 := by
  have hout := out_perfSubmit_probeRead src s (b := 256) (by rw [hl]; rfl)
    (by rw [h.input]; exact hsrc)
  refine ⟨⟨?_, ?_⟩, hl⟩
  · simp [copyChunk256, perfSubmit, probeRead, h.input]
  · simp only [copyChunk256]
    rw [hout, h.out, h.input, records_append]
    simp [records]

theorem Reached.iterate_chunk256 (h : Reached src s xs) (hl : s.msg.length = 256) (k : ℕ)
    (hsrc : xs.sum + 256 * k ≤ src.length) :
    Reached src ((copyChunk256 src)^[k] s) (xs ++ List.replicate k 256) ∧
      ((copyChunk256 src)^[k] s).msg.length = 256 := by
  induction k generalizing s xs with
  | zero => simpa using And.intro h hl
  | succ k ih =>
    have hk : xs.sum + 256 ≤ src.length ∧ xs.sum + 256 + 256 * k ≤ src.length := by
      -- `omega` normalises `a + (256 * k + 256)` too deeply: reassociate first
      rw [Nat.mul_succ, ← Nat.add_assoc] at hsrc
      constructor <;> omega
    obtain ⟨h', hl'⟩ := h.chunk256 hl hk.1
    rw [Function.iterate_succ_apply]
    have := ih h' hl' (by simpa using hk.2)
    simpa [List.replicate_succ] using this

variable {len : UInt32} {b : ℕ}

/-- `COPY_BIT_b` for `b ≥ 256`: `b / 256` runs of 256 when its bit is set. -/
theorem Reached.bitChunks (h : Reached src s xs) (hl : s.msg.length = 256)
    (hbit : len &&& UInt32.ofNat b ≠ 0 ↔ len.toNat / b % 2 = 1)
    (hsrc : xs.sum + 256 * (b / 256 * (len.toNat / b % 2)) ≤ src.length) :
    Reached src (copyBitChunks src len b s) (xs ++ List.replicate (b / 256 * (len.toNat / b % 2)) 256) ∧
      (copyBitChunks src len b s).msg.length = 256 := by
  unfold copyBitChunks
  by_cases hb : len.toNat / b % 2 = 1
  · rw [if_pos (hbit.2 hb)]
    rw [hb, Nat.mul_one] at hsrc ⊢
    exact h.iterate_chunk256 hl _ hsrc
  · rw [if_neg (mt hbit.1 hb)]
    have h0 : len.toNat / b % 2 = 0 := by omega
    simpa [h0] using And.intro h hl

/-- `COPY_BIT(b)`: a run of `b` when its bit is set. -/
theorem Reached.bit (h : Reached src s xs)
    (hbit : len &&& UInt32.ofNat b ≠ 0 ↔ len.toNat / b % 2 = 1) (hb : b < 2 ^ 64)
    (hsrc : xs.sum + b * (len.toNat / b % 2) ≤ src.length) :
    Reached src (copyBit src len b s) (xs ++ sizeIf len.toNat b) := by
  unfold copyBit sizeIf
  by_cases hset : len.toNat / b % 2 = 1
  · rw [if_pos (hbit.2 hset), if_pos hset]
    rw [hset, Nat.mul_one] at hsrc
    have hout := out_perfSubmit_probeRead src
      { s with msg := { s.msg with length := UInt64.ofNat b } } (b := b)
      (UInt64.toNat_ofNat_of_lt' hb) (by rw [h.input]; exact hsrc)
    refine ⟨?_, ?_⟩
    · simp [perfSubmit, probeRead, h.input]
    · simp only at hout ⊢
      rw [hout, h.out, h.input, records_append]
      simp [records]
  · rw [if_neg (mt hbit.1 hset), if_neg hset, List.append_nil]
    exact h

/-- `COPY_LAST_BITS`: a run of `len & 3` bytes, if any; it ends the submission, so only the
records sent matter. -/
theorem Reached.out_lastBits (len : UInt32) (h : Reached src s xs)
    (hsrc : xs.sum + len.toNat % 4 ≤ src.length) :
    (copyLastBits src len s).out =
      records src 0 (xs ++ if len.toNat % 4 = 0 then [] else [len.toNat % 4]) := by
  have hlast : (len &&& 3).toNat = len.toNat % 4 := by
    rw [UInt32.toNat_and]
    exact Nat.and_two_pow_sub_one_eq_mod _ 2
  have hsmall : len.toNat % 4 < 2 ^ 64 := lt_of_lt_of_le (Nat.mod_lt _ (by decide)) (by decide)
  unfold copyLastBits
  simp only [hlast]
  split
  · rw [List.append_nil]
    exact h.out
  · have hout := out_perfSubmit_probeRead src
      { s with msg := { s.msg with length := UInt64.ofNat (len.toNat % 4) } }
      (b := len.toNat % 4) (UInt64.toNat_ofNat_of_lt' hsmall) (by rw [h.input]; exact hsrc)
    rw [hout]
    simp only
    rw [h.out, h.input, records_append]
    simp [records]

/-- The submission has sent the bits of `len` from the top down to bit `b`: the runs so far
cover `len` with its bits below `b` cleared. -/
structure Sent (src : List UInt8) (len : UInt32) (b : ℕ) (s : SubmitState) (xs : List ℕ) : Prop
    extends Reached src s xs where
  sum : xs.sum = len.toNat / b * b

/-- The runs of the bit `b` end at `len` with its bits below `b` cleared, inside the buffer. -/
theorem Sent.sum_bit_le (h : Sent src len (2 * b) s xs) (hsrc : len.toNat ≤ src.length) :
    xs.sum + b * (len.toNat / b % 2) = len.toNat / b * b ∧ len.toNat / b * b ≤ src.length := by
  rw [h.sum, Word.div_mul_add_bit]
  exact ⟨rfl, Nat.le_trans (Nat.div_mul_le_self _ _) hsrc⟩

theorem Sent.bitChunks (h : Sent src len (2 * b) s xs) (hl : s.msg.length = 256)
    (hbit : len &&& UInt32.ofNat b ≠ 0 ↔ len.toNat / b % 2 = 1) (hdvd : 256 ∣ b)
    (hsrc : len.toNat ≤ src.length) :
    Sent src len b (copyBitChunks src len b s)
        (xs ++ List.replicate (b / 256 * (len.toNat / b % 2)) 256) ∧
      (copyBitChunks src len b s).msg.length = 256 := by
  have hrun : 256 * (b / 256 * (len.toNat / b % 2)) = b * (len.toNat / b % 2) := by
    rw [← Nat.mul_assoc, Nat.mul_div_cancel' hdvd]
  obtain ⟨hsum, hle⟩ := h.sum_bit_le hsrc
  obtain ⟨hr, hl'⟩ := h.toReached.bitChunks hl hbit (by rw [hrun, hsum]; exact hle)
  refine ⟨⟨hr, ?_⟩, hl'⟩
  rw [List.sum_append, List.sum_replicate_nat, Nat.mul_comm _ 256, hrun, hsum]

theorem Sent.bit (h : Sent src len (2 * b) s xs)
    (hbit : len &&& UInt32.ofNat b ≠ 0 ↔ len.toNat / b % 2 = 1) (hb : b < 2 ^ 64)
    (hsrc : len.toNat ≤ src.length) :
    Sent src len b (copyBit src len b s) (xs ++ sizeIf len.toNat b) := by
  obtain ⟨hsum, hle⟩ := h.sum_bit_le hsrc
  refine ⟨h.toReached.bit hbit hb (by rw [hsum]; exact hle), ?_⟩
  rw [List.sum_append, sum_sizeIf, hsum]

end Steps

/-! ### The whole submission -/

/-- The length is narrowed to 32 bits, then clipped to `DATA_CHANNEL_CHUNK_MAX`. -/
theorem toNat_clippedLen (dataLen : UInt64) :
    (clippedLen dataLen).toNat = min (dataLen.toNat % 2 ^ 32) 16383 := by
  have hmax : DATA_CHANNEL_CHUNK_MAX.toNat = 16383 := rfl
  simp only [clippedLen]
  rw [← UInt64.toNat_toUInt32]
  split
  · rename_i h
    rw [gt_iff_lt, UInt32.lt_iff_toNat_lt, hmax] at h
    rw [hmax]
    exact (min_eq_right (Nat.le_of_lt h)).symm
  · rename_i h
    rw [gt_iff_lt, UInt32.lt_iff_toNat_lt, hmax] at h
    exact (min_eq_left (Nat.le_of_not_lt h)).symm

theorem clippedLen_le (dataLen : UInt64) : (clippedLen dataLen).toNat ≤ 16383 := by
  rw [toNat_clippedLen]
  exact min_le_right _ _

/-- Below `2 ^ 14`, the chunk counts of the bits 8192 to 256 add up to `n / 256`. -/
theorem chunk_counts {n : ℕ} (hn : n < 16384) :
    32 * (n / 8192 % 2) + 16 * (n / 4096 % 2) + 8 * (n / 2048 % 2) + 4 * (n / 1024 % 2) +
      2 * (n / 512 % 2) + n / 256 % 2 = n / 256 := by
  omega

/-- **The records of one submission.** The `n` clipped bytes of `src` leave in the runs
`sizes n`, in order, each behind a header that says its length. -/
theorem dataChannelSubmit_records (src : List UInt8) (dataLen : UInt64)
    (hsrc : (clippedLen dataLen).toNat ≤ src.length) :
    (dataChannelSubmit src dataLen).1 = records src 0 (sizes (clippedLen dataLen).toNat) := by
  set len := clippedLen dataLen with hlen
  have hn : len.toNat < 16384 := Nat.lt_succ_of_le (clippedLen_le dataLen)
  have hbit : ∀ k < 32, len &&& UInt32.ofNat (2 ^ k) ≠ 0 ↔ len.toNat / 2 ^ k % 2 = 1 :=
    fun k hk => Word.and_ofNat_two_pow_ne_zero hk
  have h0 : Sent src len 16384 ⟨0, ⟨256, List.replicate 256 0⟩, []⟩ [] :=
    ⟨⟨rfl, rfl⟩, by rw [Nat.div_eq_of_lt hn]; rfl⟩
  -- the bits 8192 to 256 send runs of 256 and keep the 256-byte header
  obtain ⟨h1, l1⟩ := h0.bitChunks (b := 8192) rfl (hbit 13 (by decide)) (by decide) hsrc
  obtain ⟨h2, l2⟩ := h1.bitChunks (b := 4096) l1 (hbit 12 (by decide)) (by decide) hsrc
  obtain ⟨h3, l3⟩ := h2.bitChunks (b := 2048) l2 (hbit 11 (by decide)) (by decide) hsrc
  obtain ⟨h4, l4⟩ := h3.bitChunks (b := 1024) l3 (hbit 10 (by decide)) (by decide) hsrc
  obtain ⟨h5, l5⟩ := h4.bitChunks (b := 512) l4 (hbit 9 (by decide)) (by decide) hsrc
  obtain ⟨h6, -⟩ := h5.bitChunks (b := 256) l5 (hbit 8 (by decide)) (by decide) hsrc
  -- the bits 128 to 4 send one run each
  have h7 := h6.bit (b := 128) (hbit 7 (by decide)) (by decide) hsrc
  have h8 := h7.bit (b := 64) (hbit 6 (by decide)) (by decide) hsrc
  have h9 := h8.bit (b := 32) (hbit 5 (by decide)) (by decide) hsrc
  have h10 := h9.bit (b := 16) (hbit 4 (by decide)) (by decide) hsrc
  have h11 := h10.bit (b := 8) (hbit 3 (by decide)) (by decide) hsrc
  have h12 := h11.bit (b := 4) (hbit 2 (by decide)) (by decide) hsrc
  have hout := h12.out_lastBits len (by rw [h12.sum, Nat.div_add_mod']; exact hsrc)
  convert hout using 2
  · rfl
  -- merge the runs of 256 of the six chunked bits
  · simp only [List.nil_append, List.replicate_append_replicate, Nat.reduceDiv, Nat.one_mul,
      chunk_counts hn]
    rfl

end DataChannel

end OtelEbpf
