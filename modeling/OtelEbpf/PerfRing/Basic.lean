import OtelEbpf.Lib.Bytes
import OtelEbpf.Lib.Word
import OtelEbpf.Platform

/-!
# The perf ring

`util/perf_ring.c` reads (and, for tests, writes) the ring buffer the kernel fills for a
`perf_event`: a `perf_event_mmap_page` whose `data_head` the writer publishes and whose
`data_tail` the reader publishes, followed by a data buffer of `buf_len` bytes, a power of
two.  A record is an 8-byte `perf_event_header` (`u32 type`, `u16 misc`, `u16 size`) and a
payload; `size` counts the header and is a multiple of 8, so a header never crosses the end
of the buffer, while a payload may.

`util/perf_ring_cpp.h` wraps it in the class `PerfRing`, whose `write` copies a string into the
ring in one or two `memcpy`s and whose `read` copies the next payload out.

The data buffer is a byte memory `data : ℕ → UInt8` indexed by offset; the header fields are
little-endian.  Functions return the C `int` they return as an integer, the new struct and
memory, and what they store through out-pointers.  The `NULL` checks and the `assert`s have
no counterpart.
-/

namespace OtelEbpf

open Bytes

/-- The fields of `struct perf_event_mmap_page` the ring uses. -/
structure PerfEventMmapPage where
  dataHead : UInt64
  dataTail : UInt64
  deriving DecidableEq, Repr

/-- `struct perf_ring`: the mask of the data buffer and one side's head and tail. -/
structure PerfRing where
  bufMask : UInt32
  bufHead : UInt32
  bufTail : UInt32
  deriving DecidableEq, Repr

namespace PerfRing

/-- `pr_init_contig`: the buffer has `n_pages * page_size` bytes, which must be a power of two
of at least 8; the mask is truncated to 32 bits. -/
def prInitContig (page : PerfEventMmapPage) (nPages : UInt32) (pageSize : UInt64) :
    Except ℤ PerfRing :=
  let bufLen : UInt64 := nPages.toUInt64 * pageSize
  if bufLen &&& (bufLen - 1) ≠ 0 ∨ bufLen < 8 then .error (-EINVAL)
  else .ok
    { bufMask := (bufLen - 1).toUInt32,
      bufHead := page.dataTail.toUInt32, bufTail := page.dataHead.toUInt32 }

/-- `aligned_len`: the size of the record `pr_write` reserves for `len` payload bytes, the
header included, rounded up to a multiple of 8. -/
def alignedLen (len : UInt16) : UInt32 := (len.toUInt32 + 8 + 7) &&& ~~~7

/-- `header->size = size; header->type = type;` for the header at offset `p`. -/
def storeHeader (data : ℕ → UInt8) (p size type : ℕ) : ℕ → UInt8 :=
  storeLE (storeLE data (p + 6) 2 size) p 4 type

/-- `pr_write`: reserve a record of `len` payload bytes and write its header.  Returns the
offset of the payload, `-EINVAL` or `-ENOSPC`. -/
def prWrite (eq : PerfRing) (data : ℕ → UInt8) (len : UInt16) (type : UInt32) :
    ℤ × PerfRing × (ℕ → UInt8) :=
  if alignedLen len > eq.bufMask then (-EINVAL, eq, data)
  else if alignedLen len ≥ 65536 then (-EINVAL, eq, data)
  -- is there enough space in the eq?
  else if eq.bufTail + alignedLen len - eq.bufHead > eq.bufMask + 1 then (-ENOSPC, eq, data)
  else
    (signed32 ((eq.bufTail + 8) &&& eq.bufMask), { eq with bufTail := eq.bufTail + alignedLen len },
      storeHeader data (eq.bufTail &&& eq.bufMask).toNat (alignedLen len).toNat type.toNat)

/-- The `size` field of the header at the reader's head. -/
def headSize (eq : PerfRing) (data : ℕ → UInt8) : ℕ :=
  loadLE data ((eq.bufHead &&& eq.bufMask).toNat + 6) 2

/-- `pr_peek_size`: the payload size of the next record, or `-ENOENT`. -/
def prPeekSize (eq : PerfRing) (data : ℕ → UInt8) : ℤ :=
  if eq.bufTail = eq.bufHead then -ENOENT else (headSize eq data : ℤ) - 8

/-- `pr_peek_type`: the type of the next record. -/
def prPeekType (eq : PerfRing) (data : ℕ → UInt8) : UInt32 :=
  UInt32.ofNat (loadLE data (eq.bufHead &&& eq.bufMask).toNat 4)

/-- `pr_peek_aligned_u64`: the `u64` at `offset` in the next record's payload. -/
def prPeekAlignedU64 (eq : PerfRing) (data : ℕ → UInt8) (offset : UInt16) : UInt64 :=
  UInt64.ofNat (loadLE data ((eq.bufHead + 8 + offset.toUInt32) &&& eq.bufMask).toNat 8)

/-- `pr_peek_aligned_u32`: the `u32` at `offset` in the next record's payload. -/
def prPeekAlignedU32 (eq : PerfRing) (data : ℕ → UInt8) (offset : UInt16) : UInt32 :=
  UInt32.ofNat (loadLE data ((eq.bufHead + 8 + offset.toUInt32) &&& eq.bufMask).toNat 4)

/-- `pr_peek_copy`: the `len` payload bytes of the next record from `offset`, copied in two
pieces when they wrap around the end of the buffer. -/
def prPeekCopy (eq : PerfRing) (data : ℕ → UInt8) (offset len : UInt16) : List UInt8 :=
  if len = 0 then []
  else
    let beginHead := eq.bufHead + 8 + offset.toUInt32
    let start := beginHead &&& eq.bufMask
    let stop := (beginHead + len.toUInt32 - 1) &&& eq.bufMask
    if stop < start then
      -- wraps around
      copyOut data start.toNat (eq.bufMask + 1 - start).toNat ++ copyOut data 0 (stop.toNat + 1)
    else copyOut data start.toNat len.toNat

/-- `pr_peek`: the two views of the next sample's data (after the `u64` that holds its two
lengths), whose length is the `u32` at payload offset 4.  The view lengths are `u16`. -/
def prPeek (eq : PerfRing) (data : ℕ → UInt8) : List UInt8 × List UInt8 :=
  let unpaddedLen := prPeekAlignedU32 eq data 4
  let beginHead := eq.bufHead + 8 + 8
  let start := beginHead &&& eq.bufMask
  let stop := (beginHead + unpaddedLen - 1) &&& eq.bufMask
  if unpaddedLen = 0 then ([], [])
  else if stop < start then
    -- wraps around
    (copyOut data start.toNat (eq.bufMask + 1 - start).toUInt16.toNat,
      copyOut data 0 (stop + 1).toUInt16.toNat)
  else (copyOut data start.toNat unpaddedLen.toUInt16.toNat, [])

/-- `pr_read`: consume the next record.  Returns the offset of its payload (or `-EAGAIN`),
the payload size stored through `lenp`, and the struct afterwards. -/
def prRead (eq : PerfRing) (data : ℕ → UInt8) : ℤ × Option UInt16 × PerfRing :=
  if eq.bufTail = eq.bufHead then (-EAGAIN, none, eq)
  else
    let size := headSize eq data
    -- `*lenp = header->size - sizeof(struct perf_event_header); eq->buf_head += header->size;`
    (signed32 ((eq.bufHead + 8) &&& eq.bufMask), some (UInt16.ofNat size - 8),
      { eq with bufHead := eq.bufHead + UInt32.ofNat size })

/-- `pr_bytes_remaining`: the bytes between head and tail, from their offsets in the buffer,
and the size of the buffer (stored through `total_size`). -/
def prBytesRemaining (eq : PerfRing) : UInt32 × UInt32 :=
  let bufSize := eq.bufMask + 1
  let start := eq.bufHead &&& eq.bufMask
  let stop := eq.bufTail &&& eq.bufMask
  if stop < start then (bufSize - start + stop, bufSize) else (stop - start, bufSize)

/-- `pr_start_write_batch`. -/
def prStartWriteBatch (eq : PerfRing) (page : PerfEventMmapPage) : PerfRing :=
  { eq with bufHead := page.dataTail.toUInt32 }

/-- `pr_finish_write_batch`. -/
def prFinishWriteBatch (eq : PerfRing) (page : PerfEventMmapPage) : PerfEventMmapPage :=
  { page with dataHead := eq.bufTail.toUInt64 }

/-- `pr_start_read_batch`. -/
def prStartReadBatch (eq : PerfRing) (page : PerfEventMmapPage) : PerfRing :=
  { eq with bufTail := page.dataHead.toUInt32 }

/-- `pr_finish_read_batch`. -/
def prFinishReadBatch (eq : PerfRing) (page : PerfEventMmapPage) : PerfEventMmapPage :=
  { page with dataTail := eq.bufHead.toUInt64 }

/-! ### The C++ class -/

/-- `PerfRing::write`: reserve a record for `elem` (its length passed as the `u16` argument of
`pr_write`) and copy `elem` to the payload, in two pieces when it wraps. -/
def write (eq : PerfRing) (data : ℕ → UInt8) (elem : List UInt8) (type : UInt32) :
    Except CppException (PerfRing × (ℕ → UInt8)) :=
  let (offset, eq', data') := prWrite eq data (UInt16.ofNat elem.length) type
  if offset = -EINVAL then .error (.invalidArgument "pr_write returned -EINVAL")
  else if offset = -ENOSPC then .error (.rangeError "not enough space in element queue")
  else if offset < 0 then .error (.runtimeError "unexpected return value")
  -- if we reached here, can write the element to offset
  else if elem.length = 0 then .ok (eq', data')
  else
    let off := offset.toNat
    -- `(offset + elem.length() - 1) & buf_mask`, in `size_t`
    let stop := (off + elem.length - 1) &&& eq'.bufMask.toNat
    if (stop : ℤ) - offset < 0 then
      -- wraps around
      let lenToRingEnd := (eq'.bufMask + 1 - UInt32.ofNat off).toNat
      .ok (eq', copyIn (copyIn data' off (elem.take lenToRingEnd)) 0
        ((elem.drop lenToRingEnd).take (stop + 1)))
    else .ok (eq', copyIn data' off elem)

/-- `PerfRing::pop`: discard the next record. -/
def pop (eq : PerfRing) (data : ℕ → UInt8) : PerfRing := (prRead eq data).2.2

/-- `PerfRing::peek_type`, returned as an `int`. -/
def peekType (eq : PerfRing) (data : ℕ → UInt8) : ℤ := signed32 (prPeekType eq data)

/-- `PerfRing::read`: copy out the next payload, then pop the record.  A negative size makes
the `std::string` constructor throw. -/
def read (eq : PerfRing) (data : ℕ → UInt8) : Except CppException (List UInt8 × PerfRing) :=
  let size := prPeekSize eq data
  if size = -ENOENT then .error (.outOfRange "queue empty")
  else if size < 0 then .error .lengthError
  else .ok (prPeekCopy eq data 0 (UInt16.ofNat size.toNat), pop eq data)

/-! ### Headers -/

section Header

variable {data : ℕ → UInt8} {p size type i : ℕ}

theorem storeHeader_of_lt (h : i < p) : storeHeader data p size type i = data i := by
  rw [storeHeader, storeLE_of_lt _ h, storeLE_of_lt _ (by omega)]

theorem storeHeader_of_le (h : p + 8 ≤ i) : storeHeader data p size type i = data i := by
  rw [storeHeader, storeLE_of_le _ (by omega), storeLE_of_le _ (by omega)]

/-- The `size` field reads back, as a `u16`. -/
theorem loadLE_storeHeader_size :
    loadLE (storeHeader data p size type) (p + 6) 2 = size % 65536 := by
  -- the `type` store covers `[p, p + 4)`, below the `size` field
  have h : loadLE (storeHeader data p size type) (p + 6) 2 =
      loadLE (storeLE data (p + 6) 2 size) (p + 6) 2 :=
    loadLE_congr fun i hi _ => storeLE_of_le _ (by omega)
  have h65536 : (65536 : ℕ) = 256 ^ 2 := by decide
  rw [h, loadLE_storeLE, h65536]

end Header

section Write

variable {eq : PerfRing} {data : ℕ → UInt8} {len : UInt16} {type : UInt32}

/-- The record size `pr_write` reserves: the payload and the header rounded up to 8 bytes. -/
theorem toNat_alignedLen (len : UInt16) : (alignedLen len).toNat = (len.toNat + 15) / 8 * 8 := by
  have h : (len.toUInt32 + 8 + 7).toNat = len.toNat + 15 := by
    rw [UInt32.toNat_add, UInt32.toNat_add, UInt16.toNat_toUInt32]
    have := len.toNat_lt
    simp only [UInt32.reduceToNat]
    omega
  rw [alignedLen, Word.toNat_and_not_seven, h]

/-- `pr_write` succeeds when the record is smaller than the buffer and than `2^16` and the
free space holds it. -/
theorem prWrite_of_fits (h₁ : alignedLen len ≤ eq.bufMask) (h₂ : alignedLen len < 65536)
    (h₃ : eq.bufTail + alignedLen len - eq.bufHead ≤ eq.bufMask + 1) :
    prWrite eq data len type = (signed32 ((eq.bufTail + 8) &&& eq.bufMask),
      { eq with bufTail := eq.bufTail + alignedLen len },
      storeHeader data (eq.bufTail &&& eq.bufMask).toNat (alignedLen len).toNat type.toNat) := by
  simp only [prWrite, UInt32.not_lt.2 h₁, UInt32.not_le.2 h₂, UInt32.not_lt.2 h₃, if_false]

/-- `PerfRing::write` passes the length to `pr_write` as a `u16`: an element of `2^16` bytes
is announced as an empty one, and all its bytes are copied after the 8 bytes reserved. -/
theorem write_of_length_eq_65536 {elem : List UInt8} (hlen : elem.length = 65536) :
    write ⟨131071, 0, 0⟩ (fun _ => 0) elem PERF_RECORD_SAMPLE =
      .ok (⟨131071, 0, 8⟩, copyIn (storeHeader (fun _ => 0) 0 8 9) 8 elem) := by
  have hw : prWrite ⟨131071, 0, 0⟩ (fun _ => 0) (UInt16.ofNat elem.length) PERF_RECORD_SAMPLE =
      (8, ⟨131071, 0, 8⟩, storeHeader (fun _ => 0) 0 8 9) := by
    rw [hlen, prWrite_of_fits (by decide) (by decide) (by decide)]
    rfl
  -- the copy ends at offset `65543`, before the end of the buffer: one `memcpy`
  have hstop : (((8 : ℤ).toNat + elem.length - 1) &&& (131071 : UInt32).toNat : ℤ) - 8 = 65535 := by
    rw [hlen]
    rfl
  simp only [write, hw, hstop]
  rw [if_neg (by decide), if_neg (by decide), if_neg (by decide), if_neg (by omega),
    if_neg (by decide)]
  rfl

end Write

section Read

variable {eq : PerfRing} {data : ℕ → UInt8}

/-- `pr_read` on an empty ring. -/
theorem prRead_of_eq (h : eq.bufTail = eq.bufHead) : prRead eq data = (-EAGAIN, none, eq) := by
  simp [prRead, h]

/-- `pr_read` on a ring with a record moves the head past it, by the size its header gives. -/
theorem prRead_of_ne (h : eq.bufTail ≠ eq.bufHead) :
    prRead eq data = (signed32 ((eq.bufHead + 8) &&& eq.bufMask),
      some (UInt16.ofNat (headSize eq data) - 8),
      { eq with bufHead := eq.bufHead + UInt32.ofNat (headSize eq data) }) := by
  simp [prRead, h]

end Read

/-- Reading back a 65536-byte element written to a fresh ring of `2^17` bytes gives the empty
string. -/
theorem read_after_write_of_length_65536 :
    prInitContig ⟨0, 0⟩ 32 4096 = .ok ⟨131071, 0, 0⟩ ∧
      prStartWriteBatch ⟨131071, 0, 0⟩ ⟨0, 0⟩ = ⟨131071, 0, 0⟩ ∧
      write ⟨131071, 0, 0⟩ (fun _ => 0) (List.replicate 65536 0) PERF_RECORD_SAMPLE =
        .ok (⟨131071, 0, 8⟩, copyIn (storeHeader (fun _ => 0) 0 8 9) 8 (List.replicate 65536 0)) ∧
      prFinishWriteBatch ⟨131071, 0, 8⟩ ⟨0, 0⟩ = ⟨8, 0⟩ ∧
      prStartReadBatch ⟨131071, 0, 0⟩ ⟨8, 0⟩ = ⟨131071, 0, 8⟩ ∧
      read ⟨131071, 0, 8⟩ (copyIn (storeHeader (fun _ => 0) 0 8 9) 8 (List.replicate 65536 0)) =
        .ok ([], ⟨131071, 8, 8⟩) := by
  -- the header's `size` field is below the copied bytes, and says 8: an empty payload
  have hsize : headSize ⟨131071, 0, 8⟩
      (copyIn (storeHeader (fun _ => 0) 0 8 9) 8 (List.replicate 65536 0)) = 8 := by
    calc headSize ⟨131071, 0, 8⟩
          (copyIn (storeHeader (fun _ => 0) 0 8 9) 8 (List.replicate 65536 0))
        _ = loadLE (copyIn (storeHeader (fun _ => 0) 0 8 9) 8 (List.replicate 65536 0)) (0 + 6) 2 :=
          rfl
        _ = loadLE (storeHeader (fun _ => 0) 0 8 9) (0 + 6) 2 :=
          loadLE_congr fun i _ hi => copyIn_of_lt _ (by omega)
        _ = 8 := loadLE_storeHeader_size
  refine ⟨by decide, rfl, write_of_length_eq_65536 List.length_replicate, rfl, rfl, ?_⟩
  simp only [read, prPeekSize, pop, prRead, hsize]
  rfl

end PerfRing

end OtelEbpf
