import OtelEbpf.PerfRing.Basic

/-!
# A perf ring as a queue of records

Above the bytes, a perf ring is a queue of records.  Its reader sees the records between its
`buf_head` and `buf_tail` (`visible`); those the kernel has published since the reader's last
`pr_start_read_batch` (`pending`) become visible at the next one.  The reader's calls act on the
first visible record: `peek_size` is its payload size, `peek_type` its type,
`peek_aligned_u64(offset)` the `u64` at that payload offset, `pop` removes it.

The calls that `assert` a record is there read nothing sensible on an empty ring; here they
return 0.
-/

namespace OtelEbpf

namespace PerfRing

/-- A record: the type in its header, and its payload (`size - 8` bytes). -/
structure PerfRecord where
  type : UInt32
  payload : List UInt8
  deriving DecidableEq, Repr

namespace PerfRecord

/-- The `u64` at payload offset 8: a sample's timestamp. -/
def timestamp (r : PerfRecord) : UInt64 :=
  UInt64.ofNat (Bytes.leValue ((r.payload.drop 8).take 8))

/-- The key records are merged by: a sample's timestamp, 0 for the other records. -/
def key (r : PerfRecord) : UInt64 := if r.type = PERF_RECORD_SAMPLE then r.timestamp else 0

end PerfRecord

/-- A perf ring, record by record: what its reader sees and what the kernel has published
after that. -/
structure RecordRing where
  visible : List PerfRecord
  pending : List PerfRecord
  deriving DecidableEq, Repr, Inhabited

namespace RecordRing

/-- The kernel appends a record and publishes it. -/
def write (r : RecordRing) (x : PerfRecord) : RecordRing := ⟨r.visible, r.pending ++ [x]⟩

/-- `PerfRing::start_read_batch`: see what the kernel has published. -/
def startReadBatch (r : RecordRing) : RecordRing := ⟨r.visible ++ r.pending, []⟩

/-- `PerfRing::finish_read_batch`: release what was read, which changes no record. -/
def finishReadBatch (r : RecordRing) : RecordRing := r

/-- `PerfRing::peek_size`. -/
def peekSize (r : RecordRing) : ℤ :=
  match r.visible with
  | [] => -ENOENT
  | x :: _ => x.payload.length

/-- `PerfRing::peek_type`. -/
def peekType (r : RecordRing) : UInt32 :=
  match r.visible with
  | [] => 0
  | x :: _ => x.type

/-- `PerfRing::peek_aligned_u64`. -/
def peekAlignedU64 (r : RecordRing) (offset : UInt16) : UInt64 :=
  match r.visible with
  | [] => 0
  | x :: _ => UInt64.ofNat (Bytes.leValue ((x.payload.drop offset.toNat).take 8))

/-- `PerfRing::peek_aligned_u32`. -/
def peekAlignedU32 (r : RecordRing) (offset : UInt16) : UInt32 :=
  match r.visible with
  | [] => 0
  | x :: _ => UInt32.ofNat (Bytes.leValue ((x.payload.drop offset.toNat).take 4))

/-- `PerfRing::peek_copy`: `len` payload bytes from `offset`. -/
def peekCopy (r : RecordRing) (offset len : UInt16) : List UInt8 :=
  match r.visible with
  | [] => []
  | x :: _ => (x.payload.drop offset.toNat).take len.toNat

/-- `PerfRing::pop`. -/
def pop (r : RecordRing) : RecordRing := ⟨r.visible.tail, r.pending⟩

/-- The merge key `PerfReader` reads off the first record, as `update_when_not_in_entries`
computes it. -/
theorem key_eq {r : RecordRing} {x : PerfRecord} {xs : List PerfRecord} (h : r.visible = x :: xs) :
    (if r.peekType = PERF_RECORD_SAMPLE then r.peekAlignedU64 8 else 0) = x.key := by
  simp [peekType, peekAlignedU64, h, PerfRecord.key, PerfRecord.timestamp]

theorem peekSize_eq_iff {r : RecordRing} : r.peekSize = -ENOENT ↔ r.visible = [] := by
  unfold peekSize
  split <;> simp_all [ENOENT]

/-- A reader that sees a record and pops it sees one record fewer: the measure of the loops that
drain a ring. -/
theorem length_pop_lt {r : RecordRing} (h : ¬ r.peekSize = -ENOENT) :
    r.pop.visible.length < r.visible.length := by
  rw [peekSize_eq_iff] at h
  obtain ⟨x, xs, hv⟩ := List.exists_cons_of_ne_nil h
  simp [pop, hv]

/-- A record still visible after a `pop` was visible before it. -/
theorem mem_of_mem_pop {r : RecordRing} {x : PerfRecord} (h : x ∈ r.pop.visible) : x ∈ r.visible :=
  List.mem_of_mem_tail h

section Cons

variable {x : PerfRecord} {xs pending : List PerfRecord}

@[simp] theorem peekSize_cons : peekSize ⟨x :: xs, pending⟩ = x.payload.length := rfl
@[simp] theorem peekType_cons : peekType ⟨x :: xs, pending⟩ = x.type := rfl
@[simp] theorem peekAlignedU64_cons (offset : UInt16) :
    peekAlignedU64 ⟨x :: xs, pending⟩ offset =
      UInt64.ofNat (Bytes.leValue ((x.payload.drop offset.toNat).take 8)) := rfl
@[simp] theorem peekCopy_cons (offset len : UInt16) :
    peekCopy ⟨x :: xs, pending⟩ offset len = (x.payload.drop offset.toNat).take len.toNat := rfl
@[simp] theorem pop_cons : pop ⟨x :: xs, pending⟩ = ⟨xs, pending⟩ := rfl

end Cons

end RecordRing

end PerfRing

end OtelEbpf
