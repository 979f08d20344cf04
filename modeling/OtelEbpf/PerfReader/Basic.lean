import Mathlib.Data.Finset.Card
import OtelEbpf.Lib.Heap
import OtelEbpf.PerfRing.Records

/-!
# The perf reader

`collector/kernel/perf_reader.cc` merges the per-CPU perf rings of a `PerfContainer` into one
stream ordered by timestamp.  The container keeps, across reader sessions, a heap `entries_`
of `(timestamp, reader_index)` pairs with one entry per non-empty ring, and a bitset
`readers_in_entries_` of the rings that have one.  A `PerfReader` is one session: its
constructor starts a read batch on every ring and adds the rings not yet in the heap, each
pop takes the ring at the root of the heap, pops its record and puts the ring back with the
key of its next record, and `stop` finishes the read batches.

The rings are seen record by record (`RecordRing`).  The heap is `std::push_heap` and
`std::pop_heap` on `entries_` with `PerfEntry::operator<` (`Lib.Heap`); the bitset is the set
of its bits.
-/

namespace OtelEbpf

open PerfRing

/-- `BPF_MAX_CPUS`: the most rings a container takes. -/
def BPF_MAX_CPUS : ℕ := 128

/-- `PerfContainer::PerfEntry`. -/
structure PerfEntry where
  timestamp : UInt64
  readerIndex : ℕ
  deriving DecidableEq, Repr

namespace PerfEntry

/-- `PerfEntry::operator<`, reversed so that the root of the heap has the earliest
timestamp. -/
def lt (a b : PerfEntry) : Prop := a.timestamp > b.timestamp

instance : DecidableRel lt := fun a b => inferInstanceAs (Decidable (a.timestamp > b.timestamp))

instance : IsStrictOrder PerfEntry lt where
  irrefl a := UInt64.lt_irrefl a.timestamp
  trans _ _ _ h₁ h₂ := UInt64.lt_trans h₂ h₁

instance : IsOrderConnected PerfEntry lt where
  conn a b c h := by
    simp only [lt, gt_iff_lt, UInt64.lt_iff_toNat_lt] at h ⊢
    omega

theorem not_lt_iff {a b : PerfEntry} : ¬ lt a b ↔ a.timestamp ≤ b.timestamp := by
  simp [lt]

end PerfEntry

/-- `PerfContainer`: the control rings `readers_` and the data rings `data_readers_`, the heap
`entries_[0, n_entries_)` and the bitset `readers_in_entries_`. -/
structure PerfContainer where
  readers : List RecordRing
  dataReaders : List RecordRing
  entries : ℕ → PerfEntry
  nEntries : ℕ
  readersInEntries : Finset ℕ

namespace PerfContainer

/-- `PerfContainer::PerfContainer`: no rings; `entries_` is not initialised. -/
def new (entries : ℕ → PerfEntry) : PerfContainer := ⟨[], [], entries, 0, ∅⟩

/-- `PerfContainer::add_ring`. -/
def addRing (c : PerfContainer) (pr : RecordRing) : Except CppException PerfContainer :=
  if c.readers.length ≥ BPF_MAX_CPUS then
    .error (.runtimeError "Only up to 128 cpus are currently supported")
  else .ok { c with readers := c.readers ++ [pr] }

/-- `PerfContainer::add_data_ring`. -/
def addDataRing (c : PerfContainer) (pr : RecordRing) : Except CppException PerfContainer :=
  if c.dataReaders.length ≥ BPF_MAX_CPUS then
    .error (.runtimeError "Only up to 128 cpus are currently supported")
  else .ok { c with dataReaders := c.dataReaders ++ [pr] }

end PerfContainer

/-- `PerfReader`: a session over a container, with the largest timestamp it hands out. -/
structure PerfReader where
  container : PerfContainer
  maxTimestamp : UInt64
  active : Bool

namespace PerfReader

/-- `PerfReader::update_when_not_in_entries`: put ring `idx` in the heap, keyed by its next
record, unless it is empty. -/
def updateWhenNotInEntries (c : PerfContainer) (idx : ℕ) : PerfContainer :=
  let reader := c.readers.getD idx default
  -- if the reader is empty, no need to add it
  if reader.peekSize = -ENOENT then c
  else
    -- `PERF_RECORD_LOST` is inserted as the minimum timestamp so it comes out first
    let timestamp : UInt64 :=
      if reader.peekType = PERF_RECORD_SAMPLE then reader.peekAlignedU64 8 else 0
    { c with
      entries := Heap.pushHeap PerfEntry.lt (Function.update c.entries c.nEntries ⟨timestamp, idx⟩)
        (c.nEntries + 1)
      nEntries := c.nEntries + 1
      readersInEntries := insert idx c.readersInEntries }

/-- `PerfReader::update_after_pop`: take the root's ring out of the heap, then put it back
keyed by its next record. -/
def updateAfterPop (c : PerfContainer) : PerfContainer :=
  let idx := (c.entries 0).readerIndex
  updateWhenNotInEntries
    { c with
      entries := Heap.popHeap PerfEntry.lt c.entries c.nEntries
      nEntries := c.nEntries - 1
      readersInEntries := c.readersInEntries.erase idx } idx

/-- One turn of the constructor's loop: start read batches on ring `i` and its data ring, and
add ring `i` to the heap unless it is there already. -/
def startRing (c : PerfContainer) (i : ℕ) : PerfContainer :=
  let c := { c with
    readers := c.readers.modify i RecordRing.startReadBatch
    dataReaders := c.dataReaders.modify i RecordRing.startReadBatch }
  -- if the reader is already in `container.entries_`, continue
  if i ∈ c.readersInEntries then c else updateWhenNotInEntries c i

/-- `PerfReader::PerfReader`. -/
def new (c : PerfContainer) (maxTimestamp : UInt64) : PerfReader :=
  ⟨(List.range c.readers.length).foldl startRing c, maxTimestamp, true⟩

/-- `PerfReader::empty`: nothing left, or nothing with a timestamp this session takes. -/
def empty (r : PerfReader) : Bool :=
  r.container.nEntries = 0 || (r.container.entries 0).timestamp > r.maxTimestamp

/-- The index of the ring at the root of the heap. -/
def topIndex (r : PerfReader) : ℕ := (r.container.entries 0).readerIndex

/-- `PerfReader::top`. -/
def top (r : PerfReader) : RecordRing := r.container.readers.getD r.topIndex default

/-- `PerfReader::pop`: pop the top ring's record and update the heap. -/
def pop (r : PerfReader) : PerfReader :=
  { r with
    container := updateAfterPop
      { r.container with readers := r.container.readers.modify r.topIndex RecordRing.pop } }

/-- `PerfReader::pop_and_copy_to`: the sample's message, after the `u64` of its lengths, then
pop. -/
def popAndCopyTo (r : PerfReader) : List UInt8 × PerfReader :=
  -- get unpadded length
  let unpadded := r.top.peekAlignedU32 4
  (r.top.peekCopy 8 unpadded.toUInt16, r.pop)

/-- `PerfReader::pop_unpadded_and_copy_to`: the whole payload, then pop. -/
def popUnpaddedAndCopyTo (r : PerfReader) : List UInt8 × PerfReader :=
  -- get length, `int` to `u32`
  let length : UInt32 := Int.toNat (r.top.peekSize % 2 ^ 32) |> UInt32.ofNat
  (r.top.peekCopy 0 length.toUInt16, r.pop)

/-- `PerfReader::stop`: finish the read batches, once. -/
def stop (r : PerfReader) : PerfReader :=
  if !r.active then r
  else
    { container := { r.container with
        readers := r.container.readers.map RecordRing.finishReadBatch
        dataReaders := r.container.dataReaders.map RecordRing.finishReadBatch }
      maxTimestamp := r.maxTimestamp
      active := false }

end PerfReader

end OtelEbpf
