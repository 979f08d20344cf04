import OtelEbpf.Lib.Run
import OtelEbpf.PerfReader.Basic

/-!
# The perf reader merges the rings

The container's state is consistent (`Inv`) when `n_entries_` is the number of bits of
`readers_in_entries_`, the entries name distinct rings whose bits are set, a bit is set
exactly when its ring has a record to read, each entry's timestamp is the key of its ring's
next record, and `entries_[0, n_entries_)` is a heap with the earliest timestamp at the root.

Every operation keeps `Inv`: the constructor's loop turn by turn (`inv_startRing`), a pop
(`inv_pop`), `stop`, and the kernel appending a record.  From it, in any run in which the
kernel writes every ring in key order (`merge_of_run`):

* what the kernel wrote to a ring is what was handed out from it followed by what is still in
  it: no record is lost, duplicated or reordered;
* the record a pop hands out is the next record of a ring, and its key is the least of all
  the rings' next records;
* the records handed out in a session come in key order;
* when `empty()` holds, every ring's next record is later than the session's bound.
-/

namespace OtelEbpf

namespace PerfReader

open PerfRing

/-! ### The next record of each ring -/

/-- The next record the reader of ring `i` sees. -/
def headAt (rs : List RecordRing) (i : ℕ) : Option PerfRecord :=
  rs[i]?.bind fun r => r.visible.head?

section Heads

variable {rs : List RecordRing} {i j : ℕ} {f : RecordRing → RecordRing} {x : PerfRecord}

theorem headAt_modify_of_ne (h : i ≠ j) : headAt (rs.modify i f) j = headAt rs j := by
  simp [headAt, h]

theorem headAt_modify_self :
    headAt (rs.modify i f) i = rs[i]?.bind fun r => (f r).visible.head? := by
  simp only [headAt, List.getElem?_modify, if_pos]
  cases rs[i]? <;> rfl

/-- A change to a ring that keeps what its reader sees keeps every next record. -/
theorem headAt_modify_of_visible (hf : ∀ r : RecordRing, (f r).visible = r.visible) :
    headAt (rs.modify i f) j = headAt rs j := by
  by_cases hij : i = j
  · subst hij
    rw [headAt_modify_self]
    simp only [headAt, hf]
  · exact headAt_modify_of_ne hij

/-- A change to ring `i` that keeps its next record when it has one. -/
theorem headAt_modify_of_isSome
    (hf : ∀ r : RecordRing, r.visible ≠ [] → (f r).visible.head? = r.visible.head?)
    (h : (headAt rs i).isSome) : headAt (rs.modify i f) j = headAt rs j := by
  by_cases hij : i = j
  · subst hij
    rw [headAt_modify_self]
    simp only [headAt] at h ⊢
    cases hi : rs[i]? with
    | none => rfl
    | some r =>
      simp only [hi] at h ⊢
      exact hf r (by cases hv : r.visible <;> simp_all)
  · exact headAt_modify_of_ne hij

/-- The ring the reader reads is the one at its index, when that ring has a record. -/
theorem getD_head (h : headAt rs i = some x) : (rs.getD i default).visible.head? = some x := by
  simp only [headAt] at h
  cases hi : rs[i]? with
  | none => simp [hi] at h
  | some r =>
    rw [List.getD_eq_getElem?_getD, hi]
    simpa [hi] using h

theorem getD_head_none (h : headAt rs i = none) : (rs.getD i default).visible = [] := by
  simp only [headAt] at h
  rw [List.getD_eq_getElem?_getD]
  cases hi : rs[i]? with
  | none => rfl
  | some r => simpa [hi] using h

end Heads

/-! ### The heap and the bitset -/

/-- The entries and the bitset agree with each other and with the rings: `n` entries, one for
each set bit, naming distinct rings, each keyed by its ring's next record. -/
structure Agree (rs : List RecordRing) (e : ℕ → PerfEntry) (n : ℕ) (bits : Finset ℕ) :
    Prop where
  count : n = bits.card
  mem_bits : ∀ j < n, (e j).readerIndex ∈ bits
  inj : ∀ j < n, ∀ k < n, (e j).readerIndex = (e k).readerIndex → j = k
  entry_of_mem : ∀ i ∈ bits, ∃ j < n, (e j).readerIndex = i
  key : ∀ j < n, ∃ x, headAt rs (e j).readerIndex = some x ∧ (e j).timestamp = x.key

/-- ... and the entries form a heap with the earliest timestamp at the root. -/
structure Heaped (rs : List RecordRing) (e : ℕ → PerfEntry) (n : ℕ) (bits : Finset ℕ) : Prop
    extends Agree rs e n bits where
  heap : Heap.IsHeap PerfEntry.lt e n

namespace Agree

variable {rs q : List RecordRing} {e : ℕ → PerfEntry} {n : ℕ} {bits : Finset ℕ}

/-- Only the next records of the rings in the heap matter. -/
theorem congr (h : Agree rs e n bits) (hr : ∀ i ∈ bits, headAt q i = headAt rs i) :
    Agree q e n bits where
  count := h.count
  mem_bits := h.mem_bits
  inj := h.inj
  entry_of_mem := h.entry_of_mem
  key j hj := by
    rw [hr _ (h.mem_bits j hj)]
    exact h.key j hj

/-- Rearranging the entries keeps the agreement. -/
theorem perm {e' : ℕ → PerfEntry} (h : Agree rs e n bits) (hp : Heap.PermBelow n e' e) :
    Agree rs e' n bits where
  count := h.count
  mem_bits j hj := by
    obtain ⟨k, hk, he⟩ := hp.exists_of_lt hj
    rw [he]
    exact h.mem_bits k hk
  inj := hp.injOn h.inj
  entry_of_mem i hi := by
    obtain ⟨k, hk, rfl⟩ := h.entry_of_mem i hi
    obtain ⟨j, hj, he⟩ := hp.exists_eq hk
    exact ⟨j, hj, by rw [he]⟩
  key j hj := by
    obtain ⟨k, hk, he⟩ := hp.exists_of_lt hj
    rw [he]
    exact h.key k hk

/-- Adding an entry for a ring that has none, keyed by its next record. -/
theorem push {k : ℕ} {x : PerfRecord} (h : Agree rs e n bits) (hk : k ∉ bits)
    (hx : headAt rs k = some x) :
    Agree rs (Function.update e n ⟨x.key, k⟩) (n + 1) (insert k bits) where
  count := by rw [Finset.card_insert_of_notMem hk, h.count]
  mem_bits j hj := by
    rcases Nat.lt_succ_iff_lt_or_eq.1 hj with hj | rfl
    · rw [Function.update_of_ne (by omega)]
      exact Finset.mem_insert_of_mem (h.mem_bits j hj)
    · simp
  inj j hj j' hj' hjj := by
    -- the old entries name rings with a bit set, the new one a ring without
    have hne : ∀ i < n, (e i).readerIndex ≠ k := fun i hi he => hk (he ▸ h.mem_bits i hi)
    rcases Nat.lt_succ_iff_lt_or_eq.1 hj with hj | rfl <;>
      rcases Nat.lt_succ_iff_lt_or_eq.1 hj' with hj' | rfl
    · rw [Function.update_of_ne (by omega), Function.update_of_ne (by omega)] at hjj
      exact h.inj j hj j' hj' hjj
    · rw [Function.update_of_ne (by omega), Function.update_self] at hjj
      exact absurd hjj (hne j hj)
    · rw [Function.update_self, Function.update_of_ne (by omega)] at hjj
      exact absurd hjj.symm (hne j' hj')
    · rfl
  entry_of_mem i hi := by
    rcases Finset.mem_insert.1 hi with rfl | hi
    · exact ⟨n, by omega, by simp⟩
    · obtain ⟨j, hj, he⟩ := h.entry_of_mem i hi
      exact ⟨j, by omega, by rw [Function.update_of_ne (by omega), he]⟩
  key j hj := by
    rcases Nat.lt_succ_iff_lt_or_eq.1 hj with hj | rfl
    · rw [Function.update_of_ne (by omega)]
      exact h.key j hj
    · exact ⟨x, by simpa using hx, by simp⟩

/-- Taking out the root's entry, moved to the last cell by `std::pop_heap`, and clearing its
ring's bit. -/
theorem pop {m : ℕ} (h : Agree rs e (m + 1) bits)
    (hr : ∀ i, i ≠ (e 0).readerIndex → headAt q i = headAt rs i) :
    Agree q (Heap.popHeap PerfEntry.lt e (m + 1)) m (bits.erase (e 0).readerIndex) := by
  have hp := h.perm (Heap.popHeap_perm (r := PerfEntry.lt) (a := e) (n := m))
  set e' := Heap.popHeap PerfEntry.lt e (m + 1)
  have hlast : e' m = e 0 := Heap.popHeap_last
  -- the entries left name other rings than the root's
  have hne : ∀ j < m, (e' j).readerIndex ≠ (e 0).readerIndex := by
    intro j hj he
    rw [← hlast] at he
    exact absurd (hp.inj j (by omega) m (by omega) he) (by omega)
  exact
    { count := by
        rw [Finset.card_erase_of_mem (hlast ▸ hp.mem_bits m (by omega)), ← h.count]
        rfl
      mem_bits := fun j hj => Finset.mem_erase.2 ⟨hne j hj, hp.mem_bits j (by omega)⟩
      inj := fun j hj j' hj' => hp.inj j (by omega) j' (by omega)
      entry_of_mem := fun i hi => by
        obtain ⟨hik, hi⟩ := Finset.mem_erase.1 hi
        obtain ⟨j, hj, rfl⟩ := hp.entry_of_mem i hi
        rcases Nat.lt_succ_iff_lt_or_eq.1 hj with hj | rfl
        · exact ⟨j, hj, rfl⟩
        · exact absurd (by rw [hlast]) hik
      key := fun j hj => by
        rw [hr _ (hne j hj)]
        exact hp.key j (by omega) }

end Agree

/-! ### The container invariant -/

/-- The container's state between two operations: entries and bitset agree and form a heap,
and a ring has a bit set exactly when it has a record to read. -/
structure Inv (c : PerfContainer) : Prop
    extends Heaped c.readers c.entries c.nEntries c.readersInEntries where
  length_le : c.readers.length ≤ BPF_MAX_CPUS
  mem_iff : ∀ i, i ∈ c.readersInEntries ↔ (headAt c.readers i).isSome

section Update

variable {c : PerfContainer} {k : ℕ} {x : PerfRecord}

theorem updateWhenNotInEntries_of_none (hk : headAt c.readers k = none) :
    updateWhenNotInEntries c k = c := by
  have h := getD_head_none hk
  simp only [updateWhenNotInEntries]
  rw [if_pos (RecordRing.peekSize_eq_iff.2 h)]

theorem updateWhenNotInEntries_of_some (hk : headAt c.readers k = some x) :
    updateWhenNotInEntries c k =
      { c with
        entries := Heap.pushHeap PerfEntry.lt (Function.update c.entries c.nEntries ⟨x.key, k⟩)
          (c.nEntries + 1)
        nEntries := c.nEntries + 1
        readersInEntries := insert k c.readersInEntries } := by
  have h := getD_head hk
  obtain ⟨xs, hxs⟩ : ∃ xs, (c.readers.getD k default).visible = x :: xs := by
    cases hv : (c.readers.getD k default).visible with
    | nil =>
      rw [hv] at h
      cases h
    | cons y ys =>
      rw [hv, List.head?_cons, Option.some.injEq] at h
      exact ⟨ys, by rw [h]⟩
  have hne : (c.readers.getD k default).peekSize ≠ -ENOENT := by
    rw [Ne, RecordRing.peekSize_eq_iff, hxs]
    simp
  simp only [updateWhenNotInEntries, if_neg hne, RecordRing.key_eq hxs]

/-- **Putting a ring without an entry back restores the invariant.** The ring `k` may have
a record or not; every other ring is as the invariant says. -/
theorem inv_updateWhenNotInEntries
    (h : Agree c.readers c.entries c.nEntries c.readersInEntries)
    (hheap : Heap.IsHeap PerfEntry.lt c.entries c.nEntries)
    (hlen : c.readers.length ≤ BPF_MAX_CPUS) (hk : k ∉ c.readersInEntries)
    (hmem : ∀ i, i ≠ k → (i ∈ c.readersInEntries ↔ (headAt c.readers i).isSome)) :
    Inv (updateWhenNotInEntries c k) := by
  cases hx : headAt c.readers k with
  | none =>
    -- the ring is empty and stays out of the heap
    rw [updateWhenNotInEntries_of_none hx]
    refine ⟨⟨h, hheap⟩, hlen, fun i => ?_⟩
    by_cases hik : i = k
    · subst hik
      simp [hk, hx]
    · exact hmem i hik
  | some x =>
    rw [updateWhenNotInEntries_of_some hx]
    have hpush := h.push hk hx
    refine ⟨⟨hpush.perm (Heap.pushHeap_perm (by omega)), ?_⟩, hlen, fun i => ?_⟩
    · exact Heap.pushHeap_isHeap (hheap.congr fun i hi => Function.update_of_ne (by omega) _ _)
    · by_cases hik : i = k
      · subst hik
        simp [hx]
      · simp only [Finset.mem_insert, hik, false_or]
        exact hmem i hik

/-- The invariant only sees the rings' next records. -/
theorem Inv.congr_heads {rs ds : List RecordRing} (h : Inv c)
    (hr : ∀ j, headAt rs j = headAt c.readers j) (hlen : rs.length = c.readers.length) :
    Inv { c with readers := rs, dataReaders := ds } where
  toAgree := h.toAgree.congr fun j _ => hr j
  heap := h.heap
  length_le := hlen ▸ h.length_le
  mem_iff j := by
    rw [hr j]
    exact h.mem_iff j

end Update

/-! ### Each operation keeps the invariant -/

section Operations

variable {c : PerfContainer}

/-- A turn of the constructor's loop: a ring in the heap keeps its next record; a ring out of
it is put back if its new batch brought records. -/
theorem inv_startRing (h : Inv c) (i : ℕ) : Inv (startRing c i) := by
  simp only [startRing]
  split
  · -- the ring is in the heap: it had a record, which stays first
    rename_i hi
    refine h.congr_heads (fun j => headAt_modify_of_isSome (fun r hr => ?_) ((h.mem_iff i).1 hi))
      (by simp)
    obtain ⟨y, ys, hv⟩ := List.exists_cons_of_ne_nil hr
    simp [RecordRing.startReadBatch, hv]
  · -- the ring is out of the heap, so it had no record and no entry names it
    rename_i hi
    have hnone : headAt c.readers i = none := by
      simpa [h.mem_iff] using hi
    have hagree := h.toAgree.congr (q := c.readers.modify i RecordRing.startReadBatch)
      fun j hj => headAt_modify_of_ne (by rintro rfl; exact hi hj)
    refine inv_updateWhenNotInEntries hagree h.heap (by simpa using h.length_le) hi ?_
    intro j hji
    rw [headAt_modify_of_ne (Ne.symm hji)]
    exact h.mem_iff j

theorem inv_foldl_startRing (l : List ℕ) (h : Inv c) : Inv (l.foldl startRing c) := by
  induction l generalizing c with
  | nil => exact h
  | cons i l ih => exact ih (inv_startRing h i)

/-- **The constructor keeps the invariant.** -/
theorem inv_new (h : Inv c) (maxTimestamp : UInt64) : Inv (new c maxTimestamp).container :=
  inv_foldl_startRing _ h

/-- **A pop keeps the invariant**: the root's ring loses its record and its entry, and gets a
new entry if it has another record. -/
theorem inv_pop {r : PerfReader} (h : Inv r.container) (hn : r.container.nEntries ≠ 0) :
    Inv r.pop.container := by
  obtain ⟨m, hm⟩ : ∃ m, r.container.nEntries = m + 1 :=
    ⟨_, (Nat.succ_pred_eq_of_ne_zero hn).symm⟩
  set c := r.container
  set k := (c.entries 0).readerIndex
  have h0 : Agree c.readers c.entries (m + 1) c.readersInEntries := by
    rw [← hm]
    exact h.toAgree
  have hheap : Heap.IsHeap PerfEntry.lt c.entries (m + 1) := by
    rw [← hm]
    exact h.heap
  have hagree := h0.pop (q := c.readers.modify k RecordRing.pop)
    fun i hi => headAt_modify_of_ne (Ne.symm hi)
  simp only [pop, updateAfterPop, topIndex]
  rw [hm, Nat.add_sub_cancel]
  refine inv_updateWhenNotInEntries hagree (Heap.popHeap_isHeap hheap)
    (by simpa using h.length_le) (Finset.notMem_erase _ _) fun i hik => ?_
  rw [Finset.mem_erase, headAt_modify_of_ne (Ne.symm hik), ← h.mem_iff i]
  exact and_iff_right hik

/-- **`stop` keeps the invariant**: finishing a read batch changes no record. -/
theorem inv_stop {r : PerfReader} (h : Inv r.container) : Inv r.stop.container := by
  unfold stop
  split
  · exact h
  · have hid : RecordRing.finishReadBatch = id := rfl
    exact h.congr_heads (fun j => by rw [hid, List.map_id]) (by simp)

end Operations


/-! ### What the invariant says about the heap's root -/

section Root

variable {c : PerfContainer}

/-- The root's entry is keyed by its ring's next record. -/
theorem Inv.root_head (h : Inv c) (hn : c.nEntries ≠ 0) :
    ∃ x, headAt c.readers (c.entries 0).readerIndex = some x ∧
      (c.entries 0).timestamp = x.key :=
  h.key 0 (by omega)

/-- **No ring's next record has a key before the root's timestamp.** -/
theorem Inv.root_le_head (h : Inv c) {i : ℕ} {y : PerfRecord} (hy : headAt c.readers i = some y) :
    (c.entries 0).timestamp ≤ y.key := by
  obtain ⟨j, hj, rfl⟩ := h.entry_of_mem i ((h.mem_iff i).2 (by simp [hy]))
  obtain ⟨x, hx, hts⟩ := h.key j hj
  rw [hx, Option.some.injEq] at hy
  rw [← hy, ← hts]
  exact PerfEntry.not_lt_iff.1 (h.heap.root_not_lt hj)

/-- The ring the reader pops from is the root's ring, and its next record is the root's. -/
theorem Inv.top_head {r : PerfReader} (h : Inv r.container) (hn : r.container.nEntries ≠ 0)
    {x : PerfRecord} (hx : r.top.visible.head? = some x) :
    headAt r.container.readers r.topIndex = some x ∧ (r.container.entries 0).timestamp = x.key := by
  obtain ⟨x', hx', hts⟩ := h.root_head hn
  have h' := getD_head hx'
  rw [top, topIndex, h', Option.some.injEq] at hx
  subst hx
  exact ⟨hx', hts⟩

end Root

/-! ### Sessions -/

/-- What happens to the rings and the reader. -/
inductive Event
  /-- the kernel appends a record to ring `i` and publishes it -/
  | write (i : ℕ) (x : PerfRecord)
  /-- a `PerfReader` is constructed, with the largest timestamp it takes -/
  | start (maxTimestamp : UInt64)
  /-- `pop`, `pop_and_copy_to` or `pop_unpadded_and_copy_to` hands out a record of ring `i` -/
  | pop (i : ℕ) (x : PerfRecord)
  /-- `PerfReader::stop`, which the destructor also runs -/
  | stop

/-- The kernel appends a record to ring `i`. -/
def kernelWrite (r : PerfReader) (i : ℕ) (x : PerfRecord) : PerfReader :=
  { r with container := { r.container with readers := r.container.readers.modify i (·.write x) } }

/-- `n` empty rings, added by `add_ring` and `add_data_ring` (which refuse more than
`BPF_MAX_CPUS`), and no live reader. -/
inductive Init (n : ℕ) : PerfReader → Prop
  | mk (entries : ℕ → PerfEntry) (maxTimestamp : UInt64) (hn : n ≤ BPF_MAX_CPUS) :
    Init n ⟨⟨List.replicate n default, List.replicate n default, entries, 0, ∅⟩, maxTimestamp, false⟩

/-- One step: the kernel writes, or the reader side makes a call.  A session is a constructor,
pops while `!empty()`, and `stop`. -/
inductive Step : PerfReader → Event → PerfReader → Prop
  | write (r : PerfReader) (i : ℕ) (x : PerfRecord) : Step r (.write i x) (kernelWrite r i x)
  | start (r : PerfReader) (m : UInt64) (h : r.active = false) :
    Step r (.start m) (new r.container m)
  | pop (r : PerfReader) (x : PerfRecord) (ha : r.active = true) (he : r.empty = false)
      (hx : r.top.visible.head? = some x) : Step r (.pop r.topIndex x) r.pop
  | stop (r : PerfReader) : Step r .stop r.stop

/-- A pop of ring `i`, the ring at the root of the heap. -/
theorem Step.of_pop {r : PerfReader} {i : ℕ} {x : PerfRecord} (hi : r.topIndex = i)
    (ha : r.active = true) (he : r.empty = false) (hx : r.top.visible.head? = some x) :
    Step r (.pop i x) r.pop :=
  hi ▸ .pop r x ha he hx

/-- The records the kernel wrote to ring `i`, in order. -/
def written (i : ℕ) (es : List Event) : List PerfRecord :=
  es.filterMap fun
    | .write j x => if j = i then some x else none
    | _ => none

/-- The records handed out from ring `i`, in order, over all sessions. -/
def popped (i : ℕ) (es : List Event) : List PerfRecord :=
  es.filterMap fun
    | .pop j x => if j = i then some x else none
    | _ => none

/-- What a step does to the records handed out in the current session. -/
def sessionStep (pops : List PerfRecord) : Event → List PerfRecord
  | .start _ => []
  | .pop _ x => pops ++ [x]
  | _ => pops

/-- The records handed out since the last constructor. -/
def sessionPops (es : List Event) : List PerfRecord := es.foldl sessionStep []

theorem sessionPops_append_singleton (es : List Event) (e : Event) :
    sessionPops (es ++ [e]) = sessionStep (sessionPops es) e := by
  simp [sessionPops]

theorem written_append_singleton (i : ℕ) (es : List Event) (e : Event) :
    written i (es ++ [e]) = written i es ++ written i [e] := by
  simp [written]

theorem popped_append_singleton (i : ℕ) (es : List Event) (e : Event) :
    popped i (es ++ [e]) = popped i es ++ popped i [e] := by
  simp [popped]

/-- The records of a ring, read or not. -/
def stream (rr : RecordRing) : List PerfRecord := rr.visible ++ rr.pending

section Readers

variable {c : PerfContainer}

theorem readers_updateWhenNotInEntries (k : ℕ) :
    (updateWhenNotInEntries c k).readers = c.readers := by
  simp only [updateWhenNotInEntries]
  split <;> rfl

theorem readers_startRing (i : ℕ) :
    (startRing c i).readers = c.readers.modify i RecordRing.startReadBatch := by
  simp only [startRing]
  split
  · rfl
  · exact readers_updateWhenNotInEntries i

/-- The constructor's read batches move records from pending to visible, in order. -/
theorem stream_foldl_startRing (l : List ℕ) (j : ℕ) :
    (l.foldl startRing c).readers[j]?.map stream = c.readers[j]?.map stream := by
  induction l generalizing c with
  | nil => rfl
  | cons i l ih =>
    rw [List.foldl_cons, ih, readers_startRing, List.getElem?_modify]
    cases c.readers[j]? with
    | none => rfl
    | some rr =>
      by_cases hij : i = j <;> simp [hij, stream, RecordRing.startReadBatch]

theorem readers_pop (r : PerfReader) :
    r.pop.container.readers = r.container.readers.modify r.topIndex RecordRing.pop := by
  simp only [pop, updateAfterPop]
  rw [readers_updateWhenNotInEntries]

end Readers

/-- The records the kernel wrote to each ring are the records handed out from it followed by
its records still to be read: none lost, duplicated or reordered. -/
def StreamsOf (rs : List RecordRing) (es : List Event) : Prop :=
  ∀ i rr, rs[i]? = some rr → written i es = popped i es ++ stream rr

/-- The kernel wrote every ring in key order. -/
def KeySorted (es : List Event) : Prop :=
  ∀ i, (written i es).Pairwise fun a b => a.key ≤ b.key

/-- The records handed out in a session are in key order, and none is after an entry. -/
structure Ordered (c : PerfContainer) (pops : List PerfRecord) : Prop where
  sorted : pops.Pairwise fun a b => a.key ≤ b.key
  le_entries : ∀ p ∈ pops, ∀ j < c.nEntries, p.key ≤ (c.entries j).timestamp

/-- The invariant of a run: the container's, where each ring's records come from, and the
order of the session's records when the kernel wrote in key order. -/
structure Good (es : List Event) (r : PerfReader) : Prop where
  inv : Inv r.container
  streams : StreamsOf r.container.readers es
  ordered : KeySorted es → Ordered r.container (sessionPops es)

theorem KeySorted.of_append {es es' : List Event} (h : KeySorted (es ++ es')) : KeySorted es := by
  intro i
  have hs := h i
  simp only [written, List.filterMap_append] at hs
  exact List.Pairwise.sublist (List.sublist_append_left _ _) hs

/-- What the reader sees of a ring is in key order. -/
theorem StreamsOf.visible_sorted {rs : List RecordRing} {es : List Event} (hs : StreamsOf rs es)
    (hk : KeySorted es) {i : ℕ} {rr : RecordRing} (h : rs[i]? = some rr) :
    rr.visible.Pairwise fun a b => a.key ≤ b.key := by
  have hsub : (stream rr).Sublist (written i es) := by
    rw [hs i rr h]
    exact List.sublist_append_right _ _
  exact ((hk i).sublist hsub).sublist (List.sublist_append_left _ _)

/-- After a pop, every entry is at or after the root's timestamp before it: the other rings'
records were, and the popped ring's next record is after the one popped. -/
theorem root_le_entries_pop {r : PerfReader} (h : Inv r.container) (hn : r.container.nEntries ≠ 0)
    (hsorted : ∀ rr, r.container.readers[r.topIndex]? = some rr →
      rr.visible.Pairwise fun a b => a.key ≤ b.key) :
    ∀ j < r.pop.container.nEntries,
      (r.container.entries 0).timestamp ≤ (r.pop.container.entries j).timestamp := by
  intro j hj
  obtain ⟨z, hz, hts⟩ := (inv_pop h hn).key j hj
  rw [hts]
  rw [readers_pop] at hz
  by_cases hik : r.topIndex = (r.pop.container.entries j).readerIndex
  · -- the popped ring: its new next record follows the popped one
    rw [← hik, headAt_modify_self] at hz
    obtain ⟨x, hx, hts0⟩ := h.root_head hn
    simp only [headAt] at hx
    rw [topIndex] at hz hsorted
    cases hrr : r.container.readers[(r.container.entries 0).readerIndex]? with
    | none => simp [hrr] at hz
    | some rr =>
      simp only [hrr, Option.bind_some, RecordRing.pop] at hz hx
      obtain ⟨x', zs, hv⟩ : ∃ x' zs, rr.visible = x' :: zs := by
        cases hv : rr.visible with
        | nil => simp [hv] at hx
        | cons y ys => exact ⟨y, ys, rfl⟩
      rw [hv] at hz hx
      simp only [List.head?_cons, Option.some.injEq, List.tail_cons] at hx hz
      subst hx
      have hp := hsorted rr hrr
      rw [hv, List.pairwise_cons] at hp
      rw [hts0]
      exact hp.1 z (List.mem_of_head? hz)
  · rw [headAt_modify_of_ne hik] at hz
    exact h.root_le_head hz

theorem empty_eq_false_iff {r : PerfReader} :
    r.empty = false ↔
      r.container.nEntries ≠ 0 ∧ (r.container.entries 0).timestamp ≤ r.maxTimestamp := by
  simp [empty]

theorem stop_entries (r : PerfReader) :
    r.stop.container.entries = r.container.entries ∧
      r.stop.container.nEntries = r.container.nEntries := by
  unfold stop
  split <;> exact ⟨rfl, rfl⟩

theorem stop_readers (r : PerfReader) : r.stop.container.readers = r.container.readers := by
  unfold stop
  split
  · rfl
  · exact List.map_id _

/-! ### The run invariant, step by step -/

section Steps

variable {es : List Event} {r : PerfReader}

theorem good_init {n : ℕ} (hi : Init n r) : Good [] r := by
  obtain ⟨entries, m, hn⟩ := hi
  have hnone : ∀ i, headAt (List.replicate n (default : RecordRing)) i = none := by
    intro i
    simp only [headAt, List.getElem?_replicate]
    split <;> rfl
  refine ⟨⟨⟨⟨by simp, nofun, nofun, by simp, nofun⟩, nofun⟩, by simpa using hn, ?_⟩, ?_, ?_⟩
  · intro i
    simp [hnone]
  · intro i rr hrr
    rw [List.getElem?_replicate] at hrr
    split at hrr
    · cases hrr
      rfl
    · cases hrr
  · intro _
    exact ⟨List.Pairwise.nil, nofun⟩

theorem good_write {i : ℕ} {x : PerfRecord} (h : Good es r) :
    Good (es ++ [.write i x]) (kernelWrite r i x) := by
  refine ⟨h.inv.congr_heads (fun j => headAt_modify_of_visible fun _ => rfl) (by simp), ?_, ?_⟩
  · intro j rr hrr
    simp only [kernelWrite] at hrr
    rw [written_append_singleton, popped_append_singleton]
    by_cases hij : i = j
    · -- the ring written: one more record at the end of its stream
      subst hij
      rw [List.getElem?_modify_eq] at hrr
      cases hr : r.container.readers[i]? with
      | none => simp [hr] at hrr
      | some rr₀ =>
        simp only [hr, Option.map_eq_map, Option.map_some, Option.some.injEq] at hrr
        subst hrr
        rw [h.streams i rr₀ hr]
        simp [written, popped, stream, RecordRing.write]
    · rw [List.getElem?_modify_ne _ _ hij] at hrr
      simpa [written, popped, hij] using h.streams j rr hrr
  · intro hk
    have ho := h.ordered hk.of_append
    rw [sessionPops_append_singleton]
    exact ⟨ho.sorted, ho.le_entries⟩

theorem good_start {m : UInt64} (h : Good es r) :
    Good (es ++ [.start m]) (new r.container m) := by
  refine ⟨inv_new h.inv m, ?_, ?_⟩
  · intro j rr hrr
    have hs := stream_foldl_startRing (c := r.container) (List.range r.container.readers.length) j
    rw [show (List.range r.container.readers.length).foldl startRing r.container =
      (new r.container m).container from rfl, hrr] at hs
    cases hr : r.container.readers[j]? with
    | none => simp [hr] at hs
    | some rr₀ =>
      rw [hr, Option.map_some, Option.map_some, Option.some.injEq] at hs
      rw [written_append_singleton, popped_append_singleton, hs]
      simpa [written, popped] using h.streams j rr₀ hr
  · intro _
    rw [sessionPops_append_singleton]
    exact ⟨List.Pairwise.nil, nofun⟩

theorem good_stop (h : Good es r) : Good (es ++ [.stop]) r.stop := by
  obtain ⟨he, hn⟩ := stop_entries r
  refine ⟨inv_stop h.inv, ?_, ?_⟩
  · intro j rr hrr
    rw [stop_readers] at hrr
    simpa [written_append_singleton, popped_append_singleton, written, popped] using
      h.streams j rr hrr
  · intro hk
    have ho := h.ordered hk.of_append
    rw [sessionPops_append_singleton]
    exact ⟨ho.sorted, by rw [he, hn]; exact ho.le_entries⟩

/-- A pop takes the next record off the front of the ring's stream. -/
theorem stream_pop_of_head {rr : RecordRing} {x : PerfRecord} (hx : rr.visible.head? = some x) :
    stream rr = x :: stream rr.pop := by
  cases hv : rr.visible with
  | nil => simp [hv] at hx
  | cons y ys =>
    rw [hv, List.head?_cons, Option.some.injEq] at hx
    simp [stream, RecordRing.pop, hv, hx]

theorem good_pop {x : PerfRecord} (h : Good es r) (he : r.empty = false)
    (hx : r.top.visible.head? = some x) : Good (es ++ [.pop r.topIndex x]) r.pop := by
  have hn := (empty_eq_false_iff.1 he).1
  refine ⟨inv_pop h.inv hn, ?_, ?_⟩
  · intro j rr hrr
    rw [readers_pop] at hrr
    have hw : written j [Event.pop r.topIndex x] = [] := rfl
    rw [written_append_singleton, hw, List.append_nil, popped_append_singleton]
    by_cases hij : r.topIndex = j
    · -- the popped ring's first record moves from its stream to the records handed out
      subst hij
      rw [List.getElem?_modify_eq] at hrr
      cases hr : r.container.readers[r.topIndex]? with
      | none => simp [hr] at hrr
      | some rr₀ =>
        simp only [hr, Option.map_eq_map, Option.map_some, Option.some.injEq] at hrr
        subst hrr
        have htop : r.top = rr₀ := by simp [top, List.getD_eq_getElem?_getD, hr]
        rw [h.streams _ rr₀ hr, stream_pop_of_head (htop ▸ hx)]
        simp [popped]
    · rw [List.getElem?_modify_ne _ _ hij] at hrr
      simpa [popped, hij] using h.streams j rr hrr
  · intro hk
    have ho := h.ordered hk.of_append
    obtain ⟨-, hroot⟩ := h.inv.top_head hn hx
    have hafter := root_le_entries_pop h.inv hn
      fun rr hrr => h.streams.visible_sorted hk.of_append hrr
    -- the records handed out before were at or before the root, which is `x`
    have hle : ∀ p ∈ sessionPops es, p.key ≤ x.key := fun p hp =>
      hroot ▸ ho.le_entries p hp 0 (by omega)
    rw [sessionPops_append_singleton]
    refine ⟨List.pairwise_append.2 ⟨ho.sorted, List.pairwise_singleton _ _, ?_⟩, ?_⟩
    · intro a ha b hb
      rw [List.mem_singleton.1 hb]
      exact hle a ha
    · intro p hp j hj
      have hxj : x.key ≤ (r.pop.container.entries j).timestamp := hroot ▸ hafter j hj
      rcases List.mem_append.1 hp with hp | hp
      · exact UInt64.le_trans (hle p hp) hxj
      · rw [List.mem_singleton.1 hp]
        exact hxj

theorem good_step {e : Event} {r' : PerfReader} (h : Good es r) (hst : Step r e r') :
    Good (es ++ [e]) r' := by
  cases hst with
  | write i x => exact good_write h
  | start m _ => exact good_start h
  | pop x _ he hx => exact good_pop h he hx
  | stop => exact good_stop h

theorem good_of_run {n : ℕ} (hrun : Run (Init n) Step es r) : Good es r :=
  Run.induction (P := fun es r => Good es r) (fun _ hi => good_init hi)
    (fun _ _ _ _ h hst => good_step h hst) hrun

end Steps

/-! ### The merge -/

/-- What holds at every point of a run: the container is consistent, each ring's records are
what the kernel wrote to it after those handed out from it, the records handed out in the
session are in key order, the next pop hands out the record with the least key of all
the rings' next records, and an empty reader has only records after its bound left. -/
structure Merge (es : List Event) (r : PerfReader) : Prop where
  inv : Inv r.container
  streams : StreamsOf r.container.readers es
  sorted : (sessionPops es).Pairwise fun a b => a.key ≤ b.key
  pop_min : r.empty = false → ∃ x, r.top.visible.head? = some x ∧ x.key ≤ r.maxTimestamp ∧
    ∀ i y, headAt r.container.readers i = some y → x.key ≤ y.key
  empty_lt : r.empty = true → ∀ i y, headAt r.container.readers i = some y →
    r.maxTimestamp < y.key

section Merge

variable {r : PerfReader}

theorem Inv.pop_min (h : Inv r.container) (he : r.empty = false) :
    ∃ x, r.top.visible.head? = some x ∧ x.key ≤ r.maxTimestamp ∧
      ∀ i y, headAt r.container.readers i = some y → x.key ≤ y.key := by
  obtain ⟨hn, hmax⟩ := empty_eq_false_iff.1 he
  obtain ⟨x, hx, hts⟩ := h.root_head hn
  refine ⟨x, getD_head hx, hts ▸ hmax, fun i y hy => ?_⟩
  rw [← hts]
  exact h.root_le_head hy

theorem Inv.empty_lt (h : Inv r.container) (he : r.empty = true) :
    ∀ i y, headAt r.container.readers i = some y → r.maxTimestamp < y.key := by
  intro i y hy
  have hmem : i ∈ r.container.readersInEntries := (h.mem_iff i).2 (by simp [hy])
  simp only [empty, Bool.or_eq_true, decide_eq_true_eq] at he
  rcases he with hn | hlt
  · -- no entries: no bit is set, so no ring has a record
    have hcard := h.count
    rw [hn, eq_comm, Finset.card_eq_zero] at hcard
    simp [hcard] at hmem
  · exact UInt64.lt_of_lt_of_le hlt (h.root_le_head hy)

/-- **`PerfReader` merges the rings.**  In every run from `n` empty rings in which the kernel
writes each ring in key order, between any two operations: `n_entries_` counts the set bits,
the entries name distinct rings with their bits set, a ring has a bit set exactly when it has a
record to read, each entry carries the key of its ring's next record, and the entries form a
heap; what the kernel wrote to a ring is what was handed out from it, in order, followed by
what it still holds; the records handed out in the current session are in key order; the next pop hands out
the next record of a ring with the least key of all; and when the reader is empty, every
ring's next record is after its bound. -/
theorem merge_of_run {n : ℕ} {es : List Event} (hrun : Run (Init n) Step es r)
    (hsorted : KeySorted es) : Merge es r := by
  have hg := good_of_run hrun
  exact ⟨hg.inv, hg.streams, (hg.ordered hsorted).sorted, hg.inv.pop_min, hg.inv.empty_lt⟩

/-- Two rings: the kernel writes samples at times 1 and 3 to ring 0 and at time 2 to ring 1,
and a session with bound 10 hands out all three in time order. -/
theorem merge_of_run_two_rings :
    ∃ es r, es =
        [.write 0 ⟨9, List.replicate 8 0 ++ [1, 0, 0, 0, 0, 0, 0, 0]⟩,
          .write 1 ⟨9, List.replicate 8 0 ++ [2, 0, 0, 0, 0, 0, 0, 0]⟩,
          .write 0 ⟨9, List.replicate 8 0 ++ [3, 0, 0, 0, 0, 0, 0, 0]⟩, .start 10,
          .pop 0 ⟨9, List.replicate 8 0 ++ [1, 0, 0, 0, 0, 0, 0, 0]⟩,
          .pop 1 ⟨9, List.replicate 8 0 ++ [2, 0, 0, 0, 0, 0, 0, 0]⟩,
          .pop 0 ⟨9, List.replicate 8 0 ++ [3, 0, 0, 0, 0, 0, 0, 0]⟩, .stop] ∧
      KeySorted es ∧ Run (Init 2) Step es r ∧ Merge es r := by
  obtain ⟨r, hrun⟩ : ∃ r, Run (Init 2) Step
        [.write 0 ⟨9, List.replicate 8 0 ++ [1, 0, 0, 0, 0, 0, 0, 0]⟩,
          .write 1 ⟨9, List.replicate 8 0 ++ [2, 0, 0, 0, 0, 0, 0, 0]⟩,
          .write 0 ⟨9, List.replicate 8 0 ++ [3, 0, 0, 0, 0, 0, 0, 0]⟩, .start 10,
          .pop 0 ⟨9, List.replicate 8 0 ++ [1, 0, 0, 0, 0, 0, 0, 0]⟩,
          .pop 1 ⟨9, List.replicate 8 0 ++ [2, 0, 0, 0, 0, 0, 0, 0]⟩,
          .pop 0 ⟨9, List.replicate 8 0 ++ [3, 0, 0, 0, 0, 0, 0, 0]⟩, .stop] r := by
    refine ⟨_, ((((((((Run.start (.mk (fun _ => ⟨0, 0⟩) 0 (by decide))).snoc
      (.write _ 0 _)).snoc (.write _ 1 _)).snoc (.write _ 0 _)).snoc (.start _ 10 rfl)).snoc
      (Step.of_pop ?_ ?_ ?_ ?_)).snoc (Step.of_pop ?_ ?_ ?_ ?_)).snoc
      (Step.of_pop ?_ ?_ ?_ ?_)).snoc (.stop _)⟩
    -- each pop's ring, and that it has a record within the bound, on the concrete heap
    all_goals decide +kernel
  refine ⟨_, r, rfl, ?sorted, hrun, merge_of_run hrun ?sorted⟩
  intro i
  by_cases h0 : i = 0
  · subst h0
    decide
  by_cases h1 : i = 1
  · subst h1
    decide
  simp [written, Ne.symm h0, Ne.symm h1]

end Merge

end PerfReader

end OtelEbpf
