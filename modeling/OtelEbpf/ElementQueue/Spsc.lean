import OtelEbpf.ElementQueue.Basic
import OtelEbpf.Lib.Run

/-!
# One writer and one reader sharing an element queue

The element queue is used across threads: the writer and the reader each own an
`element_queue` struct, and they share the memory area (the `element_queue_shared` counters
and the element-length array).  They communicate only through four shared words, each
accessed by one load or one store:

* `eq_start_write_batch` loads `elem_head` and then `buf_head`;
* `eq_finish_write_batch` stores `buf_tail` and then `elem_tail`;
* `eq_start_read_batch` loads `elem_tail`;
* `eq_finish_read_batch` stores `buf_head` and then `elem_head`.

`Spsc.Step` interleaves these accesses, and the writer's `eq_write` and the reader's
`eq_read`, in any order; each thread keeps its program order (`WriterPc`, `ReaderPc`), and
memory is sequentially consistent (the barriers of the batch functions order the accesses
that matter).  The events of a run record what the calls returned, and `tally` reads off
the successful writes and reads, and how many elements each finished batch published.

The invariant `Spsc.Inv` relates the `u32` counters to unbounded counts: the writer's
`elem_tail` is the number of successful writes, the reader's `elem_head` the number of
successful reads, and each side's buffer position is where the elements so far end
(`eqBufEnd`).  Its key clause is that every written but unread element's length sits in
its slot of the length array: the writer only overwrites slots of elements the reader has
released, because its `elem_head` is an old copy of the reader's.

* `Spsc.fifo` : the successful reads return exactly the successful writes, in order, as a
  prefix; the reader sees only elements of finished batches; a read fails only when every
  element its batch can see has been read; and `eq_peek` and `eq_peek_offset` return the
  element the next read returns.
-/

namespace OtelEbpf

namespace ElementQueue

/-- Where the writer is: `eq_start_write_batch` is split into its two loads and
`eq_finish_write_batch` into its two stores. -/
inductive WriterPc
  | idle
  | headLoaded
  | writing
  | tailStored
  deriving DecidableEq, Repr

/-- Where the reader is: `eq_finish_read_batch` is split into its two stores. -/
inductive ReaderPc
  | idle
  | reading
  | headStored
  deriving DecidableEq, Repr

/-- The shared memory and the two threads' structs. -/
structure Spsc where
  /-- `element_queue_shared`. -/
  shared : ElementQueueShared
  /-- The element-length array, slot to length. -/
  elems : UInt32 → UInt32
  /-- The writer's `element_queue`. -/
  writer : ElementQueue
  /-- The reader's `element_queue`. -/
  reader : ElementQueue
  wpc : WriterPc
  rpc : ReaderPc

/-- What a thread does in one atomic step, with what the call returned. -/
inductive Event
  | startWrite₁
  | startWrite₂
  | write (len : UInt32) (ret : ℤ)
  | finishWrite₁
  | finishWrite₂
  | startRead
  | read (ret : ℤ) (len : Option UInt32)
  | finishRead₁
  | finishRead₂
  deriving DecidableEq, Repr

namespace Spsc

/-- Both structs are set up by `eq_init_contig` on a memory area initialised by
`eq_init_shared`.  The length array holds anything. -/
def Init (nElems bufLen : UInt32) (s : Spsc) : Prop :=
  s.shared = eqInitShared ∧ eqInitContig nElems bufLen eqInitShared = .ok s.writer ∧
    eqInitContig nElems bufLen eqInitShared = .ok s.reader ∧
    s.wpc = .idle ∧ s.rpc = .idle

/-- One atomic step of the writer or of the reader. -/
inductive Step : Spsc → Event → Spsc → Prop
  | startWrite₁ (s : Spsc) : s.wpc = .idle →
      Step s .startWrite₁
        { s with writer := { s.writer with elemHead := s.shared.elemHead }, wpc := .headLoaded }
  | startWrite₂ (s : Spsc) : s.wpc = .headLoaded →
      Step s .startWrite₂
        { s with writer := { s.writer with bufHead := s.shared.bufHead }, wpc := .writing }
  | write (s : Spsc) (len : UInt32) : s.wpc = .writing →
      Step s (.write len (eqWrite s.writer s.elems len).1)
        { s with writer := (eqWrite s.writer s.elems len).2.1,
                 elems := (eqWrite s.writer s.elems len).2.2 }
  | finishWrite₁ (s : Spsc) : s.wpc = .writing →
      Step s .finishWrite₁
        { s with shared := { s.shared with bufTail := s.writer.bufTail }, wpc := .tailStored }
  | finishWrite₂ (s : Spsc) : s.wpc = .tailStored →
      Step s .finishWrite₂
        { s with shared := { s.shared with elemTail := s.writer.elemTail }, wpc := .idle }
  | startRead (s : Spsc) : s.rpc = .idle →
      Step s .startRead { s with reader := eqStartReadBatch s.reader s.shared, rpc := .reading }
  | read (s : Spsc) : s.rpc = .reading →
      Step s (.read (eqRead s.reader s.elems).1 (eqRead s.reader s.elems).2.1)
        { s with reader := (eqRead s.reader s.elems).2.2 }
  | finishRead₁ (s : Spsc) : s.rpc = .reading →
      Step s .finishRead₁
        { s with shared := { s.shared with bufHead := s.reader.bufHead }, rpc := .headStored }
  | finishRead₂ (s : Spsc) : s.rpc = .headStored →
      Step s .finishRead₂
        { s with shared := { s.shared with elemHead := s.reader.elemHead }, rpc := .idle }

/-- The two loads of `eq_start_write_batch`, with nothing in between, are the function. -/
theorem startWrite_split (eq : ElementQueue) (sh : ElementQueueShared) :
    { ({ eq with elemHead := sh.elemHead } : ElementQueue) with bufHead := sh.bufHead } =
      eqStartWriteBatch eq sh := rfl

/-- The two stores of `eq_finish_write_batch`, with nothing in between, are the function. -/
theorem finishWrite_split (eq : ElementQueue) (sh : ElementQueueShared) :
    { ({ sh with bufTail := eq.bufTail } : ElementQueueShared) with elemTail := eq.elemTail } =
      eqFinishWriteBatch eq sh := rfl

/-- The two stores of `eq_finish_read_batch`, with nothing in between, are the function. -/
theorem finishRead_split (eq : ElementQueue) (sh : ElementQueueShared) :
    { ({ sh with bufHead := eq.bufHead } : ElementQueueShared) with elemHead := eq.elemHead } =
      eqFinishReadBatch eq sh := rfl

end Spsc

/-! ### What the threads observed -/

/-- What the calls of a run returned: the successful writes and reads as `(length, offset)`,
the number of elements the last finished write batch published, and the number the
reader's current batch can see. -/
structure Tally where
  wrote : List (UInt32 × ℤ)
  pub : ℕ
  snap : ℕ
  read : List (UInt32 × ℤ)

namespace Tally

/-- Record one event.  A call succeeded when it returned a non-negative value. -/
def record (t : Tally) : Event → Tally
  | .write len ret => if 0 ≤ ret then { t with wrote := t.wrote ++ [(len, ret)] } else t
  | .finishWrite₂ => { t with pub := t.wrote.length }
  | .startRead => { t with snap := t.pub }
  | .read ret (some len) => if 0 ≤ ret then { t with read := t.read ++ [(len, ret)] } else t
  | _ => t

variable (t : Tally)

theorem record_write_of_nonneg {len : UInt32} {ret : ℤ} (h : 0 ≤ ret) :
    t.record (.write len ret) = { t with wrote := t.wrote ++ [(len, ret)] } := by
  simp [record, h]

theorem record_write_of_neg {len : UInt32} {ret : ℤ} (h : ret < 0) :
    t.record (.write len ret) = t := by
  simp [record, show ¬0 ≤ ret by omega]

theorem record_read_of_nonneg {len : UInt32} {ret : ℤ} (h : 0 ≤ ret) :
    t.record (.read ret (some len)) = { t with read := t.read ++ [(len, ret)] } := by
  simp [record, h]

@[simp] theorem record_read_none (ret : ℤ) : t.record (.read ret none) = t := rfl
@[simp] theorem record_startWrite₁ : t.record .startWrite₁ = t := rfl
@[simp] theorem record_startWrite₂ : t.record .startWrite₂ = t := rfl
@[simp] theorem record_finishWrite₁ : t.record .finishWrite₁ = t := rfl
@[simp] theorem record_finishRead₁ : t.record .finishRead₁ = t := rfl
@[simp] theorem record_finishWrite₂ : t.record .finishWrite₂ = { t with pub := t.wrote.length } :=
  rfl
@[simp] theorem record_startRead : t.record .startRead = { t with snap := t.pub } := rfl
@[simp] theorem record_finishRead₂ : t.record .finishRead₂ = t := rfl

end Tally

/-- The tally of a run. -/
def tally (es : List Event) : Tally := es.foldl Tally.record ⟨[], 0, 0, []⟩

@[simp] theorem tally_nil : tally [] = ⟨[], 0, 0, []⟩ := rfl

@[simp] theorem tally_append_singleton (es : List Event) (e : Event) :
    tally (es ++ [e]) = (tally es).record e := by
  simp [tally]

/-! ### The invariant -/

namespace Spsc

/-- The invariant of a run with tally `t`, for a length array of `2 ^ a` slots.  `lens` are
the lengths of all the elements written, `hw` is the number of elements the writer last saw
released (its copy of `elem_head`), `rel` the number the reader has released. -/
structure Inv (a : ℕ) (s : Spsc) (t : Tally) (hw rel : ℕ) (lens : List UInt32) : Prop where
  a_lt : a < 32
  elemMask : s.reader.elemMask.toNat = 2 ^ a - 1
  elemMask_eq : s.writer.elemMask = s.reader.elemMask
  bufMask_eq : s.writer.bufMask = s.reader.bufMask
  bufMask_lt : s.reader.bufMask.toNat < 2 ^ 31
  /-- Every successful write returned the layout offset of its element. -/
  wrote : t.wrote = eqLayout s.reader.bufMask 0 lens
  /-- Every successful read returned the layout offset of its element. -/
  read : t.read = eqLayout s.reader.bufMask 0 (lens.take t.read.length)
  hw_le : hw ≤ rel
  rel_le : rel ≤ t.read.length
  read_le : t.read.length ≤ t.snap
  snap_le : t.snap ≤ t.pub
  pub_le : t.pub ≤ lens.length
  /-- The writer never runs more than one lap ahead of what it saw released. -/
  lap : lens.length - hw ≤ 2 ^ a
  wElemTail : s.writer.elemTail = UInt32.ofNat lens.length
  wElemHead : s.writer.elemHead = UInt32.ofNat hw
  rElemHead : s.reader.elemHead = UInt32.ofNat t.read.length
  rElemTail : s.reader.elemTail = UInt32.ofNat t.snap
  shElemTail : s.shared.elemTail = UInt32.ofNat t.pub
  shElemHead : s.shared.elemHead = UInt32.ofNat rel
  wBufTail : s.writer.bufTail = eqBufEnd s.reader.bufMask 0 lens
  rBufHead : s.reader.bufHead = eqBufEnd s.reader.bufMask 0 (lens.take t.read.length)
  /-- The length of every written, unread element is in its slot. -/
  slots : ∀ k (hk : k < lens.length), t.read.length ≤ k →
    s.elems (UInt32.ofNat k &&& s.reader.elemMask) = lens[k]

/-- Some choice of the unbounded counts satisfies the invariant. -/
def Good (a : ℕ) (s : Spsc) (t : Tally) : Prop := ∃ hw rel lens, Inv a s t hw rel lens

theorem toNat_sub_one {x : UInt32} (hx : 0 < x.toNat) : (x - 1).toNat = x.toNat - 1 := by
  rw [UInt32.toNat_sub]
  have := x.toNat_lt
  simp only [UInt32.reduceToNat]
  omega

theorem eqInitContig_ok {nElems bufLen : UInt32} {sh : ElementQueueShared} {eq : ElementQueue}
    (h : eqInitContig nElems bufLen sh = .ok eq) :
    eq = { elemMask := nElems - 1, bufMask := bufLen - 1,
           elemHead := sh.elemHead, elemTail := sh.elemTail,
           bufHead := sh.bufHead, bufTail := sh.bufTail } := by
  unfold eqInitContig at h
  split_ifs at h
  cases h
  rfl

/-- At the start nothing has been written, and both structs copy the zeroed shared counters. -/
theorem good_init {nElems bufLen : UInt32} {a c : ℕ} (hn : nElems.toNat = 2 ^ a)
    (hb : bufLen.toNat = 2 ^ c) {s : Spsc} (hs : Init nElems bufLen s) : Good a s (tally []) := by
  obtain ⟨hsh, hw, hr, -, -⟩ := hs
  have ha : a < 32 := (Nat.pow_lt_pow_iff_right (by decide)).1 (hn ▸ nElems.toNat_lt)
  have hc : c < 32 := (Nat.pow_lt_pow_iff_right (by decide)).1 (hb ▸ bufLen.toNat_lt)
  have hc' : 2 ^ c ≤ 2 ^ 31 := Nat.pow_le_pow_right (by decide) (by omega)
  have hpos : 0 < 2 ^ c := Nat.two_pow_pos c
  have hw' := eqInitContig_ok hw
  have hr' := eqInitContig_ok hr
  refine ⟨0, 0, [], ?_⟩
  constructor <;> simp [hsh, hw', hr', eqInitShared, eqLayout, toNat_sub_one, hn, hb, ha,
    Nat.two_pow_pos]
  omega

namespace Inv

variable {a : ℕ} {s : Spsc} {t : Tally} {hw rel : ℕ} {lens : List UInt32}

theorem read_le_len (hinv : Inv a s t hw rel lens) : t.read.length ≤ lens.length :=
  hinv.read_le.trans (hinv.snap_le.trans hinv.pub_le)

theorem hw_le_len (hinv : Inv a s t hw rel lens) : hw ≤ lens.length :=
  hinv.hw_le.trans (hinv.rel_le.trans hinv.read_le_len)

theorem lap_lt (hinv : Inv a s t hw rel lens) : lens.length - hw < 2 ^ 32 :=
  lt_of_le_of_lt hinv.lap (Nat.pow_lt_pow_right (by decide) hinv.a_lt)

/-- The writer's full check, on the unbounded counts: it finds a free slot exactly when it is
less than one lap ahead of what it saw released. -/
theorem lap_lt_of_room (hinv : Inv a s t hw rel lens)
    (hroom : s.writer.elemTail - s.writer.elemHead < s.writer.elemMask + 1) :
    lens.length - hw < 2 ^ a := by
  have hpow : 2 ^ a - 1 + 1 < 2 ^ 32 := by
    have := Nat.pow_lt_pow_right (show 1 < 2 by decide) hinv.a_lt
    omega
  rw [hinv.wElemTail, hinv.wElemHead, hinv.elemMask_eq, UInt32.lt_iff_toNat_lt,
    Word.toNat_ofNat_sub_ofNat hinv.hw_le_len hinv.lap_lt, UInt32.toNat_add, hinv.elemMask,
    UInt32.toNat_one, Nat.mod_eq_of_lt hpow] at hroom
  have := Nat.two_pow_pos a
  omega

/-- The reader's empty check, on the unbounded counts. -/
theorem read_lt_of_ne (hinv : Inv a s t hw rel lens)
    (hne : s.reader.elemTail ≠ s.reader.elemHead) : t.read.length < t.snap := by
  rw [hinv.rElemTail, hinv.rElemHead] at hne
  have hsnap : t.snap - t.read.length < 2 ^ 32 := by
    have := hinv.lap_lt
    have := hinv.hw_le.trans hinv.rel_le
    have := hinv.snap_le.trans hinv.pub_le
    omega
  have := hinv.read_le
  by_contra hge
  exact hne (by congr 1; omega)

theorem eq_of_eq (hinv : Inv a s t hw rel lens)
    (heq : s.reader.elemTail = s.reader.elemHead) : t.read.length = t.snap := by
  by_contra hne
  have hlt : t.read.length < t.snap := lt_of_le_of_ne hinv.read_le hne
  have hsnap : t.snap - t.read.length < 2 ^ 32 := by
    have := hinv.lap_lt
    have := hinv.hw_le.trans hinv.rel_le
    have := hinv.snap_le.trans hinv.pub_le
    omega
  rw [hinv.rElemTail, hinv.rElemHead] at heq
  exact Word.ofNat_ne_ofNat hlt hsnap heq.symm

/-- The reader finds in the head slot the length of the next unread element. -/
theorem head_slot (hinv : Inv a s t hw rel lens) (hlt : t.read.length < lens.length) :
    s.elems (s.reader.elemHead &&& s.reader.elemMask) = lens[t.read.length] := by
  rw [hinv.rElemHead]
  exact hinv.slots _ hlt le_rfl

/-- A successful `eq_write`: the element is appended to the stream at its layout offset, and
its length goes to a slot no unread element uses. -/
theorem write_ok (hinv : Inv a s t hw rel lens) {len : UInt32}
    (hroom : s.writer.elemTail - s.writer.elemHead < s.writer.elemMask + 1) :
    Inv a { s with
        writer := { s.writer with bufTail := eqAdvance s.writer.bufMask s.writer.bufTail len,
                                  elemTail := s.writer.elemTail + 1 },
        elems := Function.update s.elems (s.writer.elemTail &&& s.writer.elemMask) len }
      { t with wrote := t.wrote ++ [(len, eqOffsetRet s.writer.bufMask s.writer.bufTail len)] }
      hw rel (lens ++ [len]) := by
  have hlap := hinv.lap_lt_of_room hroom
  have hR := hinv.read_le_len
  have hRw : hw ≤ t.read.length := hinv.hw_le.trans hinv.rel_le
  refine { hinv with wrote := ?_, read := ?_, pub_le := ?_, lap := ?_, wElemTail := ?_,
                     wBufTail := ?_, rBufHead := ?_, slots := ?_ }
  · rw [hinv.wrote, hinv.bufMask_eq, hinv.wBufTail, eqLayout_append_singleton]
  · rw [List.take_append_of_le_length hR]
    exact hinv.read
  · simp only [List.length_append, List.length_singleton]
    exact Nat.le_succ_of_le hinv.pub_le
  · simp only [List.length_append, List.length_singleton]
    omega
  · simp only [hinv.wElemTail, Word.ofNat_add_one, List.length_append, List.length_singleton]
  · simp only [hinv.bufMask_eq, hinv.wBufTail, eqBufEnd_append_singleton]
  · rw [List.take_append_of_le_length hR]
    exact hinv.rBufHead
  · intro k hk hRk
    dsimp only at hRk
    simp only [List.length_append, List.length_singleton] at hk
    simp only [hinv.wElemTail, hinv.elemMask_eq]
    rcases Nat.lt_succ_iff_lt_or_eq.1 hk with hk | rfl
    · -- an older unread element: its slot is less than one lap from the new one
      rw [Function.update_of_ne (Word.ofNat_and_mask_ne _ hinv.elemMask
          (Nat.le_of_lt_succ (Nat.lt_succ_of_lt hinv.a_lt)) hk (by omega)),
        List.getElem_append_left hk]
      exact hinv.slots k hk hRk
    · simp

/-- A successful `eq_read`: the element read is the next one of the stream, at its layout
offset. -/
theorem read_ok (hinv : Inv a s t hw rel lens) (hsnap : t.read.length < t.snap)
    (hlt : t.read.length < lens.length) :
    Inv a { s with
        reader := { s.reader with
          elemHead := s.reader.elemHead + 1,
          bufHead := eqAdvance s.reader.bufMask s.reader.bufHead lens[t.read.length] } }
      { t with read := t.read ++
          [(lens[t.read.length], eqOffsetRet s.reader.bufMask s.reader.bufHead lens[t.read.length])] }
      hw rel lens := by
  have htake : lens.take (t.read.length + 1) = lens.take t.read.length ++ [lens[t.read.length]] := by
    rw [List.take_add_one, List.getElem?_eq_getElem hlt, Option.toList_some]
  refine { hinv with read := ?_, rel_le := ?_, read_le := ?_, rElemHead := ?_, rBufHead := ?_,
                     slots := ?_ }
  · simp only [List.length_append, List.length_singleton, htake, eqLayout_append_singleton]
    rw [← hinv.read, hinv.rBufHead]
  · simp only [List.length_append, List.length_singleton]
    exact Nat.le_succ_of_le hinv.rel_le
  · simp only [List.length_append, List.length_singleton]
    exact hsnap
  · simp only [hinv.rElemHead, Word.ofNat_add_one, List.length_append, List.length_singleton]
  · simp only [List.length_append, List.length_singleton, htake, eqBufEnd_append_singleton,
      hinv.rBufHead]
  · intro k hk hRk
    simp only [List.length_append, List.length_singleton] at hRk
    exact hinv.slots k hk (by omega)

end Inv

variable {a : ℕ}

/-- **Every step keeps the invariant.**  The loads and stores of the batch functions move one
unbounded count at a time; `write_ok` and `read_ok` do the rest. -/
theorem good_step {s s' : Spsc} {t : Tally} {e : Event} (hg : Good a s t) (hst : Step s e s') :
    Good a s' (t.record e) := by
  obtain ⟨hw, rel, lens, hinv⟩ := hg
  cases hst with
  | startWrite₁ _ =>
    -- the writer's copy of `elem_head` catches up with the reader's releases
    exact ⟨rel, rel, lens, { hinv with
      hw_le := le_rfl,
      lap := le_trans (Nat.sub_le_sub_left hinv.hw_le _) hinv.lap,
      wElemHead := hinv.shElemHead }⟩
  | startWrite₂ _ => exact ⟨hw, rel, lens, { hinv with }⟩
  | write len _ =>
    rcases eqWrite_cases s.writer s.elems len with ⟨hneg, hsame⟩ | ⟨hroom, heq⟩
    · rw [Tally.record_write_of_neg _ hneg, hsame]
      exact ⟨hw, rel, lens, hinv⟩
    · have hret := eqOffsetRet_nonneg (hinv.bufMask_eq ▸ hinv.bufMask_lt) s.writer.bufTail len
      rw [heq, Tally.record_write_of_nonneg _ hret]
      exact ⟨hw, rel, lens ++ [len], hinv.write_ok hroom⟩
  | finishWrite₁ _ => exact ⟨hw, rel, lens, { hinv with }⟩
  | finishWrite₂ _ =>
    -- the batch publishes every element written so far
    have hlen : t.wrote.length = lens.length := by rw [hinv.wrote, length_eqLayout]
    rw [Tally.record_finishWrite₂]
    exact ⟨hw, rel, lens, { hinv with
      snap_le := hlen ▸ hinv.snap_le.trans hinv.pub_le,
      pub_le := hlen.le,
      shElemTail := by rw [hlen]; exact hinv.wElemTail }⟩
  | startRead _ =>
    rw [Tally.record_startRead]
    exact ⟨hw, rel, lens, { hinv with
      read_le := hinv.read_le.trans hinv.snap_le,
      snap_le := le_rfl,
      rElemTail := hinv.shElemTail }⟩
  | read _ =>
    by_cases heq : s.reader.elemTail = s.reader.elemHead
    · rw [eqRead_of_eq _ heq, Tally.record_read_none]
      exact ⟨hw, rel, lens, hinv⟩
    · have hsnap := hinv.read_lt_of_ne heq
      have hlt : t.read.length < lens.length :=
        lt_of_lt_of_le hsnap (hinv.snap_le.trans hinv.pub_le)
      have hret := eqOffsetRet_nonneg hinv.bufMask_lt s.reader.bufHead lens[t.read.length]
      rw [eqRead_of_ne _ heq, hinv.head_slot hlt, Tally.record_read_of_nonneg _ hret]
      exact ⟨hw, rel, lens, hinv.read_ok hsnap hlt⟩
  | finishRead₁ _ => exact ⟨hw, rel, lens, { hinv with }⟩
  | finishRead₂ _ =>
    -- the reader releases everything it has read
    exact ⟨hw, t.read.length, lens, { hinv with
      hw_le := hinv.hw_le.trans hinv.rel_le,
      rel_le := le_rfl,
      shElemHead := hinv.rElemHead }⟩

/-- The invariant holds at the end of every run. -/
theorem good_of_run {nElems bufLen : UInt32} {c : ℕ} (hn : nElems.toNat = 2 ^ a)
    (hb : bufLen.toNat = 2 ^ c) {es : List Event} {s : Spsc}
    (hrun : Run (Init nElems bufLen) Step es s) : Good a s (tally es) :=
  Run.induction (P := fun es s => Good a s (tally es)) (fun _ hs => good_init hn hb hs)
    (fun es _ e _ hg hst => by rw [tally_append_singleton]; exact good_step hg hst) hrun

/-- What the reader's view of a run must be for the queue to be a FIFO. -/
structure Fifo (t : Tally) (s : Spsc) : Prop where
  /-- The `k`-th successful read returned the length and offset of the `k`-th successful
  write: nothing lost in between, duplicated or reordered. -/
  read_prefix : t.read <+: t.wrote
  /-- The reader has read only elements its batch can see, -/
  read_le_snap : t.read.length ≤ t.snap
  /-- and its batch sees only elements of finished write batches. -/
  snap_le_pub : t.snap ≤ t.pub
  pub_le_wrote : t.pub ≤ t.wrote.length
  /-- A read fails only when the reader has read everything its batch can see. -/
  read_fails_iff : (eqRead s.reader s.elems).1 < 0 ↔ t.read.length = t.snap
  /-- `eq_peek`, `eq_peek_offset` and `eq_read` return the next element of the writes. -/
  next : ∀ e ∈ t.wrote[t.read.length]?, t.read.length < t.snap →
    eqPeek s.reader s.elems = signed32 e.1 ∧ eqPeekOffset s.reader s.elems = (e.2, some e.1) ∧
    (eqRead s.reader s.elems).1 = e.2 ∧ (eqRead s.reader s.elems).2.1 = some e.1

/-- **The element queue is a FIFO between its writer and its reader**, for any interleaving
of their batches and across any number of wraps of the `u32` counters: after any run from
`eq_init_contig` with power-of-two sizes, the reader's view is that of a FIFO. -/
theorem fifo_of_run {nElems bufLen : UInt32} {c : ℕ} (hn : nElems.toNat = 2 ^ a)
    (hb : bufLen.toNat = 2 ^ c) {es : List Event} {s : Spsc}
    (hrun : Run (Init nElems bufLen) Step es s) : Fifo (tally es) s := by
  obtain ⟨hw, rel, lens, hinv⟩ := good_of_run hn hb hrun
  set t := tally es
  have hlen : t.wrote.length = lens.length := by rw [hinv.wrote, length_eqLayout]
  refine ⟨?_, hinv.read_le, hinv.snap_le, hlen ▸ hinv.pub_le, ?_, ?_⟩
  · rw [hinv.read, hinv.wrote, ← take_eqLayout]
    exact List.take_prefix _ _
  · by_cases heq : s.reader.elemTail = s.reader.elemHead
    · simp only [eqRead_of_eq _ heq, hinv.eq_of_eq heq, iff_true]
      simp [EAGAIN]
    · have hret := eqOffsetRet_nonneg hinv.bufMask_lt s.reader.bufHead
        (s.elems (s.reader.elemHead &&& s.reader.elemMask))
      rw [eqRead_of_ne _ heq]
      simp only [Int.not_lt.2 hret, false_iff]
      exact (hinv.read_lt_of_ne heq).ne
  · intro e he hsnap
    have hlt : t.read.length < lens.length :=
      lt_of_lt_of_le hsnap (hinv.snap_le.trans hinv.pub_le)
    have hne : s.reader.elemTail ≠ s.reader.elemHead := fun heq =>
      hsnap.ne (hinv.eq_of_eq heq)
    -- the entry of the write log is the layout of the next unread element
    have he' : e = (lens[t.read.length], eqOffsetRet s.reader.bufMask
        (eqBufEnd s.reader.bufMask 0 (lens.take t.read.length)) lens[t.read.length]) := by
      rw [hinv.wrote, getElem?_eqLayout _ hlt, Option.mem_def, Option.some_inj] at he
      exact he.symm
    subst he'
    rw [eqPeek_of_ne _ hne, eqPeekOffset_of_ne _ hne, eqRead_of_ne _ hne, hinv.head_slot hlt,
      hinv.rBufHead]
    exact ⟨rfl, rfl, rfl, rfl⟩

/-- A writer batch of two elements, of 5 and 12 bytes, then a reader batch that reads both
back, at the offsets 0 and 8 the writes returned. -/
theorem fifo_of_run_two_elements :
    (4 : UInt32).toNat = 2 ^ 2 ∧ (64 : UInt32).toNat = 2 ^ 6 ∧
      ∃ s, Run (Init 4 64) Step
          [.startWrite₁, .startWrite₂, .write 5 0, .write 12 8, .finishWrite₁, .finishWrite₂,
            .startRead, .read 0 (some 5), .read 8 (some 12), .finishRead₁, .finishRead₂] s ∧
        Fifo (tally
          [.startWrite₁, .startWrite₂, .write 5 0, .write 12 8, .finishWrite₁, .finishWrite₂,
            .startRead, .read 0 (some 5), .read 8 (some 12), .finishRead₁, .finishRead₂]) s := by
  obtain ⟨s, hrun⟩ : ∃ s, Run (Init 4 64) Step
      [.startWrite₁, .startWrite₂, .write 5 0, .write 12 8, .finishWrite₁, .finishWrite₂,
        .startRead, .read 0 (some 5), .read 8 (some 12), .finishRead₁, .finishRead₂] s :=
    ⟨_, (((((((((((Run.start (s := ⟨eqInitShared, fun _ => 0, ⟨3, 63, 0, 0, 0, 0⟩,
        ⟨3, 63, 0, 0, 0, 0⟩, .idle, .idle⟩) ⟨rfl, rfl, rfl, rfl, rfl⟩).snoc
        (.startWrite₁ _ rfl)).snoc (.startWrite₂ _ rfl)).snoc (.write _ 5 rfl)).snoc
        (.write _ 12 rfl)).snoc (.finishWrite₁ _ rfl)).snoc (.finishWrite₂ _ rfl)).snoc
        (.startRead _ rfl)).snoc (.read _ rfl)).snoc (.read _ rfl)).snoc
        (.finishRead₁ _ rfl)).snoc (.finishRead₂ _ rfl)⟩
  exact ⟨rfl, rfl, s, hrun, fifo_of_run (a := 2) (c := 6) rfl rfl hrun⟩

end Spsc

end ElementQueue

end OtelEbpf
