import OtelEbpf.Lib.Word
import OtelEbpf.Platform

/-!
# The element queue

`util/element_queue.c` is a single-producer single-consumer queue of variable-length elements
in one contiguous memory area: an `element_queue_shared` header with the published heads and
tails, an array `elems` of `n_elems` element lengths, and a data buffer of `buf_len` bytes.
Writer and reader each keep an `element_queue` struct with private copies of the four
counters; all four are free-running `u32`s.

An element of length `len` takes `(len + 7) & ~7` bytes of the data buffer.  It never wraps
around the end of the buffer: `__eq_next_offset_by_len` skips to the start of the next lap when
the element would cross it.  Writer and reader each compute an element's offset with this
function, the writer from its `buf_tail`, the reader from its `buf_head`, so the element's
position is never stored.

This file is the faithful layer: one definition per C function, on the struct fields the
function reads and writes.  The memory area is passed explicitly: the element-length array
as a function `elems : UInt32 → UInt32` from slot to length.  The data bytes are not modelled
here (no function of this file reads them).

* `eqWrite_cases`, `eqRead_cases` : what a call can do, as a disjunction of its outcomes.
* `eqLayout` : the `(length, offset)` pairs a stream of elements is written at; both sides
  follow it (`eqWrite_ok`, `eqRead_ok`).
-/

namespace OtelEbpf

/-- `struct element_queue_shared`: the counters published by `eq_finish_write_batch` (tails)
and `eq_finish_read_batch` (heads). -/
structure ElementQueueShared where
  elemHead : UInt32
  bufHead : UInt32
  elemTail : UInt32
  bufTail : UInt32
  deriving DecidableEq, Repr

/-- `struct element_queue`: one side's copy of the counters, and the two masks.  The pointers
`shared`, `elems` and `data` into the memory area are not fields: the functions receive the
memory they touch as arguments. -/
structure ElementQueue where
  elemMask : UInt32
  bufMask : UInt32
  elemHead : UInt32
  bufHead : UInt32
  elemTail : UInt32
  bufTail : UInt32
  deriving DecidableEq, Repr

namespace ElementQueue

/-- `__eq_next_offset_by_len`: where an element of `len` bytes starts if the next free byte
is `bufOffset`: there, or at the start of the next lap if the element would cross the end of
the buffer.  The difference of the two laps is compared as an `int`. -/
def eqNextOffsetByLen (bufOffset bufMask len : UInt32) : UInt32 :=
  if 0 < signed32 (((bufOffset + len - 1) &&& ~~~bufMask) - (bufOffset &&& ~~~bufMask)) then
    (bufOffset + len - 1) &&& ~~~bufMask
  else bufOffset

/-- `(len + 7) & ~7`, the bytes an element of length `len` occupies (in `eq_write`,
`eq_peek_offset` and `eq_read`). -/
def eqAlignedLen (len : UInt32) : UInt32 := (len + 7) &&& ~~~7

/-- `eq_init_shared`. -/
def eqInitShared : ElementQueueShared := ⟨0, 0, 0, 0⟩

/-- `eq_init_contig`: rejects sizes that are not powers of two (the `NULL` checks have no
counterpart here) and copies the shared counters. -/
def eqInitContig (nElems bufLen : UInt32) (shared : ElementQueueShared) :
    Except ℤ ElementQueue :=
  if nElems &&& (nElems - 1) ≠ 0 then .error (-EINVAL)
  else if bufLen &&& (bufLen - 1) ≠ 0 then .error (-EINVAL)
  else .ok
    { elemMask := nElems - 1, bufMask := bufLen - 1,
      elemHead := shared.elemHead, elemTail := shared.elemTail,
      bufHead := shared.bufHead, bufTail := shared.bufTail }

/-- `eq_write`: reserve room for an element of `len` bytes and record its length.  Returns
the offset of the element in the data buffer, `-EINVAL` or `-ENOSPC`, with the writer's
struct and the length array afterwards. -/
def eqWrite (eq : ElementQueue) (elems : UInt32 → UInt32) (len : UInt32) :
    ℤ × ElementQueue × (UInt32 → UInt32) :=
  let alignedLen := eqAlignedLen len
  if alignedLen > eq.bufMask then (-EINVAL, eq, elems)
  -- is the element queue full?
  else if eq.elemTail - eq.elemHead ≥ eq.elemMask + 1 then (-ENOSPC, eq, elems)
  else
    let bufTail := eqNextOffsetByLen eq.bufTail eq.bufMask alignedLen
    -- is there enough space in the eq?
    if bufTail + alignedLen - eq.bufHead > eq.bufMask + 1 then (-ENOSPC, eq, elems)
    else
      (signed32 (bufTail &&& eq.bufMask),
        { eq with bufTail := bufTail + alignedLen, elemTail := eq.elemTail + 1 },
        Function.update elems (eq.elemTail &&& eq.elemMask) len)

/-- `eq_peek`: the length of the next element, as an `int`, or `-ENOENT`. -/
def eqPeek (eq : ElementQueue) (elems : UInt32 → UInt32) : ℤ :=
  if eq.elemTail = eq.elemHead then -ENOENT
  else signed32 (elems (eq.elemHead &&& eq.elemMask))

/-- `eq_peek_offset`: the offset of the next element, or `-ENOENT`; on success the length is
stored through `lenp`. -/
def eqPeekOffset (eq : ElementQueue) (elems : UInt32 → UInt32) : ℤ × Option UInt32 :=
  if eq.elemTail = eq.elemHead then (-ENOENT, none)
  else
    let len := elems (eq.elemHead &&& eq.elemMask)
    let offset := eqNextOffsetByLen eq.bufHead eq.bufMask (eqAlignedLen len)
    (signed32 (offset &&& eq.bufMask), some len)

/-- `eq_read`: consume the next element.  Returns its offset (or `-EAGAIN`), the length
stored through `lenp`, and the reader's struct afterwards. -/
def eqRead (eq : ElementQueue) (elems : UInt32 → UInt32) :
    ℤ × Option UInt32 × ElementQueue :=
  if eq.elemTail = eq.elemHead then (-EAGAIN, none, eq)
  else
    let len := elems (eq.elemHead &&& eq.elemMask)
    let alignedLen := eqAlignedLen len
    let offset := eqNextOffsetByLen eq.bufHead eq.bufMask alignedLen
    (signed32 (offset &&& eq.bufMask), some len,
      { eq with elemHead := eq.elemHead + 1, bufHead := offset + alignedLen })

/-- `eq_start_write_batch`: load the published heads. -/
def eqStartWriteBatch (eq : ElementQueue) (shared : ElementQueueShared) : ElementQueue :=
  { eq with elemHead := shared.elemHead, bufHead := shared.bufHead }

/-- `eq_finish_write_batch`: publish the tails, `buf_tail` first. -/
def eqFinishWriteBatch (eq : ElementQueue) (shared : ElementQueueShared) :
    ElementQueueShared :=
  { shared with bufTail := eq.bufTail, elemTail := eq.elemTail }

/-- `eq_start_read_batch`: load the published element tail (`buf_tail` is not read). -/
def eqStartReadBatch (eq : ElementQueue) (shared : ElementQueueShared) : ElementQueue :=
  { eq with elemTail := shared.elemTail }

/-- `eq_finish_read_batch`: publish the heads, `buf_head` first. -/
def eqFinishReadBatch (eq : ElementQueue) (shared : ElementQueueShared) :
    ElementQueueShared :=
  { shared with bufHead := eq.bufHead, elemHead := eq.elemHead }

/-! ### The layout of a stream of elements -/

/-- The byte after an element of length `len` placed at the first fit from byte `pos`. -/
def eqAdvance (bufMask pos len : UInt32) : UInt32 :=
  eqNextOffsetByLen pos bufMask (eqAlignedLen len) + eqAlignedLen len

/-- The return value of `eq_write` and `eq_read` for an element of length `len` placed at the
first fit from byte `pos`: its offset in the data buffer, as an `int`. -/
def eqOffsetRet (bufMask pos len : UInt32) : ℤ :=
  signed32 (eqNextOffsetByLen pos bufMask (eqAlignedLen len) &&& bufMask)

/-- The byte after the elements `lens`, placed one after the other from byte `pos`. -/
def eqBufEnd (bufMask pos : UInt32) (lens : List UInt32) : UInt32 :=
  lens.foldl (eqAdvance bufMask) pos

/-- The length and offset of each of the elements `lens`, placed one after the other from
byte `pos`. -/
def eqLayout (bufMask : UInt32) : UInt32 → List UInt32 → List (UInt32 × ℤ)
  | _, [] => []
  | pos, len :: lens => (len, eqOffsetRet bufMask pos len) :: eqLayout bufMask (eqAdvance bufMask pos len) lens

variable {bufMask pos : UInt32}

@[simp] theorem eqBufEnd_nil : eqBufEnd bufMask pos [] = pos := rfl

@[simp] theorem eqBufEnd_append_singleton (lens : List UInt32) (len : UInt32) :
    eqBufEnd bufMask pos (lens ++ [len]) = eqAdvance bufMask (eqBufEnd bufMask pos lens) len := by
  simp [eqBufEnd]

@[simp] theorem length_eqLayout (lens : List UInt32) :
    (eqLayout bufMask pos lens).length = lens.length := by
  induction lens generalizing pos with
  | nil => rfl
  | cons len lens ih => simp [eqLayout, ih]

theorem eqLayout_append_singleton (lens : List UInt32) (len : UInt32) :
    eqLayout bufMask pos (lens ++ [len]) =
      eqLayout bufMask pos lens ++ [(len, eqOffsetRet bufMask (eqBufEnd bufMask pos lens) len)] := by
  induction lens generalizing pos with
  | nil => rfl
  | cons l lens ih => simp [eqLayout, ih, eqBufEnd]

theorem take_eqLayout (lens : List UInt32) (k : ℕ) :
    (eqLayout bufMask pos lens).take k = eqLayout bufMask pos (lens.take k) := by
  induction lens generalizing pos k with
  | nil => simp [eqLayout]
  | cons len lens ih =>
    cases k with
    | zero => simp [eqLayout]
    | succ k => simp [eqLayout, ih]

/-- The `k`-th element of a stream sits where the ones before it end. -/
theorem getElem?_eqLayout (lens : List UInt32) {k : ℕ} (hk : k < lens.length) :
    (eqLayout bufMask pos lens)[k]? =
      some (lens[k], eqOffsetRet bufMask (eqBufEnd bufMask pos (lens.take k)) lens[k]) := by
  induction lens generalizing pos k with
  | nil => simp at hk
  | cons len lens ih =>
    cases k with
    | zero => rfl
    | succ k =>
      simp only [eqLayout, List.getElem?_cons_succ, List.getElem_cons_succ, List.take_succ_cons]
      exact ih (by simpa using hk)

/-! ### What one call can do -/

theorem eqOffsetRet_nonneg (hmask : bufMask.toNat < 2 ^ 31) (pos len : UInt32) :
    0 ≤ eqOffsetRet bufMask pos len := by
  rw [eqOffsetRet, signed32_nonneg_iff, UInt32.toNat_and]
  exact lt_of_le_of_lt Nat.and_le_right hmask

/-- `eq_write` either fails, returning a negative code and changing nothing, or finds a free
slot in the length array (the queue holds fewer than `elem_mask + 1` elements) and writes the
element at the first fit from `buf_tail`. -/
theorem eqWrite_cases (eq : ElementQueue) (elems : UInt32 → UInt32) (len : UInt32) :
    ((eqWrite eq elems len).1 < 0 ∧ (eqWrite eq elems len).2 = (eq, elems)) ∨
    (eq.elemTail - eq.elemHead < eq.elemMask + 1 ∧
      eqWrite eq elems len =
        (eqOffsetRet eq.bufMask eq.bufTail len,
          { eq with bufTail := eqAdvance eq.bufMask eq.bufTail len, elemTail := eq.elemTail + 1 },
          Function.update elems (eq.elemTail &&& eq.elemMask) len)) := by
  by_cases h₁ : eqAlignedLen len > eq.bufMask
  · exact .inl (by simp [eqWrite, h₁, EINVAL])
  by_cases h₂ : eq.elemTail - eq.elemHead ≥ eq.elemMask + 1
  · exact .inl (by simp [eqWrite, h₁, h₂, ENOSPC])
  by_cases h₃ : eqNextOffsetByLen eq.bufTail eq.bufMask (eqAlignedLen len) + eqAlignedLen len -
      eq.bufHead > eq.bufMask + 1
  · exact .inl (by simp [eqWrite, h₁, h₂, h₃, ENOSPC])
  · exact .inr ⟨by simpa using h₂, by simp [eqWrite, h₁, h₂, h₃, eqOffsetRet, eqAdvance]⟩

/-- `(len + 7) & ~7` wraps to `0` for the seven largest `u32` lengths, so `eq_write` accepts an
element of `2 ^ 32 - 1` bytes into a fresh queue of 64 bytes: it returns offset `0`, and the
length it records reads back from `eq_peek` as `-1`. -/
theorem eqWrite_accepts_wrapped_len :
    eqInitContig 4 64 eqInitShared = .ok ⟨3, 63, 0, 0, 0, 0⟩ ∧
      (eqWrite ⟨3, 63, 0, 0, 0, 0⟩ (fun _ => 0) 0xFFFFFFFF).1 = 0 ∧
      64 < 0 + (0xFFFFFFFF : UInt32).toNat ∧
      eqPeek (eqWrite ⟨3, 63, 0, 0, 0, 0⟩ (fun _ => 0) 0xFFFFFFFF).2.1
        (eqWrite ⟨3, 63, 0, 0, 0, 0⟩ (fun _ => 0) 0xFFFFFFFF).2.2 = -1 := by
  decide

theorem eqRead_of_eq {eq : ElementQueue} (elems : UInt32 → UInt32)
    (h : eq.elemTail = eq.elemHead) : eqRead eq elems = (-EAGAIN, none, eq) := by
  simp [eqRead, h]

/-- A successful `eq_read` takes the length from the head slot and places the element at the
first fit from `buf_head`, exactly as the writer did. -/
theorem eqRead_of_ne {eq : ElementQueue} (elems : UInt32 → UInt32)
    (h : eq.elemTail ≠ eq.elemHead) :
    eqRead eq elems =
      (eqOffsetRet eq.bufMask eq.bufHead (elems (eq.elemHead &&& eq.elemMask)),
        some (elems (eq.elemHead &&& eq.elemMask)),
        { eq with elemHead := eq.elemHead + 1,
                  bufHead := eqAdvance eq.bufMask eq.bufHead (elems (eq.elemHead &&& eq.elemMask)) }) := by
  simp [eqRead, h, eqOffsetRet, eqAdvance]

theorem eqPeek_of_ne {eq : ElementQueue} (elems : UInt32 → UInt32)
    (h : eq.elemTail ≠ eq.elemHead) :
    eqPeek eq elems = signed32 (elems (eq.elemHead &&& eq.elemMask)) := by
  simp [eqPeek, h]

theorem eqPeekOffset_of_ne {eq : ElementQueue} (elems : UInt32 → UInt32)
    (h : eq.elemTail ≠ eq.elemHead) :
    eqPeekOffset eq elems =
      (eqOffsetRet eq.bufMask eq.bufHead (elems (eq.elemHead &&& eq.elemMask)),
        some (elems (eq.elemHead &&& eq.elemMask))) := by
  simp [eqPeekOffset, h, eqOffsetRet]

end ElementQueue

end OtelEbpf
