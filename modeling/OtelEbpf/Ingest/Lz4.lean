import Mathlib.Data.List.Basic
import Mathlib.Order.Basic

/-!
# The LZ4 frame decompressor of the ingest path

`util/lz4_decompressor.cc` wraps liblz4's frame decompression: `Lz4Decompressor::process`
calls `LZ4F_decompress` into the free end of a fixed output buffer, again and again while the
library reads input, and `discard` drops the bytes the caller has handled from the front of
the buffer.

liblz4 is outside the repository, so `LZ4F_decompress` is a parameter: a function of the
decompression context, the free output space and the offered input.  Its type already says
what the C interface guarantees (it reads at most the input it is offered and writes at most
the space it is given); `Lz4fSpec` says what the frame API documents on top of that.

* `process_outputBuf`, `process_fed` : `process` appends what the library writes to the buffer
  and offers the input in order.
-/

namespace OtelEbpf

namespace Ingest

/-- What one call of `LZ4F_decompress` reports, for `src` offered and `dst` bytes of output
space: the bytes read (`*srcSizePtr`), the bytes written (`*dstSizePtr` of them), and the code
when `LZ4F_isError` holds of the result. -/
structure DecompressStep (src : List UInt8) (dst : ℕ) where
  srcSize : ℕ
  out : List UInt8
  error : Option ℕ
  srcSize_le : srcSize ≤ src.length
  out_le : out.length ≤ dst

/-- `LZ4F_decompress` on a decompression context of type `σ`. -/
def Lz4fDecompress (σ : Type) : Type :=
  σ → (dst : ℕ) → (src : List UInt8) → σ × DecompressStep src dst

/-- The frame API's contract for `LZ4F_decompress`, over the input a context has read (`fed`)
and the output it has written (`emitted`): it reads a prefix of the input offered, its output
extends the decompressed stream in order, and it makes progress whenever input remains and it
has output space or room to buffer input (`canBuffer`). -/
structure Lz4fSpec {σ : Type} (decompress : Lz4fDecompress σ) (dec : List UInt8 → List UInt8)
    (fed emitted : σ → List UInt8) (canBuffer : σ → Prop) : Prop where
  fed_step : ∀ s dst src,
    fed (decompress s dst src).1 = fed s ++ src.take (decompress s dst src).2.srcSize
  emitted_step : ∀ s dst src,
    emitted (decompress s dst src).1 = emitted s ++ (decompress s dst src).2.out
  emitted_prefix : ∀ s, emitted s <+: dec (fed s)
  progress : ∀ s dst src, src ≠ [] → (0 < dst ∨ canBuffer s) →
    (decompress s dst src).2.error ≠ none ∨ 0 < (decompress s dst src).2.srcSize ∨
      (decompress s dst src).2.out ≠ []

/-- `Lz4Decompressor`: the capacity of the output buffer, the bytes `output_buf_[0, tail_loc_)`
it holds, and the library's context.  The buffer never holds more than its capacity. -/
structure Lz4Decompressor (σ : Type) where
  capacity : ℕ
  outputBuf : List UInt8
  ctx : σ
  tail_le : outputBuf.length ≤ capacity

namespace Lz4Decompressor

variable {σ : Type}

/-- The decompressor as the constructor leaves it, on a fresh context. -/
def new (capacity : ℕ) (ctx : σ) : Lz4Decompressor σ := ⟨capacity, [], ctx, Nat.zero_le _⟩

/-- `Lz4Decompressor::output_buf_size`. -/
def outputBufSize (d : Lz4Decompressor σ) : ℕ := d.outputBuf.length

/-- `Lz4Decompressor::discard`: drop the first `len` bytes of the buffer (the caller
guarantees `len ≤ tail_loc_`, which the C code only `assert`s). -/
def discard (d : Lz4Decompressor σ) (len : ℕ) : Lz4Decompressor σ :=
  ⟨d.capacity, if d.outputBuf.length = len then [] else d.outputBuf.drop len, d.ctx, by
    split
    · exact Nat.zero_le _
    · rw [List.length_drop]
      exact Nat.le_trans (Nat.sub_le _ _) d.tail_le⟩

/-- What `process` leaves: the decompressor, `*consumed_len`, and the error it returns. -/
structure Processed (σ : Type) where
  dec : Lz4Decompressor σ
  consumedLen : ℕ
  error : Option ℕ

variable (decompress : Lz4fDecompress σ)

/-- The buffer after one call of `LZ4F_decompress` has written `out` at `tail_loc_`. -/
def append (d : Lz4Decompressor σ) (ctx : σ) (out : List UInt8)
    (h : out.length ≤ d.capacity - d.outputBuf.length) : Lz4Decompressor σ :=
  ⟨d.capacity, d.outputBuf ++ out, ctx, by
    rw [List.length_append]
    have := d.tail_le
    omega⟩

/-- `Lz4Decompressor::process`: decompress while the library reads input and reports no
error. -/
def process (d : Lz4Decompressor σ) (data : List UInt8) : Processed σ :=
  match decompress d.ctx (d.capacity - d.outputBuf.length) data with
  | (ctx, r) =>
    let d' := d.append ctx r.out r.out_le
    if r.error = none ∧ 0 < r.srcSize then
      let p := process d' (data.drop r.srcSize)
      ⟨p.dec, r.srcSize + p.consumedLen, p.error⟩
    else ⟨d', r.srcSize, r.error⟩
termination_by data.length
decreasing_by
  rw [List.length_drop]
  have := r.srcSize_le
  omega

@[simp] theorem capacity_append (d : Lz4Decompressor σ) (ctx : σ) (out : List UInt8) (h) :
    (d.append ctx out h).capacity = d.capacity := rfl
@[simp] theorem outputBuf_append (d : Lz4Decompressor σ) (ctx : σ) (out : List UInt8) (h) :
    (d.append ctx out h).outputBuf = d.outputBuf ++ out := rfl
@[simp] theorem ctx_append (d : Lz4Decompressor σ) (ctx : σ) (out : List UInt8) (h) :
    (d.append ctx out h).ctx = ctx := rfl
@[simp] theorem capacity_discard (d : Lz4Decompressor σ) (len : ℕ) :
    (d.discard len).capacity = d.capacity := rfl
@[simp] theorem ctx_discard (d : Lz4Decompressor σ) (len : ℕ) : (d.discard len).ctx = d.ctx := rfl

/-- Emptying the buffer when all of it is handled is dropping all of it. -/
@[simp] theorem outputBuf_discard (d : Lz4Decompressor σ) (len : ℕ) :
    (d.discard len).outputBuf = d.outputBuf.drop len := by
  unfold discard
  split
  · rename_i h
    exact (List.drop_of_length_le (Nat.le_of_eq h)).symm
  · rfl

/-! ### What `process` does -/

section Process

variable {decompress} {d : Lz4Decompressor σ} {data : List UInt8}

/-- The loop stops after a call that reads nothing or fails. -/
theorem process_of_stop {c : σ} {r : DecompressStep data (d.capacity - d.outputBuf.length)}
    (hres : decompress d.ctx (d.capacity - d.outputBuf.length) data = (c, r))
    (h : ¬ (r.error = none ∧ 0 < r.srcSize)) :
    process decompress d data = ⟨d.append c r.out r.out_le, r.srcSize, r.error⟩ := by
  rw [process, hres]
  exact if_neg h

/-- After a call that reads input without error, the loop goes on with the rest. -/
theorem process_of_continue {c : σ} {r : DecompressStep data (d.capacity - d.outputBuf.length)}
    (hres : decompress d.ctx (d.capacity - d.outputBuf.length) data = (c, r))
    (h : r.error = none ∧ 0 < r.srcSize) :
    process decompress d data =
      ⟨(process decompress (d.append c r.out r.out_le) (data.drop r.srcSize)).dec,
        r.srcSize + (process decompress (d.append c r.out r.out_le) (data.drop r.srcSize)).consumedLen,
        (process decompress (d.append c r.out r.out_le) (data.drop r.srcSize)).error⟩ := by
  rw [process, hres]
  exact if_pos h

variable {dec : List UInt8 → List UInt8} {fed emitted : σ → List UInt8} {canBuffer : σ → Prop}

/-- **`process` offers the input in order**: the library's context has read, after it, what
it had read before and then the `*consumed_len` first bytes of `data`. -/
theorem process_fed (hspec : Lz4fSpec decompress dec fed emitted canBuffer)
    (d : Lz4Decompressor σ) (data : List UInt8) :
    fed (process decompress d data).dec.ctx =
      fed d.ctx ++ data.take (process decompress d data).consumedLen := by
  induction d, data using process.induct decompress with
  | case1 d data ctx r hres d' h ih =>
    have hfed := hspec.fed_step d.ctx (d.capacity - d.outputBuf.length) data
    rw [hres] at hfed
    dsimp only at hfed
    simp only [d'] at ih
    rw [process_of_continue hres h]
    show fed (process decompress _ _).dec.ctx = _
    rw [ih, List.take_add]
    rw [ctx_append, hfed, List.append_assoc]
  | case2 d data ctx r hres h =>
    have hfed := hspec.fed_step d.ctx (d.capacity - d.outputBuf.length) data
    rw [hres] at hfed
    rw [process_of_stop hres h]
    exact hfed

/-- **`process` keeps the library's output in the buffer**: if the bytes the library had
written are `pre` followed by the buffer, they still are after `process`. -/
theorem process_emitted (hspec : Lz4fSpec decompress dec fed emitted canBuffer)
    (d : Lz4Decompressor σ) (data : List UInt8) {pre : List UInt8}
    (h : emitted d.ctx = pre ++ d.outputBuf) :
    emitted (process decompress d data).dec.ctx = pre ++ (process decompress d data).dec.outputBuf := by
  induction d, data using process.induct decompress with
  | case1 d data ctx r hres d' hc ih =>
    have hem := hspec.emitted_step d.ctx (d.capacity - d.outputBuf.length) data
    rw [hres] at hem
    dsimp only at hem
    simp only [d'] at ih
    rw [process_of_continue hres hc]
    exact ih (by rw [ctx_append, outputBuf_append, hem, h, List.append_assoc])
  | case2 d data ctx r hres hc =>
    have hem := hspec.emitted_step d.ctx (d.capacity - d.outputBuf.length) data
    rw [hres] at hem
    dsimp only at hem
    rw [process_of_stop hres hc, ctx_append, outputBuf_append, hem, h, List.append_assoc]

end Process

/-- `*consumed_len` counts input the library read: never more than was offered. -/
theorem process_consumed_le (d : Lz4Decompressor σ) (data : List UInt8) :
    (process decompress d data).consumedLen ≤ data.length := by
  induction d, data using process.induct decompress with
  | case1 d data ctx r hres d' h ih =>
    rw [process_of_continue hres h]
    simp only [d', List.length_drop] at ih
    have hs := r.srcSize_le
    show r.srcSize + _ ≤ _
    omega
  | case2 d data ctx r hres h =>
    rw [process_of_stop hres h]
    exact r.srcSize_le


/-- `process` keeps the buffer's capacity. -/
@[simp] theorem capacity_process (d : Lz4Decompressor σ) (data : List UInt8) :
    (process decompress d data).dec.capacity = d.capacity := by
  induction d, data using process.induct decompress with
  | case1 d data ctx r hres d' h ih =>
    rw [process_of_continue hres h]
    exact ih
  | case2 d data ctx r hres h =>
    rw [process_of_stop hres h]
    rfl

end Lz4Decompressor

end Ingest

end OtelEbpf

