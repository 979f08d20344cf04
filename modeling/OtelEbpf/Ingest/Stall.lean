import Mathlib
import OtelEbpf.Ingest.Worker

/-!
# A decompressor that holds output back

`LZ4F_decompress` decodes a block into an internal buffer (`tmpOut`) when the output space is
smaller than the block, and flushes that buffer on the next calls before it reads more input;
a call that only flushes reads nothing (`*srcSizePtr = 0`) although input is offered.  The frame
API allows this, and asks the caller to offer the unread input again.

`runDecompress n` is a small codec that behaves the same way: each byte of its input stands
for `n` copies of itself, and what does not fit in the output space is held back.  It meets
`Lz4fSpec`.  On it, with a first message handled by `handle` and the decompressed bytes all
handled by `handle_multiple`, the second loop of `received_data` stops on a call that only
flushed, and `received_data` returns the whole buffer, one byte of which the codec never read.
-/

namespace OtelEbpf

namespace Ingest

/-- The decompression of a run-length stream: each byte stands for `n` copies of itself. -/
def runDecode (n : ℕ) (c : List UInt8) : List UInt8 := c.flatMap fun b => List.replicate n b

/-- A context of the run-length codec: what it has read, what it has written, and the decoded
bytes it holds back for want of output space (liblz4's `tmpOut`). -/
structure RunCtx (n : ℕ) where
  fed : List UInt8
  emitted : List UInt8
  held : List UInt8
  decoded : emitted ++ held = runDecode n fed

/-- A fresh context. -/
def RunCtx.init (n : ℕ) : RunCtx n := ⟨[], [], [], rfl⟩

/-- The output of a call that reads a byte: the held bytes, then what fits of the decoded
ones. -/
theorem length_append_take_le (held l : List UInt8) {dst : ℕ} (h : ¬dst < held.length) :
    (held ++ l.take (dst - held.length)).length ≤ dst := by
  rw [List.length_append, List.length_take]
  omega

/-- One call of the codec: flush the held bytes into the space given; once they are all out,
decode one input byte into the rest of the space and hold back what does not fit. -/
def runDecompress (n : ℕ) : Lz4fDecompress (RunCtx n) := fun s dst src =>
  if h : dst < s.held.length then
    (⟨s.fed, s.emitted ++ s.held.take dst, s.held.drop dst, by
        rw [List.append_assoc, List.take_append_drop]
        exact s.decoded⟩,
      ⟨0, s.held.take dst, none, Nat.zero_le _, by
        rw [List.length_take]
        exact Nat.min_le_left _ _⟩)
  else
    match src with
    | [] => (⟨s.fed, s.emitted ++ s.held, [], by rw [List.append_nil]; exact s.decoded⟩,
        ⟨0, s.held, none, Nat.zero_le _, Nat.le_of_not_lt h⟩)
    | b :: _ =>
      (⟨s.fed ++ [b], s.emitted ++ s.held ++ (List.replicate n b).take (dst - s.held.length),
          (List.replicate n b).drop (dst - s.held.length), by
          rw [List.append_assoc, List.take_append_drop, s.decoded, runDecode, runDecode,
            List.flatMap_append, List.flatMap_singleton]⟩,
        ⟨1, s.held ++ (List.replicate n b).take (dst - s.held.length), none,
          Nat.succ_le_succ (Nat.zero_le _), length_append_take_le s.held _ h⟩)

/-- The codec never fails and reads at most one byte a call. -/
theorem runDecompress_spec (n : ℕ) :
    Lz4fSpec (runDecompress n) (runDecode n) RunCtx.fed RunCtx.emitted fun s => s.held = [] where
  fed_step s dst src := by
    unfold runDecompress
    split
    · simp
    · split <;> simp
  emitted_step s dst src := by
    unfold runDecompress
    split
    · rfl
    · split
      · rfl
      · simp
  emitted_prefix s := ⟨s.held, s.decoded⟩
  progress s dst src hsrc hroom := by
    unfold runDecompress
    split
    · rename_i h
      -- only flushing: the space is not empty, so something is written
      have hdst : 0 < dst := by
        rcases hroom with hroom | hroom
        · exact hroom
        · rw [hroom] at h
          exact absurd h (Nat.not_lt_zero _)
      right; right
      intro hnil
      rw [List.take_eq_nil_iff] at hnil
      rcases hnil with hnil | hnil
      · omega
      · rw [hnil] at h
        exact absurd h (Nat.not_lt_zero _)
    · split
      · exact absurd rfl hsrc
      · right; left
        exact Nat.one_pos

/-! ### The calls of the failing run -/

section Calls

variable {n : ℕ} {s : RunCtx n}

/-- A call with less space than the held bytes only flushes. -/
theorem runDecompress_of_lt {dst : ℕ} (src : List UInt8) (h : dst < s.held.length) :
    (runDecompress n s dst src).1.held = s.held.drop dst ∧
      (runDecompress n s dst src).1.fed = s.fed ∧
      (runDecompress n s dst src).2.srcSize = 0 ∧
      (runDecompress n s dst src).2.out = s.held.take dst ∧
      (runDecompress n s dst src).2.error = none := by
  unfold runDecompress
  rw [dif_pos h]
  exact ⟨rfl, rfl, rfl, rfl, rfl⟩

/-- A call on an empty context decodes one byte into the space given. -/
theorem runDecompress_of_nil (dst : ℕ) (b : UInt8) (src : List UInt8) (h : s.held = []) :
    (runDecompress n s dst (b :: src)).1.held = (List.replicate n b).drop dst ∧
      (runDecompress n s dst (b :: src)).1.fed = s.fed ++ [b] ∧
      (runDecompress n s dst (b :: src)).2.srcSize = 1 ∧
      (runDecompress n s dst (b :: src)).2.out = (List.replicate n b).take dst ∧
      (runDecompress n s dst (b :: src)).2.error = none := by
  have hlt : ¬ dst < s.held.length := by rw [h]; exact Nat.not_lt_zero _
  unfold runDecompress
  rw [dif_neg hlt]
  simp [h]

end Calls

/-! ### `process` on the codec -/

section Process

variable {n : ℕ}

/-- With the output buffer full short of the held bytes, `process` only flushes. -/
theorem process_runDecompress_of_lt {d : Lz4Decompressor (RunCtx n)} (data : List UInt8)
    (h : d.capacity - d.outputBuf.length < d.ctx.held.length) :
    (d.process (runDecompress n) data).consumedLen = 0 ∧
      (d.process (runDecompress n) data).error = none ∧
      (d.process (runDecompress n) data).dec.outputBuf =
        d.outputBuf ++ d.ctx.held.take (d.capacity - d.outputBuf.length) ∧
      (d.process (runDecompress n) data).dec.ctx.fed = d.ctx.fed ∧
      (d.process (runDecompress n) data).dec.ctx.held =
        d.ctx.held.drop (d.capacity - d.outputBuf.length) := by
  obtain ⟨hheld, hfed, hsrc, hout, herr⟩ := runDecompress_of_lt (s := d.ctx) data h
  rw [Lz4Decompressor.process_of_stop (c := (runDecompress n d.ctx _ data).1)
    (r := (runDecompress n d.ctx _ data).2) rfl (by rw [hsrc]; exact fun h => Nat.lt_irrefl 0 h.2)]
  exact ⟨hsrc, herr, by rw [Lz4Decompressor.outputBuf_append, hout], hfed, hheld⟩

/-- On an empty buffer and a fresh context, a byte that decodes to more than the buffer and a
second byte after it: `process` decodes the first, fills the buffer, and stops on the call that
finds no space, leaving the second byte unread. -/
theorem process_runDecompress_first {d : Lz4Decompressor (RunCtx n)} {b c : UInt8}
    (hbuf : d.outputBuf = []) (hheld : d.ctx.held = []) (hn : d.capacity < n) :
    (d.process (runDecompress n) [b, c]).consumedLen = 1 ∧
      (d.process (runDecompress n) [b, c]).error = none ∧
      (d.process (runDecompress n) [b, c]).dec.outputBuf = List.replicate d.capacity b ∧
      (d.process (runDecompress n) [b, c]).dec.ctx.fed = d.ctx.fed ++ [b] ∧
      (d.process (runDecompress n) [b, c]).dec.ctx.held = List.replicate (n - d.capacity) b := by
  obtain ⟨hheld₁, hfed₁, hsrc₁, hout₁, herr₁⟩ :=
    runDecompress_of_nil (s := d.ctx) (d.capacity - d.outputBuf.length) b [c] hheld
  have hdst : d.capacity - d.outputBuf.length = d.capacity := by rw [hbuf]; rfl
  rw [Lz4Decompressor.process_of_continue (c := (runDecompress n d.ctx _ [b, c]).1)
    (r := (runDecompress n d.ctx _ [b, c]).2) rfl ⟨herr₁, by rw [hsrc₁]; exact Nat.one_pos⟩, hsrc₁]
  -- the second call finds the buffer full and the decoded byte's rest held back
  set d₁ := d.append (runDecompress n d.ctx (d.capacity - d.outputBuf.length) [b, c]).1
    (runDecompress n d.ctx (d.capacity - d.outputBuf.length) [b, c]).2.out
    (runDecompress n d.ctx (d.capacity - d.outputBuf.length) [b, c]).2.out_le with hd₁
  have hbuf₁ : d₁.outputBuf = List.replicate d.capacity b := by
    rw [hd₁, Lz4Decompressor.outputBuf_append, hout₁, hdst, hbuf, List.nil_append,
      List.take_replicate, Nat.min_eq_left (Nat.le_of_lt hn)]
  have hheld₁' : d₁.ctx.held = List.replicate (n - d.capacity) b := by
    rw [hd₁, Lz4Decompressor.ctx_append, hheld₁, hdst, List.drop_replicate]
  have hfull : d₁.capacity - d₁.outputBuf.length < d₁.ctx.held.length := by
    rw [hbuf₁, hheld₁', List.length_replicate, List.length_replicate, hd₁,
      Lz4Decompressor.capacity_append, Nat.sub_self]
    omega
  obtain ⟨hc, he, hb, hf, hh⟩ := process_runDecompress_of_lt (List.drop 1 [b, c]) hfull
  refine ⟨by show 1 + _ = 1; rw [hc], he, ?_, ?_, ?_⟩
  · rw [hb, hbuf₁, hd₁, Lz4Decompressor.capacity_append, List.length_replicate, Nat.sub_self,
      List.take_zero, List.append_nil]
  · rw [hf, hd₁, Lz4Decompressor.ctx_append, hfed₁]
  · rw [hh, hheld₁', hbuf₁, hd₁, Lz4Decompressor.capacity_append, List.length_replicate,
      Nat.sub_self, List.drop_zero]

end Process

/-! ### The failing run -/

/-- A connection whose first message is one byte, and that handles every decompressed byte. -/
def oneByteFirst : NpmConnection Unit where
  handle _ data := if data = [] then .ok ((), -EAGAIN) else .ok ((), 1)
  handleMultiple _ data := .ok ((), data.length)

theorem oneByteFirst_reports : oneByteFirst.Reports := by
  rintro k data k' res (h | h)
  · simp only [oneByteFirst] at h
    split at h
    · rename_i h0
      obtain ⟨-, rfl⟩ := Prod.mk.inj (Except.ok.inj h)
      left
      decide
    · rename_i h0
      obtain ⟨-, rfl⟩ := Prod.mk.inj (Except.ok.inj h)
      right
      have : 0 < data.length := List.length_pos_of_ne_nil h0
      omega
  · simp only [oneByteFirst] at h
    obtain ⟨-, rfl⟩ := Prod.mk.inj (Except.ok.inj h)
    exact Or.inr (Int.le_refl _)

/-- Once the first message is seen, `handle_multiple` takes every byte it is given. -/
theorem receivedDataInternal_oneByteFirst {σ : Type} (cb : Callbacks σ Unit) (data : List UInt8)
    (h : cb.firstMessageSeen = true) :
    receivedDataInternal oneByteFirst cb data =
      ({ cb with handled := cb.handled ++ data }, some data.length) := by
  have hne : ¬ (data.length : ℤ) = -EAGAIN := by
    have : (0 : ℤ) ≤ data.length := Int.natCast_nonneg _
    rw [EAGAIN]
    omega
  have hnn : ¬ (data.length : ℤ) < 0 := Int.not_lt.2 (Int.natCast_nonneg _)
  simp [receivedDataInternal, oneByteFirst, h, hne, hnn]

/-- A pass of the second loop on a buffer too full for the held bytes reads nothing, and the
loop stops there with all of its input still before `end`. -/
theorem decompressLoop_of_full {n : ℕ} {cb : Callbacks (RunCtx n) Unit}
    (hseen : cb.firstMessageSeen = true) (data : List UInt8)
    (hfull : cb.decompressor.capacity - cb.decompressor.outputBuf.length <
      cb.decompressor.ctx.held.length) :
    (decompressLoop (runDecompress n) oneByteFirst cb data).2 = some data := by
  obtain ⟨hc, he, -, -, -⟩ := process_runDecompress_of_lt data hfull
  have hint := receivedDataInternal_oneByteFirst
    { cb with decompressor := (cb.decompressor.process (runDecompress n) data).dec }
    (cb.decompressor.process (runDecompress n) data).dec.outputBuf hseen
  rw [decompressLoop_of_exit he hint (by rw [hc]; exact fun h => Nat.lt_irrefl 0 h.1), hc,
    List.drop_zero]

/-- **The second loop stops on a call that only flushed.**  On an empty buffer and a fresh
context, with a byte that decodes to more than twice the buffer: the first pass decodes it and
fills the buffer, the second finds more bytes held than the emptied buffer takes, reads nothing,
and the loop ends with the second byte before `end`. -/
theorem decompressLoop_stops_unread {n : ℕ} {cb : Callbacks (RunCtx n) Unit} {b c : UInt8}
    (hseen : cb.firstMessageSeen = true) (hbuf : cb.decompressor.outputBuf = [])
    (hheld : cb.decompressor.ctx.held = []) (hn : 2 * cb.decompressor.capacity < n) :
    (decompressLoop (runDecompress n) oneByteFirst cb [b, c]).2 = some [c] := by
  -- the first pass
  obtain ⟨hc₁, he₁, -, -, hh₁⟩ := process_runDecompress_first (b := b) (c := c) hbuf hheld
    (by omega)
  have hint₁ := receivedDataInternal_oneByteFirst
    { cb with decompressor := (cb.decompressor.process (runDecompress n) [b, c]).dec }
    (cb.decompressor.process (runDecompress n) [b, c]).dec.outputBuf hseen
  rw [decompressLoop_of_continue he₁ hint₁ (by rw [hc₁]; exact ⟨Nat.one_pos, by simp⟩), hc₁]
  -- the second pass finds the buffer empty and more bytes held than it has space for
  refine decompressLoop_of_full ?_ _ ?_
  · exact hseen
  rw [Lz4Decompressor.outputBuf_discard, List.drop_length, Lz4Decompressor.capacity_discard,
    Lz4Decompressor.capacity_process, Lz4Decompressor.ctx_discard, hh₁, List.length_replicate,
    List.length_nil, Nat.sub_zero]
  omega

/-- The callbacks of a new connection, on the codec whose bytes stand for one more than twice
the output buffer. -/
def stallStart : Callbacks (RunCtx (2 * kBufferSize + 1)) Unit :=
  Callbacks.new (RunCtx.init _) ()

/-- The first loop hands the one-byte first message to `handle` and the rest to the second. -/
theorem rawLoop_stallStart :
    rawLoop oneByteFirst stallStart [7, 0, 1] 3 =
      ({ stallStart with decompressorActive := true, firstMessageSeen := true, handled := [7] },
        .decompress [0, 1]) := by
  rw [rawLoop]
  simp [stallStart, Callbacks.new, receivedDataInternal, oneByteFirst, EAGAIN]
  rw [rawLoop]
  simp

/-- `received_data` on a new connection and the bytes `7, 0, 1` returns 3, but the codec has
read only the byte 0. -/
theorem receivedData_stallStart :
    ∃ cb, receivedData (runDecompress _) oneByteFirst stallStart [7, 0, 1] = (cb, some 3) ∧
      cb.decompressor.ctx.fed = [0] := by
  have hstop : (decompressLoop (runDecompress _) oneByteFirst
      { stallStart with decompressorActive := true, firstMessageSeen := true, handled := [7] }
      [0, 1]).2 = some [1] :=
    decompressLoop_stops_unread rfl rfl rfl (Nat.lt_succ_self _)
  obtain ⟨hres, used, hbegin, hfed⟩ :=
    receivedData_of_stall (runDecompress_spec _) rawLoop_stallStart (Prod.ext rfl hstop)
  obtain rfl : used = [0] :=
    List.append_cancel_right (hbegin.symm.trans (rfl : ([0, 1] : List UInt8) = [0] ++ [1]))
  exact ⟨_, hres, hfed⟩

/-- **The receive path acknowledges a compressed byte the library never read.**  A read of
`7, 0, 1` into the empty buffer of a new connection: the first message `7` is handled, the
second loop stops on a call that only flushed, and `conn_read_cb` drops all three bytes from
the buffer, while the decompressor has read only the byte 0.  The byte 1 is never offered to it
again. -/
theorem connReadCb_acks_unread_byte :
    ∃ ch, connReadCb (runDecompress _) oneByteFirst ⟨[], stallStart, true, none, []⟩
        (.ok [7, 0, 1]) = some ch ∧
      ch.rxBuffer = [] ∧ ch.acked = [7, 0, 1] ∧ ch.callbacks.decompressor.ctx.fed = [0] := by
  obtain ⟨cb, hres, hfed⟩ := receivedData_stallStart
  exact ⟨_, connReadCb_of_receivedData _ _ hres (Nat.le_refl _) (by decide), rfl, rfl, hfed⟩

end Ingest

end OtelEbpf
