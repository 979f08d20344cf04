import Mathlib.Data.List.Infix
import Mathlib.Algebra.BigOperators.Group.List.Basic
import OtelEbpf.Lib.TailCall
import OtelEbpf.DataChannel.Submit

/-!
# The send and receive chains of the TCP processor

`handle_kprobe__tcp_sendmsg` (`bpf_tcp_send_recv.h`) saves the message's `iov_iter`, its vectors
`iov`, `nr_segs` and `iov_offset`, with an empty cursor (`iov_ptr`, `iov_len`), `written = 0` and
`depth = 1`.  When `tcp_sendmsg` returns the count `copied`, `continue_tcp_sendmsg` loads the
next vector when the cursor is empty, adding `iov_offset` to the first one's pointer, hands the
next `to_copy` bytes, at most the bytes not written yet, `DATA_CHANNEL_CHUNK_MAX` and what the
cursor holds, to `write_to_tcp_stream` (`bpf_tcp_socket.h`), and tail-calls itself until all is
written or `depth` reaches `TCP_TAIL_CALL_MAX_DEPTH`.  `continue_tcp_recvmsg` does the same
from the first vector only, at `iov_base + written`, with no bound by the vector's length.

An address stands for the byte at it: a slice `(data, to_copy)` is the list of its addresses, and
the bytes the kernel copied are the first `copied` addresses that `iterBytes` lists.  The chains
are `TailCall.chain`s of the `continue_` programs.

* `writeToTcpStream_total`, `streamTotal_eq` : a write advances the stream's total by its
  length, whatever part of it lies before the window.
* `tcpSendmsgChain_bytes` : from the offset 0, the send chain writes, in order, a prefix of the
  bytes the kernel copied, in slices inside one vector and one chunk, and all of them unless it
  made `TCP_TAIL_CALL_MAX_DEPTH` calls.
* `tcpRecvmsgChain_bytes`, `tcpRecvmsgChain_of_le_iovLen` : the receive chain writes the bytes
  from the first vector's base on, in chunks, all of them unless it made
  `TCP_TAIL_CALL_MAX_DEPTH` calls; they are the bytes the kernel copied when the first vector
  holds them all.
* `sendmsgChain_fuel`, `recvmsgChain_fuel` : the chains end by themselves within
  `TCP_TAIL_CALL_MAX_DEPTH` calls.
* `tcp_chains_misreport` : a send from an offset writes bytes past its first vector, a receive
  into two vectors reads past the first, and a send of more than `TCP_TAIL_CALL_MAX_DEPTH`
  chunks advances the stream by less than it sent.
-/

namespace OtelEbpf

namespace TcpProcessor

open DataChannel (DATA_CHANNEL_CHUNK_MAX)

/-- `TCP_TAIL_CALL_MAX_DEPTH` (`tcp_processor.h`). -/
def TCP_TAIL_CALL_MAX_DEPTH : ℕ := 8

/-- A `struct iovec`. -/
structure Iovec where
  iovBase : ℕ
  iovLen : ℕ
  deriving DecidableEq, Repr

/-- The addresses of the `len` bytes at `base`. -/
def bytesAt (base len : ℕ) : List ℕ := List.range' base len

/-- The bytes of a vector. -/
def Iovec.bytes (v : Iovec) : List ℕ := bytesAt v.iovBase v.iovLen

/-- The bytes of a slice `(data, to_copy)`. -/
def sliceBytes (s : ℕ × ℕ) : List ℕ := bytesAt s.1 s.2

/-- The slice lies inside the vector. -/
def Inside (s : ℕ × ℕ) (v : Iovec) : Prop := v.iovBase ≤ s.1 ∧ s.1 + s.2 ≤ v.iovBase + v.iovLen

instance (s : ℕ × ℕ) (v : Iovec) : Decidable (Inside s v) := inferInstanceAs (Decidable (_ ∧ _))

/-- The bytes of an `iov_iter` over the first `nrSegs` vectors of `iov`, from `iovOffset` on: the
first vector's from the offset, then every next vector's. -/
def iterBytes (iov : List Iovec) (nrSegs iovOffset : ℕ) : List ℕ :=
  match iov.take nrSegs with
  | [] => []
  | v :: vs => bytesAt (v.iovBase + iovOffset) (v.iovLen - iovOffset) ++ vs.flatMap Iovec.bytes

/-- From the offset 0 the iterator's bytes are its vectors'. -/
theorem iterBytes_zero (iov : List Iovec) (nrSegs : ℕ) :
    iterBytes iov nrSegs 0 = (iov.take nrSegs).flatMap Iovec.bytes := by
  unfold iterBytes
  split
  · next h => rw [h]; rfl
  · next v vs h => rw [h, List.flatMap_cons, Nat.add_zero, Nat.sub_zero]; rfl

theorem bytesAt_isPrefix_of_le {base k len : ℕ} (h : k ≤ len) :
    bytesAt base k <+: bytesAt base len := by
  rw [bytesAt, bytesAt, ← Nat.add_sub_of_le h, ← List.range'_append_1]
  exact List.prefix_append _ _

/-! ### The stream -/

/-- `write_to_tcp_stream(ctx, pconn, streamtype, src_data, src_bytes, handler)` on a stream with
`total` bytes behind it and its window from `start`: the piece handed to the handler, when a part
of the bytes is in the window, and the new total. -/
def writeToTcpStream (start total srcData srcBytes : ℕ) : Option (ℕ × ℕ) × ℕ :=
  -- all of it before the window: only the total moves
  if total + srcBytes ≤ start then (none, total + srcBytes)
  else
    -- what starts before the window is clipped to its front
    let (data, dataLen, total) :=
      if total < start then (srcData + (start - total), srcBytes - (start - total), start)
      else (srcData, srcBytes, total)
    (some (data, dataLen), total + dataLen)

/-- The stream's total after the slices are written one after the other. -/
def streamTotal (start total : ℕ) (slices : List (ℕ × ℕ)) : ℕ :=
  slices.foldl (fun total s => (writeToTcpStream start total s.1 s.2).2) total

theorem writeToTcpStream_total (start total srcData srcBytes : ℕ) :
    (writeToTcpStream start total srcData srcBytes).2 = total + srcBytes := by
  unfold writeToTcpStream
  by_cases hbefore : total + srcBytes ≤ start
  · rw [if_pos hbefore]
  · by_cases hclip : total < start
    · simp only [if_neg hbefore, if_pos hclip]
      omega
    · simp only [if_neg hbefore, if_neg hclip]

/-- The total moves by the slices' lengths, so that the offset of every later byte is its
position in the stream exactly when the slices are all of the bytes sent or received. -/
theorem streamTotal_eq (start : ℕ) (slices : List (ℕ × ℕ)) (total : ℕ) :
    streamTotal start total slices = total + (slices.map Prod.snd).sum := by
  induction slices generalizing total with
  | nil => rfl
  | cons s slices ih =>
    simp only [streamTotal, List.foldl_cons, List.map_cons, List.sum_cons] at ih ⊢
    rw [ih, writeToTcpStream_total, Nat.add_assoc]

/-! ### The send chain -/

/-- The saved arguments of `tcp_sendmsg` that the chain reads: the vectors from `args->iov` on,
the cursor `iov_ptr`, `iov_len` into the current one, and the counters.  `written` and `depth`
are `int`s that stay between `0` and `copied`, and `1` and `TCP_TAIL_CALL_MAX_DEPTH`. -/
structure SendmsgArgs where
  iov : List Iovec
  iovPtr : ℕ
  iovLen : ℕ
  iovOffset : ℕ
  nrSegs : ℕ
  written : ℕ
  depth : ℕ
  deriving DecidableEq, Repr

namespace SendmsgArgs

/-- The arguments `handle_kprobe__tcp_sendmsg` saves from the message's `iov_iter`. -/
def init (iov : List Iovec) (nrSegs iovOffset : ℕ) : SendmsgArgs :=
  ⟨iov, 0, 0, iovOffset, nrSegs, 0, 1⟩

/-- `if (args->iov_len == 0)` of `continue_tcp_sendmsg`: the next vector is loaded, the first one
from `iov_offset` on; with none left the arguments are deleted (`none`).  A read of
`args->iov->iov_base` that faults leaves the zeros the locals start with. -/
def loadIovec (args : SendmsgArgs) : Option SendmsgArgs :=
  if args.iovLen = 0 then
    if 0 < args.nrSegs then
      let v := args.iov.headD ⟨0, 0⟩
      let args := { args with iovPtr := v.iovBase, iovLen := v.iovLen, iov := args.iov.tail,
                              nrSegs := args.nrSegs - 1 }
      -- the offset is added to the pointer, and `iov_len` stays the whole vector's
      if args.iovOffset ≠ 0 then
        some { args with iovPtr := args.iovPtr + args.iovOffset, iovOffset := 0 }
      else some args
    else none
  else some args

/-- `to_copy`: the bytes not written yet, cut to `DATA_CHANNEL_CHUNK_MAX`, then to `iov_len`. -/
def toCopy (copied : ℕ) (args : SendmsgArgs) : ℕ :=
  min (min (copied - args.written) DATA_CHANNEL_CHUNK_MAX.toNat) args.iovLen

/-- The arguments after `to_copy` bytes from the cursor are written. -/
def advance (args : SendmsgArgs) (toCopy : ℕ) : SendmsgArgs :=
  { args with written := args.written + toCopy, iovPtr := args.iovPtr + toCopy,
              iovLen := args.iovLen - toCopy }

end SendmsgArgs

/-- `continue_tcp_sendmsg` with the count `copied > 0` that `tcp_sendmsg` returned: the slice
`(data, to_copy)` it writes, with the arguments it tail-calls itself with if it does; `none` when
it deletes the arguments without writing. -/
def continueTcpSendmsg (copied : ℕ) (args : SendmsgArgs) :
    Option ((ℕ × ℕ) × Option SendmsgArgs) :=
  args.loadIovec.map fun args =>
    let remaining := copied - args.written
    let toCopy := args.toCopy copied
    let next := args.advance toCopy
    ((args.iovPtr, toCopy),
      if toCopy = remaining ∨ args.depth = TCP_TAIL_CALL_MAX_DEPTH then none
      else some { next with depth := next.depth + 1 })

/-- `handle_kretprobe__tcp_sendmsg` and the chain of `continue_tcp_sendmsg` it starts, for the
count `copied` that `tcp_sendmsg` returned: the slices written to the send stream, in order.
With `depth` from `1` the chain makes at most `TCP_TAIL_CALL_MAX_DEPTH` calls
(`sendmsgChain_fuel`). -/
def tcpSendmsgChain (copied : Int) (args : SendmsgArgs) : List (ℕ × ℕ) :=
  -- `if (copied <= 0)` deletes the arguments
  if copied ≤ 0 then []
  else TailCall.chain (continueTcpSendmsg copied.toNat) TCP_TAIL_CALL_MAX_DEPTH args

/-! ### The receive chain -/

/-- The saved arguments of `tcp_recvmsg` that the chain reads: the message's first vector and
the counters. -/
structure RecvmsgArgs where
  iovBase : ℕ
  iovLen : ℕ
  written : ℕ
  depth : ℕ
  deriving DecidableEq, Repr

namespace RecvmsgArgs

/-- The arguments `handle_kprobe__tcp_recvmsg` saves: the first vector of the message. -/
def init (iov : List Iovec) : RecvmsgArgs :=
  let v := iov.headD ⟨0, 0⟩
  ⟨v.iovBase, v.iovLen, 0, 1⟩

/-- `to_copy`: the bytes not written yet, cut to `DATA_CHANNEL_CHUNK_MAX`. -/
def toCopy (copied : ℕ) (args : RecvmsgArgs) : ℕ :=
  min (copied - args.written) DATA_CHANNEL_CHUNK_MAX.toNat

end RecvmsgArgs

/-- `continue_tcp_recvmsg` with the count `copied > 0`: the slice it writes, from the first
vector's base on, and the arguments it tail-calls itself with if it does.  `iov_len` is not
read. -/
def continueTcpRecvmsg (copied : ℕ) (args : RecvmsgArgs) : (ℕ × ℕ) × Option RecvmsgArgs :=
  let data := args.iovBase + args.written
  let remaining := copied - args.written
  let toCopy := args.toCopy copied
  let next := { args with written := args.written + toCopy }
  ((data, toCopy),
    if toCopy = remaining ∨ args.depth = TCP_TAIL_CALL_MAX_DEPTH then none
    else some { next with depth := next.depth + 1 })

/-- `handle_kretprobe__tcp_recvmsg` and the chain of `continue_tcp_recvmsg` it starts: the
slices written to the receive stream, in order. -/
def tcpRecvmsgChain (copied : Int) (args : RecvmsgArgs) : List (ℕ × ℕ) :=
  if copied ≤ 0 then []
  else TailCall.chain (fun args => some (continueTcpRecvmsg copied.toNat args))
    TCP_TAIL_CALL_MAX_DEPTH args

/-! ### What the send chain writes -/

namespace SendmsgArgs

variable {iov : List Iovec} {nrSegs copied k : ℕ} {args a : SendmsgArgs}

/-- The bytes of the message the chain has not written: the rest of the current vector, then
the vectors still to load. -/
def rest (args : SendmsgArgs) : List ℕ :=
  bytesAt args.iovPtr args.iovLen ++ (args.iov.take args.nrSegs).flatMap Iovec.bytes

/-- The saved arguments along a send chain from the offset 0 over the vectors `iov`, for the
count `copied`: the vectors still to load are the last ones of `iov`, the bytes not written yet
hold what is left of the `copied`, the depth is within its bound, and the cursor is empty or
inside a vector. -/
structure Inv (iov : List Iovec) (copied : ℕ) (args : SendmsgArgs) : Prop where
  iovOffset : args.iovOffset = 0
  suffix : args.iov <:+ iov
  nrSegs : args.nrSegs ≤ args.iov.length
  covered : copied ≤ args.written + args.rest.length
  depth : args.depth ≤ TCP_TAIL_CALL_MAX_DEPTH
  current : args.iovLen = 0 ∨ ∃ v ∈ iov, Inside (args.iovPtr, args.iovLen) v

/-- What the send chain from `args` writes: a prefix of the bytes not written yet, in slices
inside one vector and one chunk, at most what is left of the `copied`, and all of it unless the
depth ran out. -/
structure Out (iov : List Iovec) (copied : ℕ) (args : SendmsgArgs) (slices : List (ℕ × ℕ)) :
    Prop where
  bytes : slices.flatMap sliceBytes <+: args.rest
  inside : ∀ s ∈ slices, s.2 ≤ DATA_CHANNEL_CHUNK_MAX.toNat ∧ ∃ v ∈ iov, Inside s v
  sum_le : (slices.map Prod.snd).sum ≤ copied - args.written
  complete : (slices.map Prod.snd).sum = copied - args.written ∨
    slices.length = TCP_TAIL_CALL_MAX_DEPTH + 1 - args.depth

theorem rest_init (iov : List Iovec) (nrSegs : ℕ) :
    (init iov nrSegs 0).rest = iterBytes iov nrSegs 0 := by
  rw [iterBytes_zero]
  rfl

theorem inv_init (hseg : nrSegs ≤ iov.length) (hc : copied ≤ (iterBytes iov nrSegs 0).length) :
    (init iov nrSegs 0).Inv iov copied where
  iovOffset := rfl
  suffix := List.suffix_refl iov
  nrSegs := hseg
  covered := by rw [rest_init, init, Nat.zero_add]; exact hc
  depth := show 1 ≤ 8 by decide
  current := Or.inl rfl

/-- With no vector left to load the bytes not written are none. -/
theorem rest_of_loadIovec_none (h : args.loadIovec = none) : args.rest = [] := by
  unfold loadIovec at h
  by_cases hlen : args.iovLen = 0
  · by_cases hseg : 0 < args.nrSegs
    · simp only [if_pos hlen, if_pos hseg] at h
      split at h <;> cases h
    · have hzero : args.nrSegs = 0 := by omega
      simp [rest, hlen, hzero, bytesAt]
  · simp [if_neg hlen] at h

/-- Loading the next vector from the offset 0 keeps the invariant and the bytes not written, and
leaves the cursor inside a vector. -/
theorem loadIovec_spec (hi : args.Inv iov copied) (h : args.loadIovec = some a) :
    a.Inv iov copied ∧ a.rest = args.rest ∧ a.written = args.written ∧ a.depth = args.depth ∧
      ∃ v ∈ iov, Inside (a.iovPtr, a.iovLen) v := by
  unfold loadIovec at h
  by_cases hlen : args.iovLen = 0
  · by_cases hseg : 0 < args.nrSegs
    · -- the head of the vectors still to load becomes the cursor, the offset being 0
      obtain ⟨v, vs, hiov⟩ : ∃ v vs, args.iov = v :: vs :=
        List.exists_cons_of_length_pos (by have := hi.nrSegs; omega)
      obtain ⟨n, hn⟩ : ∃ n, args.nrSegs = n + 1 := ⟨args.nrSegs - 1, by omega⟩
      have ha : a = { args with iovPtr := v.iovBase, iovLen := v.iovLen, iov := vs,
                                nrSegs := n } := by
        simp only [if_pos hlen, if_pos hseg, hi.iovOffset, ne_eq, not_true_eq_false,
          if_false, Option.some.injEq] at h
        simp only [← h, hiov, hn, hi.iovOffset, List.headD_cons, List.tail_cons, Nat.add_sub_cancel]
      have hv : v ∈ iov := hi.suffix.mem (hiov ▸ List.mem_cons_self)
      have hrest : a.rest = args.rest := by
        simp [ha, rest, hlen, hiov, hn, Iovec.bytes, bytesAt]
      have hinside : Inside (a.iovPtr, a.iovLen) v := by
        rw [ha]; exact ⟨le_refl _, le_refl _⟩
      subst ha
      refine ⟨⟨hi.iovOffset, (List.suffix_cons v vs).trans (hiov ▸ hi.suffix), ?_,
        hrest ▸ hi.covered, hi.depth, Or.inr ⟨v, hv, hinside⟩⟩, hrest, rfl, rfl, v, hv, hinside⟩
      have := hi.nrSegs
      simp only [hiov, hn, List.length_cons] at this
      simpa using this
    · simp [if_pos hlen, if_neg hseg] at h
  · -- the cursor still holds bytes: nothing is loaded
    simp only [if_neg hlen, Option.some.injEq] at h
    subst h
    exact ⟨hi, rfl, rfl, rfl, hi.current.resolve_left hlen⟩

theorem toCopy_le_iovLen : args.toCopy copied ≤ args.iovLen := Nat.min_le_right _ _

theorem toCopy_le_chunk : args.toCopy copied ≤ DATA_CHANNEL_CHUNK_MAX.toNat :=
  (Nat.min_le_left _ _).trans (Nat.min_le_right _ _)

theorem toCopy_le_remaining : args.toCopy copied ≤ copied - args.written :=
  (Nat.min_le_left _ _).trans (Nat.min_le_left _ _)

/-- The bytes written from the cursor are the first of the bytes not written. -/
theorem rest_advance (h : k ≤ args.iovLen) :
    args.rest = bytesAt args.iovPtr k ++ (args.advance k).rest := by
  simp only [rest, advance, bytesAt]
  rw [← List.append_assoc, List.range'_append_1, Nat.add_sub_of_le h]

/-- A tail call keeps the invariant. -/
theorem Inv.next (hi : args.Inv iov copied)
    (hcur : ∃ v ∈ iov, Inside (args.iovPtr, args.iovLen) v)
    (hdepth : args.depth < TCP_TAIL_CALL_MAX_DEPTH) (hk : k ≤ args.iovLen) :
    { args.advance k with depth := args.depth + 1 }.Inv iov copied where
  iovOffset := hi.iovOffset
  suffix := hi.suffix
  nrSegs := hi.nrSegs
  covered := by
    have hlen := congrArg List.length (rest_advance hk)
    have := hi.covered
    simp only [List.length_append, bytesAt, List.length_range'] at hlen
    change copied ≤ args.written + k + (args.advance k).rest.length
    omega
  depth := hdepth
  current := by
    obtain ⟨v, hv, hlo, hhi⟩ := hcur
    refine Or.inr ⟨v, hv, ?_, ?_⟩ <;> simp only [advance] <;> omega

/-- A call that writes the slice at the cursor puts it in front of what the chain after it
writes. -/
theorem Out.cons {bs : List (ℕ × ℕ)} (hi : args.Inv iov copied)
    (hcur : ∃ v ∈ iov, Inside (args.iovPtr, args.iovLen) v)
    (h : Out iov copied { args.advance (args.toCopy copied) with depth := args.depth + 1 } bs) :
    Out iov copied args ((args.iovPtr, args.toCopy copied) :: bs) where
  bytes := by
    rw [rest_advance toCopy_le_iovLen, List.flatMap_cons]
    exact (List.prefix_append_right_inj _).mpr h.bytes
  inside := by
    intro s hs
    rcases List.mem_cons.mp hs with rfl | hs
    · obtain ⟨v, hv, hlo, hhi⟩ := hcur
      have : args.toCopy copied ≤ args.iovLen := toCopy_le_iovLen
      exact ⟨toCopy_le_chunk, v, hv, hlo, by simp only at hhi ⊢; omega⟩
    · exact h.inside s hs
  sum_le := by
    have := h.sum_le
    have : args.toCopy copied ≤ copied - args.written := toCopy_le_remaining
    simp only [List.map_cons, List.sum_cons, advance] at *
    omega
  complete := by
    have : args.toCopy copied ≤ copied - args.written := toCopy_le_remaining
    have := hi.depth
    rcases h.complete with hsum | hlen
    · left
      simp only [List.map_cons, List.sum_cons, advance] at hsum ⊢
      omega
    · right
      simp only [List.length_cons] at hlen ⊢
      omega

/-- After the last call nothing is written. -/
theorem Out.nil (h : copied ≤ args.written) : Out iov copied args [] where
  bytes := List.nil_prefix
  inside := fun _ hs => absurd hs List.not_mem_nil
  sum_le := Nat.zero_le _
  complete := Or.inl (by simp only [List.map_nil, List.sum_nil]; omega)

/-- The last call either wrote all that was left or was at the depth bound. -/
theorem Out.last
    (h : args.toCopy copied = copied - args.written ∨ args.depth = TCP_TAIL_CALL_MAX_DEPTH) :
    Out iov copied { args.advance (args.toCopy copied) with depth := args.depth + 1 } [] := by
  rcases h with hk | hd
  · exact Out.nil (by simp only [advance]; omega)
  · exact ⟨List.nil_prefix, fun _ hs => absurd hs List.not_mem_nil, Nat.zero_le _,
      Or.inr (by simp only [List.length_nil]; omega)⟩

/-- `Out` reads the arguments only through the bytes not written, `written` and `depth`. -/
theorem Out.congr {bs : List (ℕ × ℕ)} (h : Out iov copied a bs) (hrest : a.rest = args.rest)
    (hw : a.written = args.written) (hd : a.depth = args.depth) : Out iov copied args bs := by
  obtain ⟨hbytes, hinside, hsum, hcomplete⟩ := h
  rw [hrest] at hbytes
  rw [hw, hd] at hcomplete
  rw [hw] at hsum
  exact ⟨hbytes, hinside, hsum, hcomplete⟩

end SendmsgArgs

open SendmsgArgs in
/-- A `continue_tcp_sendmsg` that writes loaded the cursor, wrote `to_copy` bytes from it, and
tail-calls itself unless all was written or the depth bound was reached. -/
theorem continueTcpSendmsg_eq_some {copied : ℕ} {args : SendmsgArgs} {b : ℕ × ℕ}
    {next : Option SendmsgArgs} (h : continueTcpSendmsg copied args = some (b, next)) :
    ∃ a, args.loadIovec = some a ∧ b = (a.iovPtr, a.toCopy copied) ∧
      next = if a.toCopy copied = copied - a.written ∨ a.depth = TCP_TAIL_CALL_MAX_DEPTH then none
        else some { a.advance (a.toCopy copied) with depth := a.depth + 1 } := by
  obtain ⟨a, ha, hb⟩ := Option.map_eq_some_iff.mp h
  simp only [Prod.mk.injEq] at hb
  exact ⟨a, ha, hb.1.symm, hb.2.symm⟩

theorem SendmsgArgs.depth_loadIovec {args a : SendmsgArgs} (h : args.loadIovec = some a) :
    a.depth = args.depth := by
  unfold loadIovec at h
  by_cases hlen : args.iovLen = 0
  · by_cases hseg : 0 < args.nrSegs
    · simp only [if_pos hlen, if_pos hseg] at h
      split at h <;> (simp only [Option.some.injEq] at h; rw [← h])
    · simp [if_pos hlen, if_neg hseg] at h
  · simp only [if_neg hlen, Option.some.injEq] at h
    rw [← h]

/-- A `continue_tcp_sendmsg` that tail-calls itself does so below the depth bound, one
deeper. -/
theorem continueTcpSendmsg_depth {copied : ℕ} {args s' : SendmsgArgs} {b : ℕ × ℕ}
    (h : continueTcpSendmsg copied args = some (b, some s')) :
    s'.depth = args.depth + 1 ∧ args.depth ≠ TCP_TAIL_CALL_MAX_DEPTH := by
  obtain ⟨a, hload, -, hnext⟩ := continueTcpSendmsg_eq_some h
  have hda := SendmsgArgs.depth_loadIovec hload
  by_cases hstop : a.toCopy copied = copied - a.written ∨ a.depth = TCP_TAIL_CALL_MAX_DEPTH
  · rw [if_pos hstop] at hnext
    cases hnext
  · rw [if_neg hstop, Option.some.injEq] at hnext
    subst hnext
    exact ⟨by simp only [hda], fun h => hstop (Or.inr (hda.trans h))⟩

/-- The send chain ends by itself within `TCP_TAIL_CALL_MAX_DEPTH` calls: with more fuel it
writes the same slices. -/
theorem sendmsgChain_fuel (copied : ℕ) (args : SendmsgArgs) (h1 : 1 ≤ args.depth)
    (hd : args.depth ≤ TCP_TAIL_CALL_MAX_DEPTH) {fuel : ℕ}
    (hfuel : TCP_TAIL_CALL_MAX_DEPTH ≤ fuel) :
    TailCall.chain (continueTcpSendmsg copied) fuel args =
      TailCall.chain (continueTcpSendmsg copied) TCP_TAIL_CALL_MAX_DEPTH args := by
  refine TailCall.chain_eq_of_le (fun a => a.depth ≤ TCP_TAIL_CALL_MAX_DEPTH)
    (fun a => TCP_TAIL_CALL_MAX_DEPTH - a.depth) ?_ hd (by omega) hfuel
  intro a b s' ha h
  have ha' : a.depth ≤ TCP_TAIL_CALL_MAX_DEPTH := ha
  obtain ⟨hdepth, hne⟩ := continueTcpSendmsg_depth h
  exact ⟨by simp only [hdepth]; omega, by simp only [hdepth]; omega⟩

open SendmsgArgs in
/-- The send chain from arguments that keep the invariant, with more fuel than the calls left
to the depth bound, writes what `Out` says. -/
theorem SendmsgArgs.out_chain {iov : List Iovec} {copied fuel : ℕ} {args : SendmsgArgs}
    (hi : args.Inv iov copied) (hfuel : TCP_TAIL_CALL_MAX_DEPTH - args.depth < fuel) :
    args.Out iov copied (TailCall.chain (continueTcpSendmsg copied) fuel args) := by
  refine TailCall.chain_induction (fun a => a.Inv iov copied)
    (fun a => TCP_TAIL_CALL_MAX_DEPTH - a.depth) (fun a bs => a.Out iov copied bs) ?_ ?_ ?_
    fuel args hi hfuel
  · -- no vector left: all that was copied is written
    intro a ha h
    have hrest := rest_of_loadIovec_none (Option.map_eq_none_iff.mp h)
    have := ha.covered
    rw [hrest, List.length_nil] at this
    exact Out.nil (by omega)
  · intro a b ha h
    obtain ⟨a', hload, rfl, hnext⟩ := continueTcpSendmsg_eq_some h
    obtain ⟨hi', hrest, hw, hd, hcur⟩ := loadIovec_spec ha hload
    have hstop : a'.toCopy copied = copied - a'.written ∨
        a'.depth = TCP_TAIL_CALL_MAX_DEPTH := by
      by_contra hcont
      rw [if_neg hcont] at hnext
      cases hnext
    exact (Out.cons hi' hcur (Out.last hstop)).congr hrest hw hd
  · intro a b s' ha h
    obtain ⟨a', hload, rfl, hnext⟩ := continueTcpSendmsg_eq_some h
    obtain ⟨hi', hrest, hw, hd, hcur⟩ := loadIovec_spec ha hload
    have hgo : ¬(a'.toCopy copied = copied - a'.written ∨
        a'.depth = TCP_TAIL_CALL_MAX_DEPTH) := by
      intro hstop
      rw [if_pos hstop] at hnext
      cases hnext
    rw [if_neg hgo, Option.some.injEq] at hnext
    subst hnext
    have hdepth : a'.depth < TCP_TAIL_CALL_MAX_DEPTH := by
      have := hi'.depth
      omega
    refine ⟨hi'.next hcur hdepth toCopy_le_iovLen, by simp only; omega, fun bs hbs => ?_⟩
    exact (Out.cons hi' hcur hbs).congr hrest hw hd

/-- The send chain of a message from the offset 0. -/
theorem SendmsgArgs.out_tcpSendmsgChain {iov : List Iovec} {nrSegs c : ℕ}
    (hseg : nrSegs ≤ iov.length) (hc : c ≤ (iterBytes iov nrSegs 0).length) :
    (init iov nrSegs 0).Out iov c (tcpSendmsgChain c (init iov nrSegs 0)) := by
  unfold tcpSendmsgChain
  by_cases hc0 : c = 0
  · subst hc0
    exact Out.nil (Nat.zero_le _)
  · rw [if_neg (by omega), Int.toNat_natCast]
    exact out_chain (inv_init hseg hc) (show 8 - 1 < 8 by decide)

/-- From the offset 0, the send chain writes, in order, a prefix of the bytes the kernel copied,
in slices inside one vector and one chunk, and all of them unless it made
`TCP_TAIL_CALL_MAX_DEPTH` calls. -/
theorem tcpSendmsgChain_bytes (iov : List Iovec) (nrSegs c : ℕ) (hseg : nrSegs ≤ iov.length)
    (hc : c ≤ (iterBytes iov nrSegs 0).length) :
    let slices := tcpSendmsgChain c (SendmsgArgs.init iov nrSegs 0)
    slices.flatMap sliceBytes <+: iterBytes iov nrSegs 0 ∧
      (∀ s ∈ slices, s.2 ≤ DATA_CHANNEL_CHUNK_MAX.toNat ∧ ∃ v ∈ iov, Inside s v) ∧
      (slices.map Prod.snd).sum ≤ c ∧
      ((slices.map Prod.snd).sum = c ∨ slices.length = TCP_TAIL_CALL_MAX_DEPTH) := by
  intro slices
  obtain ⟨hbytes, hinside, hsum, hcomplete⟩ := SendmsgArgs.out_tcpSendmsgChain hseg hc
  rw [SendmsgArgs.rest_init] at hbytes
  exact ⟨hbytes, hinside, hsum, hcomplete⟩

/-! ### What the receive chain writes -/

namespace RecvmsgArgs

variable {copied : ℕ} {args : RecvmsgArgs} {bs : List (ℕ × ℕ)}

/-- What the receive chain from `args` writes: the bytes from `iov_base + written` on, in slices
within one chunk, in order, at most what is left of the `copied`, and all of it unless the depth
ran out. -/
structure Out (copied : ℕ) (args : RecvmsgArgs) (slices : List (ℕ × ℕ)) : Prop where
  bytes : slices.flatMap sliceBytes =
    bytesAt (args.iovBase + args.written) (slices.map Prod.snd).sum
  within : ∀ s ∈ slices, s.2 ≤ DATA_CHANNEL_CHUNK_MAX.toNat ∧
    args.iovBase + args.written ≤ s.1 ∧
    s.1 + s.2 ≤ args.iovBase + args.written + (slices.map Prod.snd).sum
  sum_le : (slices.map Prod.snd).sum ≤ copied - args.written
  complete : (slices.map Prod.snd).sum = copied - args.written ∨
    slices.length = TCP_TAIL_CALL_MAX_DEPTH + 1 - args.depth

/-- The receive chain's next arguments: none after all was written or at the depth bound. -/
theorem continueTcpRecvmsg_next :
    (continueTcpRecvmsg copied args).2 =
      if args.toCopy copied = copied - args.written ∨ args.depth = TCP_TAIL_CALL_MAX_DEPTH then none
      else some { args with written := args.written + args.toCopy copied,
                            depth := args.depth + 1 } := rfl

/-- A call writes the `to_copy` bytes at `iov_base + written` in front of what the chain after it
writes. -/
theorem Out.cons (hd : args.depth ≤ TCP_TAIL_CALL_MAX_DEPTH)
    (h : Out copied { args with written := args.written + args.toCopy copied,
                                depth := args.depth + 1 } bs) :
    Out copied args ((continueTcpRecvmsg copied args).1 :: bs) where
  bytes := by
    obtain ⟨hbytes, -, -, -⟩ := h
    simp only [continueTcpRecvmsg, List.flatMap_cons, List.map_cons, List.sum_cons] at hbytes ⊢
    rw [hbytes, sliceBytes, bytesAt, bytesAt, ← Nat.add_assoc, List.range'_append_1]
    rfl
  within := by
    intro s hs
    simp only [continueTcpRecvmsg, List.map_cons, List.sum_cons] at hs ⊢
    rcases List.mem_cons.mp hs with rfl | hs
    · exact ⟨Nat.min_le_right _ _, le_refl _, by omega⟩
    · obtain ⟨hchunk, hlo, hhi⟩ := h.within s hs
      dsimp only at hlo hhi
      exact ⟨hchunk, by omega, by omega⟩
  sum_le := by
    have := h.sum_le
    have : args.toCopy copied ≤ copied - args.written := Nat.min_le_left _ _
    simp only [continueTcpRecvmsg, List.map_cons, List.sum_cons] at *
    omega
  complete := by
    have : args.toCopy copied ≤ copied - args.written := Nat.min_le_left _ _
    rcases h.complete with hsum | hlen
    · left
      simp only [continueTcpRecvmsg, List.map_cons, List.sum_cons] at hsum ⊢
      omega
    · right
      simp only [List.length_cons] at hlen ⊢
      omega

/-- The last call wrote all that was left or was at the depth bound. -/
theorem Out.last
    (h : args.toCopy copied = copied - args.written ∨ args.depth = TCP_TAIL_CALL_MAX_DEPTH) :
    Out copied { args with written := args.written + args.toCopy copied,
                           depth := args.depth + 1 } [] where
  bytes := rfl
  within := fun _ hs => absurd hs List.not_mem_nil
  sum_le := Nat.zero_le _
  complete := by
    rcases h with hk | hd
    · left
      simp only [List.map_nil, List.sum_nil]
      omega
    · right
      simp only [List.length_nil]
      omega

/-- The receive chain with more fuel than the calls left to the depth bound writes what `Out`
says. -/
theorem out_chain {fuel : ℕ} (hd : args.depth ≤ TCP_TAIL_CALL_MAX_DEPTH)
    (hfuel : TCP_TAIL_CALL_MAX_DEPTH - args.depth < fuel) :
    args.Out copied (TailCall.chain (fun a => some (continueTcpRecvmsg copied a)) fuel args) := by
  refine TailCall.chain_induction (fun a => a.depth ≤ TCP_TAIL_CALL_MAX_DEPTH)
    (fun a => TCP_TAIL_CALL_MAX_DEPTH - a.depth) (fun a bs => a.Out copied bs) ?_ ?_ ?_
    fuel args hd hfuel
  · intro a _ h
    cases h
  · intro a b ha h
    simp only [Option.some.injEq] at h
    have hb : b = (continueTcpRecvmsg copied a).1 := by rw [h]
    have hnext : (continueTcpRecvmsg copied a).2 = none := by rw [h]
    rw [continueTcpRecvmsg_next] at hnext
    have hstop : a.toCopy copied = copied - a.written ∨ a.depth = TCP_TAIL_CALL_MAX_DEPTH := by
      by_contra hcont
      rw [if_neg hcont] at hnext
      cases hnext
    rw [hb]
    exact Out.cons ha (Out.last hstop)
  · intro a b s' ha h
    simp only [Option.some.injEq] at h
    have hb : b = (continueTcpRecvmsg copied a).1 := by rw [h]
    have hnext : (continueTcpRecvmsg copied a).2 = some s' := by rw [h]
    rw [continueTcpRecvmsg_next] at hnext
    have hgo : ¬(a.toCopy copied = copied - a.written ∨ a.depth = TCP_TAIL_CALL_MAX_DEPTH) := by
      intro hstop
      rw [if_pos hstop] at hnext
      cases hnext
    rw [if_neg hgo, Option.some.injEq] at hnext
    subst hnext
    have hdepth : a.depth < TCP_TAIL_CALL_MAX_DEPTH := by
      have ha' : a.depth ≤ TCP_TAIL_CALL_MAX_DEPTH := ha
      omega
    refine ⟨hdepth, by simp only; omega, fun bs hbs => ?_⟩
    rw [hb]
    exact Out.cons ha hbs

/-- A `continue_tcp_recvmsg` that tail-calls itself does so below the depth bound, one
deeper. -/
theorem continueTcpRecvmsg_depth {s' : RecvmsgArgs}
    (h : (continueTcpRecvmsg copied args).2 = some s') :
    s'.depth = args.depth + 1 ∧ args.depth ≠ TCP_TAIL_CALL_MAX_DEPTH := by
  rw [continueTcpRecvmsg_next] at h
  by_cases hstop : args.toCopy copied = copied - args.written ∨
      args.depth = TCP_TAIL_CALL_MAX_DEPTH
  · rw [if_pos hstop] at h
    cases h
  · rw [if_neg hstop, Option.some.injEq] at h
    subst h
    exact ⟨rfl, fun h => hstop (Or.inr h)⟩

/-- The receive chain ends by itself within `TCP_TAIL_CALL_MAX_DEPTH` calls: with more fuel it
writes the same slices. -/
theorem recvmsgChain_fuel (h1 : 1 ≤ args.depth) (hd : args.depth ≤ TCP_TAIL_CALL_MAX_DEPTH)
    {fuel : ℕ} (hfuel : TCP_TAIL_CALL_MAX_DEPTH ≤ fuel) :
    TailCall.chain (fun a => some (continueTcpRecvmsg copied a)) fuel args =
      TailCall.chain (fun a => some (continueTcpRecvmsg copied a)) TCP_TAIL_CALL_MAX_DEPTH
        args := by
  refine TailCall.chain_eq_of_le (fun a => a.depth ≤ TCP_TAIL_CALL_MAX_DEPTH)
    (fun a => TCP_TAIL_CALL_MAX_DEPTH - a.depth) ?_ hd (by omega) hfuel
  intro a b s' ha h
  have ha' : a.depth ≤ TCP_TAIL_CALL_MAX_DEPTH := ha
  have hnext : (continueTcpRecvmsg copied a).2 = some s' := by
    simp only [Option.some.injEq] at h
    rw [h]
  obtain ⟨hdepth, hne⟩ := continueTcpRecvmsg_depth hnext
  exact ⟨by simp only [hdepth]; omega, by simp only [hdepth]; omega⟩

/-- The receive chain of a message. -/
theorem out_tcpRecvmsgChain (iov : List Iovec) (c : ℕ) :
    (init iov).Out c (tcpRecvmsgChain c (init iov)) := by
  unfold tcpRecvmsgChain
  by_cases hc0 : c = 0
  · subst hc0
    exact ⟨rfl, fun _ hs => absurd hs List.not_mem_nil, Nat.zero_le _, Or.inl rfl⟩
  · rw [if_neg (by omega), Int.toNat_natCast]
    exact out_chain (show 1 ≤ 8 by decide) (show 8 - 1 < 8 by decide)

end RecvmsgArgs

/-- The receive chain writes, in order, the bytes from the first vector's base on, in slices
within one chunk, and all of the `c` bytes unless it made `TCP_TAIL_CALL_MAX_DEPTH` calls. -/
theorem tcpRecvmsgChain_bytes (iov : List Iovec) (c : ℕ) :
    let slices := tcpRecvmsgChain c (RecvmsgArgs.init iov)
    slices.flatMap sliceBytes = bytesAt (iov.headD ⟨0, 0⟩).iovBase (slices.map Prod.snd).sum ∧
      (∀ s ∈ slices, s.2 ≤ DATA_CHANNEL_CHUNK_MAX.toNat) ∧
      (slices.map Prod.snd).sum ≤ c ∧
      ((slices.map Prod.snd).sum = c ∨ slices.length = TCP_TAIL_CALL_MAX_DEPTH) := by
  intro slices
  obtain ⟨hbytes, hwithin, hsum, hcomplete⟩ := RecvmsgArgs.out_tcpRecvmsgChain iov c
  exact ⟨hbytes, fun s hs => (hwithin s hs).1, hsum, hcomplete⟩

/-- When the first vector holds all of the `c` bytes, the receive chain writes a prefix of the
bytes the kernel copied, in slices inside the first vector. -/
theorem tcpRecvmsgChain_of_le_iovLen (v : Iovec) (vs : List Iovec) (nrSegs c : ℕ)
    (hseg : 0 < nrSegs) (hc : c ≤ v.iovLen) :
    let slices := tcpRecvmsgChain c (RecvmsgArgs.init (v :: vs))
    slices.flatMap sliceBytes <+: iterBytes (v :: vs) nrSegs 0 ∧ ∀ s ∈ slices, Inside s v := by
  intro slices
  obtain ⟨hbytes, hwithin, hsum, -⟩ := RecvmsgArgs.out_tcpRecvmsgChain (v :: vs) c
  have hlen : (slices.map Prod.snd).sum ≤ v.iovLen := hsum.trans hc
  obtain ⟨n, rfl⟩ : ∃ n, nrSegs = n + 1 := ⟨nrSegs - 1, by omega⟩
  refine ⟨?_, fun s hs => ?_⟩
  · -- the bytes from the base are a prefix of the first vector's
    have hbytes' : slices.flatMap sliceBytes = bytesAt v.iovBase (slices.map Prod.snd).sum :=
      hbytes
    rw [hbytes', iterBytes_zero, List.take_succ_cons, List.flatMap_cons]
    exact (bytesAt_isPrefix_of_le hlen).trans (List.prefix_append _ _)
  · obtain ⟨-, hlo, hhi⟩ := hwithin s hs
    have hlo' : v.iovBase ≤ s.1 := hlo
    have hhi' : s.1 + s.2 ≤ v.iovBase + (slices.map Prod.snd).sum := hhi
    exact ⟨hlo', by omega⟩

/-! ### Where the chains go wrong -/

/-- The chains write other bytes than the kernel copied.  A send of 3 bytes from the offset 1 of
the two vectors of 2 bytes at 100 and at 200 writes the bytes at 101, 102 and 200, the one at 102
past the first vector, where the kernel copied those at 101, 200 and 201; a receive of 3 bytes
into the same vectors writes those at 100, 101 and 102, where the kernel copied those at 100, 101
and 200; and a send of nine chunks from one vector makes `TCP_TAIL_CALL_MAX_DEPTH` calls and
advances the stream by eight chunks. -/
theorem tcp_chains_misreport :
    (tcpSendmsgChain 3 (SendmsgArgs.init [⟨100, 2⟩, ⟨200, 2⟩] 2 1)).flatMap sliceBytes =
        [101, 102, 200] ∧
      (iterBytes [⟨100, 2⟩, ⟨200, 2⟩] 2 1).take 3 = [101, 200, 201] ∧
    (tcpRecvmsgChain 3 (RecvmsgArgs.init [⟨100, 2⟩, ⟨200, 2⟩])).flatMap sliceBytes =
        [100, 101, 102] ∧
      (iterBytes [⟨100, 2⟩, ⟨200, 2⟩] 2 0).take 3 = [100, 101, 200] ∧
    (tcpSendmsgChain 147447 (SendmsgArgs.init [⟨0, 147447⟩] 1 0)).length =
        TCP_TAIL_CALL_MAX_DEPTH ∧
      streamTotal 0 0 (tcpSendmsgChain 147447 (SendmsgArgs.init [⟨0, 147447⟩] 1 0)) = 131064 := by
  refine ⟨by decide, by decide, by decide, by decide, by decide, by decide⟩

end TcpProcessor

end OtelEbpf
