import OtelEbpf.PerfRing.Basic
import OtelEbpf.Lib.Run
import Mathlib.Algebra.BigOperators.Ring.List

/-!
# The layout of the perf ring, and its fill level

`pr_write` reserves a record at the tail and writes its header; `pr_read` consumes the record at
the head, by the size its header gives.  Between the two the data buffer holds, from the head,
the records written and not yet read, back to back, every header at a multiple of 8.  This file
proves that layout (`Layout`) along every run of `pr_write` and `pr_read` calls on an empty ring
of `2 ^ a` bytes, and reads off what `pr_bytes_remaining` reports.

* `layout_of_run` : along every run the records between head and tail lie back to back, each
  header giving its record's size, and together they fill at most the buffer.
* `prBytesRemaining_of_run` : `pr_bytes_remaining` returns `buf_tail - buf_head` unless the
  ring is full, where it returns `0`; it stores `buf_len` through `total_size`.
* `prBytesRemaining_full_ring` : two records of 16 bytes fill a ring of 32 bytes, and
  `pr_bytes_remaining` reports `0` of its `32` bytes.

`pr_bytes_remaining` works from the head and the tail masked to the buffer, which are equal both
when the ring is empty and when it is full, and `pr_write`'s space check (`>`, not `≥`) admits
the full ring.
-/

namespace OtelEbpf

namespace PerfRing

open Bytes

/-- A call on the ring. -/
inductive RingCall
  | write (len : UInt16) (type : UInt32)
  | read
  deriving DecidableEq, Repr

/-- An empty ring of `2 ^ a` bytes, `8 ≤ 2 ^ a < 2 ^ 32`, whose head is at a multiple of 8. -/
def Init (a : ℕ) (s : PerfRing × (ℕ → UInt8)) : Prop :=
  3 ≤ a ∧ a < 32 ∧ s.1.bufMask.toNat = 2 ^ a - 1 ∧ s.1.bufTail = s.1.bufHead ∧
    s.1.bufHead.toNat % 8 = 0

/-- `pr_init_contig` on a shared page whose `data_head` and `data_tail` are equal, a multiple of
8, for a buffer of `2 ^ a < 2 ^ 32` bytes, gives an empty ring of that size. -/
theorem init_prInitContig {page : PerfEventMmapPage} {nPages : UInt32} {pageSize : UInt64}
    {eq : PerfRing} (data : ℕ → UInt8) (h : prInitContig page nPages pageSize = .ok eq)
    (hlen : nPages.toNat * pageSize.toNat = 2 ^ a) (ha : a < 32)
    (hempty : page.dataHead = page.dataTail) (hmod : page.dataTail.toNat % 8 = 0) :
    Init a (eq, data) := by
  simp only [prInitContig] at h
  split_ifs at h with hbad
  obtain rfl := Except.ok.inj h
  have hpow : 2 ^ a < 2 ^ 32 := Nat.pow_lt_pow_right (by decide) ha
  -- the `u64` product does not wrap: it is the buffer length
  have hbuf : (nPages.toUInt64 * pageSize).toNat = 2 ^ a := by
    rw [UInt64.toNat_mul, UInt32.toNat_toUInt64, hlen]
    exact Nat.mod_eq_of_lt (by omega)
  have h8 : 8 ≤ 2 ^ a := by
    have hge : ¬ nPages.toUInt64 * pageSize < 8 := fun hlt => hbad (Or.inr hlt)
    rw [UInt64.lt_iff_toNat_lt, hbuf] at hge
    simp only [UInt64.reduceToNat] at hge
    omega
  have ha₃ : 3 ≤ a := by
    by_contra hlt
    have : 2 ^ a ≤ 2 ^ 2 := Nat.pow_le_pow_right (by decide) (by omega)
    omega
  refine ⟨ha₃, ha, ?_, by simp [hempty], ?_⟩
  · show ((nPages.toUInt64 * pageSize) - 1).toUInt32.toNat = 2 ^ a - 1
    rw [UInt64.toNat_toUInt32, UInt64.toNat_sub_of_le _ _ (by
      rw [UInt64.le_iff_toNat_le, hbuf]
      simp only [UInt64.reduceToNat]
      omega), hbuf]
    simp only [UInt64.reduceToNat]
    omega
  · show page.dataTail.toUInt32.toNat % 8 = 0
    rw [UInt64.toNat_toUInt32]
    omega

/-- One call on the ring and its data buffer. -/
inductive Step : PerfRing × (ℕ → UInt8) → RingCall → PerfRing × (ℕ → UInt8) → Prop
  | write (eq : PerfRing) (data : ℕ → UInt8) (len : UInt16) (type : UInt32) :
      Step (eq, data) (.write len type) (prWrite eq data len type).2
  | read (eq : PerfRing) (data : ℕ → UInt8) : Step (eq, data) .read ((prRead eq data).2.2, data)

/-- The ring of `2 ^ a` bytes holds, from its head, records of the sizes `rs`: multiples of 8
that fit a header's `u16` size field, filling at most the buffer, the header of each at its
offset from the head giving its size. -/
structure Layout (a : ℕ) (eq : PerfRing) (data : ℕ → UInt8) (rs : List ℕ) : Prop where
  three_le : 3 ≤ a
  lt_32 : a < 32
  mask : eq.bufMask.toNat = 2 ^ a - 1
  head_mod : eq.bufHead.toNat % 8 = 0
  used : (eq.bufTail - eq.bufHead).toNat = rs.sum
  sum_le : rs.sum ≤ 2 ^ a
  sizes : ∀ r ∈ rs, 8 ≤ r ∧ r % 8 = 0 ∧ r < 65536
  headers : ∀ j (hj : j < rs.length),
    loadLE data ((eq.bufHead.toNat + (rs.take j).sum) % 2 ^ a + 6) 2 = rs[j]

variable {a : ℕ} {eq : PerfRing} {data : ℕ → UInt8} {rs : List ℕ}

namespace Layout

/-! ### Positions in a laid-out ring -/

theorem pow_dvd (h : Layout a eq data rs) : 2 ^ a ∣ 2 ^ 32 :=
  Nat.pow_dvd_pow 2 (Nat.le_of_lt h.lt_32)

theorem eight_dvd (h : Layout a eq data rs) : 8 ∣ 2 ^ a :=
  Nat.pow_dvd_pow 2 h.three_le

theorem pow_le (h : Layout a eq data rs) : 2 ^ a ≤ 2 ^ 31 :=
  Nat.pow_le_pow_right (by decide) (Nat.le_of_lt_succ h.lt_32)

/-- `buf_mask + 1`, the `buf_size` of `pr_bytes_remaining`, is the size of the buffer. -/
theorem toNat_bufSize (h : Layout a eq data rs) : (eq.bufMask + 1).toNat = 2 ^ a := by
  have hpos := Nat.two_pow_pos a
  have := h.pow_le
  rw [UInt32.toNat_add, h.mask]
  simp only [UInt32.reduceToNat]
  omega

/-- The tail is the head moved past the records. -/
theorem tail_toNat (h : Layout a eq data rs) :
    eq.bufTail.toNat = (eq.bufHead.toNat + rs.sum) % 2 ^ 32 := by
  have hu := h.used
  have := h.sum_le
  have := h.pow_le
  rw [UInt32.toNat_sub] at hu
  have := eq.bufTail.toNat_lt
  have := eq.bufHead.toNat_lt
  omega

theorem slot (h : Layout a eq data rs) (x : UInt32) :
    (x &&& eq.bufMask).toNat = x.toNat % 2 ^ a :=
  Word.toNat_and_mask _ _ h.mask

theorem slot_tail (h : Layout a eq data rs) :
    (eq.bufTail &&& eq.bufMask).toNat = (eq.bufHead.toNat + rs.sum) % 2 ^ a := by
  rw [h.slot, h.tail_toNat, Nat.mod_mod_of_dvd _ h.pow_dvd]

/-- Every record starts at a multiple of 8 from the head. -/
theorem sum_take_mod (h : Layout a eq data rs) (j : ℕ) : (rs.take j).sum % 8 = 0 := by
  apply Nat.mod_eq_zero_of_dvd
  apply List.dvd_sum
  intro r hr
  exact Nat.dvd_of_mod_eq_zero (h.sizes r (List.mem_of_mem_take hr)).2.1

/-- Record `j` ends before the tail. -/
theorem sum_take_add_le (j : ℕ) (hj : j < rs.length) : (rs.take j).sum + rs[j] ≤ rs.sum := by
  rw [← List.sum_take_succ]
  have := List.sum_take_add_sum_drop rs (j + 1)
  omega

theorem tail_eq_of_nil (h : Layout a eq data []) : eq.bufTail = eq.bufHead := by
  have ht := h.tail_toNat
  have := eq.bufHead.toNat_lt
  rw [List.sum_nil, Nat.add_zero, Nat.mod_eq_of_lt this] at ht
  exact UInt32.toNat_inj.1 ht

theorem tail_ne_of_cons {r : ℕ} (h : Layout a eq data (r :: rs)) : eq.bufTail ≠ eq.bufHead := by
  intro he
  have ht := h.tail_toNat
  have hr := (h.sizes r List.mem_cons_self).1
  have hsum := h.sum_le
  have := h.pow_le
  have := eq.bufHead.toNat_lt
  rw [he, List.sum_cons] at ht
  rw [List.sum_cons] at hsum
  omega

/-- The header at the head gives the size of the first record. -/
theorem headSize_of_cons {r : ℕ} (h : Layout a eq data (r :: rs)) : headSize eq data = r := by
  have h₀ := h.headers 0 (by simp)
  rw [List.take_zero, List.sum_nil, Nat.add_zero] at h₀
  rw [headSize, h.slot]
  exact h₀

/-! ### One call keeps the layout -/

/-- `pr_write` of a record that fits appends it to the layout: its header lies in the free
space, past the records and less than a lap ahead of the head, so it overwrites no header.
(The check against `buf_mask` follows from the space check.) -/
theorem prWrite_of_fits {len : UInt16} {type : UInt32} (h : Layout a eq data rs)
    (h₂ : alignedLen len < 65536)
    (h₃ : eq.bufTail + alignedLen len - eq.bufHead ≤ eq.bufMask + 1) :
    Layout a { eq with bufTail := eq.bufTail + alignedLen len }
      (storeHeader data (eq.bufTail &&& eq.bufMask).toNat (alignedLen len).toNat type.toNat)
      (rs ++ [(alignedLen len).toNat]) := by
  have hal := toNat_alignedLen len
  have hal₂ : (alignedLen len).toNat < 65536 := h₂
  have hpos := Nat.two_pow_pos a
  have hle := h.pow_le
  have hsum := h.sum_le
  have hhead := eq.bufHead.toNat_lt
  have htail := h.tail_toNat
  -- the space check, read on the unbounded counts
  have hfree : rs.sum + (alignedLen len).toNat ≤ 2 ^ a := by
    have h₃' : (eq.bufTail + alignedLen len - eq.bufHead).toNat ≤ (eq.bufMask + 1).toNat := h₃
    rw [h.toNat_bufSize, UInt32.toNat_sub, UInt32.toNat_add] at h₃'
    omega
  refine ⟨h.three_le, h.lt_32, h.mask, h.head_mod, ?_, by simpa using hfree, fun r hr => ?_,
    fun j hj => ?_⟩
  · show (eq.bufTail + alignedLen len - eq.bufHead).toNat = (rs ++ [(alignedLen len).toNat]).sum
    rw [UInt32.toNat_sub, UInt32.toNat_add, List.sum_append, List.sum_singleton]
    omega
  · rcases List.mem_append.1 hr with hr | hr
    · exact h.sizes r hr
    · rw [List.mem_singleton.1 hr]
      omega
  rw [List.length_append, List.length_singleton] at hj
  rcases Nat.lt_or_ge j rs.length with hj' | hj'
  · -- an old header: it lies a multiple of 8 before the new one, less than a lap
    rw [List.take_append_of_le_length (Nat.le_of_lt hj'), List.getElem_append_left hj',
      ← h.headers j hj']
    have hend := sum_take_add_le j hj'
    have hrj := (h.sizes _ (List.getElem_mem hj')).1
    have hsep := Word.mod_add_le_or_of_lap h.eight_dvd
      (x := eq.bufHead.toNat + (rs.take j).sum) (y := eq.bufHead.toNat + rs.sum)
      (by have := h.sum_take_mod j; have := h.head_mod; omega)
      (by have := h.sum_take_mod rs.length; rw [List.take_length] at this
          have := h.head_mod; omega)
      (by omega) (by omega)
    show loadLE _ ((eq.bufHead.toNat + (rs.take j).sum) % 2 ^ a + 6) 2 = _
    apply loadLE_congr
    intro i hi₁ hi₂
    rw [h.slot_tail]
    rcases hsep with hsep | hsep
    · exact storeHeader_of_lt (by omega)
    · exact storeHeader_of_le (by omega)
  · -- the new header, at the tail
    have hjl : j = rs.length := by omega
    subst hjl
    rw [List.take_left' rfl, List.getElem_append_right (Nat.le_refl _)]
    simp only [Nat.sub_self, List.getElem_singleton]
    show loadLE _ ((eq.bufHead.toNat + rs.sum) % 2 ^ a + 6) 2 = _
    rw [← h.slot_tail, loadLE_storeHeader_size, Nat.mod_eq_of_lt hal₂]

/-- `pr_read` of the first record drops it from the layout. -/
theorem prRead_cons {r : ℕ} (h : Layout a eq data (r :: rs)) :
    Layout a { eq with bufHead := eq.bufHead + UInt32.ofNat r } data rs := by
  obtain ⟨hr8, hr, hr65⟩ := h.sizes r List.mem_cons_self
  have hhead : (eq.bufHead + UInt32.ofNat r).toNat = (eq.bufHead.toNat + r) % 2 ^ 32 := by
    rw [UInt32.toNat_add, UInt32.toNat_ofNat_of_lt' (show r < 2 ^ 32 by omega)]
  have htail := h.tail_toNat
  have hsum := h.sum_le
  have hle := h.pow_le
  have := eq.bufHead.toNat_lt
  have := h.head_mod
  rw [List.sum_cons] at htail hsum
  refine ⟨h.three_le, h.lt_32, h.mask, ?_, ?_, by omega,
    fun r' hr' => h.sizes r' (List.mem_cons_of_mem _ hr'), fun j hj => ?_⟩
  · show (eq.bufHead + UInt32.ofNat r).toNat % 8 = 0
    rw [hhead]
    omega
  · show (eq.bufTail - (eq.bufHead + UInt32.ofNat r)).toNat = rs.sum
    rw [UInt32.toNat_sub, hhead, htail]
    omega
  · -- record `j` of the rest is record `j + 1` of the ring
    have hj₁ := h.headers (j + 1) (by simp [hj])
    rw [List.take_succ_cons, List.sum_cons, List.getElem_cons_succ, ← Nat.add_assoc] at hj₁
    show loadLE data (((eq.bufHead + UInt32.ofNat r).toNat + (rs.take j).sum) % 2 ^ a + 6) 2 = rs[j]
    rw [hhead, Word.mod_add_of_dvd h.pow_dvd]
    exact hj₁

end Layout

/-- `pr_write` that refuses the record leaves the ring and its buffer as they were. -/
theorem prWrite_of_not_fits {len : UInt16} {type : UInt32}
    (h : ¬ (alignedLen len ≤ eq.bufMask ∧ alignedLen len < 65536 ∧
      eq.bufTail + alignedLen len - eq.bufHead ≤ eq.bufMask + 1)) :
    (prWrite eq data len type).2 = (eq, data) := by
  unfold prWrite
  split_ifs with h₁ h₂ h₃
  · rfl
  · rfl
  · rfl
  · exact absurd ⟨UInt32.not_lt.1 h₁, UInt32.not_le.1 h₂, UInt32.not_lt.1 h₃⟩ h

theorem layout_init {s : PerfRing × (ℕ → UInt8)} (hs : Init a s) : Layout a s.1 s.2 [] := by
  obtain ⟨ha₃, ha, hmask, hempty, hmod⟩ := hs
  refine ⟨ha₃, ha, hmask, hmod, ?_, Nat.zero_le _, fun r hr => ?_, fun j hj => ?_⟩
  · rw [hempty, UInt32.sub_self]
    rfl
  · cases hr
  · cases hj

/-- Every call keeps the ring laid out. -/
theorem Layout.step {s s' : PerfRing × (ℕ → UInt8)} {e : RingCall} (h : Layout a s.1 s.2 rs)
    (hst : Step s e s') : ∃ rs', Layout a s'.1 s'.2 rs' := by
  cases hst with
  | write eq data len type =>
    by_cases hfit : alignedLen len ≤ eq.bufMask ∧ alignedLen len < 65536 ∧
        eq.bufTail + alignedLen len - eq.bufHead ≤ eq.bufMask + 1
    · obtain ⟨h₁, h₂, h₃⟩ := hfit
      rw [PerfRing.prWrite_of_fits h₁ h₂ h₃]
      exact ⟨_, h.prWrite_of_fits h₂ h₃⟩
    · rw [prWrite_of_not_fits hfit]
      exact ⟨rs, h⟩
  | read eq data =>
    cases rs with
    | nil =>
      rw [prRead_of_eq h.tail_eq_of_nil]
      exact ⟨[], h⟩
    | cons r rs =>
      rw [prRead_of_ne h.tail_ne_of_cons, h.headSize_of_cons]
      exact ⟨rs, h.prRead_cons⟩

/-- **The layout along a run**: after every sequence of `pr_write` and `pr_read` calls on an
empty ring, the ring holds records laid out back to back from its head. -/
theorem layout_of_run {calls : List RingCall} {s : PerfRing × (ℕ → UInt8)}
    (hrun : Run (Init a) Step calls s) : ∃ rs, Layout a s.1 s.2 rs :=
  Run.invariant (I := fun s => ∃ rs, Layout a s.1 s.2 rs) (fun _ hs => ⟨[], layout_init hs⟩)
    (fun _ _ _ ⟨_, h⟩ hst => h.step hst) hrun

/-! ### `pr_bytes_remaining` -/

/-- On a laid-out ring `pr_bytes_remaining` returns the bytes of the records modulo the size of
the buffer, and the size of the buffer. -/
theorem Layout.prBytesRemaining_eq (h : Layout a eq data rs) :
    prBytesRemaining eq = (UInt32.ofNat (rs.sum % 2 ^ a), eq.bufMask + 1) := by
  have hpos := Nat.two_pow_pos a
  have hle := h.pow_le
  have hsum := h.sum_le
  have hsize := h.toNat_bufSize
  have hstart := h.slot eq.bufHead
  have hstop := h.slot_tail
  have hu := Nat.mod_lt eq.bufHead.toNat hpos
  -- the tail's slot is the head's moved by the fill level, wrapping at most once
  have hwrap := Word.mod_add_eq_of_le (x := eq.bufHead.toNat) hpos hsum
  -- a full ring has the fill level `0` modulo the size of the buffer
  obtain ⟨hm, hS⟩ | ⟨hm, hS⟩ : (rs.sum % 2 ^ a = rs.sum ∧ rs.sum < 2 ^ a) ∨
      (rs.sum % 2 ^ a = 0 ∧ rs.sum = 2 ^ a) := by
    rcases Nat.lt_or_ge rs.sum (2 ^ a) with hlt | hge
    · exact Or.inl ⟨Nat.mod_eq_of_lt hlt, hlt⟩
    · have hfull : rs.sum = 2 ^ a := by omega
      exact Or.inr ⟨by rw [hfull, Nat.mod_self], hfull⟩
  all_goals
    simp only [prBytesRemaining]
    split_ifs with hlt
    all_goals
      rw [UInt32.lt_iff_toNat_lt, hstart, hstop] at hlt
      refine Prod.ext ?_ rfl
      apply UInt32.toNat_inj.1
    · rw [UInt32.toNat_add, UInt32.toNat_sub, hsize, hstart, hstop, UInt32.toNat_ofNat']
      split_ifs at hwrap <;> omega
    · rw [UInt32.toNat_sub, hstart, hstop, UInt32.toNat_ofNat']
      split_ifs at hwrap <;> omega

/-- **What `pr_bytes_remaining` reports** after every sequence of `pr_write` and `pr_read` calls
on an empty ring: the ring is never filled past its buffer, `pr_bytes_remaining` returns
`buf_tail - buf_head` unless the ring is full, where it returns `0`, and it stores `buf_len`
through `total_size`. -/
theorem prBytesRemaining_of_run {calls : List RingCall} {s : PerfRing × (ℕ → UInt8)}
    (hrun : Run (Init a) Step calls s) :
    (s.1.bufTail - s.1.bufHead).toNat ≤ s.1.bufMask.toNat + 1 ∧
      prBytesRemaining s.1 =
        (if (s.1.bufTail - s.1.bufHead).toNat = s.1.bufMask.toNat + 1 then 0
          else s.1.bufTail - s.1.bufHead, s.1.bufMask + 1) := by
  obtain ⟨rs, h⟩ := layout_of_run hrun
  have hsize : s.1.bufMask.toNat + 1 = 2 ^ a := by
    have := Nat.two_pow_pos a
    rw [h.mask]
    omega
  have hsum := h.sum_le
  have hle := h.pow_le
  rw [h.used, hsize, h.prBytesRemaining_eq]
  refine ⟨hsum, ?_⟩
  split_ifs with hfull
  · rw [hfull, Nat.mod_self]
    rfl
  · -- below a full ring the fill level is the difference of the counters
    rw [Nat.mod_eq_of_lt (by omega)]
    refine Prod.ext (UInt32.toNat_inj.1 ?_) rfl
    rw [UInt32.toNat_ofNat_of_lt' (show rs.sum < 2 ^ 32 by omega), h.used]

/-- `pr_write` of a record that fits, as a step. -/
theorem step_write_of_fits {len : UInt16} {type : UInt32} (h₁ : alignedLen len ≤ eq.bufMask)
    (h₂ : alignedLen len < 65536)
    (h₃ : eq.bufTail + alignedLen len - eq.bufHead ≤ eq.bufMask + 1) :
    Step (eq, data) (.write len type) ({ eq with bufTail := eq.bufTail + alignedLen len },
      storeHeader data (eq.bufTail &&& eq.bufMask).toNat (alignedLen len).toNat type.toNat) := by
  have hst := Step.write eq data len type
  rwa [prWrite_of_fits h₁ h₂ h₃] at hst

/-- Two `pr_write`s of 8-byte payloads, records of 16 bytes, fill an empty ring of 32 bytes:
there are then 32 bytes between head and tail, and `pr_bytes_remaining` reports `0` bytes of
`32`. -/
theorem prBytesRemaining_full_ring :
    Run (Init 5) Step [.write 8 PERF_RECORD_SAMPLE, .write 8 PERF_RECORD_SAMPLE]
        (⟨31, 0, 32⟩, storeHeader (storeHeader (fun _ => 0) 0 16 9) 16 16 9) ∧
      (⟨31, 0, 32⟩ : PerfRing).bufTail - (⟨31, 0, 32⟩ : PerfRing).bufHead = 32 ∧
      prBytesRemaining ⟨31, 0, 32⟩ = (0, 32) := by
  have h₀ : Init 5 (⟨31, 0, 0⟩, fun _ => 0) := ⟨by decide, by decide, rfl, rfl, rfl⟩
  have h₁ : Step (⟨31, 0, 0⟩, fun _ => 0) (.write 8 PERF_RECORD_SAMPLE)
      (⟨31, 0, 16⟩, storeHeader (fun _ => 0) 0 16 9) :=
    step_write_of_fits (by decide) (by decide) (by decide)
  have h₂ : Step (⟨31, 0, 16⟩, storeHeader (fun _ => 0) 0 16 9) (.write 8 PERF_RECORD_SAMPLE)
      (⟨31, 0, 32⟩, storeHeader (storeHeader (fun _ => 0) 0 16 9) 16 16 9) :=
    step_write_of_fits (by decide) (by decide) (by decide)
  exact ⟨.snoc (.snoc (.start h₀) h₁) h₂, by decide, by decide⟩

end PerfRing

end OtelEbpf
