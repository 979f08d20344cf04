import Mathlib

/-!
# Byte memory and ring buffers

A buffer of bytes is a function from addresses to bytes.  `copyIn` is `memcpy` into it,
`copyOut` is `memcpy` out of it.  A ring buffer of `n` slots stores the byte at *logical*
position `q` (an unbounded count) in slot `q % n`; `ringRead` reads a run of logical
positions.  Code that writes a ring buffer cuts a run that crosses the end of the buffer into
two `memcpy`s; `ringWrite` is that two-chunk write, and its lemmas say which logical positions
it sets and which it keeps:

* `ringWrite_mod_self` : the positions written hold the source bytes;
* `ringWrite_mod_of_outside` : a position less than one lap before the run keeps its byte.

`ringRead_eq_copyOut` and `ringRead_eq_copyOut_append` are the same cut for reads.

Multi-byte values are little-endian (`storeLE`, `loadLE`), as on the machines the code runs
on: `loadLE_storeLE` is the round trip.

Text written piece by piece into a buffer of fixed size, each piece cut to the room left
(`appendBounded`), is the first `size` bytes of the whole text (`appendBounded_take`).
-/

namespace OtelEbpf

namespace Bytes

variable {α : Type*}

/-- `memcpy(mem + dst, src, src.length)`. -/
def copyIn (mem : ℕ → α) (dst : ℕ) (src : List α) : ℕ → α :=
  fun i => if h : dst ≤ i ∧ i - dst < src.length then src[i - dst] else mem i

/-- `memset(mem + dst, v, len)`. -/
def memset (mem : ℕ → α) (dst len : ℕ) (v : α) : ℕ → α :=
  fun i => if dst ≤ i ∧ i < dst + len then v else mem i

/-- The `len` bytes of `mem` from address `src`. -/
def copyOut (mem : ℕ → α) (src len : ℕ) : List α :=
  List.ofFn fun i : Fin len => mem (src + i)

/-- The `len` bytes of a ring of `n` slots from logical position `p`. -/
def ringRead (mem : ℕ → α) (n p len : ℕ) : List α :=
  List.ofFn fun i : Fin len => mem ((p + i) % n)

/-- Write `src` into a ring of `n` slots from logical position `p`, as one `memcpy` when it
fits before the end of the buffer and as two otherwise. -/
def ringWrite (mem : ℕ → α) (n p : ℕ) (src : List α) : ℕ → α :=
  if p % n + src.length ≤ n then copyIn mem (p % n) src
  else copyIn (copyIn mem (p % n) (src.take (n - p % n))) 0 (src.drop (n - p % n))

variable {mem : ℕ → α}

@[simp] theorem copyIn_nil (dst : ℕ) : copyIn mem dst [] = mem := by
  funext i
  simp [copyIn]

theorem copyIn_of_lt {dst i : ℕ} (src : List α) (h : i < dst) : copyIn mem dst src i = mem i := by
  simp only [copyIn]
  rw [dif_neg (by omega)]

theorem copyIn_of_le {dst i : ℕ} {src : List α} (h : dst + src.length ≤ i) :
    copyIn mem dst src i = mem i := by
  simp only [copyIn]
  rw [dif_neg (by omega)]

theorem copyIn_of_mem {dst i : ℕ} {src : List α} (h₁ : dst ≤ i) (h₂ : i < dst + src.length) :
    copyIn mem dst src i = src[i - dst] := by
  simp only [copyIn]
  rw [dif_pos ⟨h₁, by omega⟩]

theorem memset_of_lt {dst len i : ℕ} (v : α) (h : i < dst) : memset mem dst len v i = mem i := by
  simp only [memset]
  rw [if_neg (by omega)]

theorem memset_of_le {dst len i : ℕ} (v : α) (h : dst + len ≤ i) : memset mem dst len v i = mem i := by
  simp only [memset]
  rw [if_neg (by omega)]

@[simp] theorem length_copyOut (src len : ℕ) : (copyOut mem src len).length = len := by
  simp [copyOut]

@[simp] theorem length_ringRead (n p len : ℕ) : (ringRead mem n p len).length = len := by
  simp [ringRead]

theorem copyOut_copyIn_self (dst : ℕ) (src : List α) :
    copyOut (copyIn mem dst src) dst src.length = src := by
  apply List.ext_getElem (by simp)
  intro i h₁ h₂
  simp only [copyOut, List.getElem_ofFn]
  rw [copyIn_of_mem (by omega) (by omega)]
  simp

/-- Bytes read out of a range where two memories agree are the same. -/
theorem copyOut_congr {mem' : ℕ → α} {src len : ℕ}
    (h : ∀ i, src ≤ i → i < src + len → mem' i = mem i) : copyOut mem' src len = copyOut mem src len := by
  apply List.ext_getElem (by simp)
  intro i h₁ _
  simp only [copyOut, List.getElem_ofFn]
  exact h _ (by omega) (by simp at h₁; omega)

/-- A read of `a + b` bytes is a read of `a` bytes followed by one of `b`. -/
theorem copyOut_add (src a b : ℕ) :
    copyOut mem src (a + b) = copyOut mem src a ++ copyOut mem (src + a) b := by
  apply List.ext_getElem (by simp)
  intro i h₁ _
  rw [List.getElem_append]
  split_ifs with hi
  · simp [copyOut]
  · rw [length_copyOut] at hi
    simp only [copyOut, List.getElem_ofFn]
    congr 1
    simp only [List.length_ofFn]
    omega

/-- A read that starts where a `memcpy` wrote reads the bytes copied, then the old ones. -/
theorem copyOut_copyIn_prefix (dst len : ℕ) (src : List α) (h : src.length ≤ len) :
    copyOut (copyIn mem dst src) dst len = src ++ (copyOut mem dst len).drop src.length := by
  obtain ⟨b, rfl⟩ : ∃ b, len = src.length + b := ⟨len - src.length, by omega⟩
  rw [copyOut_add, copyOut_copyIn_self, copyOut_add, List.drop_left' (length_copyOut _ _),
    copyOut_congr fun i hi _ => copyIn_of_le (by omega)]

/-- A `memcpy` right after the first `dst` bytes appends to them. -/
theorem copyOut_copyIn_end (dst : ℕ) (src : List α) :
    copyOut (copyIn mem dst src) 0 (dst + src.length) = copyOut mem 0 dst ++ src := by
  rw [copyOut_add, Nat.zero_add, copyOut_copyIn_self,
    copyOut_congr fun i _ hi => copyIn_of_lt src (by omega)]

/-- Append to the bytes `buf` written so far as much of `src` as a buffer of `size` bytes
still holds. -/
def appendBounded (size : ℕ) (buf src : List α) : List α := buf ++ src.take (size - buf.length)

/-- Cutting each piece to the room left is cutting the whole text once. -/
theorem appendBounded_take (size : ℕ) (l src : List α) :
    appendBounded size (l.take size) src = (l ++ src).take size := by
  rw [appendBounded, List.take_append, List.length_take]
  congr 2
  omega

/-- A run that does not cross the end of the buffer is one `memcpy`. -/
theorem ringRead_eq_copyOut {n p len : ℕ} (h : p % n + len ≤ n) :
    ringRead mem n p len = copyOut mem (p % n) len := by
  apply List.ext_getElem (by simp)
  intro i h₁ h₂
  simp only [length_ringRead] at h₁
  have hn : 0 < n := by omega
  have hp := Nat.mod_lt p hn
  simp only [ringRead, copyOut, List.getElem_ofFn]
  congr 1
  rw [Nat.add_mod, Nat.mod_eq_of_lt (a := i) (by omega)]
  exact Nat.mod_eq_of_lt (by omega)

/-- A run that crosses the end of the buffer is two `memcpy`s: up to the end, then from the
start. -/
theorem ringRead_eq_copyOut_append {n p len : ℕ} (hn : 0 < n) (h₁ : n < p % n + len)
    (h₂ : len ≤ n) :
    ringRead mem n p len = copyOut mem (p % n) (n - p % n) ++ copyOut mem 0 (len - (n - p % n)) := by
  have hp := Nat.mod_lt p hn
  apply List.ext_getElem (by simp; omega)
  intro i hi₁ hi₂
  simp only [length_ringRead] at hi₁
  simp only [ringRead, List.getElem_ofFn]
  by_cases hi : i < n - p % n
  · rw [List.getElem_append_left (by simpa using hi)]
    simp only [copyOut, List.getElem_ofFn]
    congr 1
    rw [Nat.add_mod, Nat.mod_eq_of_lt (a := i) (by omega), Nat.mod_eq_of_lt (by omega)]
  · rw [List.getElem_append_right (by simpa using hi)]
    simp only [copyOut, List.getElem_ofFn, List.length_ofFn, Nat.zero_add]
    rw [Nat.add_mod, Nat.mod_eq_of_lt (a := i) (by omega)]
    have : p % n + i = (p % n + i - n) + n := by omega
    rw [this, Nat.add_mod_right, Nat.mod_eq_of_lt (by omega)]
    congr 1
    omega

/-- The slot of the position `j` after `p`, for `j` less than a lap. -/
theorem add_mod_of_lt {n p j : ℕ} (hn : 0 < n) (hj : j < n) :
    (p + j) % n = if p % n + j < n then p % n + j else p % n + j - n := by
  have hp := Nat.mod_lt p hn
  rw [Nat.add_mod, Nat.mod_eq_of_lt hj]
  split_ifs with h
  · exact Nat.mod_eq_of_lt h
  · have : p % n + j = (p % n + j - n) + n := by omega
    rw [this, Nat.add_mod_right, Nat.mod_eq_of_lt (by omega)]
    omega

/-- **A ring write sets the logical positions it covers.** -/
theorem ringWrite_mod_self {n p q : ℕ} {src : List α} (hn : 0 < n) (hlen : src.length ≤ n)
    (hq₁ : p ≤ q) (hq₂ : q < p + src.length) :
    ringWrite mem n p src (q % n) = src[q - p] := by
  have hp := Nat.mod_lt p hn
  have hq : q = p + (q - p) := by omega
  have hslot := add_mod_of_lt (p := p) hn (show q - p < n by omega)
  rw [← hq] at hslot
  unfold ringWrite
  split_ifs at hslot ⊢ with hfit hj
  · rw [hslot, copyIn_of_mem (by omega) (by omega)]
    simp
  · omega
  · -- the position is before the end of the buffer: the first `memcpy`
    rw [hslot, copyIn_of_le (by simp; omega), copyIn_of_mem (by omega) (by simp; omega)]
    simp
  · -- the position wrapped to the start of the buffer: the second `memcpy`
    rw [hslot, copyIn_of_mem (by omega) (by simp; omega)]
    simp only [List.getElem_drop]
    congr 1
    omega

/-- **A ring write keeps every position less than one lap before the run.** -/
theorem ringWrite_mod_of_outside {n p q : ℕ} {src : List α} (hn : 0 < n)
    (hq₁ : q < p) (hq₂ : p + src.length ≤ q + n) :
    ringWrite mem n p src (q % n) = mem (q % n) := by
  rcases Nat.eq_zero_or_pos src.length with h0 | h0
  · -- nothing is written
    rw [List.eq_nil_of_length_eq_zero h0]
    simp [ringWrite]
  have hq := Nat.mod_lt q hn
  have hslot := add_mod_of_lt (p := q) hn (show p - q < n by omega)
  rw [show q + (p - q) = p by omega] at hslot
  unfold ringWrite
  split_ifs at hslot ⊢ with hfit hd
  · exact copyIn_of_lt _ (by omega)
  · exact copyIn_of_le (by omega)
  · rw [copyIn_of_le (by simp; omega), copyIn_of_lt _ (by omega)]
  · omega

/-! ### Little-endian values -/

/-- The `w` little-endian bytes of `v`. -/
def leBytes : ℕ → ℕ → List UInt8
  | 0, _ => []
  | w + 1, v => UInt8.ofNat v :: leBytes w (v / 256)

/-- The number whose little-endian bytes are `bs`. -/
def leValue : List UInt8 → ℕ
  | [] => 0
  | b :: bs => b.toNat + 256 * leValue bs

@[simp] theorem length_leBytes (w v : ℕ) : (leBytes w v).length = w := by
  induction w generalizing v with
  | zero => rfl
  | succ w ih => simp [leBytes, ih]

theorem leValue_leBytes (w v : ℕ) : leValue (leBytes w v) = v % 256 ^ w := by
  induction w generalizing v with
  | zero => simp [leBytes, leValue, Nat.mod_one]
  | succ w ih =>
    rw [leBytes, leValue, ih, Nat.pow_succ', Nat.mod_mul, UInt8.toNat_ofNat']

/-- The first `k` bytes of a little-endian number are the number modulo `256 ^ k`. -/
theorem leValue_take (l : List UInt8) (k : ℕ) : leValue (l.take k) = leValue l % 256 ^ k := by
  induction l generalizing k with
  | nil => simp [leValue]
  | cons b bs ih =>
    cases k with
    | zero => simp [leValue, Nat.mod_one]
    | succ k =>
      have hb := b.toNat_lt
      have hlow : (b.toNat + 256 * leValue bs) % 256 = b.toNat := by omega
      have hhigh : (b.toNat + 256 * leValue bs) / 256 = leValue bs := by omega
      rw [List.take_succ_cons, leValue, leValue, ih, Nat.pow_succ', Nat.mod_mul, hlow, hhigh]

/-- Store the `w`-byte little-endian value `v` at address `p`. -/
def storeLE (mem : ℕ → UInt8) (p w v : ℕ) : ℕ → UInt8 := copyIn mem p (leBytes w v)

/-- Load the `w`-byte little-endian value at address `p`. -/
def loadLE (mem : ℕ → UInt8) (p w : ℕ) : ℕ := leValue (copyOut mem p w)

theorem loadLE_storeLE (mem : ℕ → UInt8) (p w v : ℕ) :
    loadLE (storeLE mem p w v) p w = v % 256 ^ w := by
  have h : copyOut (copyIn mem p (leBytes w v)) p (leBytes w v).length = leBytes w v :=
    copyOut_copyIn_self p _
  rw [length_leBytes] at h
  rw [loadLE, storeLE, h, leValue_leBytes]

theorem storeLE_of_lt {mem : ℕ → UInt8} {p w i : ℕ} (v : ℕ) (h : i < p) :
    storeLE mem p w v i = mem i :=
  copyIn_of_lt _ h

theorem storeLE_of_le {mem : ℕ → UInt8} {p w i : ℕ} (v : ℕ) (h : p + w ≤ i) :
    storeLE mem p w v i = mem i :=
  copyIn_of_le (by simpa using h)

/-- A load is determined by the bytes it covers. -/
theorem loadLE_congr {mem mem' : ℕ → UInt8} {p w : ℕ}
    (h : ∀ i, p ≤ i → i < p + w → mem' i = mem i) : loadLE mem' p w = loadLE mem p w := by
  simp only [loadLE, copyOut]
  congr 2
  funext i
  exact h _ (by omega) (by omega)

end Bytes

end OtelEbpf
