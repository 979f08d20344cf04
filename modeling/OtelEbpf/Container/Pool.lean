import Mathlib
import OtelEbpf.Util.PoolAllocator
import OtelEbpf.Util.IterableBitmap

/-!
# The object pool

`Pool<T, SIZE>` (`util/pool.h`) constructs objects of type `T` in the `SIZE` elements of a
block of storage.  A `pool_allocator` (`OtelEbpf.Util.PoolAllocator`) threaded through the
storage hands the elements out; the bitmap `allocated_` marks those that hold an object,
`elem_count_` counts them and `max_elem_count_` is the largest count so far.

The storage is the allocator's memory.  `emplace` takes an element from
`pool_allocator_alloc`, which zeroes it, and constructs the object over it, writing the bytes
of its representation (`repr v`, at most an element); `remove` destroys the object and gives
the element back to `pool_allocator_free`, which writes its link into the element's first
bytes.  The objects are also kept as the view `objects` through which the code reads them as
`T` (`operator[]`).  Constructors that throw are outside the model.

* `Inv` : the invariant of a pool of at most `2 ^ 32` bytes: the allocator's and the bitmap's
  invariants, the elements marked, holding an object and handed out are the same ones, the
  count is theirs, and every object's bytes are intact in the storage;
* `Inv.init` : a new pool satisfies it;
* `Inv.emplace` : `emplace` on a pool that is not full constructs the object in an element
  below `SIZE` that held none and returns that element's index, never `invalid`;
* `Inv.remove` : `remove` of an element that holds an object destroys that object and no other.
-/

namespace OtelEbpf

namespace Container

open Util Bytes

/-- The width of `index_type`: `u32` for pools of at least `(1 << 16) - 1` elements, `u16`
below. -/
def indexBits (SIZE : ℕ) : ℕ := if 2 ^ 16 - 1 ≤ SIZE then 32 else 16

/-- `invalid`, the largest `index_type`. -/
def invalid (SIZE : ℕ) : ℕ := 2 ^ indexBits SIZE - 1

/-- An index below a pool of at most `2 ^ 30` elements is below `invalid`. -/
theorem lt_invalid {SIZE i : ℕ} (hmax : SIZE ≤ 2 ^ 30) (hi : i < SIZE) : i < invalid SIZE := by
  unfold invalid indexBits
  split_ifs with h <;> omega

/-- Such an index survives the cast to `index_type`. -/
theorem mod_indexBits {SIZE i : ℕ} (hmax : SIZE ≤ 2 ^ 30) (hi : i < SIZE) :
    i % 2 ^ indexBits SIZE = i := by
  have := lt_invalid hmax hi
  unfold invalid at this
  exact Nat.mod_eq_of_lt (by omega)

/-- `position`: the index of an element and the object `entry` points to, `none` for
`nullptr`. -/
structure Position (T : Type*) where
  index : ℕ
  entry : Option T
  deriving DecidableEq, Repr

/-- The state of a `Pool`. -/
structure Pool (T : Type*) where
  /-- `pool_alloc_` with the bytes of `elements_`, and the ghost set of elements handed out -/
  alloc : Util.Pool
  /-- the object constructed in each element of `elements_` -/
  objects : ℕ → Option T
  /-- `allocated_` -/
  allocated : IterableBitmap
  /-- `elem_count_` -/
  elemCount : ℕ
  /-- `max_elem_count_` -/
  maxElemCount : ℕ

namespace Pool

variable {T : Type*} (SIZE es : ℕ) (repr : T → List UInt8)

/-- `size()`. -/
def size (s : Pool T) : ℕ := s.elemCount

/-- `full()`: `size() == capacity()`. -/
def full (s : Pool T) : Bool := s.size == SIZE

/-- `operator[]`: the object in element `index`, `none` where its assertions
(`index < pool_size`, `allocated_.get(index)`) fail. -/
def get (s : Pool T) (index : ℕ) : Option T :=
  if index < SIZE ∧ s.allocated.get index ≠ 0 then s.objects index else none

/-- `emplace(v)`: `{invalid, nullptr}` when full; otherwise the object is constructed in the
element `pool_allocator_alloc` hands out, which is marked and counted. -/
def emplace (s : Pool T) (v : T) : Position T × Pool T :=
  if s.full SIZE then (⟨invalid SIZE, none⟩, s)
  else
    let index := (poolAllocatorAlloc s.alloc.map s.alloc.mem).1
    (⟨index.toNat % 2 ^ indexBits SIZE, some v⟩,
      { alloc := (s.alloc.call .alloc).call (.write index (repr v))
        objects := Function.update s.objects index.toNat (some v)
        allocated := s.allocated.set SIZE index.toNat
        elemCount := s.elemCount + 1
        maxElemCount := max s.maxElemCount (s.elemCount + 1) })

/-- `remove(index)`: the destructor, then `pool_allocator_free`, then the element is uncounted
and unmarked. -/
def remove (s : Pool T) (index : ℕ) : Pool T :=
  { alloc := s.alloc.call (.free (UInt32.ofNat index))
    objects := Function.update s.objects index none
    allocated := s.allocated.clear SIZE index
    elemCount := s.elemCount - 1
    maxElemCount := s.maxElemCount }

/-- A write through the `element_type *` of an element (`operator[](index)`, or a position's
`entry`): the object becomes `v`, whose bytes are written over the element's. -/
def set (s : Pool T) (index : ℕ) (v : T) : Pool T :=
  { s with
    alloc := s.alloc.call (.write (UInt32.ofNat index) (repr v))
    objects := Function.update s.objects index (some v) }

/-- A pool fresh from the constructor, over storage of any contents: `pool_allocator_init`
over `pool_size` elements of `es` bytes (`sizeof(poolable_type)`), and nothing constructed. -/
def Init (s : Pool T) : Prop :=
  Util.Pool.Init (UInt32.ofNat es) (UInt32.ofNat SIZE) s.alloc ∧ s.objects = (fun _ => none) ∧
    s.allocated = IterableBitmap.empty ∧ s.elemCount = 0 ∧ s.maxElemCount = 0

/-- `Pool()` over the storage `mem` that `allocate` returns, whatever it holds:
`pool_allocator_init` of `pool_size` elements of `es` bytes, as it sets them up when it
succeeds. -/
def new (mem : ℕ → UInt8) : Pool T :=
  ⟨⟨⟨0, 0, UInt32.ofNat es, UInt32.ofNat SIZE⟩, mem, ∅⟩, fun _ => none, IterableBitmap.empty, 0, 0⟩

/-- The invariant of a pool of `SIZE` elements of `es` bytes. -/
structure Inv (s : Pool T) : Prop where
  alloc : ∃ chain E, Util.Inv SIZE es s.alloc chain E
  wf : s.allocated.Wf SIZE
  allocated : ∀ i, s.allocated.Mem i ↔ i ∈ s.alloc.inUse
  objects : ∀ i, (s.objects i).isSome ↔ i ∈ s.alloc.inUse
  /-- the bytes of every object are where it was constructed -/
  intact : ∀ i v, s.objects i = some v → copyOut s.alloc.mem (i * es) (repr v).length = repr v
  elemCount : s.elemCount = s.alloc.inUse.card
  le_max : s.elemCount ≤ s.maxElemCount
  max_le : s.maxElemCount ≤ SIZE

end Pool

/-! ### The storage -/

section Storage

variable {i j : ℕ}

/-- Distinct elements of `es` bytes are disjoint. -/
theorem elem_apart (es : ℕ) (hij : i ≠ j) : i * es + es ≤ j * es ∨ j * es + es ≤ i * es := by
  rcases Nat.lt_or_gt_of_ne hij with hlt | hlt
  · have : (i + 1) * es ≤ j * es := Nat.mul_le_mul_right es hlt
    rw [Nat.succ_mul] at this
    exact Or.inl this
  · have : (j + 1) * es ≤ i * es := Nat.mul_le_mul_right es hlt
    rw [Nat.succ_mul] at this
    exact Or.inr this

/-- A change of memory inside element `j` leaves the bytes of an object of at most `es` bytes in
element `i ≠ j` as they were. -/
theorem copyOut_of_apart {mem mem' : ℕ → UInt8} {es len : ℕ} (hij : i ≠ j) (hlen : len ≤ es)
    (hmem : ∀ x, x < j * es ∨ j * es + es ≤ x → mem' x = mem x) :
    copyOut mem' (i * es) len = copyOut mem (i * es) len := by
  apply copyOut_congr
  intro x hx₁ hx₂
  apply hmem
  rcases elem_apart es hij with h | h <;> omega

/-- `pool_allocator_alloc` zeroes the element it hands out and touches no other byte. -/
theorem alloc_mem {map : PoolAllocator} {mem : ℕ → UInt8}
    (h : (poolAllocatorAlloc map mem).1 ≠ POOL_ALLOCATOR_NULL_ELEM) :
    (poolAllocatorAlloc map mem).2.2 =
      memset mem (poolAllocatorElem map (poolAllocatorAlloc map mem).1) map.elemSize.toNat 0 := by
  unfold poolAllocatorAlloc at h ⊢
  split_ifs at h ⊢ <;> first | exact absurd rfl h | rfl

end Storage

namespace Pool

variable {T : Type*} {SIZE es : ℕ} {repr : T → List UInt8} {s : Pool T}

/-- The constructor makes a new pool: `pool_allocator_init` succeeds for at least one element
(the `static_assert`) of at least four bytes (the `union` with a `u32`). -/
theorem init_new (mem : ℕ → UInt8) (hpos : 0 < SIZE) (hSIZE : SIZE < 2 ^ 32) (hes : 4 ≤ es)
    (hes' : es < 2 ^ 32) : (new SIZE es mem : Pool T).Init SIZE es := by
  have hn : ¬ UInt32.ofNat SIZE = 0 := by
    rw [← UInt32.toNat_inj, UInt32.toNat_ofNat', Nat.mod_eq_of_lt hSIZE, UInt32.toNat_zero]
    omega
  have he : ¬ UInt32.ofNat es < 4 := by
    rw [UInt32.lt_iff_toNat_lt, UInt32.toNat_ofNat', Nat.mod_eq_of_lt hes']
    simp only [UInt32.reduceToNat]
    omega
  refine ⟨⟨?_, rfl⟩, rfl, rfl, rfl, rfl⟩
  simp only [poolAllocatorInit, hn, he, or_self, if_false]
  rfl

/-- A write of one element leaves what `operator[]` reads of every other. -/
theorem get_set_of_ne {i j : ℕ} (hij : i ≠ j) (v : T) :
    (s.set repr j v).get SIZE i = s.get SIZE i := by
  simp [Pool.get, Pool.set, Function.update_of_ne hij]

namespace Inv

theorem lt_of_mem (h : s.Inv SIZE es repr) {i : ℕ} (hi : i ∈ s.alloc.inUse) : i < SIZE := by
  obtain ⟨chain, E, ha⟩ := h.alloc
  exact Nat.lt_of_lt_of_le ((ha.inUse i).1 hi).1 ha.end_le

theorem size_pos (h : s.Inv SIZE es repr) : 0 < SIZE := by
  obtain ⟨chain, E, ha⟩ := h.alloc
  exact ha.pos

theorem size_le_two_pow_30 (h : s.Inv SIZE es repr) : SIZE ≤ 2 ^ 30 := by
  obtain ⟨chain, E, ha⟩ := h.alloc
  exact ha.le_two_pow_30

theorem inUse_subset (h : s.Inv SIZE es repr) : s.alloc.inUse ⊆ Finset.range SIZE :=
  fun _ hi => Finset.mem_range.2 (h.lt_of_mem hi)

/-- The assertions of `operator[]` and `remove` hold for every element in use, and
`operator[]` reads its object. -/
theorem get_eq (h : s.Inv SIZE es repr) {i : ℕ} (hi : i ∈ s.alloc.inUse) :
    i < SIZE ∧ s.allocated.get i ≠ 0 ∧ s.get SIZE i = s.objects i := by
  have hget : s.allocated.get i ≠ 0 :=
    (IterableBitmap.get_ne_zero_iff _ i).2 ((h.allocated i).2 hi)
  exact ⟨h.lt_of_mem hi, hget, if_pos ⟨h.lt_of_mem hi, hget⟩⟩

/-- `operator[]` fails its assertion on an element not in use. -/
theorem get_of_not_mem (h : s.Inv SIZE es repr) {i : ℕ} (hi : i ∉ s.alloc.inUse) :
    s.get SIZE i = none := by
  unfold Pool.get
  rw [if_neg]
  rintro ⟨-, hget⟩
  exact hi ((h.allocated i).1 ((IterableBitmap.get_ne_zero_iff _ i).1 hget))

/-- What `operator[]` returns is an element in use. -/
theorem mem_of_get (h : s.Inv SIZE es repr) {i : ℕ} {v : T} (hv : s.get SIZE i = some v) :
    i ∈ s.alloc.inUse := by
  by_contra hi
  rw [h.get_of_not_mem hi] at hv
  cases hv

/-- A pool that is not full has an element not in use, which `pool_allocator_alloc` hands
out. -/
theorem alloc_fresh (h : s.Inv SIZE es repr) (hfull : s.full SIZE = false) :
    (poolAllocatorAlloc s.alloc.map s.alloc.mem).1 ≠ POOL_ALLOCATOR_NULL_ELEM ∧
      (poolAllocatorAlloc s.alloc.map s.alloc.mem).1.toNat ∉ s.alloc.inUse ∧
      (poolAllocatorAlloc s.alloc.map s.alloc.mem).1.toNat < SIZE := by
  obtain ⟨chain, E, ha⟩ := h.alloc
  obtain ⟨hfresh, hnull⟩ := ha.alloc_result
  have hcard : s.alloc.inUse.card < SIZE := by
    have hle : s.alloc.inUse.card ≤ SIZE := by
      simpa using Finset.card_le_card h.inUse_subset
    have hne : s.elemCount ≠ SIZE := by simpa [full, size] using hfull
    rw [h.elemCount] at hne
    omega
  have hne : (poolAllocatorAlloc s.alloc.map s.alloc.mem).1 ≠ POOL_ALLOCATOR_NULL_ELEM := by
    intro he
    rw [hnull he, Finset.card_range] at hcard
    exact Nat.lt_irrefl _ hcard
  exact ⟨hne, hfresh hne⟩

/-- The arguments of `pool_allocator_init` of a pool of at most `2 ^ 32` bytes fit in `u32`. -/
theorem init_args (hfits : SIZE * es ≤ 2 ^ 32) (h : s.Init SIZE es) :
    (UInt32.ofNat SIZE).toNat = SIZE ∧ (UInt32.ofNat es).toNat = es := by
  have hinit := h.1.1
  unfold poolAllocatorInit at hinit
  split_ifs at hinit with hbad
  rw [not_or, UInt32.lt_iff_toNat_lt, ← UInt32.toNat_inj] at hbad
  simp only [UInt32.toNat_ofNat', UInt32.reduceToNat] at hbad
  obtain ⟨hSIZE, hes⟩ := hbad
  have hpos : 1 ≤ SIZE := by omega
  have hle : es ≤ SIZE * es := Nat.le_mul_of_pos_left es hpos
  have hfour : SIZE * 4 ≤ SIZE * es := Nat.mul_le_mul_left SIZE (by omega)
  rw [UInt32.toNat_ofNat', UInt32.toNat_ofNat']
  constructor <;> apply Nat.mod_eq_of_lt
  · omega
  · -- `es = 2 ^ 32` would make `(u32)es` zero, below 4
    rcases Nat.lt_or_ge es (2 ^ 32) with hlt | hge
    · exact hlt
    · have : es = 2 ^ 32 := by omega
      rw [this] at hes
      exact absurd hes (by decide)

/-- A new pool of at most `2 ^ 32` bytes satisfies the invariant. -/
theorem init (hfits : SIZE * es ≤ 2 ^ 32) (h : s.Init SIZE es) : s.Inv SIZE es repr := by
  obtain ⟨hSIZE, hes⟩ := init_args hfits h
  obtain ⟨hpool, hobjects, hbitmap, hcount, hmax⟩ := h
  have ha := Util.Inv.init hpool (by rw [hSIZE, hes]; exact hfits)
  rw [hSIZE, hes] at ha
  have hinUse : s.alloc.inUse = ∅ := hpool.2
  refine ⟨⟨[], 0, ha⟩, ?_, fun i => ?_, fun i => ?_, fun i v hv => ?_, ?_, ?_, ?_⟩
  · rw [hbitmap]
    exact IterableBitmap.wf_empty
  · simp [hbitmap, hinUse, IterableBitmap.Mem, IterableBitmap.empty]
  · simp [hobjects, hinUse]
  · simp [hobjects] at hv
  · rw [hcount, hinUse, Finset.card_empty]
  · rw [hcount, hmax]
  · rw [hmax]
    exact Nat.zero_le _

variable (hrepr : ∀ v, (repr v).length ≤ es)
include hrepr

/-- `emplace` on a pool that is not full constructs the object in an element below `SIZE` that
was not in use, returns that element's index, and keeps the invariant. -/
theorem emplace (h : s.Inv SIZE es repr) {v : T} (hfull : s.full SIZE = false) :
    ∃ i, i < SIZE ∧ i ∉ s.alloc.inUse ∧ (s.emplace SIZE repr v).1 = ⟨i, some v⟩ ∧
      (s.emplace SIZE repr v).2.Inv SIZE es repr ∧
      (s.emplace SIZE repr v).2.objects = Function.update s.objects i (some v) ∧
      (s.emplace SIZE repr v).2.alloc.inUse = insert i s.alloc.inUse := by
  obtain ⟨hne, hfresh, hlt⟩ := h.alloc_fresh hfull
  obtain ⟨chain, E, ha⟩ := h.alloc
  set r := (poolAllocatorAlloc s.alloc.map s.alloc.mem).1 with hr
  have hrr : UInt32.ofNat r.toNat = r := UInt32.ofNat_toNat
  -- the allocator after `pool_allocator_alloc`: the element joins those in use
  obtain ⟨chain₁, E₁, ha₁⟩ := ha.step (.mk (e := .alloc) trivial)
  have hin₁ : (s.alloc.call .alloc).inUse = insert r.toNat s.alloc.inUse := by
    simp only [Util.Pool.call, ← hr, if_neg hne]
  have hmem₁ : (s.alloc.call .alloc).mem = memset s.alloc.mem (r.toNat * es) es 0 := by
    simp only [Util.Pool.call]
    rw [alloc_mem hne, ← hr, ha.elemSize, ← ha.elem_ofNat hlt, hrr]
  have helem₁ : poolAllocatorElem (s.alloc.call .alloc).map r = r.toNat * es := by
    rw [← ha₁.elem_ofNat hlt, hrr]
  -- then the object's bytes are written over it
  have ha₂ : Util.Inv SIZE es ((s.alloc.call .alloc).call (.write r (repr v))) chain₁ E₁ :=
    ha₁.write (by rw [hin₁]; exact Finset.mem_insert_self _ _) (by rw [ha₁.elemSize]; exact hrepr v)
  have hmem₂ : ((s.alloc.call .alloc).call (.write r (repr v))).mem =
      copyIn (memset s.alloc.mem (r.toNat * es) es 0) (r.toNat * es) (repr v) := by
    show copyIn (s.alloc.call .alloc).mem (poolAllocatorElem (s.alloc.call .alloc).map r) (repr v) = _
    rw [helem₁, hmem₁]
  have hfar : ∀ x, x < r.toNat * es ∨ r.toNat * es + es ≤ x →
      ((s.alloc.call .alloc).call (.write r (repr v))).mem x = s.alloc.mem x := by
    intro x hx
    rw [hmem₂]
    have hv := hrepr v
    rcases hx with hx | hx
    · rw [copyIn_of_lt _ hx, memset_of_lt _ hx]
    · rw [copyIn_of_le (by omega), memset_of_le _ hx]
  have hcount : s.elemCount + 1 ≤ SIZE := by
    have hle := Finset.card_le_card (Finset.insert_subset (Finset.mem_range.2 hlt) h.inUse_subset)
    rw [Finset.card_insert_of_notMem hfresh, Finset.card_range, ← h.elemCount] at hle
    exact hle
  have he : s.emplace SIZE repr v = (⟨r.toNat % 2 ^ indexBits SIZE, some v⟩,
      ⟨(s.alloc.call .alloc).call (.write r (repr v)), Function.update s.objects r.toNat (some v),
        s.allocated.set SIZE r.toNat, s.elemCount + 1, max s.maxElemCount (s.elemCount + 1)⟩) := by
    simp only [Pool.emplace, hfull, Bool.false_eq_true, if_false, ← hr]
  have hin₂ : ((s.alloc.call .alloc).call (.write r (repr v))).inUse =
      insert r.toNat s.alloc.inUse := hin₁
  have hmax := h.max_le
  rw [he]
  dsimp only
  refine ⟨r.toNat, hlt, hfresh, by rw [mod_indexBits h.size_le_two_pow_30 hlt], ?_, rfl, hin₂⟩
  refine ⟨⟨chain₁, E₁, ha₂⟩, IterableBitmap.wf_set h.wf hlt, fun i => ?_, fun i => ?_,
    fun i w hw => ?_, ?_, by dsimp only; omega, by dsimp only; omega⟩ <;> dsimp only
  · rw [IterableBitmap.mem_set, h.allocated, hin₂, Finset.mem_insert, or_comm]
  · rw [hin₂, Finset.mem_insert]
    by_cases hi : i = r.toNat
    · simp [hi]
    · simp [hi, h.objects]
  · by_cases hi : i = r.toNat
    · -- the new object's bytes are those just written
      subst hi
      simp only [Function.update_self, Option.some.injEq] at hw
      subst hw
      rw [hmem₂]
      exact copyOut_copyIn_self _ _
    · dsimp only at hw
      rw [Function.update_of_ne hi] at hw
      rw [copyOut_of_apart hi (hrepr w) hfar]
      exact h.intact i w hw
  · rw [hin₂, Finset.card_insert_of_notMem hfresh, h.elemCount]

/-- `remove` of an element that holds an object destroys that object and keeps the
invariant. -/
theorem remove (h : s.Inv SIZE es repr) {i : ℕ} (hi : i ∈ s.alloc.inUse) :
    (s.remove SIZE i).Inv SIZE es repr ∧
      (s.remove SIZE i).objects = Function.update s.objects i none ∧
      (s.remove SIZE i).alloc.inUse = s.alloc.inUse.erase i := by
  obtain ⟨chain, E, ha⟩ := h.alloc
  have hlt := h.lt_of_mem hi
  have hii : (UInt32.ofNat i).toNat = i := ha.toNat_ofNat hlt
  have ha' : Util.Inv SIZE es (s.alloc.call (.free (UInt32.ofNat i)))
      ((UInt32.ofNat i).toNat :: chain) E := ha.free (by rw [hii]; exact hi)
  have hin' : (s.alloc.call (.free (UInt32.ofNat i))).inUse = s.alloc.inUse.erase i := by
    simp only [Util.Pool.call, hii]
  -- `pool_allocator_free` writes the link into the first four bytes of the element
  have hfar : ∀ x, x < i * es ∨ i * es + es ≤ x →
      (s.alloc.call (.free (UInt32.ofNat i))).mem x = s.alloc.mem x := by
    intro x hx
    simp only [Util.Pool.call, poolAllocatorFree, ha.elem_ofNat hlt]
    have := ha.four_le
    rcases hx with hx | hx
    · exact storeLE_of_lt _ hx
    · exact storeLE_of_le _ (by omega)
  refine ⟨⟨⟨_, E, ha'⟩, IterableBitmap.wf_clear h.wf hlt, fun j => ?_, fun j => ?_,
    fun j w hw => ?_, ?_, ?_, h.max_le⟩, rfl, hin'⟩
  · simp only [Pool.remove]
    rw [IterableBitmap.mem_clear, h.allocated, hin', Finset.mem_erase, and_comm]
  · simp only [Pool.remove]
    rw [hin', Finset.mem_erase]
    by_cases hj : j = i
    · simp [hj]
    · simp [hj, h.objects]
  · simp only [Pool.remove] at hw ⊢
    have hj : j ≠ i := by
      rintro rfl
      simp at hw
    rw [Function.update_of_ne hj] at hw
    rw [copyOut_of_apart hj (hrepr w) hfar]
    exact h.intact j w hw
  · simp only [Pool.remove]
    rw [hin', Finset.card_erase_of_mem hi, h.elemCount]
  · simp only [Pool.remove]
    have := h.le_max
    omega

/-- The bytes of an element that holds an object begin with the object's. -/
theorem bytes_of_object (h : s.Inv SIZE es repr) {i : ℕ} {v : T} (hv : s.objects i = some v) :
    ∃ xs, copyOut s.alloc.mem (i * es) es = repr v ++ xs := by
  obtain ⟨b, hb⟩ : ∃ b, es = (repr v).length + b := ⟨es - (repr v).length, by have := hrepr v; omega⟩
  refine ⟨copyOut s.alloc.mem (i * es + (repr v).length) b, ?_⟩
  rw [hb, copyOut_add, ← hb, h.intact i v hv]

omit hrepr in
/-- `pool_allocator_free` writes the old head of the free list over the first four bytes of the
element `remove` frees, and leaves its other bytes. -/
theorem remove_bytes (h : s.Inv SIZE es repr) {i : ℕ} (hi : i ∈ s.alloc.inUse) :
    copyOut (s.remove SIZE i).alloc.mem (i * es) es =
      leBytes 4 s.alloc.map.freeList.toNat ++ (copyOut s.alloc.mem (i * es) es).drop 4 := by
  obtain ⟨chain, E, ha⟩ := h.alloc
  have hmem : (s.remove SIZE i).alloc.mem =
      copyIn s.alloc.mem (i * es) (leBytes 4 s.alloc.map.freeList.toNat) := by
    simp only [Pool.remove, Util.Pool.call, poolAllocatorFree, storeLE,
      ha.elem_ofNat (h.lt_of_mem hi)]
  rw [hmem, copyOut_copyIn_prefix _ _ _ (by rw [length_leBytes]; exact ha.four_le),
    length_leBytes]

omit hrepr in
/-- A pool that has just freed an element is not full. -/
theorem full_remove (h : s.Inv SIZE es repr) {i : ℕ} (hi : i ∈ s.alloc.inUse) :
    (s.remove SIZE i).full SIZE = false := by
  have hcard := Finset.card_le_card h.inUse_subset
  have hpos := Finset.card_pos.2 ⟨i, hi⟩
  rw [Finset.card_range] at hcard
  simp only [full, size, Pool.remove, h.elemCount, beq_eq_false_iff_ne]
  omega

omit hrepr in
/-- A full pool has no free element: the head of its free list is the end-of-list link. -/
theorem freeList_of_full (h : s.Inv SIZE es repr) (hfull : s.full SIZE = true) :
    s.alloc.map.freeList = POOL_ALLOCATOR_NULL_ELEM := by
  obtain ⟨chain, E, ha⟩ := h.alloc
  refine ha.freeList_of_full ?_
  simpa only [full, size, h.elemCount, beq_iff_eq] using hfull

omit hrepr in
/-- The element `remove` frees is the one the next `emplace` takes: `pool_allocator_free` makes
it the head of the free list. -/
theorem emplace_remove (h : s.Inv SIZE es repr) {i : ℕ} (hi : i ∈ s.alloc.inUse) (v : T) :
    ((s.remove SIZE i).emplace SIZE repr v).1 = ⟨i, some v⟩ ∧
      ((s.remove SIZE i).emplace SIZE repr v).2.objects i = some v := by
  obtain ⟨chain, E, ha⟩ := h.alloc
  have hlt := h.lt_of_mem hi
  have hfull := h.full_remove hi
  have hhead : (s.remove SIZE i).alloc.map.freeList = UInt32.ofNat i := rfl
  have halloc : (poolAllocatorAlloc (s.remove SIZE i).alloc.map (s.remove SIZE i).alloc.mem).1 =
      UInt32.ofNat i := by
    rw [poolAllocatorAlloc_fst (by rw [hhead]; exact ha.ofNat_ne_null hlt), hhead]
  simp only [Pool.emplace, hfull, Bool.false_eq_true, if_false, halloc, ha.toNat_ofNat hlt,
    mod_indexBits h.size_le_two_pow_30 hlt, Function.update_self, and_self]

/-- A write of an object in use keeps the invariant, and only that object changes. -/
theorem set (h : s.Inv SIZE es repr) {i : ℕ} (hi : i ∈ s.alloc.inUse) (v : T) :
    (s.set repr i v).Inv SIZE es repr ∧
      (s.set repr i v).objects = Function.update s.objects i (some v) ∧
      (s.set repr i v).alloc.inUse = s.alloc.inUse := by
  obtain ⟨chain, E, ha⟩ := h.alloc
  have hlt := h.lt_of_mem hi
  have hii : (UInt32.ofNat i).toNat = i := ha.toNat_ofNat hlt
  have ha' : Util.Inv SIZE es (s.alloc.call (.write (UInt32.ofNat i) (repr v))) chain E :=
    ha.write (by rw [hii]; exact hi) (by rw [ha.elemSize]; exact hrepr v)
  have hmem : (s.alloc.call (.write (UInt32.ofNat i) (repr v))).mem =
      copyIn s.alloc.mem (i * es) (repr v) := by
    show copyIn s.alloc.mem (poolAllocatorElem s.alloc.map (UInt32.ofNat i)) (repr v) = _
    rw [ha.elem_ofNat hlt]
  -- the bytes outside the element are untouched
  have hfar : ∀ x, x < i * es ∨ i * es + es ≤ x →
      (s.alloc.call (.write (UInt32.ofNat i) (repr v))).mem x = s.alloc.mem x := by
    intro x hx
    rw [hmem]
    have hv := hrepr v
    rcases hx with hx | hx
    · exact copyIn_of_lt _ hx
    · exact copyIn_of_le (by omega)
  have hin : (s.alloc.call (.write (UInt32.ofNat i) (repr v))).inUse = s.alloc.inUse := rfl
  refine ⟨⟨⟨chain, E, ha'⟩, h.wf, fun j => ?_, fun j => ?_, fun j w hw => ?_, h.elemCount,
    h.le_max, h.max_le⟩, rfl, hin⟩
  · exact h.allocated j
  · show (Function.update s.objects i (some v) j).isSome ↔ j ∈ s.alloc.inUse
    by_cases hj : j = i
    · subst hj
      simp [hi]
    · rw [Function.update_of_ne hj]
      exact h.objects j
  · show copyOut (s.alloc.call (.write (UInt32.ofNat i) (repr v))).mem (j * es) (repr w).length =
      repr w
    change Function.update s.objects i (some v) j = some w at hw
    by_cases hj : j = i
    · subst hj
      simp only [Function.update_self, Option.some.injEq] at hw
      subst hw
      rw [hmem]
      exact copyOut_copyIn_self _ _
    · rw [Function.update_of_ne hj] at hw
      rw [copyOut_of_apart hj (hrepr w) hfar]
      exact h.intact j w hw

end Inv

end Pool

end Container

end OtelEbpf
