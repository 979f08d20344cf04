import Mathlib
import OtelEbpf.Lib.Bytes
import OtelEbpf.Lib.Word
import OtelEbpf.Lib.Run
import OtelEbpf.Platform

/-!
# The pool allocator

`util/pool_allocator.h` hands out the indices of a pool of `n_elems` elements of `elem_size`
bytes.  The indices from `alloc_end` on were never handed out; the others that are not in use
form a LIFO free list threaded through the elements themselves: a free element's first `u32`
is the index of the next free element, and the last one links to `alloc_end`.
`pool_allocator_alloc` takes the head of the free list, which is the element at `alloc_end`
when the list is empty, and zeroes it; `pool_allocator_free` pushes an element back.  Its user,
`Pool::emplace` (`util/pool.h`), constructs objects in the elements it is handed.

Element `index` is addressed at `pool + index * elem_size`, the product taken in `u32`
(`poolAllocatorElem`).  The pool's bytes are a memory `ℕ → UInt8`, its `u32`s little-endian; a
ghost set records the elements in use, those handed out by `alloc` and not freed since.

* `sound_of_run` : for a pool of at most `2 ^ 32` bytes, along every sequence of calls that
  frees and writes only elements in use, `free_list <= alloc_end` holds, the free list runs
  from `free_list` to `alloc_end` through elements not in use, and `alloc` hands out an
  element not in use, one below `n_elems` whenever fewer than `n_elems` are in use, and `~0`
  only when all are.
* `alloc_in_use_of_wrap` : in a pool of 3 elements of `2 ^ 31` bytes the third element is
  addressed where the first is, and an `alloc` hands out an element in use.
-/

namespace OtelEbpf

namespace Util

open Bytes

/-- `POOL_ALLOCATOR_NULL_ELEM`. -/
def POOL_ALLOCATOR_NULL_ELEM : UInt32 := ~~~0

theorem toNat_null : POOL_ALLOCATOR_NULL_ELEM.toNat = 2 ^ 32 - 1 := rfl

/-- `struct pool_allocator`, but for the pointer to the pool, whose bytes are a memory of their
own. -/
structure PoolAllocator where
  freeList : UInt32
  allocEnd : UInt32
  elemSize : UInt32
  nElems : UInt32
  deriving DecidableEq, Repr

/-- `__pool_allocator_elem`: the offset of element `index` in the pool, `index * elem_size`
computed in `u32`. -/
def poolAllocatorElem (map : PoolAllocator) (index : UInt32) : ℕ := (index * map.elemSize).toNat

/-- `pool_allocator_alloc`: the index of a new element, `~0` if no element is free; the
allocator and the pool afterwards. -/
def poolAllocatorAlloc (map : PoolAllocator) (mem : ℕ → UInt8) :
    UInt32 × PoolAllocator × (ℕ → UInt8) :=
  if map.freeList = POOL_ALLOCATOR_NULL_ELEM then (~~~0, map, mem)
  else
    let id := map.freeList
    let (next, allocEnd) :=
      if id = map.allocEnd then
        -- this element was never allocated
        let next := if id < map.nElems - 1 then id + 1 else POOL_ALLOCATOR_NULL_ELEM
        (next, next)
      else
        -- this element was previously returned to the free list
        (UInt32.ofNat (loadLE mem (poolAllocatorElem map id) 4), map.allocEnd)
    -- zero memory before returning
    (id, { map with freeList := next, allocEnd := allocEnd },
      memset mem (poolAllocatorElem map id) map.elemSize.toNat 0)

/-- `pool_allocator_alloc` hands out the head of the free list, when there is one. -/
theorem poolAllocatorAlloc_fst {map : PoolAllocator} {mem : ℕ → UInt8}
    (h : map.freeList ≠ POOL_ALLOCATOR_NULL_ELEM) : (poolAllocatorAlloc map mem).1 = map.freeList := by
  unfold poolAllocatorAlloc
  rw [if_neg h]

/-- `pool_allocator_free`: the element links to the old head of the free list and becomes the
head. -/
def poolAllocatorFree (map : PoolAllocator) (mem : ℕ → UInt8) (id : UInt32) :
    PoolAllocator × (ℕ → UInt8) :=
  ({ map with freeList := id }, storeLE mem (poolAllocatorElem map id) 4 map.freeList.toNat)

/-- `pool_allocator_init`, for a pool that is there: `-EINVAL` for no elements or elements too
small to hold a `u32`. -/
def poolAllocatorInit (elemSize nElems : UInt32) : Except ℤ PoolAllocator :=
  if nElems = 0 ∨ elemSize < 4 then .error (-EINVAL) else .ok ⟨0, 0, elemSize, nElems⟩

/-! ### Runs of calls -/

/-- A call of the pool's user: `alloc`, `free`, or the construction of an object in an
element. -/
inductive PoolCall
  | alloc
  | free (id : UInt32)
  | write (id : UInt32) (bytes : List UInt8)
  deriving DecidableEq, Repr

/-- The allocator, the bytes of its pool, and the ghost set of the elements in use. -/
structure Pool where
  map : PoolAllocator
  mem : ℕ → UInt8
  inUse : Finset ℕ

namespace Pool

/-- The pool after a call.  An element `alloc` hands out is in use until it is freed. -/
def call (s : Pool) : PoolCall → Pool
  | .alloc =>
    let r := poolAllocatorAlloc s.map s.mem
    ⟨r.2.1, r.2.2, if r.1 = POOL_ALLOCATOR_NULL_ELEM then s.inUse else insert r.1.toNat s.inUse⟩
  | .free id =>
    let r := poolAllocatorFree s.map s.mem id
    ⟨r.1, r.2, s.inUse.erase id.toNat⟩
  | .write id bytes => ⟨s.map, copyIn s.mem (poolAllocatorElem s.map id) bytes, s.inUse⟩

/-- The calls a user may make: free and write only elements in use, and write no more than an
element. -/
def Allowed (s : Pool) : PoolCall → Prop
  | .alloc => True
  | .free id => id.toNat ∈ s.inUse
  | .write id bytes => id.toNat ∈ s.inUse ∧ bytes.length ≤ s.map.elemSize.toNat

instance (s : Pool) : (e : PoolCall) → Decidable (s.Allowed e)
  | .alloc => isTrue trivial
  | .free id => inferInstanceAs (Decidable (id.toNat ∈ s.inUse))
  | .write id bytes =>
    inferInstanceAs (Decidable (id.toNat ∈ s.inUse ∧ bytes.length ≤ s.map.elemSize.toNat))

/-- A pool fresh from `pool_allocator_init`, nothing in use. -/
def Init (elemSize nElems : UInt32) (s : Pool) : Prop :=
  poolAllocatorInit elemSize nElems = .ok s.map ∧ s.inUse = ∅

/-- One allowed call. -/
inductive Step : Pool → PoolCall → Pool → Prop
  | mk {s : Pool} {e : PoolCall} (h : s.Allowed e) : Step s e (s.call e)

/-- The pool after a sequence of calls. -/
def runCalls (s : Pool) (calls : List PoolCall) : Pool := calls.foldl call s

/-- Every call of `calls` is allowed in the state it is made in. -/
def AllowedAll (s : Pool) : List PoolCall → Prop
  | [] => True
  | e :: es => s.Allowed e ∧ AllowedAll (s.call e) es

instance decAllowedAll : (s : Pool) → (calls : List PoolCall) → Decidable (AllowedAll s calls)
  | _, [] => isTrue trivial
  | s, e :: es =>
    haveI := decAllowedAll (s.call e) es
    inferInstanceAs (Decidable (s.Allowed e ∧ _))

theorem allowedAll_append_singleton (s : Pool) (calls : List PoolCall) (e : PoolCall) :
    AllowedAll s (calls ++ [e]) ↔ AllowedAll s calls ∧ (runCalls s calls).Allowed e := by
  induction calls generalizing s with
  | nil => simp [AllowedAll, runCalls]
  | cons e' calls ih =>
    simp only [List.cons_append, AllowedAll, ih, runCalls, List.foldl_cons, and_assoc]

/-- Every sequence of allowed calls from a fresh pool is a run, to the pool `runCalls`
computes. -/
theorem run_runCalls {elemSize nElems : UInt32} {s : Pool} {calls : List PoolCall}
    (h₀ : Init elemSize nElems s) (h : AllowedAll s calls) :
    Run (Init elemSize nElems) Step calls (runCalls s calls) := by
  induction calls using List.reverseRecOn with
  | nil => exact .start h₀
  | append_singleton calls e ih =>
    obtain ⟨hall, he⟩ := (allowedAll_append_singleton s calls e).1 h
    have heq : runCalls s (calls ++ [e]) = (runCalls s calls).call e := by
      simp [runCalls, List.foldl_append]
    rw [heq]
    exact .snoc (ih hall) (.mk he)

end Pool

/-! ### The free list -/

/-- Following the links of the elements `chain` from `x` ends at `e`: `x` is the first of them,
each links to the next, and the last to `e`. -/
def Linked (link : ℕ → UInt32) : UInt32 → List ℕ → UInt32 → Prop
  | x, [], e => x = e
  | x, c :: cs, e => x = UInt32.ofNat c ∧ Linked link (link c) cs e

/-- Only the links of the elements of the chain matter. -/
theorem Linked.congr {link link' : ℕ → UInt32} {x e : UInt32} {chain : List ℕ}
    (h : ∀ c ∈ chain, link' c = link c) (hl : Linked link x chain e) : Linked link' x chain e := by
  induction chain generalizing x with
  | nil => exact hl
  | cons c cs ih =>
    obtain ⟨hx, hrest⟩ := hl
    refine ⟨hx, ?_⟩
    rw [h c List.mem_cons_self]
    exact ih (fun c' hc' => h c' (List.mem_cons_of_mem _ hc')) hrest

/-- The link stored in element `c` of a pool of elements of `es` bytes: the `u32` at its
start. -/
def link (mem : ℕ → UInt8) (es c : ℕ) : UInt32 := UInt32.ofNat (loadLE mem (c * es) 4)

/-- Distinct elements occupy disjoint bytes: the link of one lies outside the other. -/
theorem link_apart {es c j : ℕ} (hes : 4 ≤ es) (hcj : c ≠ j) :
    c * es + 4 ≤ j * es ∨ j * es + es ≤ c * es := by
  rcases Nat.lt_or_gt_of_ne hcj with hlt | hlt
  · have : (c + 1) * es ≤ j * es := Nat.mul_le_mul_right es hlt
    rw [Nat.succ_mul] at this
    omega
  · have : (j + 1) * es ≤ c * es := Nat.mul_le_mul_right es hlt
    rw [Nat.succ_mul] at this
    exact Or.inr this

/-- A change to the bytes of element `j` changes the link of no other element. -/
theorem link_congr {mem mem' : ℕ → UInt8} {es j : ℕ} {cs : List ℕ} (hes : 4 ≤ es) (hjc : j ∉ cs)
    (hmem : ∀ i, i < j * es ∨ j * es + es ≤ i → mem' i = mem i) :
    ∀ c ∈ cs, link mem' es c = link mem es c := by
  intro c hc
  have hcj : c ≠ j := fun he => hjc (he ▸ hc)
  simp only [link]
  congr 1
  apply loadLE_congr
  intro i hi₁ hi₂
  apply hmem
  rcases link_apart hes hcj with hsep | hsep <;> omega

/-- The state of a pool of `n` elements of `es` bytes, at most `2 ^ 32` bytes in all, whose
free list is `chain` and whose never-allocated elements start at `E`: `alloc_end` is `E`, or
`~0` once every element was handed out, the free list runs from `free_list` to `alloc_end`
through distinct elements below `E`, and the elements in use are the others below `E`. -/
structure Inv (n es : ℕ) (s : Pool) (chain : List ℕ) (E : ℕ) : Prop where
  nElems : s.map.nElems.toNat = n
  elemSize : s.map.elemSize.toNat = es
  pos : 0 < n
  four_le : 4 ≤ es
  fits : n * es ≤ 2 ^ 32
  end_le : E ≤ n
  allocEnd : s.map.allocEnd = if E < n then UInt32.ofNat E else POOL_ALLOCATOR_NULL_ELEM
  linked : Linked (link s.mem es) s.map.freeList chain s.map.allocEnd
  chain_lt : ∀ c ∈ chain, c < E
  nodup : chain.Nodup
  inUse : ∀ i, i ∈ s.inUse ↔ i < E ∧ i ∉ chain

variable {n es E : ℕ} {s : Pool} {chain : List ℕ}

namespace Inv

/-! ### Addresses -/

theorem le_two_pow_30 (h : Inv n es s chain E) : n ≤ 2 ^ 30 := by
  have := h.fits
  have : n * 4 ≤ n * es := Nat.mul_le_mul_left n h.four_le
  omega

theorem toNat_ofNat (h : Inv n es s chain E) {i : ℕ} (hi : i < n) : (UInt32.ofNat i).toNat = i := by
  have := h.le_two_pow_30
  exact UInt32.toNat_ofNat_of_lt' (show i < 2 ^ 32 by omega)

/-- The offset of element `i` is `i * es`: no product of an index and the size wraps. -/
theorem elem_ofNat (h : Inv n es s chain E) {i : ℕ} (hi : i < n) :
    poolAllocatorElem s.map (UInt32.ofNat i) = i * es := by
  have hmul : i * es < 2 ^ 32 := by
    have : (i + 1) * es ≤ n * es := Nat.mul_le_mul_right es hi
    rw [Nat.succ_mul] at this
    have := h.four_le
    have := h.fits
    omega
  rw [poolAllocatorElem, UInt32.toNat_mul, h.toNat_ofNat hi, h.elemSize, Nat.mod_eq_of_lt hmul]

theorem ofNat_ne_null (h : Inv n es s chain E) {i : ℕ} (hi : i < n) :
    UInt32.ofNat i ≠ POOL_ALLOCATOR_NULL_ELEM := by
  intro he
  have := congrArg UInt32.toNat he
  rw [h.toNat_ofNat hi, toNat_null] at this
  have := h.le_two_pow_30
  omega

theorem ofNat_inj (h : Inv n es s chain E) {i j : ℕ} (hi : i < n) (hj : j < n)
    (he : UInt32.ofNat i = UInt32.ofNat j) : i = j := by
  have := congrArg UInt32.toNat he
  rwa [h.toNat_ofNat hi, h.toNat_ofNat hj] at this

theorem lt_of_mem (h : Inv n es s chain E) {c : ℕ} (hc : c ∈ chain) : c < n :=
  Nat.lt_of_lt_of_le (h.chain_lt c hc) h.end_le

/-- The head of the free list: its first element, or `alloc_end` when it is empty. -/
theorem freeList_eq (h : Inv n es s chain E) :
    s.map.freeList = match chain with
      | [] => s.map.allocEnd
      | c :: _ => UInt32.ofNat c := by
  have hl := h.linked
  cases chain with
  | nil => exact hl
  | cons c cs => exact hl.1

/-- **The assertion of `pool_allocator_alloc`**: `free_list <= alloc_end`. -/
theorem freeList_le_allocEnd (h : Inv n es s chain E) : s.map.freeList ≤ s.map.allocEnd := by
  rw [h.freeList_eq]
  cases chain with
  | nil => exact UInt32.le_refl _
  | cons c cs =>
    have hc := h.chain_lt c List.mem_cons_self
    have hcn := h.lt_of_mem List.mem_cons_self
    rw [h.allocEnd]
    split_ifs with hE
    · rw [UInt32.le_iff_toNat_le, h.toNat_ofNat hcn, h.toNat_ofNat hE]
      omega
    · rw [UInt32.le_iff_toNat_le, h.toNat_ofNat hcn, toNat_null]
      have := h.le_two_pow_30
      omega

/-! ### One call keeps the invariant -/

theorem init {elemSize nElems : UInt32} (hs : Pool.Init elemSize nElems s)
    (hfits : nElems.toNat * elemSize.toNat ≤ 2 ^ 32) :
    Inv nElems.toNat elemSize.toNat s [] 0 := by
  obtain ⟨hinit, hinUse⟩ := hs
  unfold poolAllocatorInit at hinit
  split_ifs at hinit with hbad
  have hmap := Except.ok.inj hinit
  have hn : nElems ≠ 0 := fun h0 => hbad (Or.inl h0)
  have hes : ¬ elemSize < 4 := fun hlt => hbad (Or.inr hlt)
  have hpos : 0 < nElems.toNat := by
    rw [Nat.pos_iff_ne_zero, Ne, ← UInt32.toNat_zero, UInt32.toNat_inj]
    exact hn
  refine ⟨by rw [← hmap], by rw [← hmap], hpos, ?_, hfits, Nat.zero_le _, ?_, ?_, fun c hc => ?_,
    List.nodup_nil, fun i => ?_⟩
  · rw [UInt32.lt_iff_toNat_lt] at hes
    simp only [UInt32.reduceToNat] at hes
    omega
  · rw [← hmap, if_pos hpos]
    rfl
  · rw [← hmap]
    rfl
  · cases hc
  · simp [hinUse]

/-- `alloc` on an empty free list with every element handed out returns `~0` and changes
nothing; every element is in use. -/
theorem alloc_null (h : Inv n es s [] E) (hE : E = n) :
    (poolAllocatorAlloc s.map s.mem).1 = POOL_ALLOCATOR_NULL_ELEM ∧ s.call .alloc = s ∧
      s.inUse = Finset.range n := by
  have hnull : s.map.freeList = POOL_ALLOCATOR_NULL_ELEM := by
    rw [h.freeList_eq, h.allocEnd, if_neg (by omega)]
  have halloc : poolAllocatorAlloc s.map s.mem = (POOL_ALLOCATOR_NULL_ELEM, s.map, s.mem) := by
    simp only [poolAllocatorAlloc, hnull, if_true]
    rfl
  refine ⟨by rw [halloc], by simp [Pool.call, halloc], ?_⟩
  ext i
  rw [h.inUse, hE, Finset.mem_range]
  simp

/-- With every element in use the free list is empty and the never-allocated elements are
exhausted: `free_list` is `~0`. -/
theorem freeList_of_full (h : Inv n es s chain E) (hall : s.inUse.card = n) :
    s.map.freeList = POOL_ALLOCATOR_NULL_ELEM := by
  have hsub : s.inUse ⊆ Finset.range n := fun i hi =>
    Finset.mem_range.2 (Nat.lt_of_lt_of_le ((h.inUse i).1 hi).1 h.end_le)
  have heq : s.inUse = Finset.range n :=
    Finset.eq_of_subset_of_card_le hsub (by rw [Finset.card_range, hall])
  -- an element of the chain, or `E` itself below `n`, would be an element not in use
  have hnil : chain = [] := by
    cases chain with
    | nil => rfl
    | cons c cs =>
      have hc : c ∈ s.inUse := heq ▸ Finset.mem_range.2 (h.lt_of_mem List.mem_cons_self)
      exact absurd List.mem_cons_self ((h.inUse c).1 hc).2
  have hE : ¬ E < n := fun hE =>
    Nat.lt_irrefl E ((h.inUse E).1 (heq ▸ Finset.mem_range.2 hE)).1
  subst hnil
  rw [h.freeList_eq, h.allocEnd, if_neg hE]

/-- `next` for the element at `alloc_end`: the element after it, or `~0` past the last one. -/
theorem next_of_end (h : Inv n es s chain E) (hE : E < n) :
    (if UInt32.ofNat E < s.map.nElems - 1 then UInt32.ofNat E + 1
      else POOL_ALLOCATOR_NULL_ELEM) =
      if E + 1 < n then UInt32.ofNat (E + 1) else POOL_ALLOCATOR_NULL_ELEM := by
  have hn1 : (s.map.nElems - 1).toNat = n - 1 := by
    rw [UInt32.toNat_sub_of_le _ _ (by
      rw [UInt32.le_iff_toNat_le, h.nElems]
      simp only [UInt32.reduceToNat]
      exact h.pos), h.nElems]
    rfl
  by_cases hlt : E + 1 < n
  · have hc : UInt32.ofNat E < s.map.nElems - 1 := by
      rw [UInt32.lt_iff_toNat_lt, hn1, h.toNat_ofNat hE]
      omega
    rw [if_pos hc, if_pos hlt, Word.ofNat_add_one]
  · have hc : ¬ UInt32.ofNat E < s.map.nElems - 1 := by
      rw [UInt32.lt_iff_toNat_lt, hn1, h.toNat_ofNat hE]
      omega
    rw [if_neg hc, if_neg hlt]

/-- `alloc` on an empty free list with elements left hands out the element at `alloc_end`. -/
theorem alloc_end (h : Inv n es s [] E) (hE : E < n) :
    (poolAllocatorAlloc s.map s.mem).1 = UInt32.ofNat E ∧
      Inv n es (s.call .alloc) [] (E + 1) := by
  have hend : s.map.allocEnd = UInt32.ofNat E := by rw [h.allocEnd, if_pos hE]
  have hfree : s.map.freeList = UInt32.ofNat E := by rw [h.freeList_eq, hend]
  have hne := h.ofNat_ne_null hE
  have halloc : poolAllocatorAlloc s.map s.mem =
      (UInt32.ofNat E, { s.map with
        freeList := if E + 1 < n then UInt32.ofNat (E + 1) else POOL_ALLOCATOR_NULL_ELEM,
        allocEnd := if E + 1 < n then UInt32.ofNat (E + 1) else POOL_ALLOCATOR_NULL_ELEM },
        memset s.mem (poolAllocatorElem s.map (UInt32.ofNat E)) s.map.elemSize.toNat 0) := by
    simp only [poolAllocatorAlloc, hfree, hend, if_neg hne, if_true, h.next_of_end hE]
  refine ⟨by rw [halloc], ?_⟩
  simp only [Pool.call, halloc, if_neg hne]
  refine ⟨h.nElems, h.elemSize, h.pos, h.four_le, h.fits, by omega, rfl, rfl, fun c hc => ?_,
    List.nodup_nil, fun i => ?_⟩
  · cases hc
  · -- the element handed out joins those in use
    rw [Finset.mem_insert, h.inUse, h.toNat_ofNat hE]
    simp only [List.not_mem_nil, not_false_eq_true, and_true]
    omega

/-- `alloc` with elements on the free list hands out its head, and the list goes on from the
head's link. -/
theorem alloc_cons {c : ℕ} {cs : List ℕ} (h : Inv n es s (c :: cs) E) :
    (poolAllocatorAlloc s.map s.mem).1 = UInt32.ofNat c ∧ Inv n es (s.call .alloc) cs E := by
  have hcE := h.chain_lt c List.mem_cons_self
  have hcn := h.lt_of_mem List.mem_cons_self
  have hfree : s.map.freeList = UInt32.ofNat c := h.freeList_eq
  have hne := h.ofNat_ne_null hcn
  -- the head is not `alloc_end`, which is `E` or `~0`
  have hend : UInt32.ofNat c ≠ s.map.allocEnd := by
    rw [h.allocEnd]
    split_ifs with hE
    · exact fun he => Nat.ne_of_lt hcE (h.ofNat_inj hcn hE he)
    · exact hne
  have halloc : poolAllocatorAlloc s.map s.mem =
      (UInt32.ofNat c, { s.map with freeList := link s.mem es c },
        memset s.mem (c * es) s.map.elemSize.toNat 0) := by
    simp only [poolAllocatorAlloc, hfree, if_neg hne, if_neg hend, link, h.elem_ofNat hcn]
  refine ⟨by rw [halloc], ?_⟩
  obtain ⟨-, hlinked⟩ := h.linked
  have hnodup := List.nodup_cons.1 h.nodup
  simp only [Pool.call, halloc, if_neg hne]
  refine ⟨h.nElems, h.elemSize, h.pos, h.four_le, h.fits, h.end_le, h.allocEnd, ?_,
    fun c' hc' => h.chain_lt c' (List.mem_cons_of_mem _ hc'), hnodup.2, fun i => ?_⟩
  · -- zeroing the head touches no link of the rest of the list
    refine Linked.congr (link_congr h.four_le hnodup.1 fun i hi => ?_) hlinked
    rcases hi with hi | hi
    · exact memset_of_lt _ hi
    · exact memset_of_le _ (by rw [h.elemSize]; exact hi)
  · rw [Finset.mem_insert, h.inUse, h.toNat_ofNat hcn]
    simp only [List.mem_cons, not_or]
    constructor
    · rintro (rfl | ⟨hi, -, hics⟩)
      · exact ⟨hcE, hnodup.1⟩
      · exact ⟨hi, hics⟩
    · rintro ⟨hi, hics⟩
      by_cases hic : i = c
      · exact Or.inl hic
      · exact Or.inr ⟨hi, hic, hics⟩

/-- `free` of an element in use pushes it on the free list, linked to the old head. -/
theorem free {id : UInt32} (h : Inv n es s chain E) (hid : id.toNat ∈ s.inUse) :
    Inv n es (s.call (.free id)) (id.toNat :: chain) E := by
  obtain ⟨hiE, hic⟩ := (h.inUse _).1 hid
  have hin : id.toNat < n := Nat.lt_of_lt_of_le hiE h.end_le
  have hid' : UInt32.ofNat id.toNat = id := UInt32.ofNat_toNat
  have helem : poolAllocatorElem s.map id = id.toNat * es := by
    rw [← h.elem_ofNat hin, hid']
  have hfour := h.four_le
  simp only [Pool.call, poolAllocatorFree, helem]
  refine ⟨h.nElems, h.elemSize, h.pos, h.four_le, h.fits, h.end_le, h.allocEnd, ⟨hid'.symm, ?_⟩,
    fun c hc => ?_, List.nodup_cons.2 ⟨hic, h.nodup⟩, fun i => ?_⟩
  · -- the new head links to the old one; the links of the old list stay
    have hlink : link (storeLE s.mem (id.toNat * es) 4 s.map.freeList.toNat) es id.toNat =
        s.map.freeList := by
      rw [link, loadLE_storeLE]
      exact UInt32.toNat_inj.1 (by
        rw [UInt32.toNat_ofNat_of_lt' (Nat.lt_of_le_of_lt (Nat.mod_le _ _) s.map.freeList.toNat_lt)]
        exact Nat.mod_eq_of_lt s.map.freeList.toNat_lt)
    rw [hlink]
    refine Linked.congr (link_congr h.four_le hic fun i hi => ?_) h.linked
    rcases hi with hi | hi
    · exact storeLE_of_lt _ hi
    · exact storeLE_of_le _ (by omega)
  · rcases List.mem_cons.1 hc with rfl | hc
    · exact hiE
    · exact h.chain_lt c hc
  · rw [Finset.mem_erase, h.inUse]
    simp only [List.mem_cons, not_or]
    constructor
    · rintro ⟨hne, hi, hic'⟩
      exact ⟨hi, hne, hic'⟩
    · rintro ⟨hi, hne, hic'⟩
      exact ⟨hne, hi, hic'⟩

/-- Writing into an element in use changes no link of the free list. -/
theorem write {id : UInt32} {bytes : List UInt8} (h : Inv n es s chain E)
    (hid : id.toNat ∈ s.inUse) (hlen : bytes.length ≤ s.map.elemSize.toNat) :
    Inv n es (s.call (.write id bytes)) chain E := by
  obtain ⟨hiE, hic⟩ := (h.inUse _).1 hid
  have hin : id.toNat < n := Nat.lt_of_lt_of_le hiE h.end_le
  have helem : poolAllocatorElem s.map id = id.toNat * es := by
    rw [← h.elem_ofNat hin, UInt32.ofNat_toNat]
  rw [h.elemSize] at hlen
  simp only [Pool.call, helem]
  refine ⟨h.nElems, h.elemSize, h.pos, h.four_le, h.fits, h.end_le, h.allocEnd, ?_, h.chain_lt,
    h.nodup, h.inUse⟩
  refine Linked.congr (link_congr h.four_le hic fun i hi => ?_) h.linked
  rcases hi with hi | hi
  · exact copyIn_of_lt _ hi
  · exact copyIn_of_le (by omega)

/-- Every allowed call keeps the pool in a state of the invariant. -/
theorem step {s' : Pool} {e : PoolCall} (h : Inv n es s chain E) (hst : Pool.Step s e s') :
    ∃ chain' E', Inv n es s' chain' E' := by
  obtain ⟨hallowed⟩ := hst
  cases e with
  | alloc =>
    cases chain with
    | nil =>
      by_cases hE : E = n
      · rw [(h.alloc_null hE).2.1]
        exact ⟨[], E, h⟩
      · exact ⟨[], E + 1, (h.alloc_end (by have := h.end_le; omega)).2⟩
    | cons c cs => exact ⟨cs, E, h.alloc_cons.2⟩
  | free id => exact ⟨_, E, h.free hallowed⟩
  | write id bytes => exact ⟨chain, E, h.write hallowed.1 hallowed.2⟩

/-- What `alloc` returns: an element not in use and below `n_elems`, or `~0` when every
element is in use. -/
theorem alloc_result (h : Inv n es s chain E) :
    ((poolAllocatorAlloc s.map s.mem).1 ≠ POOL_ALLOCATOR_NULL_ELEM →
        (poolAllocatorAlloc s.map s.mem).1.toNat ∉ s.inUse ∧
          (poolAllocatorAlloc s.map s.mem).1.toNat < n) ∧
      ((poolAllocatorAlloc s.map s.mem).1 = POOL_ALLOCATOR_NULL_ELEM → s.inUse = Finset.range n) := by
  cases chain with
  | nil =>
    by_cases hE : E = n
    · obtain ⟨hr, -, hall⟩ := h.alloc_null hE
      exact ⟨fun hne => absurd hr hne, fun _ => hall⟩
    · have hlt : E < n := by have := h.end_le; omega
      rw [(h.alloc_end hlt).1, h.toNat_ofNat hlt]
      refine ⟨fun _ => ⟨fun hin => ?_, hlt⟩, fun hnull => absurd hnull (h.ofNat_ne_null hlt)⟩
      exact Nat.lt_irrefl E ((h.inUse E).1 hin).1
  | cons c cs =>
    have hcn := h.lt_of_mem List.mem_cons_self
    rw [h.alloc_cons.1, h.toNat_ofNat hcn]
    refine ⟨fun _ => ⟨fun hin => ((h.inUse c).1 hin).2 List.mem_cons_self, hcn⟩,
      fun hnull => absurd hnull (h.ofNat_ne_null hcn)⟩

end Inv

/-- The invariant along every run on a pool of at most `2 ^ 32` bytes. -/
theorem inv_of_run {elemSize nElems : UInt32} {calls : List PoolCall} {s : Pool}
    (hfits : nElems.toNat * elemSize.toNat ≤ 2 ^ 32)
    (hrun : Run (Pool.Init elemSize nElems) Pool.Step calls s) :
    ∃ chain E, Inv nElems.toNat elemSize.toNat s chain E :=
  Run.invariant (I := fun s => ∃ chain E, Inv nElems.toNat elemSize.toNat s chain E)
    (fun _ hs => ⟨[], 0, Inv.init hs hfits⟩) (fun _ _ _ ⟨_, _, h⟩ hst => h.step hst) hrun

/-- **The pool allocator keeps a sound free list.**  On a pool of at most `2 ^ 32` bytes, after
every sequence of calls that frees and writes only elements in use: `free_list <= alloc_end`,
the assertion of `pool_allocator_alloc`, holds; the free list runs from `free_list` to
`alloc_end`, through elements below `n_elems` not in use; and `alloc` hands out an element not
in use, one below `n_elems` whenever fewer than `n_elems` are in use, and `~0` only when all
are. -/
theorem sound_of_run {elemSize nElems : UInt32} {calls : List PoolCall} {s : Pool}
    (hfits : nElems.toNat * elemSize.toNat ≤ 2 ^ 32)
    (hrun : Run (Pool.Init elemSize nElems) Pool.Step calls s) :
    s.map.freeList ≤ s.map.allocEnd ∧
      (∃ chain : List ℕ,
        Linked (fun c => UInt32.ofNat (loadLE s.mem (poolAllocatorElem s.map (UInt32.ofNat c)) 4))
          s.map.freeList chain s.map.allocEnd ∧
        ∀ c ∈ chain, c < nElems.toNat ∧ c ∉ s.inUse) ∧
      ((poolAllocatorAlloc s.map s.mem).1 ≠ POOL_ALLOCATOR_NULL_ELEM →
        (poolAllocatorAlloc s.map s.mem).1.toNat ∉ s.inUse) ∧
      (s.inUse.card < nElems.toNat →
        (poolAllocatorAlloc s.map s.mem).1.toNat < nElems.toNat) ∧
      ((poolAllocatorAlloc s.map s.mem).1 = POOL_ALLOCATOR_NULL_ELEM →
        s.inUse = Finset.range nElems.toNat) := by
  obtain ⟨chain, E, h⟩ := inv_of_run hfits hrun
  obtain ⟨hfresh, hfull⟩ := h.alloc_result
  -- the links as the code reads them are the links of the invariant
  have hlinked : Linked
      (fun c => UInt32.ofNat (loadLE s.mem (poolAllocatorElem s.map (UInt32.ofNat c)) 4))
      s.map.freeList chain s.map.allocEnd := by
    refine Linked.congr (fun c hc => ?_) h.linked
    simp only [link]
    rw [h.elem_ofNat (h.lt_of_mem hc)]
  refine ⟨h.freeList_le_allocEnd, ⟨chain, hlinked, fun c hc => ⟨h.lt_of_mem hc, fun hin =>
    ((h.inUse c).1 hin).2 hc⟩⟩, fun hne => (hfresh hne).1, fun hcard => ?_, hfull⟩
  by_cases hnull : (poolAllocatorAlloc s.map s.mem).1 = POOL_ALLOCATOR_NULL_ELEM
  · rw [hfull hnull, Finset.card_range] at hcard
    exact absurd hcard (Nat.lt_irrefl _)
  · exact (hfresh hnull).2

/-- Two elements of 4 bytes: after two `alloc`s and a `free`, the assertion holds and the next
`alloc` hands out an element not in use. -/
theorem sound_of_run_two_elems :
    (2 : UInt32).toNat * (4 : UInt32).toNat ≤ 2 ^ 32 ∧
      Run (Pool.Init 4 2) Pool.Step [.alloc, .alloc, .free 0]
        (Pool.runCalls ⟨⟨0, 0, 4, 2⟩, fun _ => 0, ∅⟩ [.alloc, .alloc, .free 0]) ∧
      (Pool.runCalls ⟨⟨0, 0, 4, 2⟩, fun _ => 0, ∅⟩ [.alloc, .alloc, .free 0]).map.freeList ≤
        (Pool.runCalls ⟨⟨0, 0, 4, 2⟩, fun _ => 0, ∅⟩ [.alloc, .alloc, .free 0]).map.allocEnd ∧
      ((poolAllocatorAlloc
          (Pool.runCalls ⟨⟨0, 0, 4, 2⟩, fun _ => 0, ∅⟩ [.alloc, .alloc, .free 0]).map
          (Pool.runCalls ⟨⟨0, 0, 4, 2⟩, fun _ => 0, ∅⟩ [.alloc, .alloc, .free 0]).mem).1 ≠
          POOL_ALLOCATOR_NULL_ELEM →
        (poolAllocatorAlloc
          (Pool.runCalls ⟨⟨0, 0, 4, 2⟩, fun _ => 0, ∅⟩ [.alloc, .alloc, .free 0]).map
          (Pool.runCalls ⟨⟨0, 0, 4, 2⟩, fun _ => 0, ∅⟩ [.alloc, .alloc, .free 0]).mem).1.toNat ∉
          (Pool.runCalls ⟨⟨0, 0, 4, 2⟩, fun _ => 0, ∅⟩ [.alloc, .alloc, .free 0]).inUse) := by
  have hfits : (2 : UInt32).toNat * (4 : UInt32).toNat ≤ 2 ^ 32 := by decide
  have hrun := @Pool.run_runCalls 4 2 ⟨⟨0, 0, 4, 2⟩, fun _ => 0, ∅⟩ [.alloc, .alloc, .free 0]
    ⟨rfl, rfl⟩ (by decide)
  exact ⟨hfits, hrun, (sound_of_run hfits hrun).1, (sound_of_run hfits hrun).2.2.1⟩

/-- **Elements alias past `2 ^ 32` bytes.**  In a pool of 3 elements of `2 ^ 31` bytes the third
element is addressed at `2 * 2 ^ 31 = 0` in `u32`, where the first is.  Three `alloc`s, `free`
of elements 2 and 0, and two `alloc`s: the first of these reads element 0's link (2) and zeroes
element 0, which is element 2, so the second reads the link 0.  All three elements are in use
again, and `alloc` hands out element 0. -/
theorem alloc_in_use_of_wrap :
    Run (Pool.Init (2 ^ 31) 3) Pool.Step
        [.alloc, .alloc, .alloc, .free 2, .free 0, .alloc, .alloc]
        (Pool.runCalls ⟨⟨0, 0, 2 ^ 31, 3⟩, fun _ => 0, ∅⟩
          [.alloc, .alloc, .alloc, .free 2, .free 0, .alloc, .alloc]) ∧
      poolAllocatorElem ⟨0, 0, 2 ^ 31, 3⟩ 2 = poolAllocatorElem ⟨0, 0, 2 ^ 31, 3⟩ 0 ∧
      (Pool.runCalls ⟨⟨0, 0, 2 ^ 31, 3⟩, fun _ => 0, ∅⟩
          [.alloc, .alloc, .alloc, .free 2, .free 0, .alloc, .alloc]).inUse = {0, 1, 2} ∧
      (poolAllocatorAlloc
          (Pool.runCalls ⟨⟨0, 0, 2 ^ 31, 3⟩, fun _ => 0, ∅⟩
            [.alloc, .alloc, .alloc, .free 2, .free 0, .alloc, .alloc]).map
          (Pool.runCalls ⟨⟨0, 0, 2 ^ 31, 3⟩, fun _ => 0, ∅⟩
            [.alloc, .alloc, .alloc, .free 2, .free 0, .alloc, .alloc]).mem).1 = 0 := by
  refine ⟨Pool.run_runCalls ⟨rfl, rfl⟩ (by decide), rfl, by decide, by decide⟩

end Util

end OtelEbpf
