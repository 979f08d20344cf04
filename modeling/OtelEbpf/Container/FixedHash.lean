import Mathlib
import OtelEbpf.Container.Pool
import OtelEbpf.Lib.Refinement
import OtelEbpf.Lib.Assoc

/-!
# The fixed-capacity hash map

`FixedHash<Key, T, ELEM_POOL_SZ>` (`util/fixed_hash.h`) keeps its values in a `Pool` of
`ELEM_POOL_SZ` elements (`OtelEbpf.Container.Pool`) and maps each key to the index of its
value's element with an `absl::flat_hash_map`, here a `Std.HashMap`.  `insert` enters the key
with the index `-1` first, then constructs the value in the pool and records its index; if the
pool has no room, a guard erases the key again.  `erase` gives the element back to the pool.

What a `FixedHash` is for is a finite map of at most `ELEM_POOL_SZ` entries (`boundedMap`, on
Mathlib's `AList`): `insert` adds an absent key while there is room and fails otherwise, `erase`
removes a present key, `find` returns the value stored under a key.

* `Abs` : the abstraction of a `FixedHash` to the lookup function and the size of a map: the
  pool's invariant, the indices of the keys are distinct elements in use and are all of them,
  and the value of each key is the object in its element;
* `Abs.find`, `Abs.insert_present`, `Abs.insert_fresh`, `Abs.erase_present` : what each call
  does to the abstraction, and to the indices of the keys;
* `refines_boundedMap` : from a new `FixedHash` of at most `2 ^ 32` bytes, every sequence of
  `find`, `insert`, `erase`, `contains` and `size` calls gets the answers of the bounded map
  and leaves a `FixedHash` that the map's state abstracts;
* `values_perm` : `values()` visits the values of the map, each once.
-/

namespace OtelEbpf

namespace Container

open Refinement Assoc Bytes

/-- The state of a `FixedHash`. -/
structure FixedHash (Key T : Type*) [DecidableEq Key] [Hashable Key] where
  /-- `map_`: the index of the element of each key's value -/
  map : Std.HashMap Key ℕ
  /-- `pool_` -/
  pool : Pool T

namespace FixedHash

/-- A call on a `FixedHash`. -/
inductive Request (Key T : Type*)
  | find (key : Key)
  | insert (key : Key) (v : T)
  | erase (key : Key)
  | contains (key : Key)
  | size
  deriving DecidableEq, Repr

/-- What a call returns. -/
inductive Answer (T : Type*)
  | position (p : Position T)
  | flag (b : Bool)
  | count (n : ℕ)
  deriving DecidableEq, Repr

/-- What an answer says about the map: the value an `entry` points to, a flag, or a count. -/
inductive Reply (T : Type*)
  | entry (e : Option T)
  | flag (b : Bool)
  | count (n : ℕ)
  deriving DecidableEq, Repr

variable {Key T : Type*} [DecidableEq Key] [Hashable Key] (SIZE es : ℕ) (repr : T → List UInt8)

/-- `full()`. -/
def full (fh : FixedHash Key T) : Bool := fh.pool.full SIZE

/-- `size()`. -/
def size (fh : FixedHash Key T) : ℕ := fh.pool.size

/-- `contains(key)`: `map_.count(key) == 1`. -/
def contains (fh : FixedHash Key T) (key : Key) : Bool := fh.map.contains key

/-- `find(key)`: the index of the key's element and its value, or `{invalid, nullptr}`. -/
def find (fh : FixedHash Key T) (key : Key) : Position T :=
  match fh.map[key]? with
  | none => ⟨invalid SIZE, none⟩
  | some index => ⟨index, fh.pool.get SIZE index⟩

/-- `insert(key, v)`: `{invalid, nullptr}` when full or when the key is there; otherwise the
position of the new value. -/
def insert (fh : FixedHash Key T) (key : Key) (v : T) : Position T × FixedHash Key T :=
  if fh.full SIZE then (⟨invalid SIZE, none⟩, fh)
  else
    -- add to the hash, with the index `-1` for now
    let r := fh.map.containsThenInsertIfNew key (invalid SIZE)
    if r.1 then (⟨invalid SIZE, none⟩, ⟨r.2, fh.pool⟩)
    else
      let pos := fh.pool.emplace SIZE repr v
      -- `map_guard` erases the key again
      if pos.1.index = invalid SIZE then (⟨invalid SIZE, none⟩, ⟨r.2.erase key, pos.2⟩)
      else (pos.1, ⟨r.2.insert key pos.1.index, pos.2⟩)

/-- `erase(key)`: whether the key was there; its element goes back to the pool. -/
def erase (fh : FixedHash Key T) (key : Key) : Bool × FixedHash Key T :=
  match fh.map[key]? with
  | none => (false, fh)
  | some index => (true, ⟨fh.map.erase key, fh.pool.remove SIZE index⟩)

/-- The key that begins element `index` of the pool, as `readKey` reads a `Key` out of the
element's bytes: what a `const Key &` into the element sees. -/
def keyAt (pool : Pool T) (readKey : List UInt8 → Key) (index : ℕ) : Key :=
  readKey (copyOut pool.alloc.mem (index * es) es)

/-- `erase(key)` where `key` refers to the key that begins element `ref` of the pool, as
`LRU::insert` passes `entry->key`.  The reference is read where it is used: `map_.find` reads
the key before `pool_.remove`, `map_.erase` after it, from the element that
`pool_allocator_free` has written its link into.  `none` where the assertions of
`pool_.remove` fail. -/
def eraseAt (fh : FixedHash Key T) (readKey : List UInt8 → Key) (ref : ℕ) :
    Option (Bool × FixedHash Key T) :=
  match fh.map[keyAt es fh.pool readKey ref]? with
  | none => some (false, fh)
  | some index =>
    if index < SIZE ∧ fh.pool.allocated.get index ≠ 0 then
      let pool := fh.pool.remove SIZE index
      some (true, ⟨fh.map.erase (keyAt es pool readKey ref), pool⟩)
    else none

/-- `values()`: the values in the order of the map's iteration. -/
def values (fh : FixedHash Key T) : List (Option T) :=
  fh.map.toList.map fun e => fh.pool.get SIZE e.2

/-- A new `FixedHash`: an empty map over a new pool. -/
def Init (fh : FixedHash Key T) : Prop := fh.map = ∅ ∧ fh.pool.Init SIZE es

/-- `FixedHash()`: an empty map and a new pool over the storage `mem`. -/
def new (mem : ℕ → UInt8) : FixedHash Key T := ⟨∅, Pool.new SIZE es mem⟩

theorem init_new (mem : ℕ → UInt8) (hpos : 0 < SIZE) (hSIZE : SIZE < 2 ^ 32) (hes : 4 ≤ es)
    (hes' : es < 2 ^ 32) : (new SIZE es mem : FixedHash Key T).Init SIZE es :=
  ⟨rfl, Pool.init_new mem hpos hSIZE hes hes'⟩

/-- The answer to a call and the `FixedHash` after it. -/
def call (fh : FixedHash Key T) : Request Key T → Answer T × FixedHash Key T
  | .find key => (.position (fh.find SIZE key), fh)
  | .insert key v => (.position (fh.insert SIZE repr key v).1, (fh.insert SIZE repr key v).2)
  | .erase key => (.flag (fh.erase SIZE key).1, (fh.erase SIZE key).2)
  | .contains key => (.flag (fh.contains key), fh)
  | .size => (.count fh.size, fh)

/-! ### The bounded map -/

/-- What an answer of a `FixedHash` says: a position by the value it points to. -/
def observe : Answer T → Reply T
  | .position p => .entry p.entry
  | .flag b => .flag b
  | .count n => .count n

/-- The finite map of at most `SIZE` entries: `insert` of an absent key with room adds it and
returns the value, and otherwise returns nothing and changes nothing. -/
def boundedMap (A : AList fun _ : Key => T) : Request Key T → Reply T × AList fun _ : Key => T
  | .find key => (.entry (A.lookup key), A)
  | .insert key v =>
    if key ∉ A.keys ∧ A.keys.length < SIZE then (.entry (some v), A.insert key v)
    else (.entry none, A)
  | .erase key => if key ∈ A.keys then (.flag true, A.erase key) else (.flag false, A)
  | .contains key => (.flag (decide (key ∈ A.keys)), A)
  | .size => (.count A.keys.length, A)

/-! ### The abstraction -/

/-- A `FixedHash` holds the map with lookup `look` and `n` entries: the pool keeps its
invariant, the keys' indices are distinct elements in use and are all of them, the value of a
key is the object in its element, and the pool counts `n`. -/
structure Abs (fh : FixedHash Key T) (look : Key → Option T) (n : ℕ) : Prop where
  pool : fh.pool.Inv SIZE es repr
  inUse : ∀ (k : Key) (i : ℕ), fh.map[k]? = some i → i ∈ fh.pool.alloc.inUse
  inj : ∀ (k k' : Key) (i : ℕ), fh.map[k]? = some i → fh.map[k']? = some i → k = k'
  onto : ∀ i ∈ fh.pool.alloc.inUse, ∃ k : Key, fh.map[k]? = some i
  lookup : ∀ k : Key, fh.map[k]?.bind fh.pool.objects = look k
  size : fh.pool.elemCount = n

variable {SIZE es repr} {fh : FixedHash Key T} {look : Key → Option T} {n : ℕ}

namespace Abs

theorem init (hfits : SIZE * es ≤ 2 ^ 32) (h : fh.Init SIZE es) :
    Abs SIZE es repr fh (fun _ => none) 0 := by
  obtain ⟨hmap, hpool⟩ := h
  have hinv : fh.pool.Inv SIZE es repr := Pool.Inv.init hfits hpool
  refine ⟨hinv, fun k i hk => ?_, fun k k' i hk => ?_, fun i hi => ?_, fun k => ?_, ?_⟩
  · simp [hmap] at hk
  · simp [hmap] at hk
  · rw [hpool.1.2] at hi
    simp at hi
  · simp [hmap]
  · exact hpool.2.2.2.1

/-- The key's index, when it has one, is an element in use holding the key's value. -/
theorem look_of_some (h : Abs SIZE es repr fh look n) {k : Key} {i : ℕ} (hk : fh.map[k]? = some i) :
    look k = fh.pool.objects i ∧ (fh.pool.objects i).isSome := by
  rw [← h.lookup k, hk, Option.bind_some]
  exact ⟨rfl, (h.pool.objects i).2 (h.inUse k i hk)⟩

theorem look_eq_none (h : Abs SIZE es repr fh look n) {k : Key} : look k = none ↔ fh.map[k]? = none := by
  cases hk : fh.map[k]? with
  | none => simp [← h.lookup k, hk]
  | some i =>
    obtain ⟨hlook, hsome⟩ := h.look_of_some hk
    rw [hlook]
    simpa using Option.isSome_iff_ne_none.1 hsome

theorem full_iff (h : Abs SIZE es repr fh look n) : fh.full SIZE = true ↔ n = SIZE := by
  simp [full, Pool.full, Pool.size, h.size]

/-- `find` returns the key's index and value, or `{invalid, nullptr}` for a key not there. -/
theorem find (h : Abs SIZE es repr fh look n) (k : Key) :
    fh.find SIZE k = match fh.map[k]? with
      | none => ⟨invalid SIZE, none⟩
      | some i => ⟨i, look k⟩ := by
  unfold FixedHash.find
  cases hk : fh.map[k]? with
  | none => rfl
  | some i =>
    show (⟨i, fh.pool.get SIZE i⟩ : Position T) = ⟨i, look k⟩
    rw [(h.pool.get_eq (h.inUse k i hk)).2.2, (h.look_of_some hk).1]

theorem find_entry (h : Abs SIZE es repr fh look n) (k : Key) : (fh.find SIZE k).entry = look k := by
  rw [h.find k]
  cases hk : fh.map[k]? with
  | none => exact (h.look_eq_none.2 hk).symm
  | some i => rfl

/-- `find` returns `invalid` exactly for a key that is not there. -/
theorem find_index_eq_invalid (h : Abs SIZE es repr fh look n) (k : Key) :
    (fh.find SIZE k).index = invalid SIZE ↔ fh.map[k]? = none := by
  rw [h.find k]
  cases hk : fh.map[k]? with
  | none => simp
  | some i =>
    have hlt := h.pool.lt_of_mem (h.inUse k i hk)
    simp [Nat.ne_of_lt (lt_invalid h.pool.size_le_two_pow_30 hlt)]

theorem contains_eq (h : Abs SIZE es repr fh look n) (k : Key) : fh.contains k = (look k).isSome := by
  rw [contains, Std.HashMap.contains_eq_isSome_getElem?]
  cases hk : fh.map[k]? with
  | none => simp [h.look_eq_none.2 hk]
  | some i => simp [(h.look_of_some hk).1, (h.look_of_some hk).2]

end Abs

theorem insert_full {k : Key} {v : T} (hfull : fh.full SIZE = true) :
    fh.insert SIZE repr k v = (⟨invalid SIZE, none⟩, fh) := by
  simp [FixedHash.insert, hfull]

namespace Abs

/-- `insert` of a key that is there fails and changes neither the map's lookups nor the
pool. -/
theorem insert_present (h : Abs SIZE es repr fh look n) {k : Key} {v : T} (hk : look k ≠ none) :
    (fh.insert SIZE repr k v).1 = ⟨invalid SIZE, none⟩ ∧
      Abs SIZE es repr (fh.insert SIZE repr k v).2 look n ∧
      ∀ a : Key, (fh.insert SIZE repr k v).2.map[a]? = fh.map[a]? := by
  cases hfull : fh.full SIZE with
  | true =>
    rw [insert_full hfull]
    exact ⟨rfl, h, fun _ => rfl⟩
  | false =>
    have hmem : k ∈ fh.map := by
      rw [Std.HashMap.mem_iff_isSome_getElem?]
      exact Option.isSome_iff_ne_none.2 (mt h.look_eq_none.2 hk)
    have hc : (fh.map.containsThenInsertIfNew k (invalid SIZE)).1 = true := by
      rw [Std.HashMap.containsThenInsertIfNew_fst, Std.HashMap.contains_iff_mem]
      exact hmem
    -- entering the key again leaves the map's lookups as they were
    have hsame : ∀ a : Key,
        (fh.map.containsThenInsertIfNew k (invalid SIZE)).2[a]? = fh.map[a]? := by
      intro a
      rw [Std.HashMap.containsThenInsertIfNew_snd, Std.HashMap.getElem?_insertIfNew]
      simp [hmem]
    have he : fh.insert SIZE repr k v =
        (⟨invalid SIZE, none⟩, ⟨(fh.map.containsThenInsertIfNew k (invalid SIZE)).2, fh.pool⟩) := by
      simp only [FixedHash.insert, hfull, hc, Bool.false_eq_true, if_false, if_true]
    rw [he]
    refine ⟨rfl, ⟨h.pool, fun a i ha => ?_, fun a a' i ha ha' => ?_, fun i hi => ?_,
      fun a => ?_, h.size⟩, hsame⟩
    · rw [hsame] at ha
      exact h.inUse a i ha
    · rw [hsame] at ha ha'
      exact h.inj a a' i ha ha'
    · obtain ⟨a, ha⟩ := h.onto i hi
      exact ⟨a, by rw [hsame]; exact ha⟩
    · dsimp only
      rw [hsame]
      exact h.lookup a

variable (hrepr : ∀ v, (repr v).length ≤ es)
include hrepr

/-- `insert` of a key that is not there, with room in the pool: the value is constructed in an
element that was not in use, the key gets that element's index, and the map holds the value. -/
theorem insert_fresh (h : Abs SIZE es repr fh look n) {k : Key} {v : T} (hk : look k = none)
    (hfull : fh.full SIZE = false) :
    ∃ i, (fh.insert SIZE repr k v).1 = ⟨i, some v⟩ ∧ i ≠ invalid SIZE ∧
      Abs SIZE es repr (fh.insert SIZE repr k v).2 (Function.update look k (some v)) (n + 1) ∧
      ∀ a : Key, (fh.insert SIZE repr k v).2.map[a]? = if a = k then some i else fh.map[a]? := by
  have hnone : fh.map[k]? = none := h.look_eq_none.1 hk
  have hc : (fh.map.containsThenInsertIfNew k (invalid SIZE)).1 = false := by
    rw [Std.HashMap.containsThenInsertIfNew_fst, Std.HashMap.contains_eq_isSome_getElem?, hnone]
    rfl
  obtain ⟨i, hlt, hfresh, hpos, hinv, hobj, hin⟩ :=
    h.pool.emplace hrepr (v := v) (by simpa [full] using hfull)
  have hne : i ≠ invalid SIZE := Nat.ne_of_lt (lt_invalid h.pool.size_le_two_pow_30 hlt)
  have he : fh.insert SIZE repr k v = (⟨i, some v⟩,
      ⟨(fh.map.containsThenInsertIfNew k (invalid SIZE)).2.insert k i,
        (fh.pool.emplace SIZE repr v).2⟩) := by
    simp only [FixedHash.insert, hfull, hc, hpos, hne, Bool.false_eq_true, if_false]
  -- the key gets the element's index; the other keys keep theirs
  have hmap : ∀ a : Key, ((fh.map.containsThenInsertIfNew k (invalid SIZE)).2.insert k i)[a]? =
      if a = k then some i else fh.map[a]? := by
    intro a
    rw [Std.HashMap.getElem?_insert, Std.HashMap.containsThenInsertIfNew_snd,
      Std.HashMap.getElem?_insertIfNew]
    by_cases hak : a = k
    · simp [hak]
    · simp [Ne.symm hak, hak]
  refine ⟨i, by rw [he], hne, ?_, by rw [he]; exact hmap⟩
  rw [he]
  refine ⟨hinv, fun a j ha => ?_, fun a a' j ha ha' => ?_, fun j hj => ?_, fun a => ?_, ?_⟩
  · rw [hin]
    rw [hmap] at ha
    split_ifs at ha with hak
    · rw [← Option.some.inj ha]
      exact Finset.mem_insert_self _ _
    · exact Finset.mem_insert_of_mem (h.inUse a j ha)
  · rw [hmap] at ha ha'
    split_ifs at ha ha' with hak hak'
    · rw [hak, hak']
    · -- a key that was there has an element in use, not the fresh one
      rw [← Option.some.inj ha] at ha'
      exact absurd (h.inUse a' i ha') hfresh
    · rw [← Option.some.inj ha'] at ha
      exact absurd (h.inUse a i ha) hfresh
    · exact h.inj a a' j ha ha'
  · rw [hin, Finset.mem_insert] at hj
    rcases hj with rfl | hj
    · exact ⟨k, by rw [hmap, if_pos rfl]⟩
    · obtain ⟨a, ha⟩ := h.onto j hj
      have hak : a ≠ k := by
        rintro rfl
        rw [hnone] at ha
        cases ha
      exact ⟨a, by rw [hmap, if_neg hak]; exact ha⟩
  · rw [hmap, hobj]
    by_cases hak : a = k
    · subst hak
      simp
    · rw [if_neg hak, Function.update_of_ne hak, ← h.lookup a]
      cases ha : fh.map[a]? with
      | none => rfl
      | some j =>
        have hji : j ≠ i := fun hji => hfresh (hji ▸ h.inUse a j ha)
        simp [Function.update_of_ne hji]
  · rw [hinv.elemCount, hin, Finset.card_insert_of_notMem hfresh, ← h.pool.elemCount, h.size]

omit hrepr in
/-- `erase` of a key that is not there changes nothing. -/
theorem erase_absent (h : Abs SIZE es repr fh look n) {k : Key} (hk : look k = none) :
    fh.erase SIZE k = (false, fh) := by
  simp [FixedHash.erase, h.look_eq_none.1 hk]

/-- `erase` of a key that is there gives its element back to the pool and removes the key. -/
theorem erase_present (h : Abs SIZE es repr fh look n) {k : Key} (hk : look k ≠ none) :
    (fh.erase SIZE k).1 = true ∧
      Abs SIZE es repr (fh.erase SIZE k).2 (Function.update look k none) (n - 1) ∧
      ∀ a : Key, (fh.erase SIZE k).2.map[a]? = if a = k then none else fh.map[a]? := by
  obtain ⟨i, hi⟩ := Option.ne_none_iff_exists'.1 (mt h.look_eq_none.2 hk)
  have he : fh.erase SIZE k = (true, ⟨fh.map.erase k, fh.pool.remove SIZE i⟩) := by
    simp [FixedHash.erase, hi]
  have hmap : ∀ a : Key, (fh.map.erase k)[a]? = if a = k then none else fh.map[a]? := by
    intro a
    rw [Std.HashMap.getElem?_erase]
    by_cases hak : a = k
    · simp [hak]
    · simp [Ne.symm hak, hak]
  have hiu := h.inUse k i hi
  obtain ⟨hinv, hobj, hin⟩ := h.pool.remove hrepr hiu
  -- the other keys have other elements
  have hother : ∀ a j, a ≠ k → fh.map[a]? = some j → j ≠ i := fun a j hak ha hji =>
    hak (h.inj a k i (hji ▸ ha) hi)
  rw [he]
  refine ⟨rfl, ⟨hinv, fun a j ha => ?_, fun a a' j ha ha' => ?_, fun j hj => ?_, fun a => ?_, ?_⟩,
    hmap⟩
  · rw [hmap] at ha
    split_ifs at ha with hak
    rw [hin]
    exact Finset.mem_erase.2 ⟨hother a j hak ha, h.inUse a j ha⟩
  · rw [hmap] at ha ha'
    split_ifs at ha ha'
    exact h.inj a a' j ha ha'
  · rw [hin, Finset.mem_erase] at hj
    obtain ⟨a, ha⟩ := h.onto j hj.2
    have hak : a ≠ k := by
      rintro rfl
      rw [hi] at ha
      exact hj.1 (Option.some.inj ha).symm
    exact ⟨a, by rw [hmap, if_neg hak]; exact ha⟩
  · rw [hmap, hobj]
    by_cases hak : a = k
    · subst hak
      simp
    · rw [if_neg hak, Function.update_of_ne hak, ← h.lookup a]
      cases ha : fh.map[a]? with
      | none => rfl
      | some j => simp [Function.update_of_ne (hother a j hak ha)]
  · rw [hinv.elemCount, hin, Finset.card_erase_of_mem hiu, ← h.pool.elemCount, h.size]

omit hrepr in
/-- `erase` through a reference to the key of the element `i` of key `k`: the element goes back
to the pool, and the key read from it afterwards leaves the map. -/
theorem eraseAt_of_key (h : Abs SIZE es repr fh look n) {readKey : List UInt8 → Key} {k : Key}
    {i : ℕ} (hk : fh.map[k]? = some i) (hkey : keyAt es fh.pool readKey i = k) :
    fh.eraseAt SIZE es readKey i =
      some (true, ⟨fh.map.erase (keyAt es (fh.pool.remove SIZE i) readKey i),
        fh.pool.remove SIZE i⟩) := by
  obtain ⟨hlt, hget, -⟩ := h.pool.get_eq (h.inUse k i hk)
  simp only [eraseAt, hkey, hk, if_pos (And.intro hlt hget)]

omit hrepr in
/-- When the key read back from the freed element is still `k`, the erase through the reference
is the erase of `k`. -/
theorem eraseAt_eq_erase (h : Abs SIZE es repr fh look n) {readKey : List UInt8 → Key} {k : Key}
    {i : ℕ} (hk : fh.map[k]? = some i) (hkey : keyAt es fh.pool readKey i = k)
    (hback : keyAt es (fh.pool.remove SIZE i) readKey i = k) :
    fh.eraseAt SIZE es readKey i = some (fh.erase SIZE k) := by
  rw [h.eraseAt_of_key hk hkey, hback]
  simp [FixedHash.erase, hk]

/-- A write through the entry of a key's element changes that key's value and nothing else. -/
theorem set (h : Abs SIZE es repr fh look n) {k : Key} {i : ℕ} (hk : fh.map[k]? = some i)
    (v : T) : Abs SIZE es repr ⟨fh.map, fh.pool.set repr i v⟩ (Function.update look k (some v)) n := by
  obtain ⟨hinv, hobj, hin⟩ := h.pool.set hrepr (h.inUse k i hk) v
  refine ⟨hinv, fun a j ha => hin ▸ h.inUse a j ha, h.inj, fun j hj => h.onto j (hin ▸ hj),
    fun a => ?_, h.size⟩
  show fh.map[a]?.bind (fh.pool.set repr i v).objects = Function.update look k (some v) a
  rw [hobj]
  by_cases hak : a = k
  · subst hak
    rw [hk, Function.update_self]
    simp
  · rw [Function.update_of_ne hak, ← h.lookup a]
    cases ha : fh.map[a]? with
    | none => rfl
    | some j =>
      -- another key's element is another element
      have hji : j ≠ i := fun hji => hak (h.inj a k i (hji ▸ ha) hk)
      simp [Function.update_of_ne hji]

end Abs

/-- `insert` of a key the map lacks, over a pool that has just freed element `i`, constructs
the value in element `i`: `pool_allocator_free` made it the head of the free list. -/
theorem insert_of_removed (hrepr : ∀ v, (repr v).length ≤ es) {m : Std.HashMap Key ℕ}
    {pool : Pool T} (hp : pool.Inv SIZE es repr) {i : ℕ} (hi : i ∈ pool.alloc.inUse) {k : Key}
    (hk : m[k]? = none) (v : T) :
    ((⟨m, pool.remove SIZE i⟩ : FixedHash Key T).insert SIZE repr k v).1 = ⟨i, some v⟩ ∧
      (∀ a : Key, ((⟨m, pool.remove SIZE i⟩ : FixedHash Key T).insert SIZE repr k v).2.map[a]? =
        if a = k then some i else m[a]?) ∧
      ((⟨m, pool.remove SIZE i⟩ : FixedHash Key T).insert SIZE repr k v).2.pool.get SIZE i =
        some v := by
  have hfull := hp.full_remove hi
  obtain ⟨hpos, hobj⟩ := hp.emplace_remove hi v
  obtain ⟨hinv₁, -, hin₁⟩ := hp.remove hrepr hi
  obtain ⟨j, -, -, hposj, hinv₂, -, hin₂⟩ := hinv₁.emplace hrepr (v := v) hfull
  -- the element `emplace` took is `i`
  have hji : j = i := by
    rw [hpos] at hposj
    exact (Position.mk.inj hposj).1.symm
  subst hji
  have hne : j ≠ invalid SIZE := Nat.ne_of_lt (lt_invalid hp.size_le_two_pow_30 (hp.lt_of_mem hi))
  have hc : (m.containsThenInsertIfNew k (invalid SIZE)).1 = false := by
    rw [Std.HashMap.containsThenInsertIfNew_fst, Std.HashMap.contains_eq_isSome_getElem?, hk]
    rfl
  have he : (⟨m, pool.remove SIZE j⟩ : FixedHash Key T).insert SIZE repr k v = (⟨j, some v⟩,
      ⟨(m.containsThenInsertIfNew k (invalid SIZE)).2.insert k j,
        ((pool.remove SIZE j).emplace SIZE repr v).2⟩) := by
    simp only [FixedHash.insert, full, hfull, hc, hpos, hne, Bool.false_eq_true, if_false]
  rw [he]
  refine ⟨rfl, fun a => ?_, ?_⟩
  · rw [Std.HashMap.getElem?_insert, Std.HashMap.containsThenInsertIfNew_snd,
      Std.HashMap.getElem?_insertIfNew]
    by_cases hak : a = k
    · simp [hak]
    · simp [Ne.symm hak, hak]
  · rw [(hinv₂.get_eq (by rw [hin₂]; exact Finset.mem_insert_self _ _)).2.2, hobj]

/-! ### The refinement -/


variable (SIZE es repr) in
/-- The abstraction of a `FixedHash` to the state `A` of the bounded map. -/
def AbsMap (fh : FixedHash Key T) (A : AList fun _ : Key => T) : Prop :=
  Abs SIZE es repr fh (fun k => A.lookup k) A.keys.length

/-- The map never holds more than `SIZE` entries. -/
theorem Abs.le_size (h : Abs SIZE es repr fh look n) : n ≤ SIZE := by
  rw [← h.size, h.pool.elemCount]
  simpa using Finset.card_le_card h.pool.inUse_subset

/-- One call: the `FixedHash` answers as the bounded map does and the abstraction holds
after it. -/
theorem call_sim (hrepr : ∀ v, (repr v).length ≤ es) {A : AList fun _ : Key => T}
    (h : AbsMap SIZE es repr fh A) (c : Request Key T) :
    observe (fh.call SIZE repr c).1 = (boundedMap SIZE A c).1 ∧
      AbsMap SIZE es repr (fh.call SIZE repr c).2 (boundedMap SIZE A c).2 := by
  cases c with
  | find key => exact ⟨congrArg Reply.entry (h.find_entry key), h⟩
  | insert key v =>
    by_cases hmem : key ∈ A.keys
    · -- the key is there
      obtain ⟨hpos, habs, -⟩ := h.insert_present (v := v) (lookup_ne_none_iff.2 hmem)
      have hspec : boundedMap SIZE A (.insert key v) = (.entry none, A) := by
        simp [boundedMap, hmem]
      rw [hspec]
      exact ⟨by simp only [call, observe, hpos], habs⟩
    · by_cases hroom : A.keys.length < SIZE
      · have hfull : fh.full SIZE = false :=
          Bool.eq_false_iff.2 fun hf => Nat.ne_of_lt hroom (h.full_iff.1 hf)
        obtain ⟨i, hpos, -, habs, -⟩ :=
          h.insert_fresh hrepr (v := v) (lookup_eq_none_iff.2 hmem) hfull
        have hspec : boundedMap SIZE A (.insert key v) = (.entry (some v), A.insert key v) := by
          simp [boundedMap, hmem, hroom]
        rw [hspec]
        refine ⟨by simp only [call, observe, hpos], ?_⟩
        unfold AbsMap
        rw [lookup_insert_eq, length_keys_insert hmem]
        exact habs
      · -- no room: the pool is full
        have hfull : fh.full SIZE = true := h.full_iff.2 (by have := h.le_size; omega)
        have hspec : boundedMap SIZE A (.insert key v) = (.entry none, A) := by
          simp [boundedMap, hroom]
        rw [hspec]
        exact ⟨by simp only [call, observe, insert_full hfull], by
          simp only [call, insert_full hfull]; exact h⟩
  | erase key =>
    by_cases hmem : key ∈ A.keys
    · obtain ⟨hflag, habs, -⟩ := h.erase_present hrepr (lookup_ne_none_iff.2 hmem)
      have hspec : boundedMap SIZE A (.erase key) = (.flag true, A.erase key) := by
        simp [boundedMap, hmem]
      rw [hspec]
      refine ⟨by simp only [call, observe, hflag], ?_⟩
      unfold AbsMap
      rw [lookup_erase_eq, length_keys_erase hmem]
      exact habs
    · have he := h.erase_absent (k := key) (lookup_eq_none_iff.2 hmem)
      have hspec : boundedMap SIZE A (.erase key) = (.flag false, A) := by
        simp [boundedMap, hmem]
      rw [hspec]
      exact ⟨by simp only [call, observe, he], by simp only [call, he]; exact h⟩
  | contains key =>
    refine ⟨?_, h⟩
    have hiff : (A.lookup key).isSome = decide (key ∈ A.keys) := by
      rw [Bool.eq_iff_iff, decide_eq_true_iff, Option.isSome_iff_ne_none, lookup_ne_none_iff]
    simp only [call, boundedMap, observe, h.contains_eq, hiff]
  | size => exact ⟨congrArg Reply.count h.size, h⟩

/-- **`FixedHash` refines a bounded map.**  From a new `FixedHash` over a pool of at most
`2 ^ 32` bytes, whose values fit in an element, every sequence of `find`, `insert`, `erase`,
`contains` and `size` calls gets the answers of the finite map of at most `ELEM_POOL_SZ`
entries: `find` the value stored under the key, `insert` the new value exactly when the key is
absent and there is room, `erase` `true` exactly when the key is present, `size()` the number
of entries.  After the calls the `FixedHash` is abstracted by the map's state: the keys' indices
are distinct elements in use and all of them, below `ELEM_POOL_SZ`, and each value is the
object in its key's element, its bytes intact. -/
theorem refines_boundedMap (hfits : SIZE * es ≤ 2 ^ 32) (hrepr : ∀ v, (repr v).length ≤ es)
    (h₀ : fh.Init SIZE es) (calls : List (Request Key T)) :
    (exec (call SIZE repr) fh calls).1.map observe = (exec (boundedMap SIZE) ∅ calls).1 ∧
      AbsMap SIZE es repr (exec (call SIZE repr) fh calls).2 (exec (boundedMap SIZE) ∅ calls).2 := by
  have hinit : AbsMap SIZE es repr fh ∅ := by
    unfold AbsMap
    simpa using Abs.init hfits h₀
  exact exec_sim (call SIZE repr) observe (AbsMap SIZE es repr)
    (fun _ _ c h => call_sim hrepr h c) calls fh ∅ hinit

/-- Two elements of four bytes, each value one byte: two `insert`s and an `erase`. -/
theorem refines_boundedMap_two_elems :
    let r := exec (call 2 fun v : UInt8 => [v]) (new 2 4 fun _ => 0 : FixedHash ℕ UInt8)
      [.insert 1 7, .insert 2 9, .erase 1]
    r.1.map observe = (exec (boundedMap 2) ∅ [.insert 1 7, .insert 2 9, .erase 1]).1 ∧
      AbsMap 2 4 (fun v : UInt8 => [v]) r.2
        (exec (boundedMap 2) ∅ [.insert 1 7, .insert 2 9, .erase 1]).2 :=
  refines_boundedMap (by decide) (fun _ => by simp)
    (init_new 2 4 _ (by decide) (by decide) (by decide) (by decide)) _

/-- The map's entries, each index read through the pool, are the abstract map's entries. -/
theorem AbsMap.pairs_perm {A : AList fun _ : Key => T} (h : AbsMap SIZE es repr fh A) :
    (fh.map.toList.map fun e => (e.1, fh.pool.get SIZE e.2)).Perm
      (A.entries.map fun e => (e.1, some e.2)) := by
  have hl : (fh.map.toList.map fun e => (e.1, fh.pool.get SIZE e.2)).Nodup := by
    refine List.Nodup.of_map Prod.fst ?_
    rw [List.map_map]
    exact List.pairwise_map.2
      (Std.HashMap.distinct_keys_toList.imp fun hab heq => by
        simp only [Function.comp_apply] at heq
        simp [heq] at hab)
  have hr : (A.entries.map fun e => (e.1, some e.2)).Nodup := by
    refine List.Nodup.of_map Prod.fst ?_
    rw [List.map_map]
    exact A.keys_nodup
  rw [List.perm_ext_iff_of_nodup hl hr]
  rintro ⟨a, o⟩
  simp only [List.mem_map, Prod.mk.injEq]
  constructor
  · rintro ⟨⟨a', i⟩, hmem, rfl, rfl⟩
    rw [Std.HashMap.mem_toList_iff_getElem?_eq_some] at hmem
    obtain ⟨hlook, hsome⟩ := h.look_of_some hmem
    obtain ⟨v, hv⟩ := Option.isSome_iff_exists.1 hsome
    refine ⟨⟨a', v⟩, AList.mem_lookup_iff.1 ?_, rfl, ?_⟩
    · show AList.lookup a' A = some v
      rw [hlook, hv]
    · rw [(h.pool.get_eq (h.inUse a' i hmem)).2.2, hv]
  · rintro ⟨⟨a', v⟩, hmem, rfl, rfl⟩
    have hl : A.lookup a' = some v := AList.mem_lookup_iff.2 hmem
    obtain ⟨i, hi⟩ := Option.ne_none_iff_exists'.1
      (mt h.look_eq_none.2 (show A.lookup a' ≠ none by rw [hl]; exact Option.some_ne_none v))
    refine ⟨⟨a', i⟩, Std.HashMap.mem_toList_iff_getElem?_eq_some.2 hi, rfl, ?_⟩
    rw [(h.pool.get_eq (h.inUse a' i hi)).2.2, ← (h.look_of_some hi).1]
    exact hl

/-- `values()` visits the value of every key of the map, each once. -/
theorem AbsMap.values_perm {A : AList fun _ : Key => T} (h : AbsMap SIZE es repr fh A) :
    (fh.values SIZE).Perm (A.entries.map fun e => some e.2) := by
  have := h.pairs_perm.map Prod.snd
  simpa only [values, List.map_map, Function.comp_def] using this

/-- `map_` has as many keys as the abstract map. -/
theorem AbsMap.map_size {A : AList fun _ : Key => T} (h : AbsMap SIZE es repr fh A) :
    fh.map.size = A.keys.length := by
  have hlen := h.pairs_perm.length_eq
  rw [List.length_map, List.length_map, Std.HashMap.length_toList] at hlen
  rw [hlen, AList.keys, List.keys, List.length_map]

/-! ### A table of a set of keys -/

variable (SIZE es repr) in
/-- The table holds exactly the keys of `S`, each with a value in its element. -/
structure Tracks (fh : FixedHash Key T) (S : Finset Key) : Prop where
  abs : ∃ look, Abs SIZE es repr fh look S.card
  tracked : ∀ k : Key, fh.map[k]? = none ↔ k ∉ S

/-- `find` returns the index the map holds, or `invalid`. -/
theorem find_index (fh : FixedHash Key T) (k : Key) :
    (fh.find SIZE k).index = fh.map[k]?.getD (invalid SIZE) := by
  unfold FixedHash.find
  cases fh.map[k]? <;> rfl

/-- `insert` of a key the map holds leaves the elements as they are. -/
theorem insert_pool_of_mem {k : Key} (hk : k ∈ fh.map) (v : T) :
    (fh.insert SIZE repr k v).2.pool = fh.pool := by
  unfold FixedHash.insert
  split
  · rfl
  · rw [if_pos (by rw [Std.HashMap.containsThenInsertIfNew_fst, Std.HashMap.contains_iff_mem]; exact hk)]

namespace Tracks

variable {S : Finset Key} (h : Tracks SIZE es repr fh S)
include h

theorem size_le : SIZE ≤ 2 ^ 30 := by
  obtain ⟨look, habs⟩ := h.abs
  exact habs.pool.size_le_two_pow_30

theorem lt_of_map {k : Key} {i : ℕ} (hk : fh.map[k]? = some i) : i < SIZE := by
  obtain ⟨look, habs⟩ := h.abs
  exact habs.pool.lt_of_mem (habs.inUse k i hk)

theorem toNat_ofNat {i : ℕ} (hi : i < SIZE) : (UInt32.ofNat i).toNat = i :=
  UInt32.toNat_ofNat_of_lt' (by have := h.size_le; rw [UInt32.size]; omega)

/-- Indices below `SIZE` stay apart as `u32`s. -/
theorem ofNat_inj {i j : ℕ} (hi : i < SIZE) (hj : j < SIZE)
    (he : UInt32.ofNat i = UInt32.ofNat j) : i = j := by
  have := congrArg UInt32.toNat he
  rwa [h.toNat_ofNat hi, h.toNat_ofNat hj] at this

theorem mem_of_map {k : Key} {i : ℕ} (hk : fh.map[k]? = some i) : k ∈ S := by
  by_contra hn
  rw [(h.tracked k).2 hn] at hk
  cases hk

/-- Two keys in one element are one key. -/
theorem inj {k k' : Key} {i : ℕ} (hk : fh.map[k]? = some i) (hk' : fh.map[k']? = some i) :
    k = k' := by
  obtain ⟨look, habs⟩ := h.abs
  exact habs.inj k k' i hk hk'

/-- The elements in use are those of the keys. -/
theorem mem_inUse_iff {i : ℕ} : i ∈ fh.pool.alloc.inUse ↔ ∃ k : Key, fh.map[k]? = some i := by
  obtain ⟨look, habs⟩ := h.abs
  exact ⟨habs.onto i, fun ⟨k, hk⟩ => habs.inUse k i hk⟩

/-- `operator[]` reads the element of a key. -/
theorem get_of_map {k : Key} {i : ℕ} (hk : fh.map[k]? = some i) :
    fh.pool.get SIZE i = fh.pool.objects i := by
  obtain ⟨look, habs⟩ := h.abs
  exact (habs.pool.get_eq (habs.inUse k i hk)).2.2

/-- `operator[]` fails its assertion exactly on an element that no key has. -/
theorem get_eq_none_iff {i : ℕ} : fh.pool.get SIZE i = none ↔ ∀ k : Key, fh.map[k]? ≠ some i := by
  obtain ⟨look, habs⟩ := h.abs
  constructor
  · intro hget k hk
    rw [(habs.pool.get_eq (habs.inUse k i hk)).2.2] at hget
    exact absurd hget (Option.isSome_iff_ne_none.1 ((habs.pool.objects i).2 (habs.inUse k i hk)))
  · intro hno
    refine habs.pool.get_of_not_mem fun hiu => ?_
    obtain ⟨k, hk⟩ := habs.onto i hiu
    exact hno k hk

/-- The table has room exactly while it holds fewer than `SIZE` keys. -/
theorem card_lt_iff : S.card < SIZE ↔ fh.full SIZE = false := by
  obtain ⟨look, habs⟩ := h.abs
  rw [← Bool.not_eq_true, habs.full_iff]
  have := habs.le_size
  omega

theorem contains_eq (k : Key) : fh.contains k = decide (k ∈ S) := by
  rw [FixedHash.contains, Std.HashMap.contains_eq_isSome_getElem?]
  by_cases hk : k ∈ S
  · rw [decide_eq_true hk, Option.isSome_iff_ne_none]
    exact mt (h.tracked k).1 (not_not.2 hk)
  · rw [decide_eq_false hk, (h.tracked k).2 hk]
    rfl

/-- A key of `S` is found in its element, below `SIZE`, with the element's value. -/
theorem find_of_mem {k : Key} (hk : k ∈ S) :
    ∃ i v, fh.map[k]? = some i ∧ fh.find SIZE k = ⟨i, some v⟩ ∧ i < SIZE ∧
      fh.pool.objects i = some v := by
  obtain ⟨look, habs⟩ := h.abs
  obtain ⟨i, hi⟩ := Option.ne_none_iff_exists'.1 (mt (h.tracked k).1 (not_not.2 hk))
  obtain ⟨hlook, hsome⟩ := habs.look_of_some hi
  obtain ⟨v, hv⟩ := Option.isSome_iff_exists.1 hsome
  refine ⟨i, v, hi, ?_, h.lt_of_map hi, hv⟩
  simp only [habs.find k, hi, hlook, hv]

theorem find_of_not_mem {k : Key} (hk : k ∉ S) : fh.find SIZE k = ⟨invalid SIZE, none⟩ := by
  simp [FixedHash.find, (h.tracked k).2 hk]

/-- `find` returns `invalid` exactly for a key not in `S`. -/
theorem find_index_eq_invalid {k : Key} :
    (fh.find SIZE k).index = invalid SIZE ↔ k ∉ S := by
  obtain ⟨look, habs⟩ := h.abs
  rw [habs.find_index_eq_invalid, h.tracked]

/-- A table with the same map and as many values. -/
theorem of_map_eq {fh' : FixedHash Key T} {look : Key → Option T}
    (habs : Abs SIZE es repr fh' look S.card) (hmap : ∀ a : Key, fh'.map[a]? = fh.map[a]?) :
    Tracks SIZE es repr fh' S :=
  ⟨⟨look, habs⟩, fun a => by rw [hmap a]; exact h.tracked a⟩

/-- `insert` of a key of `S` fails and changes no key's element. -/
theorem insert_present {k : Key} (hk : k ∈ S) (v : T) :
    (fh.insert SIZE repr k v).1 = ⟨invalid SIZE, none⟩ ∧
      Tracks SIZE es repr (fh.insert SIZE repr k v).2 S ∧
      ∀ a : Key, (fh.insert SIZE repr k v).2.map[a]? = fh.map[a]? := by
  obtain ⟨look, habs⟩ := h.abs
  obtain ⟨hpos, habs', hmap⟩ := habs.insert_present (v := v)
    (mt habs.look_eq_none.1 (mt (h.tracked k).1 (not_not.2 hk)))
  exact ⟨hpos, h.of_map_eq habs' hmap, hmap⟩

variable (hrepr : ∀ v, (repr v).length ≤ es)
include hrepr

/-- A write through the element of a key keeps the keys. -/
theorem set {k : Key} {i : ℕ} (hk : fh.map[k]? = some i) (v : T) :
    Tracks SIZE es repr ⟨fh.map, fh.pool.set repr i v⟩ S := by
  obtain ⟨look, habs⟩ := h.abs
  exact ⟨⟨_, habs.set hrepr hk v⟩, h.tracked⟩

/-- `insert` of a key not in `S` into a table with room: the key gets an element that no key had
before, and the value is constructed there. -/
theorem insert_fresh {k : Key} (hk : k ∉ S) (hfull : fh.full SIZE = false) (v : T) :
    ∃ i, (fh.insert SIZE repr k v).1 = ⟨i, some v⟩ ∧ i ≠ invalid SIZE ∧ i < SIZE ∧
      (∀ a : Key, fh.map[a]? ≠ some i) ∧
      Tracks SIZE es repr (fh.insert SIZE repr k v).2 (Insert.insert k S) ∧
      (fh.insert SIZE repr k v).2.pool.objects i = some v ∧
      (∀ (a : Key) (j : ℕ), fh.map[a]? = some j →
        (fh.insert SIZE repr k v).2.pool.objects j = fh.pool.objects j) ∧
      ∀ a : Key, (fh.insert SIZE repr k v).2.map[a]? = if a = k then some i else fh.map[a]? := by
  obtain ⟨look, habs⟩ := h.abs
  have hnone : fh.map[k]? = none := (h.tracked k).2 hk
  obtain ⟨i, hpos, hne, habs', hmap⟩ :=
    habs.insert_fresh hrepr (v := v) (habs.look_eq_none.2 hnone) hfull
  have hki : (fh.insert SIZE repr k v).2.map[k]? = some i := by rw [hmap k, if_pos rfl]
  have hlt : i < SIZE := habs'.pool.lt_of_mem (habs'.inUse k i hki)
  -- a key that had the element would have it still, next to `k`
  have hfresh : ∀ a : Key, fh.map[a]? ≠ some i := by
    intro a ha
    have hak : a ≠ k := by
      rintro rfl
      rw [hnone] at ha
      cases ha
    exact hak (habs'.inj a k i (by rw [hmap a, if_neg hak]; exact ha) hki)
  have hobj : (fh.insert SIZE repr k v).2.pool.objects i = some v := by
    rw [← (habs'.look_of_some hki).1, Function.update_self]
  -- the elements of the other keys keep their values
  have hother : ∀ (a : Key) (j : ℕ), fh.map[a]? = some j →
      (fh.insert SIZE repr k v).2.pool.objects j = fh.pool.objects j := by
    intro a j ha
    have hak : a ≠ k := by
      rintro rfl
      rw [hnone] at ha
      cases ha
    rw [← (habs'.look_of_some (by rw [hmap a, if_neg hak]; exact ha)).1,
      Function.update_of_ne hak, (habs.look_of_some ha).1]
  refine ⟨i, hpos, hne, hlt, hfresh, ⟨⟨_, by rw [Finset.card_insert_of_notMem hk]; exact habs'⟩,
    fun a => ?_⟩, hobj, hother, hmap⟩
  rw [hmap a]
  by_cases ha : a = k
  · simp [ha]
  · simp [ha, h.tracked a]

/-- `erase` of a key of `S`: it leaves the map, and its element is no longer in use. -/
theorem erase_present {k : Key} {i : ℕ} (hk : fh.map[k]? = some i) :
    (fh.erase SIZE k).1 = true ∧ Tracks SIZE es repr (fh.erase SIZE k).2 (S.erase k) ∧
      (∀ a : Key, (fh.erase SIZE k).2.map[a]? = if a = k then none else fh.map[a]?) ∧
      (fh.erase SIZE k).2.pool.objects = Function.update fh.pool.objects i none ∧
      i ∉ (fh.erase SIZE k).2.pool.alloc.inUse := by
  obtain ⟨look, habs⟩ := h.abs
  have hlook : look k ≠ none := mt habs.look_eq_none.1 (by rw [hk]; exact Option.some_ne_none i)
  obtain ⟨hflag, habs', hmap⟩ := habs.erase_present hrepr hlook
  have hS : k ∈ S := h.mem_of_map hk
  have hobj : (fh.erase SIZE k).2.pool.objects = Function.update fh.pool.objects i none := by
    simp [FixedHash.erase, hk, Pool.remove]
  refine ⟨hflag, ⟨⟨_, by rw [Finset.card_erase_of_mem hS]; exact habs'⟩, fun a => ?_⟩, hmap,
    hobj, fun hiu => ?_⟩
  · rw [hmap a]
    by_cases ha : a = k
    · simp [ha]
    · simp [ha, h.tracked a]
  · -- another key with the element had it before, next to `k`
    obtain ⟨a, ha⟩ := habs'.onto i hiu
    rw [hmap a] at ha
    split at ha
    · cases ha
    · exact ‹¬a = k› (h.inj ha hk)

end Tracks

/-! ### Along a run -/

section Run

variable (hfits : SIZE * es ≤ 2 ^ 32) (hrepr : ∀ v, (repr v).length ≤ es)
include hfits hrepr

/-- Every run from a new `FixedHash` keeps it abstracted by the bounded map's state. -/
theorem absMap_exec (h₀ : fh.Init SIZE es) (calls : List (Request Key T)) :
    AbsMap SIZE es repr (exec (call SIZE repr) fh calls).2 (exec (boundedMap SIZE) ∅ calls).2 :=
  (exec_sim (call SIZE repr) observe (AbsMap SIZE es repr)
    (fun _ _ c h => call_sim hrepr h c) calls fh ∅ (by simpa [AbsMap] using Abs.init hfits h₀)).2

/-- **`values()` along a run.**  After every sequence of calls from a new `FixedHash`,
`values()` visits the value of every key of the bounded map the calls built, each once. -/
theorem values_of_run (h₀ : fh.Init SIZE es) (calls : List (Request Key T)) :
    ((exec (call SIZE repr) fh calls).2.values SIZE).Perm
      ((exec (boundedMap SIZE) ∅ calls).2.entries.map fun e => some e.2) :=
  (absMap_exec hfits hrepr h₀ calls).values_perm

/-- **The storage along a run.**  After every sequence of calls from a new `FixedHash`:
`size()` is the number of keys of `map_`; the index of every key is an element below
`ELEM_POOL_SZ` that no other key has, where `pool_[index]` is the key's value with its bytes
intact; and every element in use is the index of a key. -/
theorem storage_of_run (h₀ : fh.Init SIZE es) (calls : List (Request Key T)) :
    let fh' := (exec (call SIZE repr) fh calls).2
    fh'.size = fh'.map.size ∧
      (∀ (k : Key) (i : ℕ), fh'.map[k]? = some i →
        i < SIZE ∧ (∀ k' : Key, fh'.map[k']? = some i → k' = k) ∧
          ∃ v, fh'.pool.get SIZE i = some v ∧
            Bytes.copyOut fh'.pool.alloc.mem (i * es) (repr v).length = repr v) ∧
      ∀ i ∈ fh'.pool.alloc.inUse, ∃ k : Key, fh'.map[k]? = some i := by
  intro fh'
  have h := absMap_exec hfits hrepr h₀ calls
  refine ⟨h.size.trans h.map_size.symm, fun k i hk => ?_, h.onto⟩
  have hiu := h.inUse k i hk
  obtain ⟨hlt, -, hget⟩ := h.pool.get_eq hiu
  obtain ⟨-, hsome⟩ := h.look_of_some hk
  obtain ⟨v, hv⟩ := Option.isSome_iff_exists.1 hsome
  exact ⟨hlt, fun k' hk' => h.inj k' k i hk' hk, v, hget.trans hv, h.pool.intact i v hv⟩

end Run

/-- The values after two `insert`s in a `FixedHash` of two elements. -/
theorem values_of_run_two_elems :
    ((exec (call 2 fun v : UInt8 => [v]) (new 2 4 fun _ => 0 : FixedHash ℕ UInt8)
        [.insert 1 7, .insert 2 9]).2.values 2).Perm
      ((exec (boundedMap 2) ∅ [.insert 1 7, .insert 2 9]).2.entries.map fun e => some e.2) :=
  values_of_run (by decide : 2 * 4 ≤ 2 ^ 32) (fun _ => by simp)
    (init_new 2 4 _ (by decide) (by decide) (by decide) (by decide)) _

/-- The storage after two `insert`s and an `erase` in a `FixedHash` of two elements. -/
theorem storage_of_run_two_elems :
    let fh' := (exec (call 2 fun v : UInt8 => [v]) (new 2 4 fun _ => 0 : FixedHash ℕ UInt8)
      [.insert 1 7, .insert 2 9, .erase 1]).2
    fh'.size = fh'.map.size ∧
      (∀ (k : ℕ) (i : ℕ), fh'.map[k]? = some i →
        i < 2 ∧ (∀ k' : ℕ, fh'.map[k']? = some i → k' = k) ∧
          ∃ v, fh'.pool.get 2 i = some v ∧
            Bytes.copyOut fh'.pool.alloc.mem (i * 4) [v].length = [v]) ∧
      ∀ i ∈ fh'.pool.alloc.inUse, ∃ k : ℕ, fh'.map[k]? = some i :=
  storage_of_run (by decide) (fun _ => by simp)
    (init_new 2 4 _ (by decide) (by decide) (by decide) (by decide)) _

end FixedHash

end Container

end OtelEbpf
