import Mathlib
import OtelEbpf.Container.FixedHash
import OtelEbpf.Lib.ListRel

/-!
# The least-recently-used cache

`LRU<Key, T, ELEM_POOL_SZ>` (`util/LRU.h`) keeps its entries in a `FixedHash` of `value_type`s
(`OtelEbpf.Container.FixedHash`), each holding its key, a list node and the value, and orders
them by an intrusive `ccan` list `lru_` through the nodes, least recently used first.  The
`ccan` list is outside the sources and is modelled by what its calls do to the list of the
elements whose nodes are on it: `list_add_tail` appends, `list_del` and `list_del_from`
remove, `list_pop` takes the first.  The bytes of the nodes are not modelled: `repr` gives the
bytes an entry's key and value have in its element.

`find` of a key moves its entry to the end of the list.  `insert` on a full cache evicts the
entry at the head of the list first (`evict`), and only then inserts (`place`), which fails if
the key is there.  The eviction erases `entry->key`, a reference to the key in the element it
evicts, and `FixedHash::erase` gives the element back to the pool before it erases the key
from the map: by then `pool_allocator_free` has written the head of the free list over the
element's first four bytes, and the key erased is what `readKey` reads from those bytes
(`FixedHash.eraseAt`).  A call that fails an assertion (`operator[]` of a freed element,
`list_pop` of an empty list) returns `none`.

* `cache` : what the code is for, on Mathlib's `AList` with the most recently used key first:
  a cache of at most `ELEM_POOL_SZ` entries in which `find` makes the key the most recent and
  `insert` on a full cache evicts the least recently used key before it looks for the key;
* `Rel` : the abstraction of an `LRU` to a state of `cache`: its `FixedHash` holds the cache's
  entries, each value stored with its own key, and `lru_` holds their elements from the least
  to the most recently used;
* `refines_cache` : from a new `LRU`, every sequence of `find`, `insert`, `remove`, `contains`
  and `size` calls returns the answers of `cache`, with `lru_` holding each element of the
  `FixedHash` once, when the key read back from an evicted element is still its key
  (`KeepsKey`) or when no `insert` meets a full cache;
* `insert_keeps_evicted` : when the key read back is no key of the cache, the eviction erases
  nothing.  The evicted key stays in the map and names the freed element, which the inserted
  entry takes: `contains` of the evicted key is true and `find` of it returns the new value.
-/

namespace OtelEbpf

namespace Container

open Refinement Assoc Bytes Util

/-- `value_type`: the key and the value of an entry; its `node` is the entry's place in
`lru_`. -/
structure ValueType (Key T : Type*) where
  key : Key
  value : T
  deriving DecidableEq, Repr

/-- The state of an `LRU`. -/
structure LRU (Key T : Type*) [DecidableEq Key] [Hashable Key] where
  /-- `map_` -/
  map : FixedHash Key (ValueType Key T)
  /-- `lru_`: the elements whose nodes are on the list, from the first to the last -/
  lru : List ℕ

namespace LRU

/-- A call on an `LRU`. -/
inductive Request (Key T : Type*)
  | find (key : Key)
  | insert (key : Key) (v : T)
  | remove (key : Key)
  | contains (key : Key)
  | size
  deriving DecidableEq, Repr

/-- What a call returns: the value a `T *` points to, a flag, a count, or nothing. -/
inductive Answer (T : Type*)
  | value (v : Option T)
  | flag (b : Bool)
  | count (n : ℕ)
  | done
  deriving DecidableEq, Repr

variable {Key T : Type*} [DecidableEq Key] [Hashable Key] (SIZE es : ℕ)
  (repr : ValueType Key T → List UInt8) (readKey : List UInt8 → Key)

/-- `full()`. -/
def full (c : LRU Key T) : Bool := c.map.full SIZE

/-- `size()`. -/
def size (c : LRU Key T) : ℕ := c.map.size

/-- `contains(key)`. -/
def contains (c : LRU Key T) (key : Key) : Bool := c.map.contains key

/-- `find(key)`: the value, its node moved to the end of `lru_` (`list_del_from`,
`list_add_tail`); `nullptr` for a key not there.  `none` where `pos.entry` is null: the pool
no longer holds the key's element, and `operator[]` fails its assertion. -/
def find (c : LRU Key T) (key : Key) : Option (Option T × LRU Key T) :=
  let pos := c.map.find SIZE key
  if pos.index = invalid SIZE then some (none, c)
  else pos.entry.map fun e => (some e.value, ⟨c.map, c.lru.erase pos.index ++ [pos.index]⟩)

/-- The eviction of `insert` on a full cache: `list_pop` takes the first node of `lru_`, and
`map_.erase(entry->key)` erases through the reference to the key in its element.  `none` when
`lru_` is empty (`list_pop` returns `NULL`) or `pool_.remove` fails its assertions. -/
def evict (c : LRU Key T) : Option (LRU Key T) :=
  match c.lru with
  | [] => none
  | index :: rest => (c.map.eraseAt SIZE es readKey index).map fun r => ⟨r.2, rest⟩

/-- The rest of `insert`: `map_.insert`, then `list_add_tail` of the new node; `nullptr` if
the key is there. -/
def place (c : LRU Key T) (key : Key) (v : T) : Option T × LRU Key T :=
  let pos := c.map.insert SIZE repr key ⟨key, v⟩
  if pos.1.index = invalid SIZE then (none, ⟨pos.2, c.lru⟩)
  else (pos.1.entry.map ValueType.value, ⟨pos.2, c.lru ++ [pos.1.index]⟩)

/-- `insert(key, v)`: a full cache evicts an entry, then the value is placed. -/
def insert (c : LRU Key T) (key : Key) (v : T) : Option (Option T × LRU Key T) :=
  (if c.full SIZE then c.evict SIZE es readKey else some c).map fun c => c.place SIZE repr key v

/-- `remove(key)`: the entry's node leaves `lru_` (`list_del`) and its key the map; `none`
where `pos.entry` is null. -/
def remove (c : LRU Key T) (key : Key) : Option (LRU Key T) :=
  let pos := c.map.find SIZE key
  if pos.index = invalid SIZE then some c
  else pos.entry.map fun _ => ⟨(c.map.erase SIZE key).2, c.lru.erase pos.index⟩

/-- A new `LRU`: a new `FixedHash` and `list_head_init(&lru_)`. -/
def Init (c : LRU Key T) : Prop := c.map.Init SIZE es ∧ c.lru = []

/-- `LRU()` over the storage `mem` of its pool. -/
def new (mem : ℕ → UInt8) : LRU Key T := ⟨FixedHash.new SIZE es mem, []⟩

theorem init_new (mem : ℕ → UInt8) (hpos : 0 < SIZE) (hSIZE : SIZE < 2 ^ 32) (hes : 4 ≤ es)
    (hes' : es < 2 ^ 32) : (new SIZE es mem : LRU Key T).Init SIZE es :=
  ⟨FixedHash.init_new SIZE es mem hpos hSIZE hes hes', rfl⟩

/-- The answer to a call and the `LRU` after it; `none` where the call fails an assertion. -/
def call (c : LRU Key T) : Request Key T → Option (Answer T × LRU Key T)
  | .find key => (c.find SIZE key).map fun r => (.value r.1, r.2)
  | .insert key v => (c.insert SIZE es repr readKey key v).map fun r => (.value r.1, r.2)
  | .remove key => (c.remove SIZE key).map fun c => (.done, c)
  | .contains key => some (.flag (c.contains key), c)
  | .size => some (.count c.size, c)

/-! ### The cache -/

/-- The least recently used key, the last, leaves the cache. -/
def evictLast (A : AList fun _ : Key => T) : AList fun _ : Key => T :=
  match A.keys.getLast? with
  | none => A
  | some k => A.erase k

/-- The cache an `LRU` is for, the most recently used key first: `find` of a key makes it the
most recent, `insert` on a cache of `SIZE` entries evicts the least recent one and then adds
the key if it is not there. -/
def cache (A : AList fun _ : Key => T) : Request Key T → Answer T × AList fun _ : Key => T
  | .find key =>
    match A.lookup key with
    | none => (.value none, A)
    | some v => (.value (some v), A.insert key v)
  | .insert key v =>
    let A := if A.keys.length = SIZE then evictLast A else A
    if key ∈ A.keys then (.value none, A) else (.value (some v), A.insert key v)
  | .remove key => (.done, A.erase key)
  | .contains key => (.flag (decide (key ∈ A.keys)), A)
  | .size => (.count A.keys.length, A)

/-- Whether a call evicts nothing: it is not an `insert` into a full cache. -/
def roomy (A : AList fun _ : Key => T) : Request Key T → Bool
  | .insert _ _ => A.keys.length != SIZE
  | _ => true

/-! ### The abstraction -/

/-- The `value_type` the `FixedHash` holds for a key of the cache: the value with its key. -/
def entryOf (A : AList fun _ : Key => T) (k : Key) : Option (ValueType Key T) :=
  (A.lookup k).map (ValueType.mk k)

/-- An `LRU` holds the cache `A`: its `FixedHash` holds `A`'s entries, each value with its own
key, and `lru_` holds their elements from the least to the most recently used. -/
structure Rel (c : LRU Key T) (A : AList fun _ : Key => T) : Prop where
  map : FixedHash.Abs SIZE es repr c.map (entryOf A) A.keys.length
  lru : List.Forall₂ (fun i k => c.map.map[k]? = some i) c.lru A.keys.reverse

variable {SIZE es repr} {A : AList fun _ : Key => T} {k : Key}

section EntryOf

omit [Hashable Key]

theorem entryOf_insert (v : T) :
    entryOf (A.insert k v) = Function.update (entryOf A) k (some ⟨k, v⟩) := by
  funext a
  have h := congrFun (lookup_insert_eq (A := A) (k := k) v) a
  by_cases hak : a = k
  · subst hak
    simp [entryOf, h]
  · simp only [entryOf, h, Function.update_of_ne hak]

theorem entryOf_erase : entryOf (A.erase k) = Function.update (entryOf A) k none := by
  funext a
  have h := congrFun (lookup_erase_eq (A := A) (k := k)) a
  by_cases hak : a = k
  · subst hak
    simp [entryOf, h]
  · simp only [entryOf, h, Function.update_of_ne hak]

theorem entryOf_eq_none : entryOf A k = none ↔ k ∉ A.keys := by
  rw [entryOf, Option.map_eq_none_iff, lookup_eq_none_iff]

end EntryOf

section Cache

omit [Hashable Key]

theorem evictLast_eq (hl : A.keys.getLast? = some k) : evictLast A = A.erase k := by
  simp [evictLast, hl]

theorem mem_keys_of_mem_evictLast {a : Key} (ha : a ∈ (evictLast A).keys) : a ∈ A.keys := by
  unfold evictLast at ha
  split at ha
  · exact ha
  · rw [AList.keys_erase] at ha
    exact List.mem_of_mem_erase ha

/-- `insert` of a key the cache lacks adds it, after the eviction of a full cache. -/
theorem cache_insert_fresh (hk : k ∉ A.keys) (v : T) :
    cache SIZE A (.insert k v) =
      (.value (some v), (if A.keys.length = SIZE then evictLast A else A).insert k v) := by
  have hk' : k ∉ (if A.keys.length = SIZE then evictLast A else A).keys := by
    split
    · exact fun h => hk (mem_keys_of_mem_evictLast h)
    · exact hk
  show (if k ∈ (if A.keys.length = SIZE then evictLast A else A).keys then _ else _) = _
  rw [if_neg hk']

end Cache

variable {c : LRU Key T}

namespace Rel

theorem size_pos (h : Rel SIZE es repr c A) : 0 < SIZE := h.map.pool.size_pos

theorem full_iff (h : Rel SIZE es repr c A) : c.full SIZE = true ↔ A.keys.length = SIZE :=
  h.map.full_iff

theorem contains_eq (h : Rel SIZE es repr c A) (k : Key) : c.contains k = decide (k ∈ A.keys) := by
  rw [contains, h.map.contains_eq, Bool.eq_iff_iff, decide_eq_true_iff, Option.isSome_iff_ne_none,
    Ne, entryOf_eq_none, not_not]

theorem size_eq (h : Rel SIZE es repr c A) : c.size = A.keys.length := h.map.size

/-- A key of the cache has an element. -/
theorem index_of_mem (h : Rel SIZE es repr c A) (hk : k ∈ A.keys) :
    ∃ i, c.map.map[k]? = some i :=
  Option.ne_none_iff_exists'.1 (mt h.map.look_eq_none.2 (mt entryOf_eq_none.1 (not_not.2 hk)))

/-- A key not in the cache has no element. -/
theorem index_of_not_mem (h : Rel SIZE es repr c A) (hk : k ∉ A.keys) : c.map.map[k]? = none :=
  h.map.look_eq_none.1 (entryOf_eq_none.2 hk)

theorem lt_invalid (h : Rel SIZE es repr c A) {i : ℕ} (hi : c.map.map[k]? = some i) :
    i ≠ invalid SIZE :=
  Nat.ne_of_lt (Container.lt_invalid h.map.pool.size_le_two_pow_30
    (h.map.pool.lt_of_mem (h.map.inUse k i hi)))

/-- `lru_` holds no node twice. -/
theorem nodup (h : Rel SIZE es repr c A) : c.lru.Nodup :=
  ListRel.nodup_left h.lru (fun i k k' hk hk' => h.map.inj k k' i hk hk')
    (List.nodup_reverse.2 A.keys_nodup)

/-- `lru_` holds exactly the elements of the `FixedHash`. -/
theorem mem_lru (h : Rel SIZE es repr c A) (i : ℕ) : i ∈ c.lru ↔ i ∈ c.map.pool.alloc.inUse := by
  constructor
  · intro hi
    obtain ⟨k, -, hk⟩ := ListRel.mem_left h.lru hi
    exact h.map.inUse k i hk
  · intro hi
    obtain ⟨k, hk⟩ := h.map.onto i hi
    -- the key of an element in use is a key of the cache
    have hmem : k ∈ A.keys := by
      by_contra hnot
      rw [h.index_of_not_mem hnot] at hk
      cases hk
    obtain ⟨j, hj, hjk⟩ := ListRel.mem_right h.lru (List.mem_reverse.2 hmem)
    rw [hk] at hjk
    rwa [← Option.some.inj hjk] at hj

/-- The value the `FixedHash` stores for a key of the cache carries that key. -/
theorem object_of_index (h : Rel SIZE es repr c A) {i : ℕ} {v : T} (hi : c.map.map[k]? = some i)
    (hv : A.lookup k = some v) : c.map.pool.objects i = some ⟨k, v⟩ := by
  rw [← (h.map.look_of_some hi).1, entryOf, hv]
  rfl

/-- A full cache is not empty: it has a least recently used key. -/
theorem getLast_of_full (h : Rel SIZE es repr c A) (hfull : A.keys.length = SIZE) :
    ∃ k₀, A.keys.getLast? = some k₀ := by
  have hpos := h.size_pos
  refine Option.ne_none_iff_exists'.1 ?_
  rw [Ne, List.getLast?_eq_none_iff, ← List.length_eq_zero_iff]
  omega

/-- The first node of `lru_` is the element of the least recently used key. -/
theorem lru_head (h : Rel SIZE es repr c A) (hl : A.keys.getLast? = some k) :
    ∃ i rest, c.map.map[k]? = some i ∧ c.lru = i :: rest := by
  have hhead : A.keys.reverse.head? = some k := by rw [List.head?_reverse]; exact hl
  obtain ⟨ks, hks⟩ := List.head?_eq_some_iff.1 hhead
  have hlru := h.lru
  rw [hks] at hlru
  obtain ⟨i, rest, hi, -, hc⟩ := List.forall₂_cons_right_iff.1 hlru
  exact ⟨i, rest, hi, hc⟩

/-- Removing a key's node from `lru_` and the key from the cache keep the lists related. -/
theorem lru_erase (h : Rel SIZE es repr c A) {i : ℕ} (hi : c.map.map[k]? = some i) :
    List.Forall₂ (fun i k => c.map.map[k]? = some i) (c.lru.erase i) (A.keys.erase k).reverse := by
  rw [h.nodup.erase_eq_filter, A.keys_nodup.erase_eq_filter, ← List.filter_reverse]
  refine ListRel.filter_ne h.lru fun x y hxy => ⟨fun hx => ?_, fun hy => ?_⟩
  · subst hx
    exact h.map.inj y k x hxy hi
  · subst hy
    rw [hi] at hxy
    exact (Option.some.inj hxy).symm

/-- `find` of a key of the cache returns its value and moves its node to the end of `lru_`;
the key becomes the most recently used. -/
theorem find_present (h : Rel SIZE es repr c A) {v : T} (hv : A.lookup k = some v) :
    ∃ c', c.find SIZE k = some (some v, c') ∧ Rel SIZE es repr c' (A.insert k v) := by
  have hk : k ∈ A.keys := lookup_ne_none_iff.1 (by rw [hv]; exact Option.some_ne_none v)
  obtain ⟨i, hi⟩ := h.index_of_mem hk
  have hfind : c.map.find SIZE k = ⟨i, some ⟨k, v⟩⟩ := by
    rw [h.map.find k, hi]
    simp [entryOf, hv]
  refine ⟨⟨c.map, c.lru.erase i ++ [i]⟩, by simp [LRU.find, hfind, h.lt_invalid hi], ?_, ?_⟩
  · -- the entries and their number are those of the cache
    have hsame : entryOf (A.insert k v) = entryOf A := by
      rw [entryOf_insert, Function.update_eq_self_iff]
      simp [entryOf, hv]
    have hlen : (A.insert k v).keys.length = A.keys.length := by
      rw [AList.keys_insert, List.length_cons, List.length_erase_of_mem hk]
      exact Nat.succ_pred_eq_of_pos (List.length_pos_of_mem hk)
    rw [hsame, hlen]
    exact h.map
  · rw [AList.keys_insert, List.reverse_cons]
    exact List.rel_append (h.lru_erase hi) (List.Forall₂.cons hi List.Forall₂.nil)

/-- `find` of a key not in the cache changes nothing. -/
theorem find_absent (h : Rel SIZE es repr c A) (hk : k ∉ A.keys) :
    c.find SIZE k = some (none, c) := by
  have hfind : c.map.find SIZE k = ⟨invalid SIZE, none⟩ := by
    rw [h.map.find k, h.index_of_not_mem hk]
  simp [LRU.find, hfind]

/-- `place` of a key of the cache fails and changes no lookup: the cache stays as it is. -/
theorem place_present (h : Rel SIZE es repr c A) (hk : k ∈ A.keys) (v : T) :
    (c.place SIZE repr k v).1 = none ∧ Rel SIZE es repr (c.place SIZE repr k v).2 A := by
  obtain ⟨hpos, habs, hmap⟩ :=
    h.map.insert_present (v := ⟨k, v⟩) (mt entryOf_eq_none.1 (not_not.2 hk))
  have he : c.place SIZE repr k v = (none, ⟨(c.map.insert SIZE repr k ⟨k, v⟩).2, c.lru⟩) := by
    simp [LRU.place, hpos]
  rw [he]
  refine ⟨rfl, habs, h.lru.imp fun x y hxy => ?_⟩
  show (c.map.insert SIZE repr k ⟨k, v⟩).2.map[y]? = some x
  rw [hmap]
  exact hxy

/-- `remove` of a key not in the cache changes nothing. -/
theorem remove_absent (h : Rel SIZE es repr c A) (hk : k ∉ A.keys) :
    c.remove SIZE k = some c ∧ Rel SIZE es repr c (A.erase k) := by
  have hfind : c.map.find SIZE k = ⟨invalid SIZE, none⟩ := by
    rw [h.map.find k, h.index_of_not_mem hk]
  refine ⟨by simp [LRU.remove, hfind], ?_⟩
  rw [erase_of_not_mem hk]
  exact h

section Calls

variable (hrepr : ∀ v, (repr v).length ≤ es)
include hrepr

/-- The element of a key leaves the `FixedHash` and its node `lru_`, and the key leaves the
cache. -/
theorem erase (h : Rel SIZE es repr c A) {i : ℕ} (hi : c.map.map[k]? = some i) :
    (c.map.erase SIZE k).1 = true ∧
      Rel SIZE es repr ⟨(c.map.erase SIZE k).2, c.lru.erase i⟩ (A.erase k) := by
  have hk : k ∈ A.keys := by
    by_contra hnot
    rw [h.index_of_not_mem hnot] at hi
    cases hi
  obtain ⟨hflag, habs, hmap⟩ := h.map.erase_present hrepr (mt entryOf_eq_none.1 (not_not.2 hk))
  refine ⟨hflag, ⟨?_, ?_⟩⟩
  · rw [entryOf_erase, length_keys_erase hk]
    exact habs
  · -- the other keys keep their elements
    rw [AList.keys_erase]
    refine ListRel.imp_of_mem (h.lru_erase hi) fun x y hy hxy => ?_
    have hyk : y ≠ k := fun hyk => A.keys_nodup.not_mem_erase (hyk ▸ List.mem_reverse.1 hy)
    show (c.map.erase SIZE k).2.map[y]? = some x
    rw [hmap, if_neg hyk]
    exact hxy

/-- `place` of a new key in a cache with room stores it and puts its node at the end of
`lru_`: the key becomes the most recently used. -/
theorem place_fresh (h : Rel SIZE es repr c A) (hk : k ∉ A.keys) (hroom : A.keys.length ≠ SIZE)
    (v : T) :
    (c.place SIZE repr k v).1 = some v ∧
      Rel SIZE es repr (c.place SIZE repr k v).2 (A.insert k v) := by
  have hfull : c.map.full SIZE = false := Bool.eq_false_iff.2 fun hf => hroom (h.full_iff.1 hf)
  obtain ⟨i, hpos, hne, habs, hmap⟩ :=
    h.map.insert_fresh hrepr (v := ⟨k, v⟩) (entryOf_eq_none.2 hk) hfull
  have he : c.place SIZE repr k v =
      (some v, ⟨(c.map.insert SIZE repr k ⟨k, v⟩).2, c.lru ++ [i]⟩) := by
    simp [LRU.place, hpos, hne]
  rw [he]
  refine ⟨rfl, ⟨?_, ?_⟩⟩
  · rw [entryOf_insert, length_keys_insert hk]
    exact habs
  · rw [AList.keys_insert, List.erase_of_not_mem hk, List.reverse_cons]
    refine List.rel_append (ListRel.imp_of_mem h.lru fun x y hy hxy => ?_)
      (List.Forall₂.cons ?_ List.Forall₂.nil)
    · -- the keys already there keep their elements
      have hyk : y ≠ k := fun hyk => hk (hyk ▸ List.mem_reverse.1 hy)
      show (c.map.insert SIZE repr k ⟨k, v⟩).2.map[y]? = some x
      rw [hmap, if_neg hyk]
      exact hxy
    · show (c.map.insert SIZE repr k ⟨k, v⟩).2.map[k]? = some i
      rw [hmap, if_pos rfl]

/-- `remove` of a key of the cache erases it from the map and its node from `lru_`. -/
theorem remove_present (h : Rel SIZE es repr c A) (hk : k ∈ A.keys) :
    ∃ c', c.remove SIZE k = some c' ∧ Rel SIZE es repr c' (A.erase k) := by
  obtain ⟨i, hi⟩ := h.index_of_mem hk
  obtain ⟨v, hv⟩ := Option.ne_none_iff_exists'.1 (lookup_ne_none_iff.2 hk)
  have hfind : c.map.find SIZE k = ⟨i, some ⟨k, v⟩⟩ := by
    rw [h.map.find k, hi]
    simp [entryOf, hv]
  refine ⟨⟨(c.map.erase SIZE k).2, c.lru.erase i⟩, ?_, (h.erase hrepr hi).2⟩
  simp [LRU.remove, hfind, h.lt_invalid hi]

/-- `insert` of a new key into a cache with room evicts nothing and places the key. -/
theorem insert_of_room (h : Rel SIZE es repr c A) (hk : k ∉ A.keys) (hroom : A.keys.length ≠ SIZE)
    (v : T) :
    ∃ c', c.insert SIZE es repr readKey k v = some (some v, c') ∧ Rel SIZE es repr c' (A.insert k v) := by
  have hfull : c.full SIZE = false := Bool.eq_false_iff.2 fun hf => hroom (h.full_iff.1 hf)
  obtain ⟨hval, hrel⟩ := h.place_fresh hrepr hk hroom v
  refine ⟨(c.place SIZE repr k v).2, ?_, hrel⟩
  simp only [LRU.insert, hfull, Bool.false_eq_true, if_false, Option.map_some, Option.some.injEq]
  exact Prod.ext hval rfl

/-- What `readKey` reads from the element of a key of the cache: the bytes of the key's entry
and, once `pool_allocator_free` has freed the element, the head of the free list over their
first four bytes. -/
theorem keyAt_of_index (h : Rel SIZE es repr c A) {i : ℕ} {v : T} (hi : c.map.map[k]? = some i)
    (hv : A.lookup k = some v) :
    ∃ xs, FixedHash.keyAt es c.map.pool readKey i = readKey (repr ⟨k, v⟩ ++ xs) ∧
      FixedHash.keyAt es (c.map.pool.remove SIZE i) readKey i =
        readKey (leBytes 4 c.map.pool.alloc.map.freeList.toNat ++ (repr ⟨k, v⟩ ++ xs).drop 4) := by
  obtain ⟨xs, hxs⟩ := h.map.pool.bytes_of_object hrepr (h.object_of_index hi hv)
  refine ⟨xs, ?_, ?_⟩
  · rw [FixedHash.keyAt, hxs]
  · rw [FixedHash.keyAt, h.map.pool.remove_bytes (h.map.inUse k i hi), hxs]

end Calls

end Rel

/-! ### The eviction -/

/-- The keys survive the eviction's read: `readKey` reads an entry's key out of the bytes of its
element, and still reads it once `pool_allocator_free` has written a link over the first four
of them.  A key stored past the first four bytes of its element is such a key. -/
structure KeepsKey (repr : ValueType Key T → List UInt8) (readKey : List UInt8 → Key) : Prop where
  reads : ∀ e xs, readKey (repr e ++ xs) = e.key
  keeps : ∀ e xs link, readKey (leBytes 4 link ++ (repr e ++ xs).drop 4) = e.key

/-- An entry of a `u32` key and a byte value, laid out as the key's four little-endian bytes and
then the value: the key begins its element, as an `IPv6Address` does in a `DnsCache`. -/
def u32Entry (e : ValueType UInt32 UInt8) : List UInt8 := leBytes 4 e.key.toNat ++ [e.value]

/-- The `u32` that a reference to the key at the start of an element reads. -/
def u32Key (l : List UInt8) : UInt32 := UInt32.ofNat (leValue (l.take 4))

theorem u32Key_leBytes (n : ℕ) (ys : List UInt8) : u32Key (leBytes 4 n ++ ys) = UInt32.ofNat n := by
  rw [u32Key, List.take_left' (length_leBytes 4 n), leValue_leBytes,
    show (256 : ℕ) ^ 4 = 2 ^ 32 by norm_num, UInt32.ofNat_mod_size]

/-- An entry of a byte key and a byte value stored after four bytes of padding, the bytes the
free-list link takes. -/
def paddedEntry (e : ValueType UInt8 UInt8) : List UInt8 := [0, 0, 0, 0, e.key, e.value]

/-- The byte key that a reference past the padding reads. -/
def paddedKey (l : List UInt8) : UInt8 := (l.drop 4).headD 0

theorem keepsKey_padded : KeepsKey paddedEntry paddedKey where
  reads _ _ := rfl
  keeps e xs link := by
    rw [paddedKey, List.drop_left' (length_leBytes 4 link)]
    rfl

namespace Rel

variable (hrepr : ∀ v, (repr v).length ≤ es)
include hrepr

/-- The eviction of a full cache takes the first node of `lru_`, whose entry is the least
recently used key's; when the key survives the read, it erases that key. -/
theorem evict (hkeys : KeepsKey repr readKey) (h : Rel SIZE es repr c A)
    (hl : A.keys.getLast? = some k) :
    ∃ c', c.evict SIZE es readKey = some c' ∧ Rel SIZE es repr c' (A.erase k) := by
  obtain ⟨i, rest, hi, hc⟩ := h.lru_head hl
  obtain ⟨v, hv⟩ := Option.ne_none_iff_exists'.1 (lookup_ne_none_iff.2 (List.mem_of_getLast? hl))
  obtain ⟨xs, hkey, hback⟩ := h.keyAt_of_index readKey hrepr hi hv
  have herase : c.map.eraseAt SIZE es readKey i = some (c.map.erase SIZE k) :=
    h.map.eraseAt_eq_erase hi (hkey.trans (hkeys.reads _ xs)) (hback.trans (hkeys.keeps _ xs _))
  refine ⟨⟨(c.map.erase SIZE k).2, c.lru.erase i⟩, ?_, (h.erase hrepr hi).2⟩
  simp [LRU.evict, hc, herase]

/-- Before an `insert`, a full cache whose keys survive the read evicts its least recently used
key, and a cache with room evicts nothing: what is left has room. -/
theorem evict_if (h : Rel SIZE es repr c A) (hev : KeepsKey repr readKey ∨ A.keys.length ≠ SIZE) :
    ∃ c₁, (if c.full SIZE then c.evict SIZE es readKey else some c) = some c₁ ∧
      Rel SIZE es repr c₁ (if A.keys.length = SIZE then evictLast A else A) ∧
      (if A.keys.length = SIZE then evictLast A else A).keys.length ≠ SIZE := by
  by_cases hfull : A.keys.length = SIZE
  · have hkeys := hev.resolve_right (not_not.2 hfull)
    obtain ⟨k₀, hl⟩ := h.getLast_of_full hfull
    obtain ⟨c₁, he, hrel⟩ := h.evict readKey hrepr hkeys hl
    rw [if_pos (h.full_iff.2 hfull), if_pos hfull, evictLast_eq hl]
    refine ⟨c₁, he, hrel, ?_⟩
    -- the least recently used key was there, and has gone
    have hpos := h.size_pos
    rw [length_keys_erase (List.mem_of_getLast? hl)]
    omega
  · rw [if_neg (mt h.full_iff.1 hfull), if_neg hfull]
    exact ⟨c, rfl, h, hfull⟩

end Rel

/-! ### The refinement -/

/-- A new `LRU` holds the empty cache. -/
theorem Rel.init (hfits : SIZE * es ≤ 2 ^ 32) (h₀ : c.Init SIZE es) : Rel SIZE es repr c ∅ := by
  have hnone : entryOf (∅ : AList fun _ : Key => T) = fun _ => none := by
    funext k
    simp [entryOf]
  refine ⟨?_, ?_⟩
  · rw [hnone, AList.keys_empty, List.length_nil]
    exact FixedHash.Abs.init hfits h₀.1
  · rw [h₀.2, AList.keys_empty, List.reverse_nil]
    exact List.Forall₂.nil

section Refines

variable (hrepr : ∀ v, (repr v).length ≤ es)
include hrepr

/-- One call that evicts nothing, or evicts a key that survives the read: the `LRU` returns the
cache's answer and the abstraction holds after it. -/
theorem call_sim (h : Rel SIZE es repr c A) (r : Request Key T)
    (hev : KeepsKey repr readKey ∨ roomy SIZE A r = true) :
    ∃ a c', c.call SIZE es repr readKey r = some (a, c') ∧ a = (cache SIZE A r).1 ∧
      Rel SIZE es repr c' (cache SIZE A r).2 := by
  cases r with
  | find key =>
    cases hv : A.lookup key with
    | none =>
      have he := h.find_absent (lookup_eq_none_iff.1 hv)
      have hspec : cache SIZE A (.find key) = (.value none, A) := by simp only [cache, hv]
      rw [hspec]
      exact ⟨_, _, by simp only [call, he, Option.map_some], rfl, h⟩
    | some v =>
      obtain ⟨c', he, hrel⟩ := h.find_present hv
      have hspec : cache SIZE A (.find key) = (.value (some v), A.insert key v) := by
        simp only [cache, hv]
      rw [hspec]
      exact ⟨_, _, by simp only [call, he, Option.map_some], rfl, hrel⟩
  | insert key v =>
    -- a full cache evicts first; the key is then looked for in what is left
    have hev' : KeepsKey repr readKey ∨ A.keys.length ≠ SIZE :=
      hev.imp_right fun hr => by simpa [roomy] using hr
    obtain ⟨c₁, he₁, hrel, hroom⟩ := h.evict_if readKey hrepr hev'
    have hins : c.call SIZE es repr readKey (.insert key v) =
        some (.value (c₁.place SIZE repr key v).1, (c₁.place SIZE repr key v).2) := by
      simp only [call, insert, he₁, Option.map_some]
    have hspec : cache SIZE A (.insert key v) =
        let A₁ := if A.keys.length = SIZE then evictLast A else A
        if key ∈ A₁.keys then (.value none, A₁) else (.value (some v), A₁.insert key v) := rfl
    simp only [hins, hspec]
    by_cases hk : key ∈ (if A.keys.length = SIZE then evictLast A else A).keys
    · obtain ⟨hval, hrel'⟩ := hrel.place_present hk v
      rw [if_pos hk, hval]
      exact ⟨_, _, rfl, rfl, hrel'⟩
    · obtain ⟨hval, hrel'⟩ := hrel.place_fresh hrepr hk hroom v
      rw [if_neg hk, hval]
      exact ⟨_, _, rfl, rfl, hrel'⟩
  | remove key =>
    by_cases hk : key ∈ A.keys
    · obtain ⟨c', he, hrel⟩ := h.remove_present hrepr hk
      exact ⟨.done, _, by simp only [call, he, Option.map_some], rfl, hrel⟩
    · obtain ⟨he, hrel⟩ := h.remove_absent hk
      exact ⟨.done, _, by simp only [call, he, Option.map_some], rfl, hrel⟩
  | contains key => exact ⟨_, _, rfl, congrArg Answer.flag (h.contains_eq key), h⟩
  | size => exact ⟨_, _, rfl, congrArg Answer.count h.size_eq, h⟩

/-- Every sequence of calls that `allowed` lets through, each evicting nothing or evicting a key
that survives the read, returns from a new `LRU` the cache's answers, and the `LRU` it ends in
holds the cache's state. -/
theorem rel_execOpt (allowed : (AList fun _ : Key => T) → Request Key T → Bool)
    (hallowed : ∀ A r, allowed A r = true → KeepsKey repr readKey ∨ roomy SIZE A r = true)
    (hfits : SIZE * es ≤ 2 ^ 32) (h₀ : c.Init SIZE es) (calls : List (Request Key T))
    (hall : allowedAll allowed (cache SIZE) ∅ calls = true) :
    ∃ as c', execOpt (call SIZE es repr readKey) c calls = some (as, c') ∧
      as = (exec (cache SIZE) ∅ calls).1 ∧ Rel SIZE es repr c' (exec (cache SIZE) ∅ calls).2 := by
  obtain ⟨as, c', he, has, hrel⟩ := execOpt_sim id (Rel SIZE es repr) allowed
    (fun _ _ r hr h => call_sim readKey hrepr h r (hallowed _ r hr)) calls c ∅ hall
    (Rel.init hfits h₀)
  exact ⟨as, c', he, by rw [← has, List.map_id], hrel⟩

/-- **`LRU` implements the cache, as long as it evicts no key that the read loses.**  From a new
`LRU` over a pool of at most `2 ^ 32` bytes, whose entries fit in an element, every sequence of
`find`, `insert`, `remove`, `contains` and `size` calls returns, with the answers of `cache`,
when the keys survive the eviction's read or when no `insert` of the sequence meets a full
cache; after the calls `lru_` holds the element of every entry of the `FixedHash` and nothing
else, each once. -/
theorem refines_cache (hfits : SIZE * es ≤ 2 ^ 32) (h₀ : c.Init SIZE es)
    (calls : List (Request Key T))
    (hev : KeepsKey repr readKey ∨ allowedAll (roomy SIZE) (cache SIZE) ∅ calls = true) :
    ∃ as c', execOpt (call SIZE es repr readKey) c calls = some (as, c') ∧
      as = (exec (cache SIZE) ∅ calls).1 ∧
      c'.lru.Nodup ∧ ∀ i, i ∈ c'.lru ↔ i ∈ c'.map.pool.alloc.inUse := by
  obtain ⟨as, c', he, has, hrel⟩ : ∃ as c', execOpt (call SIZE es repr readKey) c calls =
      some (as, c') ∧ as = (exec (cache SIZE) ∅ calls).1 ∧
        Rel SIZE es repr c' (exec (cache SIZE) ∅ calls).2 := by
    rcases hev with hkeys | hroom
    · exact rel_execOpt readKey hrepr (fun _ _ => true) (fun _ _ _ => .inl hkeys) hfits h₀ calls
        (allowedAll_of_forall _ (fun _ _ => rfl) _ _)
    · exact rel_execOpt readKey hrepr (roomy SIZE) (fun _ _ hr => .inr hr) hfits h₀ calls hroom
  exact ⟨as, c', he, has, hrel.nodup, hrel.mem_lru⟩

end Refines

/-- Two runs on a cache of two entries: one of `u32` keys, which the eviction's read loses, that
never inserts into a full cache, and one of keys stored past the link, whose third `insert`
evicts key `2`, as `find` made `1` the more recent. -/
theorem refines_cache_two_entries :
    (∃ as c', execOpt (call 2 8 u32Entry u32Key) (new 2 8 fun _ => 0)
        [.insert 1 7, .insert 2 9, .find 1, .remove 2, .insert 3 5, .find 3] = some (as, c') ∧
      as = (exec (cache 2) ∅ [.insert 1 7, .insert 2 9, .find 1, .remove 2, .insert 3 5,
        .find 3]).1 ∧
      c'.lru.Nodup ∧ ∀ i, i ∈ c'.lru ↔ i ∈ c'.map.pool.alloc.inUse) ∧
    (∃ as c', execOpt (call 2 8 paddedEntry paddedKey) (new 2 8 fun _ => 0)
        [.insert 1 7, .insert 2 9, .find 1, .insert 3 5, .find 2, .find 1] = some (as, c') ∧
      as = (exec (cache 2) ∅ [.insert 1 7, .insert 2 9, .find 1, .insert 3 5, .find 2,
        .find 1]).1 ∧
      c'.lru.Nodup ∧ ∀ i, i ∈ c'.lru ↔ i ∈ c'.map.pool.alloc.inUse) :=
  ⟨refines_cache u32Key (fun _ => by simp [u32Entry]) (by decide)
      (init_new 2 8 _ (by decide) (by decide) (by decide) (by decide)) _ (.inr (by decide)),
    refines_cache paddedKey (fun _ => by simp [paddedEntry]) (by decide)
      (init_new 2 8 _ (by decide) (by decide) (by decide) (by decide)) _ (.inl keepsKey_padded)⟩

/-- **The evicted key stays in the map.**  On a full `LRU` that holds the cache `A`, whose least
recently used key is `k₀` with the value `v₀`, let the key read back from `k₀`'s element, once
`pool_allocator_free` has written the end-of-list link `~0` over its first four bytes, be no key
of the cache.  Then `insert` of a new key `k` erases nothing: the cache has evicted `k₀`, but
the map still names `k₀`'s freed element, which the new entry takes, so `contains(k₀)` is true
and `find(k₀)` returns the new value. -/
theorem insert_keeps_evicted (hrepr : ∀ v, (repr v).length ≤ es) (h : Rel SIZE es repr c A) (hfull : c.full SIZE = true)
    {k₀ : Key} (hl : A.keys.getLast? = some k₀) {v₀ : T} (hv₀ : A.lookup k₀ = some v₀)
    (hreads : ∀ xs, readKey (repr ⟨k₀, v₀⟩ ++ xs) = k₀)
    (hstale : ∀ xs, readKey (leBytes 4 (2 ^ 32 - 1) ++ (repr ⟨k₀, v₀⟩ ++ xs).drop 4) ∉ A.keys)
    (hk : k ∉ A.keys) (v : T) :
    k₀ ∉ (cache SIZE A (.insert k v)).2.keys ∧
      ∃ c', c.insert SIZE es repr readKey k v = some (some v, c') ∧ c'.contains k₀ = true ∧
        (c'.find SIZE k₀).map Prod.fst = some (some v) := by
  obtain ⟨i, rest, hi, hc⟩ := h.lru_head hl
  obtain ⟨xs, hkey, hback⟩ := h.keyAt_of_index readKey hrepr hi hv₀
  have hk₀k : k₀ ≠ k := fun he => hk (he ▸ List.mem_of_getLast? hl)
  -- a full pool has no free element: the link written over the key ends the free list
  have hnull : c.map.pool.alloc.map.freeList.toNat = 2 ^ 32 - 1 := by
    rw [h.map.pool.freeList_of_full hfull, toNat_null]
  obtain ⟨k', hk'⟩ : ∃ k', FixedHash.keyAt es (c.map.pool.remove SIZE i) readKey i = k' := ⟨_, rfl⟩
  have hk'A : k' ∉ A.keys := by
    rw [← hk', hback, hnull]
    exact hstale xs
  -- so the erase finds nothing to erase
  have hm : ∀ a : Key, (c.map.map.erase k')[a]? = c.map.map[a]? := by
    intro a
    rw [Std.HashMap.getElem?_erase]
    by_cases hka : k' = a
    · subst hka
      simp [h.index_of_not_mem hk'A]
    · simp [hka]
  have hevict : c.evict SIZE es readKey =
      some ⟨⟨c.map.map.erase k', c.map.pool.remove SIZE i⟩, rest⟩ := by
    simp [LRU.evict, hc, h.map.eraseAt_of_key hi (hkey.trans (hreads xs)), hk']
  -- the new entry takes the freed element, which `k₀` still names
  have hknone : (c.map.map.erase k')[k]? = none := by
    rw [hm]
    exact h.index_of_not_mem hk
  obtain ⟨hpos, hmap, hget⟩ :=
    FixedHash.insert_of_removed hrepr h.map.pool (h.map.inUse k₀ i hi) hknone ⟨k, v⟩
  obtain ⟨fh, hfh⟩ : ∃ fh, (⟨c.map.map.erase k', c.map.pool.remove SIZE i⟩ :
      FixedHash Key (ValueType Key T)).insert SIZE repr k ⟨k, v⟩ = (⟨i, some ⟨k, v⟩⟩, fh) :=
    ⟨_, Prod.ext hpos rfl⟩
  rw [hfh] at hmap hget
  have hne := h.lt_invalid hi
  have hstaleIdx : fh.map[k₀]? = some i := by rw [hmap, if_neg hk₀k, hm, hi]
  refine ⟨?_, ⟨fh, rest ++ [i]⟩, ?_, ?_, ?_⟩
  · -- the cache has evicted `k₀` and added `k`
    rw [cache_insert_fresh hk, if_pos (h.full_iff.1 hfull), evictLast_eq hl, AList.keys_insert,
      AList.keys_erase]
    intro hmem
    rcases List.mem_cons.1 hmem with hkk | hmem
    · exact hk₀k hkk
    · exact A.keys_nodup.not_mem_erase (List.mem_of_mem_erase hmem)
  · simp [LRU.insert, hfull, hevict, LRU.place, hfh, hne]
  · simp [LRU.contains, FixedHash.contains, Std.HashMap.contains_eq_isSome_getElem?, hstaleIdx]
  · simp [LRU.find, FixedHash.find, hstaleIdx, hget, hne]

/-- A cache of two entries of `u32` keys: after `insert(1)` and `insert(2)`, `insert(3)` evicts
key `1` in the cache, but the link `~0` has overwritten the key's bytes and the map keeps it:
`contains(1)` is true and `find(1)` returns key `3`'s value. -/
theorem insert_keeps_evicted_three_keys :
    ∃ as c, execOpt (call 2 8 u32Entry u32Key) (new 2 8 fun _ => 0) [.insert 1 7, .insert 2 9] =
        some (as, c) ∧
      (1 : UInt32) ∉ (cache 2 (exec (cache 2) ∅ [.insert 1 7, .insert 2 9]).2 (.insert 3 5)).2.keys ∧
      ∃ c', c.insert 2 8 u32Entry u32Key 3 5 = some (some 5, c') ∧ c'.contains 1 = true ∧
        (c'.find 2 1).map Prod.fst = some (some 5) := by
  have hrepr : ∀ e, (u32Entry e).length ≤ 8 := fun _ => by simp [u32Entry]
  obtain ⟨as, c, he, -, hrel⟩ := rel_execOpt u32Key hrepr (roomy 2) (fun _ _ hr => .inr hr)
    (by decide) (init_new 2 8 _ (by decide) (by decide) (by decide) (by decide))
    [.insert 1 7, .insert 2 9] (by decide)
  have hl : (exec (cache 2) ∅ ([.insert 1 7, .insert 2 9] : List (Request UInt32 UInt8))).2.keys.getLast? =
      some 1 := by decide
  have hv : (exec (cache 2) ∅ ([.insert 1 7, .insert 2 9] : List (Request UInt32 UInt8))).2.lookup 1 =
      some 7 := by decide
  have hk : (3 : UInt32) ∉
      (exec (cache 2) ∅ ([.insert 1 7, .insert 2 9] : List (Request UInt32 UInt8))).2.keys := by
    decide
  refine ⟨as, c, he, insert_keeps_evicted u32Key hrepr hrel (hrel.full_iff.2 (by decide)) hl hv
    (fun xs => ?_) (fun xs => ?_) hk 5⟩
  · rw [u32Entry, List.append_assoc, u32Key_leBytes, UInt32.ofNat_toNat]
  · rw [u32Key_leBytes]
    decide

end LRU

end Container

end OtelEbpf
