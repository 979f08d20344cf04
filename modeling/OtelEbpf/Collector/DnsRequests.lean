import OtelEbpf.Lib.Index
import OtelEbpf.Lib.Run

/-!
# Pending DNS requests of the kernel collector

`DnsRequests` (`collector/kernel/dns_requests.cc`) keeps the DNS requests still waiting for an
answer in a `std::list` in insertion order, and two `std::unordered_multimap`s of iterators into
it: `dns_requests_by_key_` under the request's key, whose equality ignores `is_rx`, and
`dns_requests_by_sock_` under its socket.  `remove` finds the one entry holding its iterator in
each of the two equal ranges; `remove_all_with_key` walks the key's equal range, erasing each
request from the socket index and the list, then the range.

An iterator is a number that names one element of the list for its whole life (`nextIter` hands
out a fresh one for each insert); dereferencing one whose element was erased is a fault (`none`).
A multimap is the list of its entries, and an equal range the entries with an equal key.

* `Inv` : the two indices are `Index.Indexes` of the list, iterators are distinct, and the list
  is sorted by timestamp.
* `add_inv`, `remove_spec`, `removeAllWithKey_spec` : each operation keeps `Inv`, and the two
  removals never fault on live requests.
* `indices_consistent_of_run` : along every sequence of `add` (not older than what is pending),
  `remove` (of a live request) and `remove_all_with_key`, the indices are consistent and the
  three lookups return exactly the live requests with the key, with the socket, and older than
  the timestamp.
-/

namespace OtelEbpf

namespace Collector

open Index

/-- `dns_request_key`. -/
structure DnsRequestKey where
  qid : UInt16
  type : UInt16
  name : String
  isRx : Bool
  deriving DecidableEq, Repr

/-- `dns_request_key_equal_to`: `is_rx` is not compared. -/
def keyEqualTo (k k2 : DnsRequestKey) : Bool :=
  k.qid == k2.qid && k.type == k2.type && k.name == k2.name

@[simp] theorem keyEqualTo_self (k : DnsRequestKey) : keyEqualTo k k = true := by
  simp [keyEqualTo]

/-- `dns_request_value`. -/
structure DnsRequestValue where
  timestampNs : UInt64
  sk : UInt64
  deriving DecidableEq, Repr

/-- An element of `dns_requests_` and the iterator that names it. -/
structure DnsRequest where
  iter : ℕ
  key : DnsRequestKey
  value : DnsRequestValue
  deriving DecidableEq, Repr

/-- The members of a `DnsRequests`, and the next fresh iterator. -/
structure DnsRequests where
  dnsRequestsByKey : List (DnsRequestKey × ℕ)
  dnsRequests : List DnsRequest
  dnsRequestsBySock : List (UInt64 × ℕ)
  nextIter : ℕ

namespace DnsRequests

/-- A fresh `DnsRequests`. -/
def empty : DnsRequests := ⟨[], [], [], 0⟩

/-! ### The operations -/

/-- `add(key, value)`. -/
def add (d : DnsRequests) (key : DnsRequestKey) (value : DnsRequestValue) : DnsRequests where
  dnsRequests := d.dnsRequests ++ [⟨d.nextIter, key, value⟩]
  dnsRequestsByKey := d.dnsRequestsByKey ++ [(key, d.nextIter)]
  dnsRequestsBySock := d.dnsRequestsBySock ++ [(value.sk, d.nextIter)]
  nextIter := d.nextIter + 1

/-- `lookup(key, out)`: the iterators of the key's equal range. -/
def lookup (d : DnsRequests) (key : DnsRequestKey) : List ℕ :=
  (d.dnsRequestsByKey.filter fun e => keyEqualTo e.1 key).map (·.2)

/-- `lookup_older_than(timestamp_ns, out)`: the list from its start, up to the first request not
older than `timestamp_ns`. -/
def lookupOlderThan (d : DnsRequests) (timestampNs : UInt64) : List ℕ :=
  (d.dnsRequests.takeWhile fun r => !decide (r.value.timestampNs ≥ timestampNs)).map (·.iter)

/-- `lookup_socket(sk, out)`: the iterators of the socket's equal range. -/
def lookupSocket (d : DnsRequests) (sk : UInt64) : List ℕ :=
  (d.dnsRequestsBySock.filter fun e => e.1 == sk).map (·.2)

/-- `*req`: the element an iterator names, `none` once it is erased. -/
def deref (d : DnsRequests) (req : ℕ) : Option DnsRequest :=
  d.dnsRequests.find? fun r => r.iter == req

/-- `remove(req)`: the entry holding `req` in each equal range, and the element. -/
def remove (d : DnsRequests) (req : ℕ) : Option DnsRequests := do
  let r ← d.deref req
  pure { d with
    dnsRequestsByKey := d.dnsRequestsByKey.eraseP fun e => keyEqualTo e.1 r.key && e.2 == req
    dnsRequestsBySock := d.dnsRequestsBySock.eraseP fun e => e.1 == r.value.sk && e.2 == req
    dnsRequests := d.dnsRequests.eraseP fun r => r.iter == req }

/-- One turn of `remove_all_with_key`'s loop, before the entry of the key index is erased. -/
def unlinkRequest (d : DnsRequests) (req : ℕ) : Option DnsRequests := do
  let r ← d.deref req
  pure { d with
    dnsRequestsBySock := d.dnsRequestsBySock.eraseP fun e => e.1 == r.value.sk && e.2 == req
    dnsRequests := d.dnsRequests.eraseP fun r => r.iter == req }

/-- `remove_all_with_key(key)`: the loop over the key's equal range, which also erases the whole
range from the key index. -/
def removeAllWithKey (d : DnsRequests) (key : DnsRequestKey) : Option DnsRequests := do
  let d' ← (d.dnsRequestsByKey.filter fun e => keyEqualTo e.1 key).foldlM
    (fun d e => d.unlinkRequest e.2) d
  pure { d' with dnsRequestsByKey := d.dnsRequestsByKey.filter fun e => !keyEqualTo e.1 key }

/-- The key index's entry of a request. -/
def keyEntry (r : DnsRequest) : DnsRequestKey × ℕ := (r.key, r.iter)

/-- The socket index's entry of a request. -/
def sockEntry (r : DnsRequest) : UInt64 × ℕ := (r.value.sk, r.iter)

/-- The indices hold each live request once and nothing else, iterators name one request each
and are older than `nextIter`, and the list is in timestamp order. -/
structure Inv (d : DnsRequests) : Prop where
  byKey : Indexes keyEntry d.dnsRequestsByKey d.dnsRequests
  bySock : Indexes sockEntry d.dnsRequestsBySock d.dnsRequests
  nodup : (d.dnsRequests.map (·.iter)).Nodup
  fresh : ∀ r ∈ d.dnsRequests, r.iter < d.nextIter
  sorted : d.dnsRequests.Pairwise fun a b => a.value.timestampNs.toNat ≤ b.value.timestampNs.toNat

theorem inv_empty : Inv empty :=
  ⟨indexes_nil, indexes_nil, List.nodup_nil, by simp [empty], List.Pairwise.nil⟩

variable {d : DnsRequests}

/-- An `add` not older than any pending request keeps the invariant. -/
theorem add_inv (hi : Inv d) (key : DnsRequestKey) (value : DnsRequestValue)
    (hts : ∀ r ∈ d.dnsRequests, r.value.timestampNs.toNat ≤ value.timestampNs.toNat) :
    Inv (d.add key value) where
  byKey := hi.byKey.snoc ⟨d.nextIter, key, value⟩
  bySock := hi.bySock.snoc ⟨d.nextIter, key, value⟩
  nodup := by
    rw [add, List.map_append, List.map_singleton, List.nodup_append]
    refine ⟨hi.nodup, List.nodup_singleton _, ?_⟩
    simp only [List.mem_map, List.mem_singleton]
    rintro _ ⟨r, hr, rfl⟩ _ rfl
    exact Nat.ne_of_lt (hi.fresh r hr)
  fresh := by
    simp only [add, List.mem_append, List.mem_singleton]
    rintro r (hr | rfl)
    · exact Nat.lt_succ_of_lt (hi.fresh r hr)
    · exact Nat.lt_succ_self _
  sorted := List.pairwise_append.mpr ⟨hi.sorted, List.pairwise_singleton _ _,
    fun a ha b hb => by rw [List.mem_singleton.mp hb]; exact hts a ha⟩

/-! ### Erasing by iterator -/

section Erase

variable {l : List DnsRequest} (hn : (l.map (·.iter)).Nodup)
include hn

/-- Iterators name one request each. -/
theorem iter_ne_of_nodup : l.Pairwise fun a b => a.iter ≠ b.iter :=
  List.pairwise_map.mp hn

theorem eq_of_iter_eq {a b : DnsRequest} (ha : a ∈ l) (hb : b ∈ l) (h : a.iter = b.iter) :
    a = b :=
  List.inj_on_of_nodup_map hn ha hb h

theorem unique_iter (req : ℕ) :
    l.Pairwise fun a b => (a.iter == req) → (b.iter == req) → False :=
  (iter_ne_of_nodup hn).imp fun hne ha hb => hne ((beq_iff_eq.mp ha).trans (beq_iff_eq.mp hb).symm)

/-- Erasing a request from the list is a filter. -/
theorem eraseP_iter (req : ℕ) :
    l.eraseP (fun r => r.iter == req) = l.filter fun r => !(r.iter == req) :=
  eraseP_eq_filter (unique_iter hn req)

/-- Erasing the first entry of an index with a request's iterator, and a key that the request's
passes, erases that request. -/
theorem indexes_eraseP {κ : Type} {g : DnsRequest → κ} {idx : List (κ × ℕ)}
    (h : Indexes (fun r => (g r, r.iter)) idx l) {r₀ : DnsRequest} (hr₀ : r₀ ∈ l)
    (q : κ → Bool) (hq : q (g r₀) = true) :
    Indexes (fun r => (g r, r.iter)) (idx.eraseP fun e => q e.1 && e.2 == r₀.iter)
      (l.filter fun r => !(r.iter == r₀.iter)) := by
  have hP := h.eraseP (fun e => q e.1 && e.2 == r₀.iter)
    ((unique_iter hn r₀.iter).imp fun hne ha hb =>
      hne (Bool.and_eq_true _ _ |>.mp ha).2 (Bool.and_eq_true _ _ |>.mp hb).2)
  -- only `r₀` has the iterator, and its key passes `q`
  have hcongr : ∀ a ∈ l,
      ((fun e => q e.1 && e.2 == r₀.iter) ∘ fun r => (g r, r.iter)) a =
        (a.iter == r₀.iter) := by
    intro a ha
    by_cases hit : a.iter = r₀.iter
    · rw [eq_of_iter_eq hn ha hr₀ hit]
      simp [hq]
    · simp [hit]
  rwa [eraseP_congr hcongr, eraseP_eq_filter (unique_iter hn r₀.iter)] at hP

end Erase

/-- A state whose list is a filter of an invariant state's, indexed by both indices, keeps the
invariant. -/
theorem Inv.of_filter (hi : Inv d) {d' : DnsRequests} (p : DnsRequest → Bool)
    (hl : d'.dnsRequests = d.dnsRequests.filter p)
    (hk : Indexes keyEntry d'.dnsRequestsByKey d'.dnsRequests)
    (hs : Indexes sockEntry d'.dnsRequestsBySock d'.dnsRequests)
    (hnext : d'.nextIter = d.nextIter) :
    Inv d' where
  byKey := hk
  bySock := hs
  nodup := by
    rw [hl]
    exact hi.nodup.sublist (List.filter_sublist.map _)
  fresh r hr := by
    rw [hl] at hr
    rw [hnext]
    exact hi.fresh r (List.mem_of_mem_filter hr)
  sorted := by
    rw [hl]
    exact hi.sorted.filter p

/-! ### The removals -/

/-- A live iterator names a request of the list. -/
theorem deref_of_mem (req : ℕ) (hreq : req ∈ d.dnsRequests.map (·.iter)) :
    ∃ r ∈ d.dnsRequests, r.iter = req ∧ d.deref req = some r := by
  have hs : (d.deref req).isSome := by
    obtain ⟨r, hr, rfl⟩ := List.mem_map.mp hreq
    exact List.find?_isSome.mpr ⟨r, hr, by simp⟩
  obtain ⟨r, hr⟩ := Option.isSome_iff_exists.mp hs
  exact ⟨r, List.mem_of_find?_eq_some hr, by simpa using List.find?_some hr, hr⟩

/-- `remove` of a live request erases it from the list and both indices. -/
theorem remove_spec (hi : Inv d) (req : ℕ) (hreq : req ∈ d.dnsRequests.map (·.iter)) :
    ∃ d', d.remove req = some d' ∧ Inv d' ∧
      d'.dnsRequests = d.dnsRequests.filter (fun r => !(r.iter == req)) ∧
      d'.nextIter = d.nextIter := by
  obtain ⟨r, hr, rfl, hd⟩ := deref_of_mem req hreq
  unfold remove
  rw [hd]
  refine ⟨_, rfl, hi.of_filter _ (eraseP_iter hi.nodup _) ?_ ?_ rfl, eraseP_iter hi.nodup _, rfl⟩
  · show Indexes keyEntry _ (d.dnsRequests.eraseP _)
    rw [eraseP_iter hi.nodup]
    exact indexes_eraseP hi.nodup hi.byKey hr (fun k => keyEqualTo k r.key) (keyEqualTo_self _)
  · show Indexes sockEntry _ (d.dnsRequests.eraseP _)
    rw [eraseP_iter hi.nodup]
    exact indexes_eraseP hi.nodup hi.bySock hr (fun s => s == r.value.sk) (beq_self_eq_true _)

/-- One turn of `remove_all_with_key`'s loop on a live request erases it from the list and the
socket index. -/
theorem unlinkRequest_spec (hs : Indexes sockEntry d.dnsRequestsBySock d.dnsRequests)
    (hn : (d.dnsRequests.map (·.iter)).Nodup) (req : ℕ)
    (hreq : req ∈ d.dnsRequests.map (·.iter)) :
    ∃ d', d.unlinkRequest req = some d' ∧
      d'.dnsRequests = d.dnsRequests.filter (fun r => !(r.iter == req)) ∧
      Indexes sockEntry d'.dnsRequestsBySock d'.dnsRequests ∧
      d'.dnsRequestsByKey = d.dnsRequestsByKey ∧ d'.nextIter = d.nextIter := by
  obtain ⟨r, hr, rfl, hd⟩ := deref_of_mem req hreq
  unfold unlinkRequest
  rw [hd]
  refine ⟨_, rfl, eraseP_iter hn _, ?_, rfl, rfl⟩
  show Indexes sockEntry _ (d.dnsRequests.eraseP _)
  rw [eraseP_iter hn]
  exact indexes_eraseP hn hs hr (fun s => s == r.value.sk) (beq_self_eq_true _)

/-- `remove_all_with_key`'s loop over entries with distinct live iterators erases those requests
from the list and the socket index. -/
theorem foldlM_unlinkRequest : ∀ (es : List (DnsRequestKey × ℕ)) (d : DnsRequests),
    Indexes sockEntry d.dnsRequestsBySock d.dnsRequests → (d.dnsRequests.map (·.iter)).Nodup →
    (∀ e ∈ es, e.2 ∈ d.dnsRequests.map (·.iter)) → (es.map (·.2)).Nodup →
    ∃ d', es.foldlM (fun d e => d.unlinkRequest e.2) d = some d' ∧
      d'.dnsRequests = d.dnsRequests.filter (fun r => !decide (r.iter ∈ es.map (·.2))) ∧
      Indexes sockEntry d'.dnsRequestsBySock d'.dnsRequests ∧
      d'.dnsRequestsByKey = d.dnsRequestsByKey ∧ d'.nextIter = d.nextIter
  | [], d, hs, _, _, _ => ⟨d, rfl, by simp, hs, rfl, rfl⟩
  | e :: es, d, hs, hn, hlive, hnes => by
    obtain ⟨d₁, h₁, hl₁, hs₁, hk₁, hnext₁⟩ :=
      unlinkRequest_spec hs hn e.2 (hlive e List.mem_cons_self)
    rw [List.map_cons, List.nodup_cons] at hnes
    -- the later iterators are still live: they differ from `e`'s
    have hlive₁ : ∀ e' ∈ es, e'.2 ∈ d₁.dnsRequests.map (·.iter) := by
      intro e' he'
      obtain ⟨r, hr, hre⟩ := List.mem_map.mp (hlive e' (List.mem_cons_of_mem e he'))
      have hne : r.iter ≠ e.2 := fun h => hnes.1 (h ▸ hre ▸ List.mem_map_of_mem he')
      rw [hl₁]
      exact List.mem_map.mpr ⟨r, List.mem_filter.mpr ⟨hr, by simpa using hne⟩, hre⟩
    have hn₁ : (d₁.dnsRequests.map (·.iter)).Nodup := by
      rw [hl₁]
      exact hn.sublist (List.filter_sublist.map _)
    obtain ⟨d', h', hl', hs', hk', hnext'⟩ :=
      foldlM_unlinkRequest es d₁ hs₁ hn₁ hlive₁ hnes.2
    refine ⟨d', by rw [List.foldlM_cons, h₁, Option.bind_eq_bind, Option.bind_some, h'], ?_, hs',
      hk'.trans hk₁, hnext'.trans hnext₁⟩
    rw [hl', hl₁, List.filter_filter]
    refine List.filter_congr fun r _ => ?_
    rw [List.map_cons]
    by_cases h : r.iter = e.2 <;> simp [h, Bool.and_comm]

/-- `remove_all_with_key` erases from the list and both indices exactly the requests whose key
equals `key`. -/
theorem removeAllWithKey_spec (hi : Inv d) (key : DnsRequestKey) :
    ∃ d', d.removeAllWithKey key = some d' ∧ Inv d' ∧
      d'.dnsRequests = d.dnsRequests.filter (fun r => !keyEqualTo r.key key) ∧
      d'.nextIter = d.nextIter := by
  set range := d.dnsRequestsByKey.filter fun e => keyEqualTo e.1 key
  -- the equal range holds the iterators of the requests with the key, each once
  have hiters : (range.map (·.2)).Perm
      ((d.dnsRequests.filter fun r => keyEqualTo r.key key).map (·.iter)) :=
    (hi.byKey.filter fun e => keyEqualTo e.1 key).map Prod.snd
  have hnes : (range.map (·.2)).Nodup :=
    hiters.nodup_iff.mpr (hi.nodup.sublist (List.filter_sublist.map _))
  have hlive : ∀ e ∈ range, e.2 ∈ d.dnsRequests.map (·.iter) := fun e he =>
    List.filter_sublist.map _ |>.subset (hiters.subset (List.mem_map_of_mem he))
  obtain ⟨d₁, hfold, hl₁, hs₁, -, hnext₁⟩ :=
    foldlM_unlinkRequest range d hi.bySock hi.nodup hlive hnes
  -- a request's iterator is in the range exactly when its key equals `key`
  have hfilter : (d.dnsRequests.filter fun r => !decide (r.iter ∈ range.map (·.2))) =
      d.dnsRequests.filter fun r => !keyEqualTo r.key key := by
    refine List.filter_congr fun r hr => ?_
    have hmem : r.iter ∈ range.map (·.2) ↔ keyEqualTo r.key key = true := by
      rw [hiters.mem_iff, List.mem_map]
      constructor
      · rintro ⟨r', hr', hit⟩
        rw [← eq_of_iter_eq hi.nodup (List.mem_of_mem_filter hr') hr hit]
        exact (List.mem_filter.mp hr').2
      · exact fun hk => ⟨r, List.mem_filter.mpr ⟨hr, hk⟩, rfl⟩
    by_cases hk : keyEqualTo r.key key = true
    · simp [hmem.mpr hk, hk]
    · simp [mt hmem.mp hk, hk]
  unfold removeAllWithKey
  rw [hfold]
  refine ⟨_, rfl, hi.of_filter _ (hl₁.trans hfilter) ?_ hs₁ hnext₁, hl₁.trans hfilter, hnext₁⟩
  show Indexes keyEntry _ d₁.dnsRequests
  rw [hl₁, hfilter]
  exact hi.byKey.filter fun e => !keyEqualTo e.1 key

/-! ### The lookups -/

theorem lookup_spec (hi : Inv d) (key : DnsRequestKey) :
    (d.lookup key).Perm ((d.dnsRequests.filter fun r => keyEqualTo r.key key).map (·.iter)) :=
  (hi.byKey.filter fun e => keyEqualTo e.1 key).map Prod.snd

theorem lookupSocket_spec (hi : Inv d) (sk : UInt64) :
    (d.lookupSocket sk).Perm ((d.dnsRequests.filter fun r => r.value.sk == sk).map (·.iter)) :=
  (hi.bySock.filter fun e => e.1 == sk).map Prod.snd

/-- On a list in timestamp order, the walk that stops at the first request not older than `t` finds
every request older than `t`. -/
theorem takeWhile_older (t : UInt64) : ∀ l : List DnsRequest,
    (l.Pairwise fun a b => a.value.timestampNs.toNat ≤ b.value.timestampNs.toNat) →
    l.takeWhile (fun r => !decide (r.value.timestampNs ≥ t)) =
      l.filter fun r => decide (r.value.timestampNs < t)
  | [], _ => rfl
  | a :: l, hs => by
    rw [List.pairwise_cons] at hs
    by_cases ha : a.value.timestampNs < t
    · rw [List.takeWhile_cons_of_pos (by simpa using ha),
        List.filter_cons_of_pos (by simpa using ha),
        takeWhile_older t l hs.2]
    · -- `a` is not older than `t`, and no later request is
      have hl : ∀ b ∈ l, ¬ b.value.timestampNs < t := by
        intro b hb hbt
        have hab := hs.1 b hb
        rw [UInt64.lt_iff_toNat_lt] at ha hbt
        omega
      rw [List.takeWhile_cons_of_neg (by simpa using ha),
        List.filter_cons_of_neg (by simpa using ha),
        List.filter_eq_nil_iff.mpr fun b hb => by simpa using hl b hb]

theorem lookupOlderThan_spec (hi : Inv d) (t : UInt64) :
    d.lookupOlderThan t =
      (d.dnsRequests.filter fun r => decide (r.value.timestampNs < t)).map (·.iter) := by
  rw [lookupOlderThan, takeWhile_older t _ hi.sorted]

/-! ### Runs of calls -/

/-- The calls that change a `DnsRequests`. -/
inductive DnsCall
  | add (key : DnsRequestKey) (value : DnsRequestValue)
  | remove (req : ℕ)
  | removeAllWithKey (key : DnsRequestKey)

/-- One call, as its callers make it: an `add` is not older than any pending request, a `remove`
is of a request still in the list. -/
def Step (d : DnsRequests) : DnsCall → DnsRequests → Prop
  | .add key value, d' =>
    (∀ r ∈ d.dnsRequests, r.value.timestampNs.toNat ≤ value.timestampNs.toNat) ∧
      d' = d.add key value
  | .remove req, d' => req ∈ d.dnsRequests.map (·.iter) ∧ d.remove req = some d'
  | .removeAllWithKey key, d' => d.removeAllWithKey key = some d'

theorem Step.of_add {key : DnsRequestKey} {value : DnsRequestValue}
    (hts : ∀ r ∈ d.dnsRequests, r.value.timestampNs.toNat ≤ value.timestampNs.toNat) :
    Step d (.add key value) (d.add key value) :=
  ⟨hts, rfl⟩

theorem Step.of_remove {req : ℕ} {d' : DnsRequests} (hreq : req ∈ d.dnsRequests.map (·.iter))
    (h : d.remove req = some d') : Step d (.remove req) d' :=
  ⟨hreq, h⟩

theorem Step.of_removeAllWithKey {key : DnsRequestKey} {d' : DnsRequests}
    (h : d.removeAllWithKey key = some d') : Step d (.removeAllWithKey key) d' :=
  h

theorem Step.inv {call : DnsCall} {d' : DnsRequests} (hi : Inv d) (h : Step d call d') :
    Inv d' := by
  cases call with
  | add key value =>
    obtain ⟨hts, rfl⟩ := h
    exact add_inv hi key value hts
  | remove req =>
    obtain ⟨hreq, h⟩ := h
    obtain ⟨d'', hd, hi', -⟩ := remove_spec hi req hreq
    rw [h] at hd
    cases hd
    exact hi'
  | removeAllWithKey key =>
    obtain ⟨d'', hd, hi', -⟩ := removeAllWithKey_spec hi key
    rw [show d.removeAllWithKey key = some d' from h] at hd
    cases hd
    exact hi'

theorem run_empty : Run (· = empty) Step [] empty := Run.start rfl

theorem inv_of_run {calls : List DnsCall} (hrun : Run (· = empty) Step calls d) : Inv d :=
  Run.invariant (fun _ hs => hs ▸ inv_empty) (fun _ _ _ hs hst => hst.inv hs) hrun

/-- What the structure guarantees at a state: consistent indices, lookups that return exactly the
live requests asked for, and removals that succeed. -/
structure Consistent (d : DnsRequests) : Prop where
  inv : Inv d
  lookup : ∀ key, (d.lookup key).Perm
    ((d.dnsRequests.filter fun r => keyEqualTo r.key key).map (·.iter))
  lookupSocket : ∀ sk, (d.lookupSocket sk).Perm
    ((d.dnsRequests.filter fun r => r.value.sk == sk).map (·.iter))
  lookupOlderThan : ∀ t, d.lookupOlderThan t =
    (d.dnsRequests.filter fun r => decide (r.value.timestampNs < t)).map (·.iter)
  remove : ∀ req ∈ d.dnsRequests.map (·.iter), ∃ d', d.remove req = some d' ∧
    d'.dnsRequests = d.dnsRequests.filter fun r => !(r.iter == req)
  removeAllWithKey : ∀ key, ∃ d', d.removeAllWithKey key = some d' ∧
    d'.dnsRequests = d.dnsRequests.filter fun r => !keyEqualTo r.key key

theorem consistent_of_inv (hi : Inv d) : Consistent d where
  inv := hi
  lookup := lookup_spec hi
  lookupSocket := lookupSocket_spec hi
  lookupOlderThan := lookupOlderThan_spec hi
  remove req hreq := (remove_spec hi req hreq).imp fun _ h => ⟨h.1, h.2.2.1⟩
  removeAllWithKey key := (removeAllWithKey_spec hi key).imp fun _ h => ⟨h.1, h.2.2.1⟩

/-! ### What the calls leave pending -/

/-- One call on the requests it leaves pending and the number of `add`s so far: an `add`
appends a request named by that number, a `remove` drops the request it names, and
`remove_all_with_key` every request whose key equals the key. -/
def pendingStep (p : List DnsRequest × ℕ) : DnsCall → List DnsRequest × ℕ
  | .add key value => (p.1 ++ [⟨p.2, key, value⟩], p.2 + 1)
  | .remove req => (p.1.filter fun r => !(r.iter == req), p.2)
  | .removeAllWithKey key => (p.1.filter fun r => !keyEqualTo r.key key, p.2)

/-- The requests a sequence of calls leaves pending, in the order they were added, computed
from the calls alone. -/
def pending (calls : List DnsCall) : List DnsRequest × ℕ := calls.foldl pendingStep ([], 0)

theorem pending_append_singleton (calls : List DnsCall) (call : DnsCall) :
    pending (calls ++ [call]) = pendingStep (pending calls) call := by
  simp [pending]

/-- One call takes the list and `nextIter` the way it takes the pending requests. -/
theorem Step.pending {call : DnsCall} {d' : DnsRequests} (hi : Inv d) (h : Step d call d') :
    (d'.dnsRequests, d'.nextIter) = pendingStep (d.dnsRequests, d.nextIter) call := by
  cases call with
  | add key value =>
    obtain ⟨-, rfl⟩ := h
    rfl
  | remove req =>
    obtain ⟨hreq, h⟩ := h
    obtain ⟨d'', hd, -, hl, hn⟩ := remove_spec hi req hreq
    rw [h, Option.some.injEq] at hd
    subst hd
    rw [hl, hn]
    rfl
  | removeAllWithKey key =>
    obtain ⟨d'', hd, -, hl, hn⟩ := removeAllWithKey_spec hi key
    rw [show d.removeAllWithKey key = some d' from h, Option.some.injEq] at hd
    subst hd
    rw [hl, hn]
    rfl

/-- Along a run, the list holds exactly the requests the calls leave pending, and `nextIter` is
the number of `add`s. -/
theorem pending_of_run {calls : List DnsCall} (hrun : Run (· = empty) Step calls d) :
    (d.dnsRequests, d.nextIter) = pending calls := by
  -- induction on the run: each step takes the state as `pendingStep` takes its image
  induction hrun with
  | start hs =>
    subst hs
    rfl
  | snoc hrun hst ih =>
    rw [pending_append_singleton, ← ih]
    exact hst.pending (inv_of_run hrun)

/-- **The indices of the pending DNS requests stay consistent.**  Along every run of calls, the
list holds exactly the requests added and not removed, and the structure is consistent: both
indices hold each of them once and nothing else, the lookups return exactly the pending requests
with the key, with the socket, and older than the timestamp, and the removals succeed. -/
theorem indices_consistent_of_run {calls : List DnsCall} (hrun : Run (· = empty) Step calls d) :
    d.dnsRequests = (pending calls).1 ∧ d.nextIter = (pending calls).2 ∧ Consistent d := by
  have hp := pending_of_run hrun
  rw [← hp]
  exact ⟨rfl, rfl, consistent_of_inv (inv_of_run hrun)⟩

/-- Three requests on two sockets, at times 5, 6 and 7; the second is removed, then every request
with the first one's key (the first, and not the third, whose `qid` differs), and one more is
added. -/
theorem indices_consistent_of_run_remove :
    ∃ d, Run (· = empty) Step
        [.add ⟨1, 1, "a", false⟩ ⟨5, 7⟩, .add ⟨2, 1, "a", true⟩ ⟨6, 8⟩,
          .add ⟨3, 1, "a", false⟩ ⟨7, 7⟩, .remove 1, .removeAllWithKey ⟨1, 1, "a", true⟩,
          .add ⟨1, 1, "a", false⟩ ⟨9, 8⟩] d ∧
      d.dnsRequests = (pending
        [.add ⟨1, 1, "a", false⟩ ⟨5, 7⟩, .add ⟨2, 1, "a", true⟩ ⟨6, 8⟩,
          .add ⟨3, 1, "a", false⟩ ⟨7, 7⟩, .remove 1, .removeAllWithKey ⟨1, 1, "a", true⟩,
          .add ⟨1, 1, "a", false⟩ ⟨9, 8⟩]).1 ∧
      d.nextIter = (pending
        [.add ⟨1, 1, "a", false⟩ ⟨5, 7⟩, .add ⟨2, 1, "a", true⟩ ⟨6, 8⟩,
          .add ⟨3, 1, "a", false⟩ ⟨7, 7⟩, .remove 1, .removeAllWithKey ⟨1, 1, "a", true⟩,
          .add ⟨1, 1, "a", false⟩ ⟨9, 8⟩]).2 ∧
      Consistent d := by
  obtain ⟨d, hrun⟩ : ∃ d, Run (· = empty) Step
      [.add ⟨1, 1, "a", false⟩ ⟨5, 7⟩, .add ⟨2, 1, "a", true⟩ ⟨6, 8⟩,
        .add ⟨3, 1, "a", false⟩ ⟨7, 7⟩, .remove 1, .removeAllWithKey ⟨1, 1, "a", true⟩,
        .add ⟨1, 1, "a", false⟩ ⟨9, 8⟩] d := by
    refine ⟨_, ((((((run_empty.snoc (Step.of_add ?_)).snoc (Step.of_add ?_)).snoc
      (Step.of_add ?_)).snoc (Step.of_remove ?_ rfl)).snoc (Step.of_removeAllWithKey rfl)).snoc
      (Step.of_add ?_))⟩
    all_goals decide
  exact ⟨d, hrun, indices_consistent_of_run hrun⟩

end DnsRequests

end Collector

end OtelEbpf
