import Mathlib
import OtelEbpf.Container.LRU
import OtelEbpf.Reducer.FlowUpdater

/-!
# The DNS cache of an agent

An `AgentSpan` (`reducer/ingest/agent_span.cc`) keeps `ip_to_domain_`, a `DnsCache`
(`reducer/dns_cache.h`): an `LRU` from `IPv6Address` to `dns_record`, a `short_string` of at
most `dns::max_len = 80` bytes, of `dns_lru__pool_size` entries.  A DNS response, in a
`dns_response_fake` or a `dns_response_dep_a_deprecated` message, names a domain and its IPv4
and IPv6 addresses.  `map_ips_to_domain` keeps the last 80 bytes of the name and maps to it
every IPv4 address, as the IPv4-mapped address `::ffff:a.b.c.d`, and then every IPv6 address.
`map_ip_to_domain` removes an address that is in the cache and then inserts it, and reports
`failed_to_insert_dns_record` when the insert fails.  `find_dns_for_ip` looks an address up,
which makes it the most recently used.

The cache is `OtelEbpf.Container.LRU` over the addresses.  A `value_type` begins with its key,
so the key that the eviction reads back from a freed element is the address of its first
sixteen bytes (`readAddress`).  Its hash, `dns::hash_ipv6_address`, is any hash here, as the
map's behaviour does not depend on it.  The trace and warning logs are left out.

* `dnsCache` : the calls on the cache of `OtelEbpf.Container.LRU.cache`.  A response
  `refresh`es each address: the address leaves, a cache that is still full evicts its least
  recently used key, and the address comes back first;
* `find_latest_of_room` : along every sequence of responses and lookups from a new `AgentSpan`
  in which no response inserts into a full cache, every call returns with the answer of
  `dnsCache`, `failed_to_insert_dns_record` is never reported, and `find_dns_for_ip` finds for
  every address the record of the last response that named it;
* `find_evicted_of_full` : on a full cache of addresses none of which begins with
  `ff ff ff ff`, a response naming a new address evicts the least recently used address from
  the cache but not from the map: `find_dns_for_ip` of it returns the new address's record.
-/

namespace OtelEbpf

namespace Reducer

open Container Container.LRU Refinement Assoc Bytes

instance : Hashable IPv6Address := ⟨fun a => hash a.bytes⟩

/-- `dns::max_len`. -/
def dnsMaxLen : ℕ := 80

/-- The `dns_record` of a domain name: a name longer than `max_len` loses its beginning
(`dn_buf += dn_len - max_len`). -/
def dnsRecord (domainName : List UInt8) : List UInt8 :=
  if domainName.length > dnsMaxLen then domainName.drop (domainName.length - dnsMaxLen)
  else domainName

/-- The `in_addr`s of a buffer of `len` bytes, `(in_addr *)buf` for `len / sizeof(in_addr)`
of them: each `s_addr` is its four bytes read on a little-endian host. -/
def inAddrs (buf : List UInt8) : List UInt32 :=
  (List.range (buf.length / 4)).map fun i =>
    UInt32.ofNat (leValue (List.ofFn fun j : Fin 4 => buf.getD (i * 4 + j) 0))

/-- The `in6_addr`s of a buffer, `memcpy`d from it sixteen bytes each; `IPv6Address::from`
takes the sixteen bytes. -/
def in6Addrs (buf : List UInt8) : List IPv6Address :=
  (List.range (buf.length / 16)).map fun i =>
    ⟨List.ofFn fun j : Fin 16 => buf.getD (i * 16 + j) 0, List.length_ofFn⟩

theorem length_ipv4Mapped (n : ℕ) :
    (List.replicate 10 (0 : UInt8) ++ [0xff, 0xff] ++ leBytes 4 n).length = 16 := by
  simp

/-- The IPv4-mapped address of an IPv4 address: `addr = {}`, `addr.s6_addr16[5] = 0xffff`,
`addr.s6_addr32[3] = s_addr`, stored little-endian. -/
def ipv4Mapped (sAddr : UInt32) : IPv6Address :=
  ⟨List.replicate 10 0 ++ [0xff, 0xff] ++ leBytes 4 sAddr.toNat, length_ipv4Mapped _⟩

/-- The address that a reference to the key of an element reads: the element's first sixteen
bytes. -/
def readAddress (l : List UInt8) : IPv6Address := ⟨(l ++ List.replicate 16 0).take 16, by simp⟩

theorem readAddress_append (a : IPv6Address) (xs : List UInt8) : readAddress (a.bytes ++ xs) = a := by
  obtain ⟨bytes, hlen⟩ := a
  simp only [readAddress, IPv6Address.mk.injEq, List.append_assoc]
  exact List.take_left' hlen

/-- An address read from bytes that begin with a 4-byte link begins with the link. -/
theorem take_readAddress (n : ℕ) (ys : List UInt8) :
    (readAddress (leBytes 4 n ++ ys)).bytes.take 4 = leBytes 4 n := by
  simp only [readAddress, List.take_take, List.append_assoc]
  exact List.take_left' (length_leBytes 4 n)

/-- What of an `AgentSpan` its DNS handlers use: `ip_to_domain_`, and the number of
`failed_to_insert_dns_record` reports sent to the logger. -/
structure AgentSpan where
  ipToDomain : LRU IPv6Address (List UInt8)
  failedInserts : ℕ

/-- A DNS message from the agent, or a lookup by a socket span. -/
inductive DnsCall
  | dnsResponseFake (ips domainName : List UInt8)
  | dnsResponseDepA (ipv4Addrs ipv6Addrs domainName : List UInt8)
  | findDnsForIp (addr : IPv6Address)
  deriving DecidableEq

namespace AgentSpan

variable (SIZE es : ℕ) (repr : ValueType IPv6Address (List UInt8) → List UInt8)

/-- `map_ip_to_domain(ip_addr, rec)`: an address found in the cache (which `find` makes the most
recent) is removed, then inserted with the record; `none` where a call on the cache fails an
assertion. -/
def mapIpToDomain (s : AgentSpan) (ipAddr : IPv6Address) (record : List UInt8) :
    Option AgentSpan :=
  (s.ipToDomain.find SIZE ipAddr).bind fun found =>
    (if found.1.isSome then found.2.remove SIZE ipAddr else some found.2).bind fun c =>
      (c.insert SIZE es repr readAddress ipAddr record).map fun inserted =>
        ⟨inserted.2, if inserted.1.isNone then s.failedInserts + 1 else s.failedInserts⟩

/-- `map_ips_to_domain`: the record of the domain name, mapped from every IPv4 address and then
from every IPv6 address. -/
def mapIpsToDomain (s : AgentSpan) (ipv4Addrs : List UInt32) (ipv6Addrs : List IPv6Address)
    (domainName : List UInt8) : Option AgentSpan := do
  let record := dnsRecord domainName
  let s ← ipv4Addrs.foldlM (fun s a => s.mapIpToDomain SIZE es repr (ipv4Mapped a) record) s
  ipv6Addrs.foldlM (fun s a => s.mapIpToDomain SIZE es repr a record) s

/-- `dns_response_fake`: the IPv4 addresses of `ips`. -/
def dnsResponseFake (s : AgentSpan) (ips domainName : List UInt8) : Option AgentSpan :=
  s.mapIpsToDomain SIZE es repr (inAddrs ips) [] domainName

/-- `dns_response_dep_a_deprecated`: the IPv4 and the IPv6 addresses, copied out of the
message. -/
def dnsResponseDepA (s : AgentSpan) (ipv4Addrs ipv6Addrs domainName : List UInt8) :
    Option AgentSpan :=
  s.mapIpsToDomain SIZE es repr (inAddrs ipv4Addrs) (in6Addrs ipv6Addrs) domainName

/-- `find_dns_for_ip(addr)`: the record, `nullopt` for an address not in the cache. -/
def findDnsForIp (s : AgentSpan) (addr : IPv6Address) : Option (Option (List UInt8) × AgentSpan) :=
  (s.ipToDomain.find SIZE addr).map fun found => (found.1, ⟨found.2, s.failedInserts⟩)

/-- A new `AgentSpan`: a new cache, and nothing reported. -/
def Init (s : AgentSpan) : Prop := s.ipToDomain.Init SIZE es ∧ s.failedInserts = 0

/-- What `AgentSpan()` sets up of it: `ip_to_domain_` over the storage `mem`. -/
def new (mem : ℕ → UInt8) : AgentSpan := ⟨LRU.new SIZE es mem, 0⟩

theorem init_new (mem : ℕ → UInt8) (hpos : 0 < SIZE) (hSIZE : SIZE < 2 ^ 32) (hes : 4 ≤ es)
    (hes' : es < 2 ^ 32) : (new SIZE es mem).Init SIZE es :=
  ⟨LRU.init_new SIZE es mem hpos hSIZE hes hes', rfl⟩

/-- The record found for a lookup, and the `AgentSpan` after the call; `none` where the call
fails an assertion. -/
def call (s : AgentSpan) : DnsCall → Option (Option (List UInt8) × AgentSpan)
  | .dnsResponseFake ips domainName =>
    (s.dnsResponseFake SIZE es repr ips domainName).map fun s => (none, s)
  | .dnsResponseDepA ipv4Addrs ipv6Addrs domainName =>
    (s.dnsResponseDepA SIZE es repr ipv4Addrs ipv6Addrs domainName).map fun s => (none, s)
  | .findDnsForIp addr => s.findDnsForIp SIZE addr

end AgentSpan

/-- The addresses a call maps, in order, and the record it maps them to: none for a lookup. -/
def DnsCall.mapping : DnsCall → List IPv6Address × List UInt8
  | .dnsResponseFake ips domainName => ((inAddrs ips).map ipv4Mapped, dnsRecord domainName)
  | .dnsResponseDepA ipv4Addrs ipv6Addrs domainName =>
    ((inAddrs ipv4Addrs).map ipv4Mapped ++ in6Addrs ipv6Addrs, dnsRecord domainName)
  | .findDnsForIp _ => ([], [])

/-! ### The cache -/

section Refresh

variable {κ ν : Type*} [DecidableEq κ] (SIZE : ℕ)

/-- `map_ip_to_domain` on the cache: the key leaves, a cache still full evicts its least
recently used key, and the key comes back first with the value. -/
def refresh (A : AList fun _ : κ => ν) (k : κ) (v : ν) : AList fun _ : κ => ν :=
  let B := A.erase k
  (if B.keys.length = SIZE then evictLast B else B).insert k v

/-- Whether refreshing the keys in order with `v` meets no full cache: each key, once it has
left, leaves room for one more. -/
def refreshRoomy (v : ν) : (AList fun _ : κ => ν) → List κ → Bool
  | _, [] => true
  | A, k :: ks => (A.erase k).keys.length != SIZE && refreshRoomy v (refresh SIZE A k v) ks

variable {SIZE} {A : AList fun _ : κ => ν} {k : κ} {v : ν}

/-- A refresh that meets no full cache evicts nothing. -/
theorem refresh_of_room (hroom : (A.erase k).keys.length ≠ SIZE) :
    refresh SIZE A k v = (A.erase k).insert k v := by
  simp only [refresh, if_neg hroom]

/-- A refresh of a key that is not there is the cache's `insert` of it. -/
theorem refresh_of_not_mem (hk : k ∉ A.keys) : refresh SIZE A k v = (cache SIZE A (.insert k v)).2 := by
  rw [cache_insert_fresh hk]
  simp only [refresh, erase_of_not_mem hk]

theorem lookup_refresh_of_room (hroom : (A.erase k).keys.length ≠ SIZE) (a : κ) :
    (refresh SIZE A k v).lookup a = if a = k then some v else A.lookup a := by
  rw [refresh_of_room hroom]
  by_cases hak : a = k
  · subst hak
    rw [AList.lookup_insert, if_pos rfl]
  · rw [AList.lookup_insert_ne hak, AList.lookup_erase_ne hak, if_neg hak]

/-- Refreshing the keys of a list with one value, meeting no full cache, gives each of them the
value and changes no other key. -/
theorem lookup_foldl_refresh_of_roomy {ks : List κ} (hroom : refreshRoomy SIZE v A ks = true)
    (a : κ) :
    (ks.foldl (fun A k => refresh SIZE A k v) A).lookup a = if a ∈ ks then some v else A.lookup a := by
  induction ks generalizing A with
  | nil => simp
  | cons k ks ih =>
    simp only [refreshRoomy, Bool.and_eq_true, bne_iff_ne, ne_eq] at hroom
    rw [List.foldl_cons, ih hroom.2, lookup_refresh_of_room hroom.1]
    by_cases haks : a ∈ ks
    · simp [haks]
    · by_cases hak : a = k <;> simp [haks, hak]

end Refresh

/-- What the calls do to the cache: a response refreshes its addresses with its record, a
lookup makes the address the most recent. -/
def dnsCache (SIZE : ℕ) (A : AList fun _ : IPv6Address => List UInt8) :
    DnsCall → Option (List UInt8) × AList fun _ : IPv6Address => List UInt8
  | .findDnsForIp addr =>
    match A.lookup addr with
    | none => (none, A)
    | some v => (some v, A.insert addr v)
  | c => (none, c.mapping.1.foldl (fun A a => refresh SIZE A a c.mapping.2) A)

/-- Whether a call evicts nothing: a lookup, or a response whose addresses meet no full
cache. -/
def dnsRoomy (SIZE : ℕ) (A : AList fun _ : IPv6Address => List UInt8) (c : DnsCall) : Bool :=
  refreshRoomy SIZE c.mapping.2 A c.mapping.1

/-- The record the last response of `calls` that names `addr` maps it to. -/
def lastMapped (calls : List DnsCall) (addr : IPv6Address) : Option (List UInt8) :=
  calls.foldl (fun o c => if addr ∈ c.mapping.1 then some c.mapping.2 else o) none

theorem lastMapped_append_singleton (calls : List DnsCall) (c : DnsCall) (addr : IPv6Address) :
    lastMapped (calls ++ [c]) addr =
      if addr ∈ c.mapping.1 then some c.mapping.2 else lastMapped calls addr := by
  simp only [lastMapped, List.foldl_append, List.foldl_cons, List.foldl_nil]

theorem dnsCache_of_response {SIZE : ℕ} (A : AList fun _ : IPv6Address => List UInt8)
    {c : DnsCall} (hc : ∀ a, c ≠ .findDnsForIp a) :
    dnsCache SIZE A c = (none, c.mapping.1.foldl (fun A a => refresh SIZE A a c.mapping.2) A) := by
  cases c with
  | findDnsForIp a => exact absurd rfl (hc a)
  | dnsResponseFake => rfl
  | dnsResponseDepA => rfl

/-- A lookup changes no record of the cache. -/
theorem lookup_dnsCache_find {SIZE : ℕ} (A : AList fun _ : IPv6Address => List UInt8)
    (b a : IPv6Address) : (dnsCache SIZE A (.findDnsForIp b)).2.lookup a = A.lookup a := by
  cases hv : A.lookup b with
  | none => simp [dnsCache, hv]
  | some v =>
    simp only [dnsCache, hv]
    by_cases hab : a = b
    · subst hab
      rw [AList.lookup_insert, hv]
    · exact AList.lookup_insert_ne hab

/-- While nothing is evicted, the cache holds for every address the record of the last response
that named it. -/
theorem lookup_of_roomy {SIZE : ℕ} (calls : List DnsCall)
    (hroom : allowedAll (dnsRoomy SIZE) (dnsCache SIZE) ∅ calls = true) (a : IPv6Address) :
    (exec (dnsCache SIZE) ∅ calls).2.lookup a = lastMapped calls a := by
  induction calls using List.reverseRecOn with
  | nil => simp [lastMapped]
  | append_singleton calls c ih =>
    rw [allowedAll_append, Bool.and_eq_true] at hroom
    have hc : dnsRoomy SIZE (exec (dnsCache SIZE) ∅ calls).2 c = true := by
      simpa [allowedAll] using hroom.2
    rw [exec_append, exec_cons, exec_nil, lastMapped_append_singleton, ← ih hroom.1]
    cases c with
    | findDnsForIp b =>
      rw [lookup_dnsCache_find]
      simp [DnsCall.mapping]
    | dnsResponseFake ips domainName => exact lookup_foldl_refresh_of_roomy hc a
    | dnsResponseDepA ipv4Addrs ipv6Addrs domainName => exact lookup_foldl_refresh_of_roomy hc a

/-! ### The abstraction -/

namespace AgentSpan

variable {SIZE es : ℕ} {repr : ValueType IPv6Address (List UInt8) → List UInt8}
  {A : AList fun _ : IPv6Address => List UInt8} {s : AgentSpan}

variable (SIZE es repr) in
/-- An `AgentSpan` holds the cache `A`, and has reported no failed insert. -/
structure Abs (s : AgentSpan) (A : AList fun _ : IPv6Address => List UInt8) : Prop where
  cache : Rel SIZE es repr s.ipToDomain A
  noFailure : s.failedInserts = 0

/-- A response maps its addresses in order. -/
theorem call_of_response {c : DnsCall} (hc : ∀ a, c ≠ .findDnsForIp a) :
    s.call SIZE es repr c =
      (c.mapping.1.foldlM (fun (s : AgentSpan) a => s.mapIpToDomain SIZE es repr a c.mapping.2)
        s).map fun s => (none, s) := by
  cases c with
  | findDnsForIp a => exact absurd rfl (hc a)
  | dnsResponseFake ips domainName =>
    simp [call, dnsResponseFake, mapIpsToDomain, DnsCall.mapping, List.foldlM_map]
  | dnsResponseDepA ipv4Addrs ipv6Addrs domainName =>
    simp [call, dnsResponseDepA, mapIpsToDomain, DnsCall.mapping, List.foldlM_append,
      List.foldlM_map]

/-- `find_dns_for_ip` finds what the cache holds. -/
theorem findDnsForIp_fst (h : Rel SIZE es repr s.ipToDomain A) (addr : IPv6Address) :
    (s.findDnsForIp SIZE addr).map Prod.fst = some (A.lookup addr) := by
  cases hv : A.lookup addr with
  | none => simp [findDnsForIp, h.find_absent (lookup_eq_none_iff.1 hv)]
  | some v =>
    obtain ⟨c', he, -⟩ := h.find_present hv
    simp [findDnsForIp, he]

section Calls

variable (hrepr : ∀ v, (repr v).length ≤ es)
include hrepr

/-- `map_ip_to_domain` of an address whose refresh evicts nothing refreshes it in the cache, and
its insert does not fail: after the `remove` the address is not there. -/
theorem mapIpToDomain_rel (h : Rel SIZE es repr s.ipToDomain A) (k : IPv6Address)
    (record : List UInt8) (hroom : (A.erase k).keys.length ≠ SIZE) :
    ∃ s', s.mapIpToDomain SIZE es repr k record = some s' ∧
      Rel SIZE es repr s'.ipToDomain (refresh SIZE A k record) ∧
      s'.failedInserts = s.failedInserts := by
  have hk : k ∉ (A.erase k).keys := by
    rw [AList.keys_erase]
    exact A.keys_nodup.not_mem_erase
  -- the insert into the cache without the address places it
  have hins : ∀ c₁, Rel SIZE es repr c₁ (A.erase k) → ∃ c', c₁.insert SIZE es repr readAddress k
      record = some (some record, c') ∧ Rel SIZE es repr c' (refresh SIZE A k record) := by
    intro c₁ hrel₁
    rw [refresh_of_room hroom]
    exact hrel₁.insert_of_room readAddress hrepr hk hroom record
  cases hv : A.lookup k with
  | none =>
    -- not found: nothing to remove
    have hkA := lookup_eq_none_iff.1 hv
    obtain ⟨c', he, hrel⟩ := hins s.ipToDomain (by rw [erase_of_not_mem hkA]; exact h)
    refine ⟨⟨c', s.failedInserts⟩, ?_, hrel, rfl⟩
    simp [mapIpToDomain, h.find_absent hkA, he]
  | some v =>
    -- found, which makes it the most recent, and removed
    obtain ⟨c₁, hfind, hrel₁⟩ := h.find_present hv
    obtain ⟨c₂, hremove, hrel₂⟩ := hrel₁.remove_present hrepr (k := k) (by simp [AList.keys_insert])
    rw [erase_insert] at hrel₂
    obtain ⟨c', he, hrel⟩ := hins c₂ hrel₂
    refine ⟨⟨c', s.failedInserts⟩, ?_, hrel, rfl⟩
    simp [mapIpToDomain, hfind, hremove, he]

/-- A run of `map_ip_to_domain` over a list of addresses that meets no full cache refreshes them
in order. -/
theorem foldlM_mapIpToDomain_rel (ks : List IPv6Address) (record : List UInt8) :
    ∀ {s : AgentSpan} {A : AList fun _ : IPv6Address => List UInt8},
      Rel SIZE es repr s.ipToDomain A → refreshRoomy SIZE record A ks = true →
      ∃ s', ks.foldlM (fun s a => s.mapIpToDomain SIZE es repr a record) s = some s' ∧
        Rel SIZE es repr s'.ipToDomain (ks.foldl (fun A a => refresh SIZE A a record) A) ∧
        s'.failedInserts = s.failedInserts := by
  induction ks with
  | nil => exact fun h _ => ⟨_, rfl, h, rfl⟩
  | cons k ks ih =>
    intro s A h hroom
    simp only [refreshRoomy, Bool.and_eq_true, bne_iff_ne, ne_eq] at hroom
    obtain ⟨s₁, he₁, hrel₁, hfail₁⟩ := mapIpToDomain_rel hrepr h k record hroom.1
    obtain ⟨s', he', hrel', hfail'⟩ := ih hrel₁ hroom.2
    refine ⟨s', ?_, hrel', hfail'.trans hfail₁⟩
    simp [List.foldlM_cons, he₁, he']

/-- One call that evicts nothing: the `AgentSpan` answers as the cache does and the abstraction
holds after it. -/
theorem call_sim (h : Abs SIZE es repr s A) (c : DnsCall) (hroom : dnsRoomy SIZE A c = true) :
    ∃ a s', s.call SIZE es repr c = some (a, s') ∧ a = (dnsCache SIZE A c).1 ∧
      Abs SIZE es repr s' (dnsCache SIZE A c).2 := by
  by_cases hc : ∀ a, c ≠ .findDnsForIp a
  · -- a response maps its addresses in order
    obtain ⟨s', he, hrel, hfail⟩ :=
      foldlM_mapIpToDomain_rel hrepr c.mapping.1 c.mapping.2 h.cache hroom
    rw [dnsCache_of_response A hc]
    exact ⟨none, s', by simp only [call_of_response hc, he, Option.map_some], rfl, hrel,
      hfail.trans h.noFailure⟩
  · -- a lookup
    obtain ⟨addr, haddr⟩ := not_forall.1 hc
    obtain rfl := not_not.1 haddr
    cases hv : A.lookup addr with
    | none =>
      have he := h.cache.find_absent (lookup_eq_none_iff.1 hv)
      have hspec : dnsCache SIZE A (.findDnsForIp addr) = (none, A) := by simp [dnsCache, hv]
      rw [hspec]
      exact ⟨none, s, by simp [call, findDnsForIp, he], rfl, h⟩
    | some v =>
      obtain ⟨c', he, hrel⟩ := h.cache.find_present hv
      have hspec : dnsCache SIZE A (.findDnsForIp addr) = (some v, A.insert addr v) := by
        simp [dnsCache, hv]
      rw [hspec]
      exact ⟨some v, ⟨c', s.failedInserts⟩, by simp [call, findDnsForIp, he], rfl, hrel,
        h.noFailure⟩

end Calls

/-! ### Along a run -/

section Run

variable {s₀ : AgentSpan} (hfits : SIZE * es ≤ 2 ^ 32) (hrepr : ∀ v, (repr v).length ≤ es)
include hfits hrepr

/-- Every run from a new `AgentSpan` that evicts nothing returns the cache's answers and keeps
the `AgentSpan` abstracted by the cache's state. -/
theorem abs_execOpt (h₀ : s₀.Init SIZE es) (calls : List DnsCall)
    (hroom : allowedAll (dnsRoomy SIZE) (dnsCache SIZE) ∅ calls = true) :
    ∃ as s, execOpt (call SIZE es repr) s₀ calls = some (as, s) ∧
      as = (exec (dnsCache SIZE) ∅ calls).1 ∧ Abs SIZE es repr s (exec (dnsCache SIZE) ∅ calls).2 := by
  obtain ⟨as, s, he, has, habs⟩ := execOpt_sim id (Abs SIZE es repr) (dnsRoomy SIZE)
    (fun _ _ c hc h => call_sim hrepr h c hc) calls s₀ ∅ hroom ⟨Rel.init hfits h₀.1, h₀.2⟩
  exact ⟨as, s, he, by rw [← has, List.map_id], habs⟩

/-- **The DNS cache, while nothing is evicted.**  Along every sequence of DNS responses and
lookups from a new `AgentSpan` in which no response inserts an address into a full cache, every
call returns, with the answer of `dnsCache`, `failed_to_insert_dns_record` is never reported,
and `find_dns_for_ip` finds for every address the record of the last response that named it,
and `nullopt` for an address no response named. -/
theorem find_latest_of_room (h₀ : s₀.Init SIZE es) (calls : List DnsCall)
    (hroom : allowedAll (dnsRoomy SIZE) (dnsCache SIZE) ∅ calls = true) :
    ∃ as s, execOpt (call SIZE es repr) s₀ calls = some (as, s) ∧
      as = (exec (dnsCache SIZE) ∅ calls).1 ∧ s.failedInserts = 0 ∧
      ∀ addr, (s.findDnsForIp SIZE addr).map Prod.fst = some (lastMapped calls addr) := by
  obtain ⟨as, s, he, has, habs⟩ := abs_execOpt hfits hrepr h₀ calls hroom
  refine ⟨as, s, he, has, habs.noFailure, fun addr => ?_⟩
  rw [← lookup_of_roomy calls hroom addr]
  exact findDnsForIp_fst habs.cache addr

end Run

/-- A cache of two entries of sixteen bytes: a response naming `1.2.3.4` and `5.6.7.8`, a
lookup, and a response naming `1.2.3.4` again with another domain. -/
theorem find_latest_of_room_two_responses :
    ∃ as s, execOpt (call 2 16 fun e => e.key.bytes) (new 2 16 fun _ => 0)
        [.dnsResponseFake [1, 2, 3, 4, 5, 6, 7, 8] [97], .findDnsForIp (ipv4Mapped 67305985),
          .dnsResponseFake [1, 2, 3, 4] [98]] = some (as, s) ∧
      as = (exec (dnsCache 2) ∅ [.dnsResponseFake [1, 2, 3, 4, 5, 6, 7, 8] [97],
        .findDnsForIp (ipv4Mapped 67305985), .dnsResponseFake [1, 2, 3, 4] [98]]).1 ∧
      s.failedInserts = 0 ∧
      ∀ addr, (s.findDnsForIp 2 addr).map Prod.fst =
        some (lastMapped [.dnsResponseFake [1, 2, 3, 4, 5, 6, 7, 8] [97],
          .findDnsForIp (ipv4Mapped 67305985), .dnsResponseFake [1, 2, 3, 4] [98]] addr) :=
  find_latest_of_room (by decide : 2 * 16 ≤ 2 ^ 32) (fun e => e.key.length_bytes.le)
    (init_new 2 16 _ (by decide) (by decide) (by decide) (by decide)) _ (by decide)

/-! ### The eviction -/

/-- **A lookup finds an evicted address.**  Let the cache of an `AgentSpan` be full, with `k₀`
its least recently used address, and let none of its addresses begin with the bytes
`ff ff ff ff`, as no IPv4-mapped address does.  A response naming one new address `k` evicts
`k₀` from the cache, but `LRU::insert` erases the key read from `k₀`'s freed element, whose
first four bytes `pool_allocator_free` has overwritten with `~0`: `k₀` stays in the map and
names the element that `k` takes, and `find_dns_for_ip(k₀)` returns the record of `k`. -/
theorem find_evicted_of_full (hrepr : ∀ v, (repr v).length ≤ es)
    (hlayout : ∀ e, ∃ ys, repr e = e.key.bytes ++ ys) (h : Rel SIZE es repr s.ipToDomain A)
    (hfull : A.keys.length = SIZE) {k₀ : IPv6Address} (hl : A.keys.getLast? = some k₀)
    (hff : ∀ a ∈ A.keys, a.bytes.take 4 ≠ leBytes 4 (2 ^ 32 - 1)) {c : DnsCall}
    {k : IPv6Address} (hc : c.mapping.1 = [k]) (hk : k ∉ A.keys) :
    k₀ ∉ (dnsCache SIZE A c).2.keys ∧
      ∃ s', s.call SIZE es repr c = some (none, s') ∧
        (s'.findDnsForIp SIZE k₀).map Prod.fst = some (some c.mapping.2) := by
  have hresp : ∀ a, c ≠ .findDnsForIp a := by
    rintro a rfl
    simp [DnsCall.mapping] at hc
  obtain ⟨v₀, hv₀⟩ := Option.ne_none_iff_exists'.1 (lookup_ne_none_iff.2 (List.mem_of_getLast? hl))
  obtain ⟨ys, hys⟩ := hlayout ⟨k₀, v₀⟩
  -- the key is read from the address at the start of the element, and the link's bytes
  -- begin no address of the cache
  have hreads : ∀ xs, readAddress (repr ⟨k₀, v₀⟩ ++ xs) = k₀ := fun xs => by
    rw [hys, List.append_assoc, readAddress_append]
  have hstale : ∀ xs, readAddress (leBytes 4 (2 ^ 32 - 1) ++ (repr ⟨k₀, v₀⟩ ++ xs).drop 4) ∉
      A.keys := fun xs hmem => hff _ hmem (take_readAddress _ _)
  obtain ⟨hgone, c', hins, -, hfind⟩ := insert_keeps_evicted readAddress hrepr h
    (h.full_iff.2 hfull) hl hv₀ hreads hstale hk c.mapping.2
  -- the response maps its one address: not found, then inserted
  have hmap : s.mapIpToDomain SIZE es repr k c.mapping.2 = some ⟨c', s.failedInserts⟩ := by
    simp [mapIpToDomain, h.find_absent hk, hins]
  refine ⟨?_, ⟨c', s.failedInserts⟩, ?_, ?_⟩
  · rw [dnsCache_of_response A hresp, hc, List.foldl_cons, List.foldl_nil, refresh_of_not_mem hk]
    exact hgone
  · rw [call_of_response hresp, hc]
    simp [hmap]
  · simpa [findDnsForIp] using hfind

/-- A cache of two entries of sixteen bytes: after the responses naming `1.1.1.1` and `2.2.2.2`,
a response naming `3.3.3.3` evicts `::ffff:1.1.1.1` from the cache, and `find_dns_for_ip` of it
returns the record of `3.3.3.3`'s domain. -/
theorem find_evicted_of_full_three_responses :
    ∃ as s, execOpt (call 2 16 fun e => e.key.bytes) (new 2 16 fun _ => 0)
        [.dnsResponseFake [1, 1, 1, 1] [97], .dnsResponseFake [2, 2, 2, 2] [98]] = some (as, s) ∧
      ipv4Mapped 16843009 ∉ (dnsCache 2 (exec (dnsCache 2) ∅
        [.dnsResponseFake [1, 1, 1, 1] [97], .dnsResponseFake [2, 2, 2, 2] [98]]).2
          (.dnsResponseFake [3, 3, 3, 3] [99])).2.keys ∧
      ∃ s', s.call 2 16 (fun e => e.key.bytes) (.dnsResponseFake [3, 3, 3, 3] [99]) =
          some (none, s') ∧
        (s'.findDnsForIp 2 (ipv4Mapped 16843009)).map Prod.fst =
          some (some (DnsCall.dnsResponseFake [3, 3, 3, 3] [99]).mapping.2) := by
  have hrepr : ∀ e : ValueType IPv6Address (List UInt8), e.key.bytes.length ≤ 16 :=
    fun e => e.key.length_bytes.le
  obtain ⟨as, s, he, -, habs⟩ := abs_execOpt (by decide : 2 * 16 ≤ 2 ^ 32) hrepr
    (init_new 2 16 (fun _ => 0) (by decide) (by decide) (by decide) (by decide))
    [.dnsResponseFake [1, 1, 1, 1] [97], .dnsResponseFake [2, 2, 2, 2] [98]] (by decide)
  have hl : (exec (dnsCache 2) ∅ [.dnsResponseFake [1, 1, 1, 1] [97],
      .dnsResponseFake [2, 2, 2, 2] [98]]).2.keys.getLast? = some (ipv4Mapped 16843009) := by
    decide
  have hc : (DnsCall.dnsResponseFake [3, 3, 3, 3] [99]).mapping.1 = [ipv4Mapped 50529027] := by
    decide
  exact ⟨as, s, he, find_evicted_of_full hrepr (fun e => ⟨[], (List.append_nil _).symm⟩)
    habs.cache (by decide) hl (by decide) hc (by decide)⟩

end AgentSpan

end Reducer

end OtelEbpf
