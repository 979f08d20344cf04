import Mathlib
import OtelEbpf.Dns.Name
import OtelEbpf.Lib.Bytes

/-!
# Parsing DNS queries and A/AAAA replies

`ares_parse_query.c` and `ares_parse_a_aaaa_reply.c` read a DNS message `abuf` that the
collector captured: the header, the question's name and fields, and in a reply every answer
record, each name through `dns_expand_name_maxlen`.  Every read of the message is checked
(`none` is a read outside it).  What the parsers write goes into memories: the caller's
question or hostname buffer and address arrays, and the reply parser's own `rr_name` and
`rr_data`, all of them given with arbitrary contents.

`dnsParseQuery_safe` and `dnsParseAAaaaReply_safe` prove that for every message the parsers
end without reading outside it, and write nothing past the `DNS_NAME_MAX_LENGTH` bytes of a
name buffer or past the caller's `*num_in_addrs` / `*num_in6_addrs` entries of an address
array (`ReplyMem.Frame`).  Both rest on `dnsExpandNameMaxlen_written`: a name buffer receives
at most `DNS_NAME_MAX_LENGTH` bytes, a NUL among them, which is also what lets `strcasecmp`
read the names it compares.  `dns_decoding_bounded` gathers what these two modules prove of
the decoder.

The field macros of `ares_dns.h` are those of c-ares: big-endian fields at fixed offsets.
-/

namespace OtelEbpf

namespace Dns

/-! ### Constants of `c_ares_nameser.h` -/

/-- `HFIXEDSZ`: the header. -/
def HFIXEDSZ : ℕ := 12
/-- `QFIXEDSZ`: the type and class after a question's name. -/
def QFIXEDSZ : ℕ := 4
/-- `RRFIXEDSZ`: type, class, TTL and data length after a record's name. -/
def RRFIXEDSZ : ℕ := 10
/-- `ns_c_in` (`C_IN`): the Internet class. -/
def C_IN : ℕ := 1
/-- `T_A`: an IPv4 address. -/
def T_A : ℕ := 1
/-- `T_CNAME`: a canonical name. -/
def T_CNAME : ℕ := 5
/-- `T_AAAA`: an IPv6 address. -/
def T_AAAA : ℕ := 28

/-! ### Reading the message -/

/-- `DNS__16BIT`: the big-endian 16-bit field at `p`. -/
def dns16bit (abuf : List UInt8) (p : ℕ) : Option ℕ :=
  match abuf[p]?, abuf[p + 1]? with
  | some hi, some lo => some (hi.toNat <<< 8 ||| lo.toNat)
  | _, _ => none

/-- `DNS__32BIT`: the big-endian 32-bit field at `p`. -/
def dns32bit (abuf : List UInt8) (p : ℕ) : Option ℕ :=
  match dns16bit abuf p, dns16bit abuf (p + 2) with
  | some hi, some lo => some (hi <<< 16 ||| lo)
  | _, _ => none

/-- `DNS_HEADER_QR`: the top bit of the third byte, set in a response. -/
def dnsHeaderQr (abuf : List UInt8) : Option ℕ :=
  abuf[2]?.map fun b : UInt8 => ((b >>> 7) &&& 1).toNat

/-- A `memcpy` out of the message: the `n` bytes at `p`. -/
def readBytes (abuf : List UInt8) (p n : ℕ) : Option (List UInt8) :=
  if p + n ≤ abuf.length then some ((abuf.drop p).take n) else none

variable {abuf : List UInt8}

theorem dns16bit_isSome (abuf : List UInt8) (p : ℕ) (h : p + 2 ≤ abuf.length) : ∃ v, dns16bit abuf p = some v := by
  rw [dns16bit, List.getElem?_eq_getElem (by omega), List.getElem?_eq_getElem (by omega)]
  exact ⟨_, rfl⟩

theorem dns32bit_isSome (abuf : List UInt8) (p : ℕ) (h : p + 4 ≤ abuf.length) : ∃ v, dns32bit abuf p = some v := by
  obtain ⟨hi, hhi⟩ := dns16bit_isSome abuf p (by omega)
  obtain ⟨lo, hlo⟩ := dns16bit_isSome abuf (p + 2) (by omega)
  rw [dns32bit, hhi, hlo]
  exact ⟨_, rfl⟩

theorem dnsHeaderQr_isSome (h : HFIXEDSZ ≤ abuf.length) : ∃ v, dnsHeaderQr abuf = some v := by
  rw [dnsHeaderQr, List.getElem?_eq_getElem (by unfold HFIXEDSZ at h; omega)]
  exact ⟨_, rfl⟩

/-! ### Names in memory -/

/-- The NUL-terminated string in a name buffer of `DNS_NAME_MAX_LENGTH` bytes, or `none` when
the buffer holds no NUL and reading the string would run past its end. -/
def cStr (buf : ℕ → UInt8) : Option (List UInt8) :=
  if 0 ∈ Bytes.copyOut buf 0 DNS_NAME_MAX_LENGTH.toNat then
    some ((Bytes.copyOut buf 0 DNS_NAME_MAX_LENGTH.toNat).takeWhile (· != 0))
  else none

/-- `tolower` in the C locale. -/
def toLower (c : UInt8) : UInt8 := if 65 ≤ c.toNat ∧ c.toNat ≤ 90 then c + 32 else c

/-- `strcasecmp(a, b) == 0` on two name buffers. -/
def strcasecmpEq (a b : ℕ → UInt8) : Option Bool :=
  match cStr a, cStr b with
  | some x, some y => some (x.map toLower == y.map toLower)
  | _, _ => none

/-- What `dns_expand_name_maxlen` writes into a name buffer, when it writes: at most
`DNS_NAME_MAX_LENGTH` bytes, a NUL among them. -/
theorem dnsExpandNameMaxlen_written (encoded : ℕ) (abuf : List UInt8) :
    (∃ e, dnsExpandNameMaxlen encoded abuf = some (.error e)) ∨
      ∃ name enclen len, dnsExpandNameMaxlen encoded abuf = some (.ok (name, enclen, len)) ∧
        name.length ≤ DNS_NAME_MAX_LENGTH.toNat ∧ 0 ∈ name := by
  rcases dnsExpandNameMaxlen_cases encoded abuf with ⟨e, he, -⟩ | ⟨labels, k, -, hmax, he⟩
  · exact .inl ⟨e, he⟩
  · refine .inr ⟨_, _, _, he, ?_, by simp⟩
    rw [List.length_append, List.length_singleton]
    unfold DNS_NAME_MAX_LENGTH at hmax ⊢
    omega

section
variable {name : List UInt8} (hlen : name.length ≤ DNS_NAME_MAX_LENGTH.toNat)
include hlen

/-- A name written into a buffer can be read back as a string. -/
theorem cStr_copyIn (buf : ℕ → UInt8) (h0 : 0 ∈ name) : ∃ str, cStr (Bytes.copyIn buf 0 name) = some str := by
  obtain ⟨m, hm⟩ : ∃ m, DNS_NAME_MAX_LENGTH.toNat = name.length + m := ⟨_, (Nat.add_sub_cancel' hlen).symm⟩
  have hmem : 0 ∈ Bytes.copyOut (Bytes.copyIn buf 0 name) 0 DNS_NAME_MAX_LENGTH.toNat := by
    rw [hm, Bytes.copyOut_add, Bytes.copyOut_copyIn_self]
    exact List.mem_append_left _ h0
  rw [cStr, if_pos hmem]
  exact ⟨_, rfl⟩

/-- A name written into a buffer leaves the bytes past `DNS_NAME_MAX_LENGTH` alone. -/
theorem copyIn_frame {buf buf₀ : ℕ → UInt8} (h : ∀ i, DNS_NAME_MAX_LENGTH.toNat ≤ i → buf i = buf₀ i) :
    ∀ i, DNS_NAME_MAX_LENGTH.toNat ≤ i → Bytes.copyIn buf 0 name i = buf₀ i := by
  intro i hi
  rw [Bytes.copyIn_of_le (by omega), h i hi]

end

theorem strcasecmpEq_isSome {a b : ℕ → UInt8} (ha : ∃ x, cStr a = some x) (hb : ∃ y, cStr b = some y) :
    ∃ v, strcasecmpEq a b = some v := by
  obtain ⟨x, hx⟩ := ha
  obtain ⟨y, hy⟩ := hb
  rw [strcasecmpEq, hx, hy]
  exact ⟨_, rfl⟩

/-! ### `dns_parse_query` -/

/-- What `dns_parse_query` hands back: its status, and what it wrote through its pointers
(`none` for one it did not write through). -/
structure QueryResult where
  status : ℤ
  isResponse : Option Bool
  qidOut : Option ℕ
  questionOut : ℕ → UInt8
  questionLen : Option ℤ
  typeOut : Option ℕ

/-- `dns_parse_query` from the question on, once the header is accepted. -/
def parseQuestion (abuf : List UInt8) (questionOut : ℕ → UInt8) (isResponse : Bool) (qid : ℕ) :
    Option QueryResult :=
  match dnsExpandNameMaxlen HFIXEDSZ abuf with
  | none => none
  | some (.error status) => some ⟨status, some isResponse, some qid, questionOut, none, none⟩
  | some (.ok (name, len, questionLen)) =>
    if abuf.length < HFIXEDSZ + len + QFIXEDSZ then
      some ⟨ARES_EBADQUERY, some isResponse, some qid, Bytes.copyIn questionOut 0 name,
        some questionLen, none⟩
    else
      match dns16bit abuf (HFIXEDSZ + len), dns16bit abuf (HFIXEDSZ + len + 2) with
      | some qType, some qClass =>
        -- reject anything that isn't an Internet query
        if qClass ≠ C_IN then
          some ⟨ARES_EBADQUERY, some isResponse, some qid, Bytes.copyIn questionOut 0 name,
            some questionLen, none⟩
        else
          some ⟨ARES_SUCCESS, some isResponse, some qid, Bytes.copyIn questionOut 0 name,
            some questionLen, some qType⟩
      | _, _ => none

/-- `dns_parse_query`: a request or response with one question, its name in `question_out`. -/
def dnsParseQuery (abuf : List UInt8) (questionOut : ℕ → UInt8) : Option QueryResult :=
  if abuf.length < HFIXEDSZ then some ⟨ARES_EBADQUERY, none, none, questionOut, none, none⟩
  else
    match dnsHeaderQr abuf, dns16bit abuf 0, dns16bit abuf 4, dns16bit abuf 6, dns16bit abuf 8 with
    | some qr, some qid, some qdcount, some ancount, some nscount =>
      if qr = 0 then
        -- a request: a single question and nothing else
        if qdcount ≠ 1 ∨ ancount ≠ 0 ∨ nscount ≠ 0 then
          some ⟨ARES_EBADQUERY, none, none, questionOut, none, none⟩
        else parseQuestion abuf questionOut false qid
      else
        -- a response to a single question
        if qdcount ≠ 1 then some ⟨ARES_EBADQUERY, none, none, questionOut, none, none⟩
        else parseQuestion abuf questionOut true qid
    | _, _, _, _, _ => none

theorem parseQuestion_safe (abuf : List UInt8) (questionOut : ℕ → UInt8) (isResponse : Bool)
    (qid : ℕ) : ∃ r, parseQuestion abuf questionOut isResponse qid = some r ∧
      ∀ i, DNS_NAME_MAX_LENGTH.toNat ≤ i → r.questionOut i = questionOut i := by
  unfold parseQuestion
  rcases dnsExpandNameMaxlen_written HFIXEDSZ abuf with ⟨e, he⟩ | ⟨name, len, l, he, hlen, -⟩
  · rw [he]
    exact ⟨_, rfl, fun _ _ => rfl⟩
  rw [he]
  have hframe : ∀ i, DNS_NAME_MAX_LENGTH.toNat ≤ i → Bytes.copyIn questionOut 0 name i = questionOut i :=
    copyIn_frame hlen fun _ _ => rfl
  dsimp only
  split
  · exact ⟨_, rfl, hframe⟩
  -- the question's type and class lie inside the message
  obtain ⟨qType, hType⟩ := dns16bit_isSome abuf (HFIXEDSZ + len) (by unfold QFIXEDSZ at *; omega)
  obtain ⟨qClass, hClass⟩ := dns16bit_isSome abuf (HFIXEDSZ + len + 2) (by unfold QFIXEDSZ at *; omega)
  rw [hType, hClass]
  dsimp only
  split
  · exact ⟨_, rfl, hframe⟩
  · exact ⟨_, rfl, hframe⟩

/-- `dns_parse_query` ends without reading outside the message, and writes nothing past the
`DNS_NAME_MAX_LENGTH` bytes of `question_out`. -/
theorem dnsParseQuery_safe (abuf : List UInt8) (questionOut : ℕ → UInt8) :
    ∃ r, dnsParseQuery abuf questionOut = some r ∧
      ∀ i, DNS_NAME_MAX_LENGTH.toNat ≤ i → r.questionOut i = questionOut i := by
  unfold dnsParseQuery
  split
  · exact ⟨_, rfl, fun _ _ => rfl⟩
  rename_i hlen
  have hlen : HFIXEDSZ ≤ abuf.length := Nat.le_of_not_lt hlen
  have hfix : HFIXEDSZ = 12 := rfl
  obtain ⟨qr, hqr⟩ := dnsHeaderQr_isSome hlen
  obtain ⟨qid, hqid⟩ := dns16bit_isSome abuf 0 (by omega)
  obtain ⟨qd, hqd⟩ := dns16bit_isSome abuf 4 (by omega)
  obtain ⟨an, han⟩ := dns16bit_isSome abuf 6 (by omega)
  obtain ⟨ns, hns⟩ := dns16bit_isSome abuf 8 (by omega)
  rw [hqr, hqid, hqd, han, hns]
  dsimp only
  split
  · split
    · exact ⟨_, rfl, fun _ _ => rfl⟩
    · exact parseQuestion_safe abuf questionOut false qid
  · split
    · exact ⟨_, rfl, fun _ _ => rfl⟩
    · exact parseQuestion_safe abuf questionOut true qid

/-! ### `dns_parse_a_aaaa_reply` -/

/-- The memory `dns_parse_a_aaaa_reply` writes: the caller's `hostname_out`, `in_addrs_out`
and `in6_addrs_out`, and its own `rr_name` and `rr_data`. -/
structure ReplyMem where
  hostnameOut : ℕ → UInt8
  rrName : ℕ → UInt8
  rrData : ℕ → UInt8
  inAddrsOut : ℕ → List UInt8
  in6AddrsOut : ℕ → List UInt8

/-- The variables of the answer loop; `hostname` points to `rr_data` once a CNAME was read. -/
structure ReplyState where
  aptr : ℕ
  status : ℤ
  naddrs : ℕ
  n6addrs : ℕ
  naliases : ℕ
  hostnameIsRrData : Bool
  mem : ReplyMem

/-- The buffer `hostname` points to. -/
def ReplyState.hostname (s : ReplyState) : ℕ → UInt8 :=
  if s.hostnameIsRrData then s.mem.rrData else s.mem.hostnameOut

/-- The part the A and AAAA branches share, on the count `count` and array `out` of their
family: copy the `size` address bytes at `aptr` if the caller's array has room.  The inner
`none` is the bounds check that breaks the loop (it never fails: the record was checked). -/
def storeAddress (abuf : List UInt8) (size count : ℕ) (maxAddrs : ℤ) (out : ℕ → List UInt8)
    (aptr : ℕ) : Option (Option (ℕ → List UInt8)) :=
  if (count : ℤ) < maxAddrs then
    if abuf.length < aptr + size then some none
    else (readBytes abuf aptr size).map fun bytes => some (Function.update out count bytes)
  else some (some out)

/-- The A and AAAA branches of the loop body, for a record of type `rrType`, class `rrClass`
and `rrLen` data bytes at `s.aptr`; `false` is a `break`. -/
def addressRecord (abuf : List UInt8) (maxInAddrs maxIn6Addrs : ℤ) (rrType rrClass rrLen : ℕ)
    (s : ReplyState) : Option (ReplyState × Bool) :=
  match (if rrClass = C_IN ∧ rrType = T_A ∧ rrLen = 4 then strcasecmpEq s.mem.rrName s.hostname
      else some false) with
  | none => none
  | some true =>
    match storeAddress abuf 4 s.naddrs maxInAddrs s.mem.inAddrsOut s.aptr with
    | none => none
    | some none => some ({ s with status := ARES_EBADRESP }, false)
    | some (some out) =>
      some ({ s with
        naddrs := s.naddrs + 1, status := ARES_SUCCESS, mem := { s.mem with inAddrsOut := out } }, true)
  | some false =>
    match (if rrClass = C_IN ∧ rrType = T_AAAA ∧ rrLen = 16 then
        strcasecmpEq s.mem.rrName s.hostname else some false) with
    | none => none
    | some true =>
      match storeAddress abuf 16 s.n6addrs maxIn6Addrs s.mem.in6AddrsOut s.aptr with
      | none => none
      | some none => some ({ s with status := ARES_EBADRESP }, false)
      | some (some out) =>
        some ({ s with
          n6addrs := s.n6addrs + 1, status := ARES_SUCCESS, mem := { s.mem with in6AddrsOut := out } },
          true)
    | some false => some (s, true)

/-- The CNAME branch of the loop body: the record's data becomes the hostname. -/
def aliasRecord (abuf : List UInt8) (rrType rrClass : ℕ) (s : ReplyState) :
    Option (ReplyState × Bool) :=
  if rrClass = C_IN ∧ rrType = T_CNAME then
    match dnsExpandNameMaxlen s.aptr abuf with
    | none => none
    | some (.error status) => some ({ s with naliases := s.naliases + 1, status := status }, false)
    | some (.ok (name, _, _)) =>
      some ({ s with
        naliases := s.naliases + 1, status := ARES_SUCCESS, hostnameIsRrData := true
        mem := { s.mem with rrData := Bytes.copyIn s.mem.rrData 0 name } }, true)
  else some (s, true)

/-- The fixed fields of a record at `p`: type, class and data length.  The TTL is read as
well; the CNAME TTL it goes into is not returned. -/
def rrFixed (abuf : List UInt8) (p : ℕ) : Option (ℕ × ℕ × ℕ) :=
  match dns16bit abuf p, dns16bit abuf (p + 2), dns16bit abuf (p + 8), dns32bit abuf (p + 4) with
  | some rrType, some rrClass, some rrLen, some _ => some (rrType, rrClass, rrLen)
  | _, _, _, _ => none

/-- The loop body after a record's fixed fields: the A and AAAA branches, the CNAME branch,
and the step over the record's data. -/
def recordData (abuf : List UInt8) (maxInAddrs maxIn6Addrs : ℤ) (rrType rrClass rrLen : ℕ)
    (s : ReplyState) : Option (ReplyState × Bool) :=
  match addressRecord abuf maxInAddrs maxIn6Addrs rrType rrClass rrLen s with
  | some (s, true) =>
    match aliasRecord abuf rrType rrClass s with
    | some (s, true) =>
      if abuf.length < s.aptr + rrLen then
        some ({ s with aptr := s.aptr + rrLen, status := ARES_EBADRESP }, false)
      else some ({ s with aptr := s.aptr + rrLen }, true)
    | o => o
  | o => o

/-- One pass of the answer loop over the record at `s.aptr`; `false` is a `break`. -/
def answer (abuf : List UInt8) (maxInAddrs maxIn6Addrs : ℤ) (s : ReplyState) :
    Option (ReplyState × Bool) :=
  -- decode the record up to its data
  match dnsExpandNameMaxlen s.aptr abuf with
  | none => none
  | some (.error status) => some ({ s with status := status }, false)
  | some (.ok (name, len, _)) =>
    let s := { s with
      aptr := s.aptr + len, status := ARES_SUCCESS
      mem := { s.mem with rrName := Bytes.copyIn s.mem.rrName 0 name } }
    if abuf.length < s.aptr + RRFIXEDSZ then some ({ s with status := ARES_EBADRESP }, false)
    else
      match rrFixed abuf s.aptr with
      | none => none
      | some (rrType, rrClass, rrLen) =>
        let s := { s with aptr := s.aptr + RRFIXEDSZ }
        if abuf.length < s.aptr + rrLen then some ({ s with status := ARES_EBADRESP }, false)
        else recordData abuf maxInAddrs maxIn6Addrs rrType rrClass rrLen s

/-- The answer loop over `ancount` records. -/
def answerLoop (abuf : List UInt8) (maxInAddrs maxIn6Addrs : ℤ) : ℕ → ReplyState → Option ReplyState
  | 0, s => some s
  | ancount + 1, s =>
    match answer abuf maxInAddrs maxIn6Addrs s with
    | none => none
    | some (s, false) => some s
    | some (s, true) => answerLoop abuf maxInAddrs maxIn6Addrs ancount s

/-- What `dns_parse_a_aaaa_reply` hands back: its status, `*hostname_len` (`none` if not
written), the counts of addresses it reports, and the memory it wrote. -/
structure ReplyResult where
  status : ℤ
  hostnameLen : Option ℤ
  numInAddrs : ℤ
  numIn6Addrs : ℤ
  mem : ReplyMem

/-- `dns_parse_a_aaaa_reply`, with `*num_in_addrs = numInAddrs` and `*num_in6_addrs =
numIn6Addrs` on entry. -/
def dnsParseAAaaaReply (abuf : List UInt8) (mem : ReplyMem) (numInAddrs numIn6Addrs : ℤ) :
    Option ReplyResult :=
  -- the counts are set to zero for all failure cases
  if abuf.length < HFIXEDSZ then some ⟨ARES_EBADRESP, none, 0, 0, mem⟩
  else
    match dnsHeaderQr abuf, dns16bit abuf 4, dns16bit abuf 6 with
    | some qr, some qdcount, some ancount =>
      -- a response, to a single question
      if qr ≠ 1 ∨ qdcount ≠ 1 then some ⟨ARES_EBADRESP, none, 0, 0, mem⟩
      else
        match dnsExpandNameMaxlen HFIXEDSZ abuf with
        | none => none
        | some (.error status) => some ⟨status, none, 0, 0, mem⟩
        | some (.ok (name, len, hostnameLen)) =>
          let mem := { mem with hostnameOut := Bytes.copyIn mem.hostnameOut 0 name }
          if abuf.length < HFIXEDSZ + len + QFIXEDSZ then
            some ⟨ARES_EBADRESP, some hostnameLen, 0, 0, mem⟩
          else
            match answerLoop abuf numInAddrs numIn6Addrs ancount
                ⟨HFIXEDSZ + len + QFIXEDSZ, ARES_SUCCESS, 0, 0, 0, false, mem⟩ with
            | none => none
            | some s =>
              some ⟨if s.status = ARES_SUCCESS ∧ s.naddrs = 0 ∧ s.n6addrs = 0 ∧ s.naliases = 0 then
                  ARES_ENODATA else s.status,
                some hostnameLen,
                if (s.naddrs : ℤ) < numInAddrs then s.naddrs else numInAddrs,
                if (s.n6addrs : ℤ) < numIn6Addrs then s.n6addrs else numIn6Addrs,
                s.mem⟩
    | _, _, _ => none

/-! ### The reply parser writes only inside its buffers -/

/-- `mem` differs from `mem₀` only inside the `DNS_NAME_MAX_LENGTH` bytes of each name buffer
and the first `maxInAddrs` / `maxIn6Addrs` entries of the address arrays. -/
structure ReplyMem.Frame (mem₀ : ReplyMem) (maxInAddrs maxIn6Addrs : ℤ) (mem : ReplyMem) :
    Prop where
  hostnameOut : ∀ i, DNS_NAME_MAX_LENGTH.toNat ≤ i → mem.hostnameOut i = mem₀.hostnameOut i
  rrName : ∀ i, DNS_NAME_MAX_LENGTH.toNat ≤ i → mem.rrName i = mem₀.rrName i
  rrData : ∀ i, DNS_NAME_MAX_LENGTH.toNat ≤ i → mem.rrData i = mem₀.rrData i
  inAddrsOut : ∀ i : ℕ, maxInAddrs ≤ i → mem.inAddrsOut i = mem₀.inAddrsOut i
  in6AddrsOut : ∀ i : ℕ, maxIn6Addrs ≤ i → mem.in6AddrsOut i = mem₀.in6AddrsOut i

theorem ReplyMem.Frame.refl (mem : ReplyMem) (maxInAddrs maxIn6Addrs : ℤ) :
    ReplyMem.Frame mem maxInAddrs maxIn6Addrs mem :=
  ⟨fun _ _ => rfl, fun _ _ => rfl, fun _ _ => rfl, fun _ _ => rfl, fun _ _ => rfl⟩

/-- What holds at every pass of the answer loop: the writes so far are inside the buffers,
and the hostname can be read as a string. -/
structure ReplyInv (mem₀ : ReplyMem) (maxInAddrs maxIn6Addrs : ℤ) (s : ReplyState) : Prop where
  frame : ReplyMem.Frame mem₀ maxInAddrs maxIn6Addrs s.mem
  hostname : ∃ str, cStr s.hostname = some str

section
variable {mem₀ : ReplyMem} {maxInAddrs maxIn6Addrs : ℤ}

/-- Copying an address keeps the array's entries from `maxAddrs` on. -/
theorem storeAddress_spec (abuf : List UInt8) (size count : ℕ) {maxAddrs : ℤ}
    {out out₀ : ℕ → List UInt8} (aptr : ℕ) (hframe : ∀ i : ℕ, maxAddrs ≤ i → out i = out₀ i) :
    ∃ o, storeAddress abuf size count maxAddrs out aptr = some o ∧
      ∀ out', o = some out' → ∀ i : ℕ, maxAddrs ≤ i → out' i = out₀ i := by
  unfold storeAddress
  split
  · rename_i hroom
    split
    · exact ⟨_, rfl, fun _ h => by cases h⟩
    rw [readBytes, if_pos (by omega)]
    refine ⟨_, rfl, fun out' h i hi => ?_⟩
    cases h
    have hne : i ≠ count := by omega
    rw [Function.update_of_ne hne, hframe i hi]
  · exact ⟨_, rfl, fun out' h => by cases h; exact hframe⟩

/-- The A and AAAA branches read the two names they compare, and write only inside the
caller's arrays. -/
theorem addressRecord_spec (abuf : List UInt8) (rrType rrClass rrLen : ℕ) {s : ReplyState}
    (hi : ReplyInv mem₀ maxInAddrs maxIn6Addrs s) (hname : ∃ str, cStr s.mem.rrName = some str) :
    ∃ o, addressRecord abuf maxInAddrs maxIn6Addrs rrType rrClass rrLen s = some o ∧
      ReplyInv mem₀ maxInAddrs maxIn6Addrs o.1 := by
  have hcmp := strcasecmpEq_isSome hname hi.hostname
  unfold addressRecord
  obtain ⟨isA, hA⟩ : ∃ v, (if rrClass = C_IN ∧ rrType = T_A ∧ rrLen = 4 then
      strcasecmpEq s.mem.rrName s.hostname else some false) = some v := by
    split
    · exact hcmp
    · exact ⟨_, rfl⟩
  rw [hA]
  cases isA with
  | true =>
    obtain ⟨o, ho, hout⟩ := storeAddress_spec abuf 4 s.naddrs s.aptr hi.frame.inAddrsOut
    rw [ho]
    rcases o with _ | out
    · exact ⟨_, rfl, hi.frame, hi.hostname⟩
    · exact ⟨_, rfl, { hi.frame with inAddrsOut := hout out rfl }, hi.hostname⟩
  | false =>
    obtain ⟨isAAAA, hAAAA⟩ : ∃ v, (if rrClass = C_IN ∧ rrType = T_AAAA ∧ rrLen = 16 then
        strcasecmpEq s.mem.rrName s.hostname else some false) = some v := by
      split
      · exact hcmp
      · exact ⟨_, rfl⟩
    rw [hAAAA]
    cases isAAAA with
    | true =>
      obtain ⟨o, ho, hout⟩ := storeAddress_spec abuf 16 s.n6addrs s.aptr hi.frame.in6AddrsOut
      rw [ho]
      rcases o with _ | out
      · exact ⟨_, rfl, hi.frame, hi.hostname⟩
      · exact ⟨_, rfl, { hi.frame with in6AddrsOut := hout out rfl }, hi.hostname⟩
    | false => exact ⟨_, rfl, hi⟩

/-- The CNAME branch writes its name inside `rr_data`, which then holds a string. -/
theorem aliasRecord_spec (abuf : List UInt8) (rrType rrClass : ℕ) {s : ReplyState}
    (hi : ReplyInv mem₀ maxInAddrs maxIn6Addrs s) :
    ∃ o, aliasRecord abuf rrType rrClass s = some o ∧ ReplyInv mem₀ maxInAddrs maxIn6Addrs o.1 := by
  unfold aliasRecord
  split
  · rcases dnsExpandNameMaxlen_written s.aptr abuf with ⟨e, he⟩ | ⟨name, len, l, he, hlen, h0⟩
    · rw [he]
      exact ⟨_, rfl, hi.frame, hi.hostname⟩
    · rw [he]
      exact ⟨_, rfl, { hi.frame with rrData := copyIn_frame hlen hi.frame.rrData },
        cStr_copyIn hlen _ h0⟩
  · exact ⟨_, rfl, hi⟩

theorem rrFixed_isSome (abuf : List UInt8) (p : ℕ) (h : p + RRFIXEDSZ ≤ abuf.length) :
    ∃ f, rrFixed abuf p = some f := by
  have h10 : RRFIXEDSZ = 10 := rfl
  obtain ⟨t, ht⟩ := dns16bit_isSome abuf p (by omega)
  obtain ⟨c, hc⟩ := dns16bit_isSome abuf (p + 2) (by omega)
  obtain ⟨l, hl⟩ := dns16bit_isSome abuf (p + 8) (by omega)
  obtain ⟨ttl, httl⟩ := dns32bit_isSome abuf (p + 4) (by omega)
  rw [rrFixed, ht, hc, hl, httl]
  exact ⟨_, rfl⟩

/-- The loop body after the fixed fields reads only inside the message and keeps
`ReplyInv`, once the record's name is in `rr_name`. -/
theorem recordData_spec (abuf : List UInt8) (rrType rrClass rrLen : ℕ) {s : ReplyState}
    (hi : ReplyInv mem₀ maxInAddrs maxIn6Addrs s) (hname : ∃ str, cStr s.mem.rrName = some str) :
    ∃ o, recordData abuf maxInAddrs maxIn6Addrs rrType rrClass rrLen s = some o ∧
      ReplyInv mem₀ maxInAddrs maxIn6Addrs o.1 := by
  unfold recordData
  obtain ⟨⟨s₁, more₁⟩, ho₁, hi₁⟩ := addressRecord_spec abuf rrType rrClass rrLen hi hname
  rw [ho₁]
  cases more₁ with
  | false => exact ⟨_, rfl, hi₁⟩
  | true =>
    obtain ⟨⟨s₂, more₂⟩, ho₂, hi₂⟩ := aliasRecord_spec abuf rrType rrClass hi₁
    dsimp only
    rw [ho₂]
    cases more₂ with
    | false => exact ⟨_, rfl, hi₂⟩
    | true =>
      dsimp only
      split
      · exact ⟨_, rfl, hi₂.frame, hi₂.hostname⟩
      · exact ⟨_, rfl, hi₂.frame, hi₂.hostname⟩

/-- One pass of the answer loop reads only inside the message and keeps `ReplyInv`. -/
theorem answer_spec (abuf : List UInt8) {s : ReplyState} (hi : ReplyInv mem₀ maxInAddrs maxIn6Addrs s) :
    ∃ o, answer abuf maxInAddrs maxIn6Addrs s = some o ∧ ReplyInv mem₀ maxInAddrs maxIn6Addrs o.1 := by
  unfold answer
  rcases dnsExpandNameMaxlen_written s.aptr abuf with ⟨e, he⟩ | ⟨name, len, l, he, hlen, h0⟩
  · rw [he]
    exact ⟨_, rfl, hi.frame, hi.hostname⟩
  rw [he]
  dsimp only
  -- the record's name is now in `rr_name`, where `strcasecmp` can read it
  have hframe : ReplyMem.Frame mem₀ maxInAddrs maxIn6Addrs
      { s.mem with rrName := Bytes.copyIn s.mem.rrName 0 name } :=
    { hi.frame with rrName := copyIn_frame hlen hi.frame.rrName }
  split
  · exact ⟨_, rfl, hframe, hi.hostname⟩
  obtain ⟨⟨rrType, rrClass, rrLen⟩, hf⟩ := rrFixed_isSome abuf (s.aptr + len) (by omega)
  rw [hf]
  dsimp only
  split
  · exact ⟨_, rfl, hframe, hi.hostname⟩
  · exact recordData_spec abuf rrType rrClass rrLen ⟨hframe, hi.hostname⟩ (cStr_copyIn hlen _ h0)

/-- The answer loop reads only inside the message and keeps `ReplyInv`, for every count. -/
theorem answerLoop_spec (abuf : List UInt8) :
    ∀ (ancount : ℕ) (s : ReplyState), ReplyInv mem₀ maxInAddrs maxIn6Addrs s →
      ∃ s', answerLoop abuf maxInAddrs maxIn6Addrs ancount s = some s' ∧
        ReplyInv mem₀ maxInAddrs maxIn6Addrs s'
  | 0, s, hi => ⟨s, rfl, hi⟩
  | ancount + 1, s, hi => by
    obtain ⟨⟨s₁, more⟩, ho, hi₁⟩ := answer_spec abuf hi
    rw [answerLoop, ho]
    cases more with
    | false => exact ⟨s₁, rfl, hi₁⟩
    | true => exact answerLoop_spec abuf ancount s₁ hi₁

end

/-- `dns_parse_a_aaaa_reply` ends without reading outside the message, and writes nothing past
the `DNS_NAME_MAX_LENGTH` bytes of `hostname_out`, `rr_name` and `rr_data`, nor past the
`*num_in_addrs` and `*num_in6_addrs` entries the caller provides. -/
theorem dnsParseAAaaaReply_safe (abuf : List UInt8) (mem : ReplyMem) (numInAddrs numIn6Addrs : ℤ) :
    ∃ r, dnsParseAAaaaReply abuf mem numInAddrs numIn6Addrs = some r ∧
      ReplyMem.Frame mem numInAddrs numIn6Addrs r.mem := by
  unfold dnsParseAAaaaReply
  split
  · exact ⟨_, rfl, .refl _ _ _⟩
  rename_i hlen
  have hlen : HFIXEDSZ ≤ abuf.length := Nat.le_of_not_lt hlen
  have hfix : HFIXEDSZ = 12 := rfl
  obtain ⟨qr, hqr⟩ := dnsHeaderQr_isSome hlen
  obtain ⟨qd, hqd⟩ := dns16bit_isSome abuf 4 (by omega)
  obtain ⟨an, han⟩ := dns16bit_isSome abuf 6 (by omega)
  rw [hqr, hqd, han]
  dsimp only
  split
  · exact ⟨_, rfl, .refl _ _ _⟩
  rcases dnsExpandNameMaxlen_written HFIXEDSZ abuf with ⟨e, he⟩ | ⟨name, len, l, he, hnlen, h0⟩
  · rw [he]
    exact ⟨_, rfl, .refl _ _ _⟩
  rw [he]
  dsimp only
  -- the question's name is in `hostname_out`, the hostname the answers are matched against
  have hframe : ReplyMem.Frame mem numInAddrs numIn6Addrs
      { mem with hostnameOut := Bytes.copyIn mem.hostnameOut 0 name } :=
    { ReplyMem.Frame.refl mem numInAddrs numIn6Addrs with
      hostnameOut := copyIn_frame hnlen fun _ _ => rfl }
  split
  · exact ⟨_, rfl, hframe⟩
  obtain ⟨s, hs, hi⟩ := answerLoop_spec abuf an
    ⟨HFIXEDSZ + len + QFIXEDSZ, ARES_SUCCESS, 0, 0, 0, false,
      { mem with hostnameOut := Bytes.copyIn mem.hostnameOut 0 name }⟩
    ⟨hframe, cStr_copyIn hnlen _ h0⟩
  rw [hs]
  exact ⟨_, rfl, hi.frame⟩

/-- DNS decoding is bounded and agrees with its length pass.  From every position inside a
message, `dns_name_length` ends without reading outside it, and every state of its loop has
followed at most `MAX_INDIRS` pointers.  When it returns `n ≥ 0` with `n + 1 ≤
DNS_NAME_MAX_LENGTH`, the position holds a name, and `dns_expand_name_maxlen` makes
`dns_expand_name` write its presentation, `n` characters, and a NUL, reading only inside the
message, with `*enclen` the bytes the name takes: through its first pointer, or through its
zero label.  The two parsers end without reading outside the message and write nothing past
their name buffers or the caller's address arrays. -/
theorem dns_decoding_bounded :
    (∀ (abuf : List UInt8) (encoded : ℕ), encoded < abuf.length →
      (∃ n, dnsNameLength encoded abuf = some n) ∧
        ∀ s, Loop.Reaches (lengthStep abuf) ⟨encoded, 0, 0⟩ s → s.indir ≤ MAX_INDIRS) ∧
    (∀ (abuf : List UInt8) (encoded : ℕ) (n : ℤ), abuf.length < 2 ^ 31 →
      dnsNameLength encoded abuf = some n → 0 ≤ n → n + 1 ≤ DNS_NAME_MAX_LENGTH →
      ∃ labels k, NameAt abuf encoded labels k ∧ ((presentation labels).length : ℤ) = n ∧
        dnsExpandNameMaxlen encoded abuf = some (.ok (presentation labels ++ [0], k, n))) ∧
    (∀ (abuf : List UInt8) (questionOut : ℕ → UInt8),
      ∃ r, dnsParseQuery abuf questionOut = some r ∧
        ∀ i, DNS_NAME_MAX_LENGTH.toNat ≤ i → r.questionOut i = questionOut i) ∧
    (∀ (abuf : List UInt8) (mem : ReplyMem) (numInAddrs numIn6Addrs : ℤ),
      ∃ r, dnsParseAAaaaReply abuf mem numInAddrs numIn6Addrs = some r ∧
        ReplyMem.Frame mem numInAddrs numIn6Addrs r.mem) := by
  refine ⟨fun abuf encoded h => ⟨dnsNameLength_isSome encoded abuf,
    fun s hs => (lengthReaches_inv h hs).indir_le⟩, ?_, dnsParseQuery_safe, dnsParseAAaaaReply_safe⟩
  intro abuf encoded n hsmall hn hpos hmax
  obtain ⟨labels, k, hname, rfl⟩ := nameAt_of_dnsNameLength hn hpos
  -- the name lies inside the message, so its length fits the `long` of `*enclen`
  have hk : aresxUztosl k = k := aresxUztosl_of_lt (by have := hname.add_le_length; omega)
  refine ⟨labels, k, hname, rfl, ?_⟩
  unfold dnsExpandNameMaxlen
  rw [hn, dnsExpandName_of_nameAt hn hpos hname, hk]
  dsimp only
  rw [if_neg (by omega), if_neg (by omega)]
  rfl

/-- The name `x.a\.c` at 5, its second label `a.c` reached through a pointer to 0. -/
theorem dns_decoding_bounded_pointer :
    ((∃ n, dnsNameLength 5 [3, 97, 46, 99, 0, 1, 120, 192, 0] = some n) ∧
      ∀ s, Loop.Reaches (lengthStep [3, 97, 46, 99, 0, 1, 120, 192, 0]) ⟨5, 0, 0⟩ s →
        s.indir ≤ MAX_INDIRS) ∧
    ∃ labels k, NameAt [3, 97, 46, 99, 0, 1, 120, 192, 0] 5 labels k ∧
      ((presentation labels).length : ℤ) = 6 ∧
      dnsExpandNameMaxlen 5 [3, 97, 46, 99, 0, 1, 120, 192, 0] =
        some (.ok (presentation labels ++ [0], k, 6)) :=
  ⟨dns_decoding_bounded.1 _ 5 (by decide),
    dns_decoding_bounded.2.1 _ 5 6 (by decide) (by decide) (by decide) (by decide)⟩

end Dns

end OtelEbpf
