import Mathlib.Data.List.Infix

/-!
# The cgroup name parser

`CGroupParser` (`util/cgroup_parser.cc`) reads a cgroup name to find the container, pod and
service it belongs to.  It tries five alternatives in turn, `parse_systemd`, `parse_cri`,
`parse_pod_id`, `parse_container_id` and `parse_service`, all sharing one read position
`read_head_` and one `CGroupInfo`; the result is valid when one of them succeeds.  The helpers
of `util/parser_utils.h` move the read position and append what they read to an output string.

The read position is the list of characters not yet read, and each output string a list of
characters.  Every method returns its `bool` and the parser after it.

* `parseContainerId_spec`, `parseUidGroups_spec`, `parsePodId_spec` : the container id is
  cleared when its 64 digits are not all there, but the pod id keeps the digits and separators
  read before `parse_uid` failed; one spec lemma per method says what it reads and writes.
* `parseSystemd_spec`, `parseCri_spec`, `parseCgroup_spec` : the alternatives, each from where
  the last one stopped.
* `containerId_cgroupParser` : a non-empty `container_id` is 64 hex digits that occur together
  in the name.
* `podId_cgroupParser` : a `pod_id` is a prefix of a canonical 8-4-4-4-12 UUID; it need not be
  the whole UUID.
* `cgroupParser_of_invalid` : an invalid result has no container id, QoS class or service.
* `pod_id_left_on_failure` : `pod1234` is invalid with pod id `1234`,
  `kubepods-besteffort-pod1234` valid with pod id `1234`, and `cri-containerd` invalid with
  runtime `containerd`.
-/

namespace OtelEbpf

namespace Util

/-- `is_hex_digit`: `isxdigit`. -/
def isHexDigit (c : Char) : Bool :=
  ('0' ≤ c && c ≤ '9') || ('a' ≤ c && c ≤ 'f') || ('A' ≤ c && c ≤ 'F')

namespace Parsing

/-! ### `parser_utils.h`, with the cursor as the characters not yet read -/

/-- `peek(cur, end, &c)`. -/
def peek (cur : List Char) : Option Char := cur.head?

/-- `lookahead(cur, end, s)`: the next characters are `s`. -/
def lookahead (cur s : List Char) : Bool :=
  if cur.length < s.length then false else s.isPrefixOf cur

/-- `consume(cur, end, n)`: stops at the end. -/
def consume (cur : List Char) (n : ℕ := 1) : List Char := cur.drop n

/-- `parse_match(cur, end, s, out)`: the cursor after `s` when `s` is next; the caller stores
`s`. -/
def parseMatch (cur s : List Char) : Option (List Char) :=
  if lookahead cur s then some (consume cur s.length) else none

/-- `parse_match(cur, end, pred, s)`: the next character and the cursor after it, when the
character satisfies `pred`. -/
def parseMatchPred (cur : List Char) (pred : Char → Bool) : Option (Char × List Char) :=
  match cur with
  | c :: rest => if pred c then some (c, rest) else none
  | [] => none

/-- `parse_token(cur, end, token, s)`: whether `token` was found, the cursor after it (or at the
end), and the characters stored, those before the token. -/
def parseToken : List Char → Char → Bool × List Char × List Char
  | [], _ => (false, [], [])
  | p :: cur, token =>
    if p = token then (true, cur, [])
    else
      let r := parseToken cur token
      (r.1, r.2.1, p :: r.2.2)

/-- `count` calls of `parse_match(cur, end, is_hex_digit, out)`, stopping at the first that fails:
whether all matched, the cursor, and the digits stored. -/
def parseHexDigits : ℕ → List Char → Bool × List Char × List Char
  | 0, cur => (true, cur, [])
  | n + 1, cur =>
    match parseMatchPred cur isHexDigit with
    | some (c, cur) =>
      let r := parseHexDigits n cur
      (r.1, r.2.1, c :: r.2.2)
    | none => (false, cur, [])

/-! ### What the helpers read -/

theorem parseMatch_eq_some {cur s cur' : List Char} (h : parseMatch cur s = some cur') :
    cur = s ++ cur' := by
  unfold parseMatch at h
  by_cases hla : lookahead cur s = true
  · rw [if_pos hla] at h
    cases h
    unfold lookahead at hla
    split at hla
    · cases hla
    · obtain ⟨t, rfl⟩ := List.isPrefixOf_iff_prefix.mp hla
      simp [consume]
  · rw [if_neg hla] at h
    cases h

theorem parseToken_suffix (cur : List Char) (token : Char) : (parseToken cur token).2.1 <:+ cur := by
  induction cur with
  | nil => exact List.suffix_refl []
  | cons p cur ih =>
    unfold parseToken
    split
    · exact List.suffix_cons p cur
    · exact ih.trans (List.suffix_cons p cur)

/-- `count` hex-digit matches: the digits stored are read from the cursor, at most `count` of
them, and all `count` exactly when every match succeeded. -/
theorem parseHexDigits_spec (n : ℕ) (cur : List Char) :
    cur = (parseHexDigits n cur).2.2 ++ (parseHexDigits n cur).2.1 ∧
      (∀ c ∈ (parseHexDigits n cur).2.2, isHexDigit c = true) ∧
      (parseHexDigits n cur).2.2.length ≤ n ∧
      ((parseHexDigits n cur).1 = true ↔ (parseHexDigits n cur).2.2.length = n) := by
  induction n generalizing cur with
  | zero => simp [parseHexDigits]
  | succ n ih =>
    cases cur with
    | nil => simp [parseHexDigits, parseMatchPred]
    | cons c cur =>
      by_cases hc : isHexDigit c = true
      · -- the digit is stored, and the rest of the matches are the shorter loop's
        obtain ⟨hcur, hhex, hlen, hok⟩ := ih cur
        simp only [parseHexDigits, parseMatchPred, if_pos hc, List.cons_append,
          List.mem_cons, forall_eq_or_imp, List.length_cons]
        exact ⟨congrArg (c :: ·) hcur, ⟨hc, hhex⟩, by omega, by rw [hok]; omega⟩
      · simp [parseHexDigits, parseMatchPred, hc]

theorem parseHexDigits_suffix (n : ℕ) (cur : List Char) : (parseHexDigits n cur).2.1 <:+ cur :=
  ⟨_, (parseHexDigits_spec n cur).1.symm⟩

theorem parseHexDigits_prefix (n : ℕ) (cur : List Char) : (parseHexDigits n cur).2.2 <+: cur :=
  ⟨_, (parseHexDigits_spec n cur).1.symm⟩

end Parsing

open Parsing

/-! ### Pod ids -/

/-- A canonical UUID: groups of 8, 4, 4, 4 and 12 hex digits joined by `-`. -/
def CanonicalUuid (u : List Char) : Prop :=
  ∃ g₁ g₂ g₃ g₄ g₅ : List Char,
    u = g₁ ++ '-' :: (g₂ ++ '-' :: (g₃ ++ '-' :: (g₄ ++ '-' :: g₅))) ∧
    g₁.length = 8 ∧ g₂.length = 4 ∧ g₃.length = 4 ∧ g₄.length = 4 ∧ g₅.length = 12 ∧
    ∀ c ∈ g₁ ++ g₂ ++ g₃ ++ g₄ ++ g₅, isHexDigit c = true

/-- What `parse_uid`'s loop appends when it succeeds on the group sizes `gs`: each group's hex
digits, followed by `-` unless the group's size is 12. -/
inductive UidGroups : List ℕ → List Char → Prop
  | nil : UidGroups [] []
  | cons {n : ℕ} {gs : List ℕ} {g rest : List Char} : g.length = n →
      (∀ c ∈ g, isHexDigit c = true) → UidGroups gs rest →
      UidGroups (n :: gs) (g ++ if n ≠ 12 then '-' :: rest else rest)

theorem uidGroups_exists : ∀ gs : List ℕ, ∃ u, UidGroups gs u
  | [] => ⟨[], .nil⟩
  | n :: gs =>
    have ⟨rest, h⟩ := uidGroups_exists gs
    ⟨_, .cons (g := List.replicate n '0') List.length_replicate
      (by simp [List.mem_replicate, isHexDigit]) h⟩

/-- On the group sizes of `parse_uid`, the groups are those of a canonical UUID. -/
theorem UidGroups.canonical {u : List Char} (h : UidGroups [8, 4, 4, 4, 12] u) :
    CanonicalUuid u := by
  cases h with
  | cons h₁ hx₁ h =>
  cases h with
  | cons h₂ hx₂ h =>
  cases h with
  | cons h₃ hx₃ h =>
  cases h with
  | cons h₄ hx₄ h =>
  cases h with
  | cons h₅ hx₅ h =>
  cases h
  refine ⟨_, _, _, _, _, by simp, h₁, h₂, h₃, h₄, h₅, ?_⟩
  simp only [List.mem_append]
  rintro c ((((hc | hc) | hc) | hc) | hc)
  exacts [hx₁ c hc, hx₂ c hc, hx₃ c hc, hx₄ c hc, hx₅ c hc]

/-- `struct CGroupInfo`. -/
structure CGroupInfo where
  containerId : List Char
  runtime : List Char
  podId : List Char
  qos : List Char
  service : List Char
  valid : Bool
  deriving DecidableEq, Repr

/-- A default `CGroupInfo`: empty strings, `valid = false`. -/
def CGroupInfo.empty : CGroupInfo := ⟨[], [], [], [], [], false⟩

/-- The members of a `CGroupParser`: the name, the read position, the info. -/
structure CGroupParser where
  cgroupName : List Char
  readHead : List Char
  info : CGroupInfo

namespace CGroupParser

/-! ### The methods -/

/-- `parse_container_id()`: the id is cleared when the 64 digits are not all there, but the
digits read stay read. -/
def parseContainerId (p : CGroupParser) : Bool × CGroupParser :=
  let r := parseHexDigits 64 p.readHead
  if r.1 then
    (true, { p with
      readHead := r.2.1
      info := { p.info with containerId := p.info.containerId ++ r.2.2 } })
  else (false, { p with readHead := r.2.1, info := { p.info with containerId := [] } })

/-- `parse_uid_group(count)`. -/
def parseUidGroup (count : ℕ) (p : CGroupParser) : Bool × CGroupParser :=
  let r := parseHexDigits count p.readHead
  (r.1, { p with readHead := r.2.1, info := { p.info with podId := p.info.podId ++ r.2.2 } })

/-- The loop of `parse_uid()` over the group sizes: after each group but the one of size 12, an
optional `-` or `_` is eaten and `-` appended. -/
def parseUidGroups : List ℕ → CGroupParser → Bool × CGroupParser
  | [], p => (true, p)
  | ii :: rest, p =>
    let r := parseUidGroup ii p
    if !r.1 then (false, r.2)
    else if ii ≠ 12 then
      match peek r.2.readHead with
      | none => (false, r.2)
      | some c =>
        let p := if c = '-' ∨ c = '_' then { r.2 with readHead := consume r.2.readHead } else r.2
        parseUidGroups rest { p with info := { p.info with podId := p.info.podId ++ ['-'] } }
    else parseUidGroups rest r.2

/-- `parse_uid()`. -/
def parseUid (p : CGroupParser) : Bool × CGroupParser := parseUidGroups [8, 4, 4, 4, 12] p

/-- `parse_pod_id()`. -/
def parsePodId (p : CGroupParser) : Bool × CGroupParser :=
  match parseMatch p.readHead "pod".toList with
  | some cur => parseUid { p with readHead := cur }
  | none => (false, p)

/-- `parse_service()`: reads the whole name, not from the read position. -/
def parseService (p : CGroupParser) : Bool × CGroupParser :=
  if ".service".toList.isSuffixOf p.cgroupName then
    (true, { p with
      info := { p.info with
        service := p.cgroupName.take (p.cgroupName.length - ".service".length) } })
  else (false, p)

/-- `parse_match(read_head_, end, s, &info_.qos)` of `parse_qos()`. -/
def matchQos (s : List Char) (p : CGroupParser) : Option CGroupParser :=
  (parseMatch p.readHead s).map fun cur =>
    { p with readHead := cur, info := { p.info with qos := p.info.qos ++ s } }

/-- `parse_qos()`. -/
def parseQos (p : CGroupParser) : Bool × CGroupParser :=
  match matchQos "guaranteed".toList p <|> matchQos "besteffort".toList p <|>
      matchQos "burstable".toList p with
  | some p => (true, p)
  | none => (false, p)

/-- `parse_runtime(token)`: the characters before `token` are stored even when it is not found. -/
def parseRuntime (token : Char) (p : CGroupParser) : Bool × CGroupParser :=
  let r := parseToken p.readHead token
  (r.1, { p with readHead := r.2.1, info := { p.info with runtime := p.info.runtime ++ r.2.2 } })

/-- `parse_token(read_head_, end, '-')`, its result ignored. -/
def skipToken (p : CGroupParser) : CGroupParser :=
  { p with readHead := (parseToken p.readHead '-').2.1 }

/-- `parse_systemd()`: after the QoS class the pod and the container are optional. -/
def parseSystemd (p : CGroupParser) : Bool × CGroupParser :=
  match parseMatch p.readHead "kubepods-".toList with
  | none => (false, p)
  | some cur =>
    let r := parseQos { p with readHead := cur }
    if !r.1 then (false, r.2)
    else
      let r := parsePodId (skipToken r.2)
      if !r.1 then (true, r.2)
      else
        let r := parseRuntime ':' (skipToken r.2)
        if !r.1 then (true, r.2)
        else
          let r := parseContainerId r.2
          if !r.1 then (true, r.2) else (true, r.2)

/-- `parse_cri()`. -/
def parseCri (p : CGroupParser) : Bool × CGroupParser :=
  match parseMatch p.readHead "cri-".toList with
  | none => (false, p)
  | some cur =>
    let r := parseRuntime '-' { p with readHead := cur }
    if !r.1 then (false, r.2)
    else
      let r := parseContainerId r.2
      if !r.1 then (false, r.2) else (true, r.2)

/-- `parse_cgroup()`: the alternatives in turn, each from where the last one stopped. -/
def parseCgroup (p : CGroupParser) : Bool × CGroupParser :=
  let r := parseSystemd p
  if r.1 then (true, r.2)
  else
    let r := parseCri r.2
    if r.1 then (true, r.2)
    else
      let r := parsePodId r.2
      if r.1 then (true, r.2)
      else
        let r := parseContainerId r.2
        if r.1 then (true, r.2)
        else parseService r.2

/-! ### What each method reads and writes -/

/-- `p'` is `p` later in the same parse: the same name, the read position further on. -/
structure Advances (p p' : CGroupParser) : Prop where
  name : p'.cgroupName = p.cgroupName
  suffix : p'.readHead <:+ p.readHead

theorem Advances.refl (p : CGroupParser) : Advances p p := ⟨rfl, List.suffix_refl _⟩

theorem Advances.trans {p₁ p₂ p₃ : CGroupParser} (h₁ : Advances p₁ p₂) (h₂ : Advances p₂ p₃) :
    Advances p₁ p₃ :=
  ⟨h₂.name.trans h₁.name, h₂.suffix.trans h₁.suffix⟩

/-- A read position after a successful `parse_match`. -/
theorem advances_of_parseMatch (p : CGroupParser) {s cur : List Char}
    (h : parseMatch p.readHead s = some cur) : Advances p { p with readHead := cur } :=
  ⟨rfl, by rw [parseMatch_eq_some h]; exact List.suffix_append s cur⟩

/-- Writing the info alone. -/
theorem advances_info (p : CGroupParser) (i : CGroupInfo) : Advances p { p with info := i } :=
  ⟨rfl, List.suffix_refl _⟩

theorem skipToken_advances (p : CGroupParser) : Advances p (skipToken p) :=
  ⟨rfl, parseToken_suffix _ _⟩

/-- A container id is 64 hex digits. -/
def HexId (ds : List Char) : Prop := ds.length = 64 ∧ ∀ c ∈ ds, isHexDigit c = true

variable (p : CGroupParser)

/-- `parse_container_id()` succeeds with the 64 digits at the read position appended, or fails
with the id cleared; nothing else of the info changes. -/
theorem parseContainerId_spec :
    Advances p (parseContainerId p).2 ∧
      (∃ x, (parseContainerId p).2.info = { p.info with containerId := x }) ∧
      (((parseContainerId p).1 = true ∧ ∃ ds, HexId ds ∧ ds <+: p.readHead ∧
          (parseContainerId p).2.info.containerId = p.info.containerId ++ ds) ∨
        ((parseContainerId p).1 = false ∧ (parseContainerId p).2.info.containerId = [])) := by
  obtain ⟨-, hhex, -, hok⟩ := parseHexDigits_spec 64 p.readHead
  unfold parseContainerId
  by_cases h : (parseHexDigits 64 p.readHead).1 = true
  · rw [if_pos h]
    exact ⟨⟨rfl, parseHexDigits_suffix _ _⟩, ⟨_, rfl⟩,
      .inl ⟨rfl, _, ⟨hok.mp h, hhex⟩, parseHexDigits_prefix _ _, rfl⟩⟩
  · rw [if_neg h]
    exact ⟨⟨rfl, parseHexDigits_suffix _ _⟩, ⟨_, rfl⟩, .inr ⟨rfl, rfl⟩⟩

/-- The loop of `parse_uid()` appends to the pod id, and only to it, a prefix of the groups it
reads, all of them when it succeeds. -/
theorem parseUidGroups_spec (gs : List ℕ) :
    Advances p (parseUidGroups gs p).2 ∧
      ∃ a, (parseUidGroups gs p).2.info = { p.info with podId := p.info.podId ++ a } ∧
        (∃ u, UidGroups gs u ∧ a <+: u) ∧ ((parseUidGroups gs p).1 = true → UidGroups gs a) := by
  induction gs generalizing p with
  | nil => exact ⟨.refl p, [], by simp [parseUidGroups], ⟨[], .nil, List.prefix_refl _⟩, fun _ => .nil⟩
  | cons ii gs ih =>
    obtain ⟨-, hhex, hlen, hok⟩ := parseHexDigits_spec ii p.readHead
    set ds := (parseHexDigits ii p.readHead).2.2
    -- the group just read: `ds`, stored in the pod id
    have hadv : Advances p (parseUidGroup ii p).2 := ⟨rfl, parseHexDigits_suffix _ _⟩
    have hinfo : (parseUidGroup ii p).2.info = { p.info with podId := p.info.podId ++ ds } := rfl
    obtain ⟨u₀, hu₀⟩ := uidGroups_exists gs
    -- a group cut short is a prefix of itself padded with zeros
    have hpad : ∃ u, UidGroups (ii :: gs) u ∧ ds <+: u := by
      have hzero : isHexDigit '0' = true := by decide
      refine ⟨_, .cons (g := ds ++ List.replicate (ii - ds.length) '0') (by simp; omega)
        (fun c hc => ?_) hu₀, ?_⟩
      · rcases List.mem_append.mp hc with hc | hc
        · exact hhex c hc
        · rw [List.eq_of_mem_replicate hc]
          exact hzero
      rw [List.append_assoc]
      exact List.prefix_append _ _
    unfold parseUidGroups
    by_cases hr : (parseUidGroup ii p).1 = true
    · have hds : ds.length = ii := hok.mp hr
      simp only [hr, Bool.not_true, Bool.false_eq_true, if_false]
      by_cases h12 : ii ≠ 12
      · rw [if_pos h12]
        cases hpk : peek (parseUidGroup ii p).2.readHead with
        | none => exact ⟨hadv, ds, hinfo, hpad, fun h => absurd h (by simp)⟩
        | some c =>
          -- the separator, if any, is eaten, and `-` appended
          dsimp only
          set q := if c = '-' ∨ c = '_' then
            { (parseUidGroup ii p).2 with readHead := consume (parseUidGroup ii p).2.readHead }
            else (parseUidGroup ii p).2 with hq
          have hq₁ : Advances (parseUidGroup ii p).2 q ∧ q.info = (parseUidGroup ii p).2.info := by
            rw [hq]
            split
            · exact ⟨⟨rfl, List.drop_suffix _ _⟩, rfl⟩
            · exact ⟨.refl _, rfl⟩
          obtain ⟨hadv', a, hinfo', ⟨u, hu, hau⟩, hok'⟩ :=
            ih { q with info := { q.info with podId := q.info.podId ++ ['-'] } }
          dsimp only at hadv' hinfo' hok'
          refine ⟨hadv.trans (hq₁.1.trans ((advances_info q _).trans hadv')),
            ds ++ '-' :: a, ?_, ⟨ds ++ '-' :: u, ?_, ?_⟩, fun h => ?_⟩
          · rw [hinfo']
            simp only [hq₁.2, hinfo, List.append_assoc, List.singleton_append]
          · simpa [h12] using UidGroups.cons hds hhex hu
          · exact (List.prefix_append_right_inj ds).mpr (List.prefix_cons_inj '-' |>.mpr hau)
          · simpa [h12] using UidGroups.cons hds hhex (hok' h)
      · rw [if_neg h12]
        obtain ⟨hadv', a, hinfo', ⟨u, hu, hau⟩, hok'⟩ := ih (parseUidGroup ii p).2
        have hii : ii = 12 := not_not.mp h12
        refine ⟨hadv.trans hadv', ds ++ a, by rw [hinfo', hinfo]; simp, ⟨ds ++ u, ?_, ?_⟩,
          fun h => ?_⟩
        · simpa [h12] using UidGroups.cons hds hhex hu
        · exact List.prefix_append_right_inj ds |>.mpr hau
        · simpa [h12] using UidGroups.cons hds hhex (hok' h)
    · simp only [Bool.not_eq_true] at hr
      simp only [hr, Bool.not_false, if_true]
      exact ⟨hadv, ds, hinfo, hpad, fun h => absurd h (by simp)⟩

/-- `parse_pod_id()` appends to the pod id, and only to it, a prefix of a canonical UUID, the
whole UUID when it succeeds. -/
theorem parsePodId_spec :
    Advances p (parsePodId p).2 ∧
      ∃ a, (parsePodId p).2.info = { p.info with podId := p.info.podId ++ a } ∧
        (∃ u, CanonicalUuid u ∧ a <+: u) ∧ ((parsePodId p).1 = true → CanonicalUuid a) := by
  unfold parsePodId
  cases h : parseMatch p.readHead "pod".toList with
  | none =>
    obtain ⟨u, hu⟩ := uidGroups_exists [8, 4, 4, 4, 12]
    exact ⟨.refl p, [], by simp, ⟨u, hu.canonical, List.nil_prefix⟩, fun h => absurd h (by simp)⟩
  | some cur =>
    obtain ⟨hadv, a, hinfo, ⟨u, hu, hau⟩, hok⟩ :=
      parseUidGroups_spec { p with readHead := cur } [8, 4, 4, 4, 12]
    exact ⟨(advances_of_parseMatch p h).trans hadv, a, hinfo, ⟨u, hu.canonical, hau⟩,
      fun h => (hok h).canonical⟩

theorem matchQos_spec {s : List Char} {p' : CGroupParser} (h : matchQos s p = some p') :
    Advances p p' ∧ p'.info = { p.info with qos := p.info.qos ++ s } := by
  unfold matchQos at h
  cases hm : parseMatch p.readHead s with
  | none => simp [hm] at h
  | some cur =>
    rw [hm, Option.map_some, Option.some.injEq] at h
    subst h
    exact ⟨⟨rfl, (advances_of_parseMatch p hm).suffix⟩, rfl⟩

/-- `parse_qos()` writes the QoS class only, and nothing when it fails. -/
theorem parseQos_spec :
    Advances p (parseQos p).2 ∧ (∃ q, (parseQos p).2.info = { p.info with qos := q }) ∧
      ((parseQos p).1 = false → (parseQos p).2 = p) := by
  unfold parseQos
  split
  · rename_i p' h
    -- one of the three classes matched
    have hm : ∃ s, matchQos s p = some p' := by
      simp only [Option.orElse_eq_orElse] at h
      cases h₁ : matchQos "guaranteed".toList p with
      | some q => rw [h₁, Option.orElse_some] at h; exact ⟨_, h₁.trans h⟩
      | none =>
        rw [h₁, Option.orElse_none] at h
        cases h₂ : matchQos "besteffort".toList p with
        | some q => rw [h₂, Option.orElse_some] at h; exact ⟨_, h₂.trans h⟩
        | none => rw [h₂, Option.orElse_none] at h; exact ⟨_, h⟩
    obtain ⟨s, hs⟩ := hm
    obtain ⟨hadv, hinfo⟩ := matchQos_spec p hs
    exact ⟨hadv, ⟨_, hinfo⟩, fun h => absurd h (by simp)⟩
  · exact ⟨.refl p, ⟨_, rfl⟩, fun _ => rfl⟩

/-- `parse_runtime(token)` writes the runtime only. -/
theorem parseRuntime_spec (token : Char) :
    Advances p (parseRuntime token p).2 ∧
      (parseRuntime token p).2.info = { p.info with
        runtime := p.info.runtime ++ (parseToken p.readHead token).2.2 } :=
  ⟨⟨rfl, parseToken_suffix _ _⟩, rfl⟩

/-- `parse_service()` writes the service only, and nothing when it fails. -/
theorem parseService_spec :
    Advances p (parseService p).2 ∧ (∃ x, (parseService p).2.info = { p.info with service := x }) ∧
      ((parseService p).1 = false → (parseService p).2 = p) := by
  unfold parseService
  split
  · exact ⟨advances_info p _, ⟨_, rfl⟩, fun h => absurd h (by simp)⟩
  · exact ⟨.refl p, ⟨_, rfl⟩, fun _ => rfl⟩

/-! ### The alternatives -/

/-- A container id as a parse may leave it: empty, or 64 hex digits that occur together in
`s`. -/
def ContainerOk (s c : List Char) : Prop := c = [] ∨ (HexId c ∧ c <:+: s)

/-- A pod id as a parse may leave it: a prefix of a canonical UUID. -/
def PodOk (d : List Char) : Prop := ∃ u, CanonicalUuid u ∧ d <+: u

theorem podOk_nil : PodOk [] :=
  have ⟨u, hu⟩ := uidGroups_exists [8, 4, 4, 4, 12]
  ⟨u, hu.canonical, List.nil_prefix⟩

theorem ContainerOk.mono {s s' c : List Char} (h : ContainerOk s c) (hs : s <:+ s') :
    ContainerOk s' c :=
  h.imp_right fun ⟨hx, hi⟩ => ⟨hx, hi.trans hs.isInfix⟩

/-- `parse_container_id()` from an empty id leaves a good one. -/
theorem containerOk_parseContainerId (h : p.info.containerId = []) :
    ContainerOk p.readHead (parseContainerId p).2.info.containerId := by
  obtain ⟨-, -, ⟨-, ds, hds, hpre, hc⟩ | ⟨-, hc⟩⟩ := parseContainerId_spec p
  · rw [hc, h, List.nil_append]
    exact .inr ⟨hds, hpre.isInfix⟩
  · exact .inl hc

/-- `parse_pod_id()` from an empty id leaves a good one. -/
theorem podOk_parsePodId (h : p.info.podId = []) : PodOk (parsePodId p).2.info.podId := by
  obtain ⟨-, a, hinfo, hpre, -⟩ := parsePodId_spec p
  rw [hinfo, h, List.nil_append]
  exact hpre

/-- `parse_systemd()` fails only before it writes anything, never writes the service, and from
empty ids leaves good ones. -/
theorem parseSystemd_spec :
    Advances p (parseSystemd p).2 ∧
      ((parseSystemd p).1 = false → (parseSystemd p).2.info = p.info) ∧
      (parseSystemd p).2.info.service = p.info.service ∧
      (p.info.containerId = [] → ContainerOk p.readHead (parseSystemd p).2.info.containerId) ∧
      (p.info.podId = [] → PodOk (parseSystemd p).2.info.podId) := by
  unfold parseSystemd
  cases hk : parseMatch p.readHead "kubepods-".toList with
  | none => exact ⟨.refl p, fun _ => rfl, rfl, fun h => .inl h, fun h => h ▸ podOk_nil⟩
  | some cur =>
    dsimp only
    obtain ⟨hadvq, ⟨q, hq⟩, hqf⟩ := parseQos_spec { p with readHead := cur }
    have hadv₁ := (advances_of_parseMatch p hk).trans hadvq
    by_cases h₁ : (parseQos { p with readHead := cur }).1 = true
    · simp only [h₁, Bool.not_true, Bool.false_eq_true, if_false]
      -- past the QoS class the parse succeeds, and only the ids and the runtime change
      set p₂ := skipToken (parseQos { p with readHead := cur }).2
      have hadv₂ := hadv₁.trans (skipToken_advances _)
      obtain ⟨hadvd, a, hd, -, -⟩ := parsePodId_spec p₂
      have hp₂ : p₂.info = { p.info with qos := q } := hq
      have hpod : p.info.podId = [] → PodOk (parsePodId p₂).2.info.podId := fun h =>
        podOk_parsePodId p₂ (by rw [hp₂]; exact h)
      by_cases h₂ : (parsePodId p₂).1 = true
      · simp only [h₂, Bool.not_true, Bool.false_eq_true, if_false]
        set p₃ := skipToken (parsePodId p₂).2
        have hadv₃ := hadv₂.trans (hadvd.trans ((skipToken_advances _).trans
          (parseRuntime_spec p₃ ':').1))
        have hp₃ : (parseRuntime ':' p₃).2.info = { p.info with
            qos := q, podId := p.info.podId ++ a,
            runtime := p.info.runtime ++ (parseToken p₃.readHead ':').2.2 } := by
          rw [(parseRuntime_spec p₃ ':').2]
          simp only [p₃, skipToken, hd, hp₂]
        by_cases h₃ : (parseRuntime ':' p₃).1 = true
        · simp only [h₃, Bool.not_true, Bool.false_eq_true, if_false]
          obtain ⟨hadvc, ⟨x, hx⟩, -⟩ := parseContainerId_spec (parseRuntime ':' p₃).2
          -- both outcomes of the container id are a success of `parse_systemd`
          have hend : (if !(parseContainerId (parseRuntime ':' p₃).2).1 then
                (true, (parseContainerId (parseRuntime ':' p₃).2).2)
              else (true, (parseContainerId (parseRuntime ':' p₃).2).2)) =
              (true, (parseContainerId (parseRuntime ':' p₃).2).2) := by
            split <;> rfl
          rw [hend]
          refine ⟨hadv₃.trans hadvc, fun h => absurd h (by simp), by rw [hx, hp₃], fun h => ?_,
            fun h => ?_⟩
          · exact (containerOk_parseContainerId _ (by rw [hp₃]; exact h)).mono hadv₃.suffix
          · rw [hx, hp₃]
            simpa [hp₂, hd] using hpod h
        · simp only [h₃, Bool.not_false, if_true]
          refine ⟨hadv₃, fun h => absurd h (by simp), by rw [hp₃], fun h => .inl ?_, fun h => ?_⟩
          · rw [hp₃]
            exact h
          · rw [hp₃]
            simpa [hp₂, hd] using hpod h
      · simp only [h₂, Bool.not_false, if_true]
        refine ⟨hadv₂.trans hadvd, fun h => absurd h (by simp), by rw [hd, hp₂], fun h => .inl ?_,
          hpod⟩
        rw [hd, hp₂]
        exact h
    · have hq₀ := hqf (by simpa using h₁)
      simp only [h₁, Bool.not_false, if_true]
      rw [hq₀]
      exact ⟨advances_of_parseMatch p hk, fun _ => rfl, rfl, fun h => .inl h, fun h => h ▸ podOk_nil⟩

/-- `parse_cri()` writes the runtime and the container id only, and from an empty id leaves a
good one, empty when it fails; the runtime it read stays even then. -/
theorem parseCri_spec :
    Advances p (parseCri p).2 ∧
      (parseCri p).2.info.qos = p.info.qos ∧ (parseCri p).2.info.podId = p.info.podId ∧
      (parseCri p).2.info.service = p.info.service ∧
      (p.info.containerId = [] → ContainerOk p.readHead (parseCri p).2.info.containerId ∧
        ((parseCri p).1 = false → (parseCri p).2.info.containerId = [])) := by
  unfold parseCri
  cases hk : parseMatch p.readHead "cri-".toList with
  | none => exact ⟨.refl p, rfl, rfl, rfl, fun h => ⟨.inl h, fun _ => h⟩⟩
  | some cur =>
    dsimp only
    obtain ⟨hadvr, hr⟩ := parseRuntime_spec { p with readHead := cur } '-'
    have hadv₁ := (advances_of_parseMatch p hk).trans hadvr
    by_cases h₁ : (parseRuntime '-' { p with readHead := cur }).1 = true
    · simp only [h₁, Bool.not_true, Bool.false_eq_true, if_false]
      obtain ⟨hadvc, ⟨x, hx⟩, hc⟩ := parseContainerId_spec (parseRuntime '-' { p with readHead := cur }).2
      have hcid := containerOk_parseContainerId (parseRuntime '-' { p with readHead := cur }).2
      rw [apply_ite Prod.snd, ite_self]
      refine ⟨hadv₁.trans hadvc, by rw [hx, hr], by rw [hx, hr], by rw [hx, hr], fun h => ⟨?_, ?_⟩⟩
      · exact (hcid (by rw [hr]; exact h)).mono hadv₁.suffix
      · -- a failed container id is cleared
        split
        · rename_i hf
          rcases hc with ⟨hok, -⟩ | ⟨-, hc⟩
          · simp [hok] at hf
          · exact fun _ => hc
        · exact fun h => absurd h (by simp)
    · simp only [h₁, Bool.not_false, if_true]
      exact ⟨hadv₁, by rw [hr], by rw [hr], by rw [hr], fun h => ⟨.inl (by rw [hr]; exact h),
        fun _ => by rw [hr]; exact h⟩⟩

/-- `parse_cgroup()` from a fresh parser: good ids, and when every alternative fails no container
id, QoS class or service. -/
theorem parseCgroup_spec (s : List Char) :
    ContainerOk s (parseCgroup ⟨s, s, CGroupInfo.empty⟩).2.info.containerId ∧
      PodOk (parseCgroup ⟨s, s, CGroupInfo.empty⟩).2.info.podId ∧
      ((parseCgroup ⟨s, s, CGroupInfo.empty⟩).1 = false →
        (parseCgroup ⟨s, s, CGroupInfo.empty⟩).2.info.containerId = [] ∧
        (parseCgroup ⟨s, s, CGroupInfo.empty⟩).2.info.qos = [] ∧
        (parseCgroup ⟨s, s, CGroupInfo.empty⟩).2.info.service = []) := by
  set p₀ : CGroupParser := ⟨s, s, CGroupInfo.empty⟩
  obtain ⟨hadv₁, hf₁, -, hc₁, hp₁⟩ := parseSystemd_spec p₀
  unfold parseCgroup
  dsimp only
  by_cases h₁ : (parseSystemd p₀).1 = true
  · simp only [h₁, if_true]
    exact ⟨hc₁ rfl, hp₁ rfl, fun h => absurd h (by simp)⟩
  -- `parse_systemd` failed before writing anything
  have hi₁ : (parseSystemd p₀).2.info = CGroupInfo.empty := hf₁ (by simpa using h₁)
  simp only [h₁, Bool.false_eq_true, if_false]
  set p₁ := (parseSystemd p₀).2
  obtain ⟨hadv₂, hq₂, hpd₂, hsv₂, hc₂⟩ := parseCri_spec p₁
  obtain ⟨hcok₂, hcf₂⟩ := hc₂ (by rw [hi₁]; rfl)
  by_cases h₂ : (parseCri p₁).1 = true
  · simp only [h₂, if_true]
    refine ⟨hcok₂.mono hadv₁.suffix, ?_, fun h => absurd h (by simp)⟩
    rw [hpd₂, hi₁]
    exact podOk_nil
  -- `parse_cri` failed with no container id
  have hcid₂ : (parseCri p₁).2.info.containerId = [] := hcf₂ (by simpa using h₂)
  simp only [h₂, Bool.false_eq_true, if_false]
  set p₂ := (parseCri p₁).2
  obtain ⟨-, a, hd₃, hpre₃, -⟩ := parsePodId_spec p₂
  have hpod₃ : PodOk (parsePodId p₂).2.info.podId := by
    rw [hd₃, hpd₂, hi₁]
    exact hpre₃
  by_cases h₃ : (parsePodId p₂).1 = true
  · simp only [h₃, if_true]
    refine ⟨.inl ?_, hpod₃, fun h => absurd h (by simp)⟩
    rw [hd₃]
    exact hcid₂
  -- `parse_pod_id` failed, and may have left part of a pod id
  simp only [h₃, Bool.false_eq_true, if_false]
  set p₃ := (parsePodId p₂).2
  have hadv₃ : Advances p₀ p₃ := hadv₁.trans (hadv₂.trans (parsePodId_spec p₂).1)
  obtain ⟨-, ⟨x₄, hx₄⟩, hc₄⟩ := parseContainerId_spec p₃
  by_cases h₄ : (parseContainerId p₃).1 = true
  · simp only [h₄, if_true]
    refine ⟨(containerOk_parseContainerId p₃ (by rw [hd₃]; exact hcid₂)).mono hadv₃.suffix, ?_,
      fun h => absurd h (by simp)⟩
    rw [hx₄]
    exact hpod₃
  -- `parse_container_id` failed and cleared the id
  have hcid₄ : (parseContainerId p₃).2.info.containerId = [] := by
    rcases hc₄ with ⟨hok, -⟩ | ⟨-, hc⟩
    · exact absurd hok h₄
    · exact hc
  simp only [h₄, Bool.false_eq_true, if_false]
  set p₄ := (parseContainerId p₃).2
  obtain ⟨-, ⟨x₅, hx₅⟩, hf₅⟩ := parseService_spec p₄
  refine ⟨.inl ?_, ?_, fun h => ?_⟩
  · rw [hx₅]
    exact hcid₄
  · rw [hx₅, hx₄]
    exact hpod₃
  · rw [hf₅ h]
    refine ⟨hcid₄, ?_, ?_⟩
    · rw [hx₄, hd₃, hq₂, hi₁]
      rfl
    · rw [hx₄, hd₃, hsv₂, hi₁]
      rfl

end CGroupParser

/-- `CGroupParser(cgroup_name).get()`. -/
def cgroupParser (cgroupName : List Char) : CGroupInfo :=
  let r := CGroupParser.parseCgroup ⟨cgroupName, cgroupName, CGroupInfo.empty⟩
  { r.2.info with valid := r.1 }

/-- A non-empty container id is 64 hex digits that occur together in the name. -/
theorem containerId_cgroupParser (cgroupName : List Char) :
    CGroupParser.ContainerOk cgroupName (cgroupParser cgroupName).containerId :=
  (CGroupParser.parseCgroup_spec cgroupName).1

/-- A pod id is a prefix of a canonical UUID, perhaps a proper one. -/
theorem podId_cgroupParser (cgroupName : List Char) :
    CGroupParser.PodOk (cgroupParser cgroupName).podId :=
  (CGroupParser.parseCgroup_spec cgroupName).2.1

/-- An invalid result has no container id, QoS class or service. -/
theorem cgroupParser_of_invalid (cgroupName : List Char)
    (h : (cgroupParser cgroupName).valid = false) :
    (cgroupParser cgroupName).containerId = [] ∧ (cgroupParser cgroupName).qos = [] ∧
      (cgroupParser cgroupName).service = [] :=
  (CGroupParser.parseCgroup_spec cgroupName).2.2 h

example :
    cgroupParser "kubepods-besteffort-pod29c71929_0064_4c15_9595_702c5931a368.slice".toList =
      ⟨[], [], "29c71929-0064-4c15-9595-702c5931a368".toList, "besteffort".toList, [], true⟩ := by
  decide

example : cgroupParser "systemd-journald.service".toList =
    ⟨[], [], [], [], "systemd-journald".toList, true⟩ := by
  decide

/-- A failed `parse_uid` leaves the digits it read in the pod id: `pod1234` is invalid with pod id
`1234`, `kubepods-besteffort-pod1234` valid with pod id `1234`, and a failed `parse_cri` leaves
its runtime. -/
theorem pod_id_left_on_failure :
    cgroupParser "pod1234".toList = ⟨[], [], "1234".toList, [], [], false⟩ ∧
      cgroupParser "kubepods-besteffort-pod1234".toList =
        ⟨[], [], "1234".toList, "besteffort".toList, [], true⟩ ∧
      cgroupParser "cri-containerd".toList = ⟨[], "containerd".toList, [], [], [], false⟩ := by
  refine ⟨?_, ?_, ?_⟩ <;> decide

end Util

end OtelEbpf
