import OtelEbpf.Lib.PartialBij
import OtelEbpf.Lib.Run

/-!
# The NAT tables of the kernel collector

`NatHandler` (`collector/kernel/nat_handler.cc`) remembers which connections are NAT-ed and
which socket owns which four-tuple, to report a socket's translated tuple to the server.  It
keeps two pairs of hash maps meant to be inverse tables: `nat_table_` from an original tuple to
its reply tuple and `nat_table_rev_` back, and `existing_sk_table_` from a tuple to its socket
and `existing_sk_table_rev_` back; `remove_sk` asserts that the tuple of a socket it finds in
the reverse table is in the forward one.  `record_nat` and `record_sk` first unlink the stale
pairs of their key and value, then link the two.

Each map is its content, a partial function (`Function.update` for `operator[]` and `erase`).
The assertion is a fault (`none`).  Logging and `send_nat_remapping`'s writer are left out; the
remappings a handler sends are its output.

* `recordNat_spec`, `recordSk_spec` : the two linking operations are `PartialBij.link` on both
  tables, and `recordSk` never hits the assertion on inverse tables.
* `handle_inv` : every handler keeps both pairs of tables inverse, and none faults on them.
* `inverse_tables_of_run` : along every sequence of events the tables are `Consistent`: both
  pairs stay inverse, the next event never hits the assertion, and `record_nat(f, t)` and
  `record_sk(sk, ft)` leave their new pair as the only one from its key and the only one to its
  value.
* `record_nat_keeps_chain` : `record_nat(f, t)` leaves a tuple mapped to `f`: after
  `alter_reply(x → f)` and `alter_reply(f → t)` both mappings are in `nat_table_`.
-/

namespace OtelEbpf

namespace Collector

open PartialBij Function

/-- `struct hostport_tuple`. -/
structure HostportTuple where
  srcIp : UInt32
  dstIp : UInt32
  srcPort : UInt16
  dstPort : UInt16
  proto : UInt32
  deriving DecidableEq, Repr

/-- `hostport_tuple::reversed()`. -/
def HostportTuple.reversed (t : HostportTuple) : HostportTuple :=
  ⟨t.dstIp, t.srcIp, t.dstPort, t.srcPort, t.proto⟩

/-- `IPPROTO_TCP`. -/
def IPPROTO_TCP : UInt32 := 6

/-- `SIZEOF_STRUCT_NF_CONNTRACK_TUPLE_HASH`. -/
def SIZEOF_STRUCT_NF_CONNTRACK_TUPLE_HASH : UInt64 := 56

/-- `htons` on a little-endian host. -/
def htons (x : UInt16) : UInt16 := (x <<< 8) ||| (x >>> 8)

/-- The maps of a `NatHandler`. -/
structure NatHandler where
  natTable : HostportTuple → Option HostportTuple
  natTableRev : HostportTuple → Option HostportTuple
  existingConntrackTable : UInt64 → Option HostportTuple
  existingSkTable : HostportTuple → Option UInt64
  existingSkTableRev : UInt64 → Option HostportTuple

/-- A fresh `NatHandler`: every map empty. -/
def NatHandler.empty : NatHandler := ⟨fun _ => none, fun _ => none, fun _ => none, fun _ => none,
  fun _ => none⟩

/-- `writer_.nat_remapping_tstamp(timestamp, sk, ...)` of `send_nat_remapping`. -/
structure NatRemapping where
  timestamp : UInt64
  sk : UInt64
  ft : HostportTuple
  deriving DecidableEq, Repr

namespace NatHandler

/-! ### The table operations -/

/-- `remove_sk(sk)`; `none` when the `assert` fails. -/
def removeSk (h : NatHandler) (sk : UInt64) : Option NatHandler :=
  match h.existingSkTableRev sk with
  | none => some h
  | some ft =>
    match h.existingSkTable ft with
    | none => none
    | some _ => some { h with
        existingSkTableRev := update h.existingSkTableRev sk none
        existingSkTable := update h.existingSkTable ft none }

/-- `record_sk(sk, ft)`: a socket already at `ft` is removed, then `sk` from its old tuple. -/
def recordSk (h : NatHandler) (sk : UInt64) (ft : HostportTuple) : Option NatHandler :=
  (match h.existingSkTable ft with
    | some existingSk => h.removeSk existingSk
    | none => pure h) >>= fun h =>
  (match h.existingSkTableRev sk with
    | some _ => h.removeSk sk
    | none => pure h) >>= fun h =>
  pure { h with
    existingSkTable := update h.existingSkTable ft (some sk)
    existingSkTableRev := update h.existingSkTableRev sk (some ft) }

/-- `record_nat(map_from, map_to)`: the reverse entry of `map_from`'s old image is erased, then
the forward entry of `map_to`'s old preimage, then the pair is written to both tables. -/
def recordNat (h : NatHandler) (mapFrom mapTo : HostportTuple) : NatHandler :=
  let natTableRev := eraseImage h.natTable h.natTableRev mapFrom
  -- the lookup of `map_to` sees the reverse table after the first erase
  let natTable := eraseImage natTableRev h.natTable mapTo
  { h with
    natTable := update natTable mapFrom (some mapTo)
    natTableRev := update natTableRev mapTo (some mapFrom) }

/-- `remove_nat(map_from)`. -/
def removeNat (h : NatHandler) (mapFrom : HostportTuple) : NatHandler :=
  match h.natTable mapFrom with
  | some mapTo => { h with
      natTableRev := update h.natTableRev mapTo none
      natTable := update h.natTable mapFrom none }
  | none => h

end NatHandler

/-! ### The events -/

/-- The fields of the agent-internal messages that the handlers read. -/
inductive NatEvent
  /-- `nf_nat_cleanup_conntrack` -/
  | nfNatCleanupConntrack (srcIp : UInt32) (srcPort : UInt16) (dstIp : UInt32) (dstPort : UInt16)
      (proto : UInt8)
  /-- `nf_conntrack_alter_reply` -/
  | nfConntrackAlterReply (srcIp : UInt32) (srcPort : UInt16) (dstIp : UInt32) (dstPort : UInt16)
      (proto : UInt8) (natSrcIp : UInt32) (natSrcPort : UInt16) (natDstIp : UInt32)
      (natDstPort : UInt16)
  /-- `existing_conntrack_tuple` -/
  | existingConntrackTuple (ct : UInt64) (srcIp : UInt32) (srcPort : UInt16) (dstIp : UInt32)
      (dstPort : UInt16) (proto : UInt8) (dir : UInt8)
  /-- `set_state_ipv4` -/
  | setStateIpv4 (dest src : UInt32) (dport sport : UInt16) (sk : UInt64)
  /-- `close_sock_info` -/
  | closeSockInfo (sk : UInt64)

namespace NatHandler

/-- `handle_nf_nat_cleanup_conntrack` and the other handlers: the tables after the event and the
remappings sent; `none` when `remove_sk` hits its assertion. -/
def handle (h : NatHandler) (timestamp : UInt64) : NatEvent → Option (NatHandler × List NatRemapping)
  | .nfNatCleanupConntrack srcIp srcPort dstIp dstPort proto =>
    some (h.removeNat ⟨srcIp, dstIp, srcPort, dstPort, proto.toUInt32⟩, [])
  | .nfConntrackAlterReply srcIp srcPort dstIp dstPort proto natSrcIp natSrcPort natDstIp natDstPort =>
    let mapFrom : HostportTuple := ⟨srcIp, dstIp, srcPort, dstPort, proto.toUInt32⟩
    -- the reply tuple takes the message's `proto`, not its `nat_proto`
    let mapTo : HostportTuple := ⟨natSrcIp, natDstIp, natSrcPort, natDstPort, proto.toUInt32⟩
    let h := h.recordNat mapFrom mapTo
    match h.existingSkTable mapFrom with
    | some sk => some (h, [⟨timestamp, sk, mapTo⟩])
    | none => some (h, [])
  | .existingConntrackTuple ct srcIp srcPort dstIp dstPort proto dir =>
    let ft : HostportTuple := ⟨srcIp, dstIp, srcPort, dstPort, proto.toUInt32⟩
    if dir = 0 then some ({ h with existingConntrackTable := update h.existingConntrackTable ct (some ft) }, [])
    else
      match h.existingConntrackTable ct with
      | none => some (h, [])
      | some mapFrom =>
        if mapFrom = ft then some (h, [])
        else
          let h := h.recordNat mapFrom ft
          -- the other direction of the connection
          let revct := ct - SIZEOF_STRUCT_NF_CONNTRACK_TUPLE_HASH
          some ({ h with existingConntrackTable := update h.existingConntrackTable revct none }, [])
  | .setStateIpv4 dest src dport sport sk => do
    let ft : HostportTuple := ⟨src, dest, htons sport, htons dport, IPPROTO_TCP⟩
    let h ← h.recordSk sk ft
    let out₁ := match h.natTable ft with
      | some mapping => [⟨timestamp, sk, mapping⟩]
      | none => []
    let out₂ := match h.natTableRev ft.reversed with
      | some revMapping => [⟨timestamp, sk, revMapping.reversed⟩]
      | none => []
    pure (h, out₁ ++ out₂)
  | .closeSockInfo sk => (h.removeSk sk).map fun h => (h, [])

/-! ### Inverse tables -/

/-- Both pairs of tables are inverse. -/
structure Inv (h : NatHandler) : Prop where
  nat : Inverse h.natTable h.natTableRev
  sk : Inverse h.existingSkTable h.existingSkTableRev

theorem inv_empty : Inv NatHandler.empty := ⟨inverse_none, inverse_none⟩

variable {h : NatHandler}

/-- On inverse tables `remove_sk` does not fault: it drops the pair of `sk`, if there is one. -/
theorem removeSk_eq (hi : Inverse h.existingSkTable h.existingSkTableRev) (sk : UInt64) :
    h.removeSk sk = some { h with
      existingSkTable := fun x => if h.existingSkTableRev sk = some x then none else h.existingSkTable x
      existingSkTableRev := update h.existingSkTableRev sk none } := by
  unfold removeSk
  cases hrev : h.existingSkTableRev sk with
  | none =>
    simp only [reduceCtorEq, if_false, Option.some.injEq]
    have hu : update h.existingSkTableRev sk none = h.existingSkTableRev :=
      update_eq_self_iff.mpr hrev.symm
    rw [hu]
  | some ft =>
    -- the tuple found in the reverse table is in the forward one
    have hft : h.existingSkTable ft = some sk := (hi ft sk).mpr hrev
    simp only [hft, Option.some.injEq]
    congr 1
    funext x
    by_cases hx : x = ft
    · simp [hx]
    · simp [hx, Ne.symm hx]

/-- `remove_sk` on inverse tables: it succeeds, keeps them inverse, and touches nothing else. -/
theorem removeSk_spec (hi : Inverse h.existingSkTable h.existingSkTableRev) (sk : UInt64) :
    ∃ h', h.removeSk sk = some h' ∧ Inverse h'.existingSkTable h'.existingSkTableRev ∧
      (∀ x, h'.existingSkTable x =
        if h.existingSkTableRev sk = some x then none else h.existingSkTable x) ∧
      h'.existingSkTableRev = update h.existingSkTableRev sk none ∧
      h'.natTable = h.natTable ∧ h'.natTableRev = h.natTableRev ∧
      h'.existingConntrackTable = h.existingConntrackTable := by
  refine ⟨_, removeSk_eq hi sk, ?_, fun _ => rfl, rfl, rfl, rfl, rfl⟩
  cases hrev : h.existingSkTableRev sk with
  | none =>
    have hu : update h.existingSkTableRev sk none = h.existingSkTableRev :=
      update_eq_self_iff.mpr hrev.symm
    simpa [hu] using hi
  | some ft =>
    have := (hi.symm.erase hrev).symm
    convert this using 1
    funext x
    by_cases hx : x = ft
    · simp [hx]
    · simp [hx, Ne.symm hx]

/-- The guard on `existing_sk_table_rev_` in `record_sk` changes nothing: `remove_sk` of a socket
with no tuple is the identity. -/
theorem removeSk_of_guard (h : NatHandler) (sk : UInt64) :
    (match h.existingSkTableRev sk with
      | some _ => h.removeSk sk
      | none => pure h) = h.removeSk sk := by
  cases hr : h.existingSkTableRev sk with
  | none => simp [removeSk, hr, pure]
  | some _ => rfl

/-- `record_sk(sk, ft)` on inverse tables never hits the assertion and links `ft` with `sk`. -/
theorem recordSk_spec (hi : Inverse h.existingSkTable h.existingSkTableRev) (sk : UInt64)
    (ft : HostportTuple) :
    ∃ h', h.recordSk sk ft = some h' ∧
      h'.existingSkTable = link h.existingSkTable ft sk ∧
      h'.existingSkTableRev = link h.existingSkTableRev sk ft ∧
      h'.natTable = h.natTable ∧ h'.natTableRev = h.natTableRev ∧
      h'.existingConntrackTable = h.existingConntrackTable := by
  unfold recordSk
  simp only [removeSk_of_guard]
  cases hft : h.existingSkTable ft with
  | none =>
    -- no socket at `ft`: only `sk`'s old tuple is unlinked
    obtain ⟨h₂, hrm, -, hS₂, hR₂, hn, hnr, hc⟩ := removeSk_spec hi sk
    simp only [pure_bind, hrm, Option.bind_eq_bind, Option.bind_some]
    refine ⟨_, rfl, hi.update_eq_link fun x _ => hS₂ x, hi.symm.update_eq_link fun y hy => ?_,
      hn, hnr, hc⟩
    rw [hR₂, update_of_ne hy, hft]
    simp
  | some sk₀ =>
    -- the socket `sk₀` at `ft` is removed first, and then `sk` from the tables that leaves
    have hR₀ : h.existingSkTableRev sk₀ = some ft := (hi ft sk₀).mp hft
    obtain ⟨h₁, hrm₁, hi₁, hS₁, hR₁, hn₁, hnr₁, hc₁⟩ := removeSk_spec hi sk₀
    obtain ⟨h₂, hrm₂, -, hS₂, hR₂, hn₂, hnr₂, hc₂⟩ := removeSk_spec hi₁ sk
    simp only [hrm₁, hrm₂, Option.bind_eq_bind, Option.bind_some]
    refine ⟨_, rfl, hi.update_eq_link fun x hx => ?_, hi.symm.update_eq_link fun y hy => ?_,
      hn₂.trans hn₁, hnr₂.trans hnr₁, hc₂.trans hc₁⟩
    · have hft' : some ft ≠ some x := fun he => hx (Option.some.inj he).symm
      rw [hS₂, hS₁, hR₀, if_neg hft', hR₁]
      rcases eq_or_ne sk sk₀ with rfl | hsk
      · simp [hR₀, hft']
      · rw [update_of_ne hsk]
    · rw [hR₂, update_of_ne hy, hR₁, hft]
      rcases eq_or_ne y sk₀ with rfl | hy₀
      · simp
      · simp [update_of_ne hy₀, Ne.symm hy₀]

/-- `record_nat(f, t)` on inverse tables links `f` with `t`. -/
theorem recordNat_spec (hi : Inverse h.natTable h.natTableRev) (mapFrom mapTo : HostportTuple) :
    (h.recordNat mapFrom mapTo).natTable = link h.natTable mapFrom mapTo ∧
      (h.recordNat mapFrom mapTo).natTableRev = link h.natTableRev mapTo mapFrom :=
  hi.link_of_eraseImage mapFrom mapTo

@[simp] theorem recordNat_existingSkTable (h : NatHandler) (mapFrom mapTo : HostportTuple) :
    (h.recordNat mapFrom mapTo).existingSkTable = h.existingSkTable := rfl

@[simp] theorem recordNat_existingSkTableRev (h : NatHandler) (mapFrom mapTo : HostportTuple) :
    (h.recordNat mapFrom mapTo).existingSkTableRev = h.existingSkTableRev := rfl

theorem recordNat_inv (hi : Inv h) (mapFrom mapTo : HostportTuple) :
    Inv (h.recordNat mapFrom mapTo) := by
  obtain ⟨hn, hr⟩ := recordNat_spec hi.nat mapFrom mapTo
  exact ⟨hn ▸ hr ▸ hi.nat.link mapFrom mapTo, hi.sk⟩

/-- `remove_nat(f)` keeps the NAT tables inverse and touches nothing else. -/
theorem removeNat_inv (hi : Inv h) (mapFrom : HostportTuple) : Inv (h.removeNat mapFrom) := by
  unfold removeNat
  cases hf : h.natTable mapFrom with
  | none => exact hi
  | some mapTo => exact ⟨hi.nat.erase hf |>.symm.symm, hi.sk⟩

theorem Inv.of_tables {h' : NatHandler} (hi : Inv h) (hn : h'.natTable = h.natTable)
    (hnr : h'.natTableRev = h.natTableRev) (hs : h'.existingSkTable = h.existingSkTable)
    (hsr : h'.existingSkTableRev = h.existingSkTableRev) : Inv h' := by
  constructor
  · rw [hn, hnr]; exact hi.nat
  · rw [hs, hsr]; exact hi.sk

theorem recordSk_inv (hi : Inv h) (sk : UInt64) (ft : HostportTuple) :
    ∃ h', h.recordSk sk ft = some h' ∧ Inv h' ∧ h'.existingSkTable = link h.existingSkTable ft sk := by
  obtain ⟨h', hrec, hS, hR, hn, hnr, -⟩ := recordSk_spec hi.sk sk ft
  refine ⟨h', hrec, ⟨?_, ?_⟩, hS⟩
  · rw [hn, hnr]; exact hi.nat
  · rw [hS, hR]; exact hi.sk.link ft sk

/-- Every handler keeps both pairs of tables inverse, and none hits the assertion on them. -/
theorem handle_inv (hi : Inv h) (timestamp : UInt64) (e : NatEvent) :
    ∃ r, h.handle timestamp e = some r ∧ Inv r.1 := by
  cases e with
  | nfNatCleanupConntrack srcIp srcPort dstIp dstPort proto =>
    exact ⟨_, rfl, removeNat_inv hi _⟩
  | nfConntrackAlterReply srcIp srcPort dstIp dstPort proto natSrcIp natSrcPort natDstIp natDstPort =>
    simp only [handle]
    split <;> exact ⟨_, rfl, recordNat_inv hi _ _⟩
  | existingConntrackTuple ct srcIp srcPort dstIp dstPort proto dir =>
    simp only [handle]
    by_cases hd : dir = 0
    · rw [if_pos hd]
      exact ⟨_, rfl, hi.of_tables rfl rfl rfl rfl⟩
    · rw [if_neg hd]
      split
      · exact ⟨_, rfl, hi⟩
      · split
        · exact ⟨_, rfl, hi⟩
        · exact ⟨_, rfl, (recordNat_inv hi _ _).of_tables rfl rfl rfl rfl⟩
  | setStateIpv4 dest src dport sport sk =>
    obtain ⟨h', hrec, hinv, -⟩ := recordSk_inv hi sk ⟨src, dest, htons sport, htons dport, IPPROTO_TCP⟩
    exact ⟨_, by simp only [handle, hrec]; rfl, hinv⟩
  | closeSockInfo sk =>
    obtain ⟨h', hrm, hsk, -, -, hn, hnr, -⟩ := removeSk_spec hi.sk sk
    refine ⟨_, by simp only [handle, hrm]; rfl, ⟨?_, hsk⟩⟩
    rw [hn, hnr]; exact hi.nat

/-! ### Runs of events -/

/-- One event handled, with its message timestamp: the tables after it, whatever remappings it
sent. -/
def Step (h : NatHandler) (ev : UInt64 × NatEvent) (h' : NatHandler) : Prop :=
  ∃ out, h.handle ev.1 ev.2 = some (h', out)

theorem Step.of_handle {h' : NatHandler} {timestamp : UInt64} {e : NatEvent}
    {out : List NatRemapping} (hh : h.handle timestamp e = some (h', out)) :
    Step h (timestamp, e) h' :=
  ⟨out, hh⟩

theorem run_empty : Run (· = NatHandler.empty) Step [] NatHandler.empty := Run.start rfl

theorem inv_of_run {es : List (UInt64 × NatEvent)} (hrun : Run (· = NatHandler.empty) Step es h) :
    Inv h := by
  refine Run.invariant (fun s hs => hs ▸ inv_empty) (fun s ev s' hs hst => ?_) hrun
  obtain ⟨out, hst⟩ := hst
  obtain ⟨r, hr, hinv⟩ := handle_inv hs ev.1 ev.2
  rw [hst] at hr
  cases hr
  exact hinv

/-- What the tables guarantee at a state: they are inverse, no event faults, and `record_nat` and
`record_sk` leave their new pair as the only one from its key and the only one to its value,
every other pair as it was. -/
structure Consistent (h : NatHandler) : Prop where
  inv : Inv h
  handle_isSome : ∀ timestamp e, ∃ r, h.handle timestamp e = some r
  recordNat_natTable : ∀ mapFrom mapTo x y, (h.recordNat mapFrom mapTo).natTable x = some y ↔
    (x = mapFrom ∧ y = mapTo) ∨ (x ≠ mapFrom ∧ y ≠ mapTo ∧ h.natTable x = some y)
  recordNat_inv : ∀ mapFrom mapTo, Inv (h.recordNat mapFrom mapTo)
  recordSk_existingSkTable : ∀ sk ft, ∃ h', h.recordSk sk ft = some h' ∧ Inv h' ∧
    ∀ x s, h'.existingSkTable x = some s ↔
      (x = ft ∧ s = sk) ∨ (x ≠ ft ∧ s ≠ sk ∧ h.existingSkTable x = some s)

theorem consistent_of_inv (hi : Inv h) : Consistent h where
  inv := hi
  handle_isSome timestamp e := (handle_inv hi timestamp e).imp fun _ hr => hr.1
  recordNat_natTable mapFrom mapTo x y := by
    rw [(recordNat_spec hi.nat mapFrom mapTo).1, link_eq_some_iff]
  recordNat_inv := recordNat_inv hi
  recordSk_existingSkTable sk ft := by
    obtain ⟨h', hrec, hinv, hS⟩ := recordSk_inv hi sk ft
    exact ⟨h', hrec, hinv, fun x s => by rw [hS, link_eq_some_iff]⟩

/-- Along every run from empty tables, the tables stay consistent. -/
theorem inverse_tables_of_run {es : List (UInt64 × NatEvent)}
    (hrun : Run (· = NatHandler.empty) Step es h) : Consistent h :=
  consistent_of_inv (inv_of_run hrun)

/-- Replacements and cleanups: tuple `1` is mapped to `2` and then to `3`, tuple `4` takes `3`
from it, socket `7` is recorded at one tuple and then moved to another, a conntrack entry is
seen in both directions and remaps tuple `1` again, then tuple `4`'s mapping is cleaned up and
the socket closed. -/
theorem inverse_tables_of_run_replace_cleanup :
    ∃ h, Run (· = NatHandler.empty) Step
        [(0, .nfConntrackAlterReply 1 1 1 1 6 2 2 2 2),
          (1, .nfConntrackAlterReply 1 1 1 1 6 3 3 3 3),
          (2, .nfConntrackAlterReply 4 4 4 4 6 3 3 3 3),
          (3, .setStateIpv4 4 4 4 4 7),
          (4, .setStateIpv4 5 5 5 5 7),
          (5, .existingConntrackTuple 100 1 1 1 1 6 0),
          (6, .existingConntrackTuple 100 5 5 5 5 6 1),
          (7, .nfNatCleanupConntrack 4 4 4 4 6),
          (8, .closeSockInfo 7)] h ∧
      Consistent h := by
  have hrun : Run (· = NatHandler.empty) Step
      [(0, .nfConntrackAlterReply 1 1 1 1 6 2 2 2 2),
        (1, .nfConntrackAlterReply 1 1 1 1 6 3 3 3 3),
        (2, .nfConntrackAlterReply 4 4 4 4 6 3 3 3 3),
        (3, .setStateIpv4 4 4 4 4 7),
        (4, .setStateIpv4 5 5 5 5 7),
        (5, .existingConntrackTuple 100 1 1 1 1 6 0),
        (6, .existingConntrackTuple 100 5 5 5 5 6 1),
        (7, .nfNatCleanupConntrack 4 4 4 4 6),
        (8, .closeSockInfo 7)] _ :=
    (((((((((run_empty.snoc (Step.of_handle rfl)).snoc (Step.of_handle rfl)).snoc
      (Step.of_handle rfl)).snoc (Step.of_handle rfl)).snoc (Step.of_handle rfl)).snoc
      (Step.of_handle rfl)).snoc (Step.of_handle rfl)).snoc (Step.of_handle rfl)).snoc
      (Step.of_handle rfl))
  exact ⟨_, hrun, inverse_tables_of_run hrun⟩

/-- `record_nat(f, t)` leaves the pairs that map to `f`: after `alter_reply` from `x` to `f` and
then from `f` to `t`, `nat_table_` maps `x` to `f` and `f` to `t`. -/
theorem record_nat_keeps_chain :
    ∃ h, Run (· = NatHandler.empty) Step
        [(0, NatEvent.nfConntrackAlterReply 1 1 1 1 6 2 2 2 2),
          (0, NatEvent.nfConntrackAlterReply 2 2 2 2 6 3 3 3 3)] h ∧
      h.natTable ⟨2, 2, 2, 2, 6⟩ = some ⟨3, 3, 3, 3, 6⟩ ∧
      h.natTable ⟨1, 1, 1, 1, 6⟩ = some ⟨2, 2, 2, 2, 6⟩ :=
  ⟨_, (run_empty.snoc (Step.of_handle rfl)).snoc (Step.of_handle rfl), by decide, by decide⟩

end NatHandler

end Collector

end OtelEbpf
