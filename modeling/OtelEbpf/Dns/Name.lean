import Mathlib
import OtelEbpf.Lib.Loop

/-!
# Compressed domain names

`collector/kernel/dns/ares_expand_name.c` decodes the RFC 1035 names of a DNS message `abuf`
of `alen` bytes (here `abuf.length`; a position is an offset into `abuf`).  A name is a run
of labels, each a length byte below 64 and that many bytes, ended by a zero byte or by a
two-byte compression pointer (top bits `11`) to the rest of the name elsewhere in the
message.

`dns_name_length` walks a name with every read checked and returns the length of its
presentation (labels joined by `'.'`, with `'.'` and `'\\'` escaped), or `-1`;
`dns_expand_name` walks it again without checks, writing the presentation and a NUL, and
`dns_expand_name_maxlen` runs the first to guard the second.  Both `while` loops are steps
for `Loop.run` (`lengthStep`, `expandStep`); a read outside `abuf` is a fault (`none`).

What a name means is `NameAt abuf pos labels k`: the name at `pos` has the labels `labels` and
takes `k` bytes at `pos`.  The development proves that

* the length pass ends from every position, every state it passes through has followed at
  most `MAX_INDIRS` pointers, and it reads only inside `abuf` (`dnsNameLength_isSome`,
  `lengthReaches_inv`);
* when it accepts, the name is well formed, `NameAt`, and the result is the length of its
  presentation (`nameAt_of_dnsNameLength`);
* the expansion then follows the same path in lockstep, so it too reads only inside `abuf`,
  and it writes exactly the presentation and a NUL and reports the bytes the name takes
  (`dnsExpandName_of_nameAt`, `dnsExpandNameMaxlen_ok`).
-/

namespace OtelEbpf

namespace Dns

/-! ### Constants of `ares.h`, `c_ares_nameser.h` and `dns.h` -/

/-- `INDIR_MASK`: the top bits of a length byte that mark a compression pointer. -/
def INDIR_MASK : UInt8 := 0xC0
/-- `MAX_INDIRS`: the most compression pointers one name may follow. -/
def MAX_INDIRS : ℕ := 50
/-- `DNS_NAME_MAX_LENGTH`: the size of every buffer a name is expanded into. -/
def DNS_NAME_MAX_LENGTH : ℤ := 256

/-- `ARES_SUCCESS`. -/
def ARES_SUCCESS : ℤ := 0
/-- `ARES_ENODATA`: a reply without the records asked for. -/
def ARES_ENODATA : ℤ := 1
/-- `ARES_EBADQUERY`: a malformed query. -/
def ARES_EBADQUERY : ℤ := 7
/-- `ARES_EBADNAME`: a malformed name. -/
def ARES_EBADNAME : ℤ := 8
/-- `ARES_EBADRESP`: a malformed reply. -/
def ARES_EBADRESP : ℤ := 10
/-- `ARES_ENOMEM`: here, a name longer than its buffer. -/
def ARES_ENOMEM : ℤ := 15

/-- The three kinds of length byte, by their top two bits. -/
theorem and_indirMask_eq_indirMask_iff (b : UInt8) : b &&& INDIR_MASK = INDIR_MASK ↔ 192 ≤ b.toNat := by
  obtain ⟨⟨x⟩⟩ := b
  revert x
  decide +kernel

theorem and_indirMask_eq_zero_iff (b : UInt8) : b &&& INDIR_MASK = 0 ↔ b.toNat < 64 := by
  obtain ⟨⟨x⟩⟩ := b
  revert x
  decide +kernel

theorem toNat_and_not_indirMask {b : UInt8} (h : 192 ≤ b.toNat) :
    (b &&& ~~~INDIR_MASK).toNat = b.toNat - 192 := by
  revert h
  obtain ⟨⟨x⟩⟩ := b
  revert x
  decide +kernel

/-- The offset a compression pointer `b b1` points to, as the source computes it. -/
theorem pointer_offset_eq {b : UInt8} (b1 : UInt8) (h : 192 ≤ b.toNat) :
    (b &&& ~~~INDIR_MASK).toNat <<< 8 ||| b1.toNat = (b.toNat - 192) * 256 + b1.toNat := by
  rw [← Nat.shiftLeft_add_eq_or_of_lt b1.toNat_lt, Nat.shiftLeft_eq, toNat_and_not_indirMask h]

/-- `_aresx_uztosl`: a `size_t` as a `long`, its sign bit masked off. -/
def aresxUztosl (uznum : ℕ) : ℕ := uznum &&& 0x7FFFFFFF

theorem aresxUztosl_of_lt {uznum : ℕ} (h : uznum < 2 ^ 31) : aresxUztosl uznum = uznum := by
  rw [aresxUztosl, show (0x7FFFFFFF : ℕ) = 2 ^ 31 - 1 from rfl, Nat.and_two_pow_sub_one_eq_mod,
    Nat.mod_eq_of_lt h]

/-! ### The presentation of a name -/

/-- One byte of a label as it is presented: `'.'` and `'\\'` get a backslash before them. -/
def escape (c : UInt8) : List UInt8 :=
  if c = '.'.toUInt8 ∨ c = '\\'.toUInt8 then ['\\'.toUInt8, c] else [c]

/-- A name's presentation: its labels, escaped, separated by `'.'`. -/
def presentation (labels : List (List UInt8)) : List UInt8 :=
  ['.'.toUInt8].intercalate (labels.map fun l => l.flatMap escape)

/-- What the expansion loop writes for some labels: each escaped and followed by `'.'`. -/
def expansion (labels : List (List UInt8)) : List UInt8 :=
  (labels.map fun l => l.flatMap escape ++ ['.'.toUInt8]).flatten

@[simp] theorem expansion_nil : expansion [] = [] := rfl

@[simp] theorem expansion_cons (l : List UInt8) (labels : List (List UInt8)) :
    expansion (l :: labels) = l.flatMap escape ++ ['.'.toUInt8] ++ expansion labels := by
  simp [expansion]

theorem presentation_cons_cons (l l' : List UInt8) (labels : List (List UInt8)) :
    presentation (l :: l' :: labels) = l.flatMap escape ++ ['.'.toUInt8] ++ presentation (l' :: labels) := by
  simp only [presentation, List.map_cons, List.intercalate_cons_cons]

theorem expansion_eq_presentation_append {labels : List (List UInt8)} (h : labels ≠ []) :
    expansion labels = presentation labels ++ ['.'.toUInt8] := by
  induction labels with
  | nil => exact absurd rfl h
  | cons l labels ih =>
    cases labels with
    | nil => simp [presentation]
    | cons l' labels =>
      rw [expansion_cons, ih (List.cons_ne_nil _ _), presentation_cons_cons]
      simp

/-- The final write of `dns_expand_name`: the last `'.'` becomes the NUL, or the NUL alone
ends the empty name. -/
theorem finish_expansion (labels : List (List UInt8)) :
    (if expansion labels ≠ [] then (expansion labels).dropLast ++ [0] else [0]) =
      presentation labels ++ [0] := by
  by_cases h : labels = []
  · subst h
    rfl
  · rw [expansion_eq_presentation_append h, if_pos (by simp), List.dropLast_concat]

theorem length_escape_le (c : UInt8) : (escape c).length ≤ 2 := by
  unfold escape
  split <;> simp

theorem length_flatMap_escape_le (l : List UInt8) : (l.flatMap escape).length ≤ 2 * l.length := by
  induction l with
  | nil => simp
  | cons c l ih =>
    rw [List.flatMap_cons, List.length_append, List.length_cons]
    have := length_escape_le c
    omega

/-! ### What a name is -/

/-- RFC 1035 4.1.4: the name at `pos` of the message `abuf` has the labels `labels` and takes
`k` bytes at `pos`, through its zero byte or through its first compression pointer. -/
inductive NameAt (abuf : List UInt8) : ℕ → List (List UInt8) → ℕ → Prop
  | root {pos : ℕ} : abuf[pos]? = some 0 → NameAt abuf pos [] 1
  | label {pos : ℕ} {b : UInt8} {labels : List (List UInt8)} {k : ℕ} :
      abuf[pos]? = some b → 0 < b.toNat → b.toNat < 64 →
      NameAt abuf (pos + b.toNat + 1) labels k →
      NameAt abuf pos ((abuf.drop (pos + 1)).take b.toNat :: labels) (b.toNat + 1 + k)
  | pointer {pos : ℕ} {b b1 : UInt8} {labels : List (List UInt8)} {k : ℕ} :
      abuf[pos]? = some b → 192 ≤ b.toNat → abuf[pos + 1]? = some b1 →
      NameAt abuf ((b.toNat - 192) * 256 + b1.toNat) labels k → NameAt abuf pos labels 2

variable {abuf : List UInt8}

theorem NameAt.lt_length {pos : ℕ} {labels : List (List UInt8)} {k : ℕ}
    (h : NameAt abuf pos labels k) : pos < abuf.length := by
  cases h with
  | root h₀ | label h₀ | pointer h₀ => exact (List.getElem?_eq_some_iff.mp h₀).1

/-- A name lies inside the message. -/
theorem NameAt.add_le_length {pos : ℕ} {labels : List (List UInt8)} {k : ℕ}
    (h : NameAt abuf pos labels k) : pos + k ≤ abuf.length := by
  induction h with
  | root h₀ => have := (List.getElem?_eq_some_iff.mp h₀).1; omega
  | label _ _ _ _ ih => omega
  | pointer _ _ h₁ => have := (List.getElem?_eq_some_iff.mp h₁).1; omega

/-! The byte at a name's position decides which rule built it. -/

theorem NameAt.root_inv {pos : ℕ} {labels : List (List UInt8)} {k : ℕ}
    (h : NameAt abuf pos labels k) (h0 : abuf[pos]? = some 0) : labels = [] ∧ k = 1 := by
  cases h with
  | root => exact ⟨rfl, rfl⟩
  | label hb hpos =>
    rw [h0, Option.some_inj] at hb
    subst hb
    simp at hpos
  | pointer hb hge =>
    rw [h0, Option.some_inj] at hb
    subst hb
    simp at hge

theorem NameAt.pointer_inv {pos : ℕ} {labels : List (List UInt8)} {k : ℕ} {b b1 : UInt8}
    (h : NameAt abuf pos labels k) (hb : abuf[pos]? = some b) (hge : 192 ≤ b.toNat)
    (hb1 : abuf[pos + 1]? = some b1) :
    k = 2 ∧ ∃ k', NameAt abuf ((b.toNat - 192) * 256 + b1.toNat) labels k' := by
  cases h with
  | root h0 =>
    rw [hb, Option.some_inj] at h0
    subst h0
    simp at hge
  | label hb' _ hlt =>
    rw [hb, Option.some_inj] at hb'
    subst hb'
    omega
  | pointer hb' _ hb1' hrest =>
    rw [hb, Option.some_inj] at hb'
    rw [hb1, Option.some_inj] at hb1'
    subst hb' hb1'
    exact ⟨rfl, _, hrest⟩

theorem NameAt.label_inv {pos : ℕ} {labels : List (List UInt8)} {k : ℕ} {b : UInt8}
    (h : NameAt abuf pos labels k) (hb : abuf[pos]? = some b) (hb0 : b ≠ 0) (hlt : b.toNat < 192) :
    ∃ labels' k', NameAt abuf (pos + b.toNat + 1) labels' k' ∧
      labels = (abuf.drop (pos + 1)).take b.toNat :: labels' ∧ k = b.toNat + 1 + k' := by
  cases h with
  | root h0 =>
    rw [hb, Option.some_inj] at h0
    exact absurd h0 hb0
  | label hb' _ _ hrest =>
    rw [hb, Option.some_inj] at hb'
    subst hb'
    exact ⟨_, _, hrest, rfl, rfl⟩
  | pointer hb' hge =>
    rw [hb, Option.some_inj] at hb'
    subst hb'
    omega

/-! ### `dns_name_length` -/

/-- The inner loop of `dns_name_length` over the `offset` bytes of a label from `encoded`:
`'.'` and `'\\'` count two, every other byte one. -/
def labelLength (abuf : List UInt8) : (encoded offset n : ℕ) → Option ℕ
  | _, 0, n => some n
  | encoded, offset + 1, n =>
    match abuf[encoded]? with
    | none => none
    | some c =>
      labelLength abuf (encoded + 1) offset (n + if c = '.'.toUInt8 ∨ c = '\\'.toUInt8 then 2 else 1)

theorem labelLength_eq : ∀ {encoded offset n : ℕ}, encoded + offset ≤ abuf.length →
    labelLength abuf encoded offset n =
      some (n + (((abuf.drop encoded).take offset).flatMap escape).length)
  | _, 0, _, _ => by simp [labelLength]
  | encoded, offset + 1, n, h => by
    have he : encoded < abuf.length := by omega
    rw [labelLength, List.getElem?_eq_getElem he]
    dsimp only
    rw [labelLength_eq (by omega), List.drop_eq_getElem_cons he, List.take_succ_cons, List.flatMap_cons, List.length_append]
    unfold escape
    split <;> simp <;> omega

/-- The variables of the loop of `dns_name_length`. -/
structure LengthState where
  encoded : ℕ
  n : ℕ
  indir : ℕ
  deriving DecidableEq, Repr

/-- One iteration of the loop of `dns_name_length`: `.inr` is a `return`. -/
def lengthStep (abuf : List UInt8) (s : LengthState) : Option (LengthState ⊕ ℤ) :=
  match abuf[s.encoded]? with
  | none => none
  | some b =>
    if b = 0 then
      -- the loop ends; no labels at all have no dot to take back
      some (.inr (if s.n ≠ 0 then s.n - 1 else s.n : ℕ))
    else
      let top := b &&& INDIR_MASK
      if top = INDIR_MASK then
        if abuf.length ≤ s.encoded + 1 then some (.inr (-1))
        else
          match abuf[s.encoded + 1]? with
          | none => none
          | some b1 =>
            let offset := (b &&& ~~~INDIR_MASK).toNat <<< 8 ||| b1.toNat
            if abuf.length ≤ offset then some (.inr (-1))
            -- more indirections than the message length, or than `MAX_INDIRS`: a loop
            else if abuf.length < s.indir + 1 ∨ MAX_INDIRS < s.indir + 1 then some (.inr (-1))
            else some (.inl ⟨offset, s.n, s.indir + 1⟩)
      else if top = 0 then
        if abuf.length ≤ s.encoded + b.toNat + 1 then some (.inr (-1))
        else (labelLength abuf (s.encoded + 1) b.toNat s.n).map
          fun n => .inl ⟨s.encoded + b.toNat + 1, n + 1, s.indir⟩
      -- RFC 1035 4.1.4 reserves the top bits 01 and 10
      else some (.inr (-1))

/-- Enough iterations for every name: at most `MAX_INDIRS` pointers, and between two of them
labels that move forward through the message. -/
def nameFuel (abuf : List UInt8) : ℕ := (MAX_INDIRS + 1) * (abuf.length + 1)

/-- `dns_name_length`: the length of the presentation of the name at `encoded`, or `-1`. -/
def dnsNameLength (encoded : ℕ) (abuf : List UInt8) : Option ℤ :=
  -- the caller may pass `abuf + alen`, and that is checked for
  if abuf.length ≤ encoded then some (-1)
  else Loop.run (lengthStep abuf) (nameFuel abuf) ⟨encoded, 0, 0⟩

/-- Everything one iteration of the length pass can do that goes on: read a label, or follow
a pointer, with the checks that passed. -/
theorem lengthStep_inl {s s' : LengthState} (h : lengthStep abuf s = some (.inl s')) :
    (∃ b, abuf[s.encoded]? = some b ∧ 0 < b.toNat ∧ b.toNat < 64 ∧
        s.encoded + b.toNat + 1 < abuf.length ∧
        s' = ⟨s.encoded + b.toNat + 1,
          s.n + (((abuf.drop (s.encoded + 1)).take b.toNat).flatMap escape).length + 1, s.indir⟩) ∨
      ∃ b b1, abuf[s.encoded]? = some b ∧ 192 ≤ b.toNat ∧ abuf[s.encoded + 1]? = some b1 ∧
        (b.toNat - 192) * 256 + b1.toNat < abuf.length ∧ s.indir + 1 ≤ abuf.length ∧
        s.indir + 1 ≤ MAX_INDIRS ∧ s' = ⟨(b.toNat - 192) * 256 + b1.toNat, s.n, s.indir + 1⟩ := by
  unfold lengthStep at h
  split at h
  · cases h
  · rename_i b hb
    dsimp only at h
    split at h
    · cases h
    split at h
    · -- a compression pointer
      have hb' := (and_indirMask_eq_indirMask_iff b).mp ‹_›
      split at h
      · cases h
      split at h
      · cases h
      rename_i b1 hb1
      rw [pointer_offset_eq b1 hb'] at h
      split at h
      · cases h
      split at h
      · cases h
      cases h
      exact .inr ⟨b, b1, hb, hb', hb1, by omega, by omega, by omega, rfl⟩
    split at h
    · -- a label
      have hlt := (and_indirMask_eq_zero_iff b).mp ‹_›
      split at h
      · cases h
      rw [labelLength_eq (by omega)] at h
      cases h
      exact .inl ⟨b, hb, Nat.pos_of_ne_zero fun h0 => ‹¬b = 0› (UInt8.toNat_inj.mp h0),
        hlt, by omega, rfl⟩
    · cases h

/-- The only exit with a result of at least zero is the zero byte that ends the name. -/
theorem lengthStep_inr {s : LengthState} {v : ℤ} (h : lengthStep abuf s = some (.inr v))
    (hv : 0 ≤ v) : abuf[s.encoded]? = some 0 ∧ v = ((s.n - 1 : ℕ) : ℤ) := by
  unfold lengthStep at h
  split at h
  · cases h
  rename_i b hb
  dsimp only at h
  split at h
  · cases h
    subst b
    refine ⟨hb, ?_⟩
    split <;> simp_all
  split at h
  · -- a pointer leaves the loop only with `-1`
    split at h
    · cases h
      omega
    split at h
    · cases h
    split at h
    · cases h
      omega
    split at h
    · cases h
      omega
    · cases h
  split at h
  · split at h
    · cases h
      omega
    · cases hl : labelLength abuf (s.encoded + 1) b.toNat s.n <;> simp [hl] at h
  · cases h
    omega

/-- The length pass never faults from a position inside the message. -/
theorem lengthStep_isSome {s : LengthState} (h : s.encoded < abuf.length) :
    ∃ o, lengthStep abuf s = some o := by
  unfold lengthStep
  rw [List.getElem?_eq_getElem h]
  dsimp only
  split
  · exact ⟨_, rfl⟩
  split
  · split
    · exact ⟨_, rfl⟩
    rw [List.getElem?_eq_getElem (by omega)]
    dsimp only
    split
    · exact ⟨_, rfl⟩
    split <;> exact ⟨_, rfl⟩
  split
  · split
    · exact ⟨_, rfl⟩
    rw [labelLength_eq (by omega)]
    exact ⟨_, rfl⟩
  · exact ⟨_, rfl⟩

/-! ### The length pass ends, and follows at most `MAX_INDIRS` pointers -/

/-- What holds of every state of the length pass: it is inside the message, it has followed
at most `MAX_INDIRS` pointers (and no more than the message has bytes), and the count, an
`int` of the source, is at most twice the bytes read (once per pointer followed). -/
structure LengthInv (abuf : List UInt8) (s : LengthState) : Prop where
  lt_length : s.encoded < abuf.length
  indir_le : s.indir ≤ MAX_INDIRS
  indir_le_length : s.indir ≤ abuf.length
  n_le : s.n ≤ 2 * (s.indir * abuf.length + s.encoded)

/-- The variant: pointers left to follow, then the bytes left after the position. -/
def lengthVariant (abuf : List UInt8) (s : LengthState) : ℕ :=
  (MAX_INDIRS - s.indir) * (abuf.length + 1) + (abuf.length - s.encoded)

theorem lengthInv_start {encoded : ℕ} (h : encoded < abuf.length) :
    LengthInv abuf ⟨encoded, 0, 0⟩ :=
  ⟨h, Nat.zero_le _, Nat.zero_le _, by simp⟩

theorem LengthInv.step {s s' : LengthState} (hi : LengthInv abuf s)
    (h : lengthStep abuf s = some (.inl s')) :
    LengthInv abuf s' ∧ lengthVariant abuf s' < lengthVariant abuf s := by
  rcases lengthStep_inl h with ⟨b, -, -, -, hlt, rfl⟩ | ⟨b, b1, -, -, -, hoff, hl, hm, rfl⟩
  · -- a label: forward through the message, at most two characters a byte
    have hw := length_flatMap_escape_le ((abuf.drop (s.encoded + 1)).take b.toNat)
    have htake : ((abuf.drop (s.encoded + 1)).take b.toNat).length = b.toNat := by
      simp only [List.length_take, List.length_drop]
      omega
    have hn := hi.n_le
    refine ⟨⟨hlt, hi.indir_le, hi.indir_le_length, by dsimp only; omega⟩, ?_⟩
    unfold lengthVariant
    dsimp only
    omega
  · -- a pointer: one more of the `MAX_INDIRS` spent, anywhere in the message
    have hn := hi.n_le
    have hlen := hi.lt_length
    have hmul : (s.indir + 1) * abuf.length = s.indir * abuf.length + abuf.length := Nat.succ_mul _ _
    have hvar : (MAX_INDIRS - s.indir) * (abuf.length + 1) =
        (MAX_INDIRS - (s.indir + 1)) * (abuf.length + 1) + (abuf.length + 1) := by
      rw [← Nat.succ_mul]
      congr 1
      omega
    refine ⟨⟨hoff, hm, hl, by dsimp only; omega⟩, ?_⟩
    unfold lengthVariant
    dsimp only
    omega

/-- Every state the length pass passes through satisfies `LengthInv`: in particular it has
followed at most `MAX_INDIRS` compression pointers. -/
theorem lengthReaches_inv {encoded : ℕ} (h : encoded < abuf.length) {s : LengthState}
    (hs : Loop.Reaches (lengthStep abuf) ⟨encoded, 0, 0⟩ s) : LengthInv abuf s :=
  hs.inv (LengthInv abuf) (lengthInv_start h) fun _ _ hi hst => (hi.step hst).1

/-- The length pass ends without reading outside the message, from every position. -/
theorem dnsNameLength_isSome (encoded : ℕ) (abuf : List UInt8) :
    ∃ v, dnsNameLength encoded abuf = some v := by
  unfold dnsNameLength
  split
  · exact ⟨_, rfl⟩
  · rename_i h
    have hvar : lengthVariant abuf ⟨encoded, 0, 0⟩ < nameFuel abuf := by
      show (MAX_INDIRS - 0) * (abuf.length + 1) + (abuf.length - encoded) <
        (MAX_INDIRS + 1) * (abuf.length + 1)
      rw [Nat.sub_zero, Nat.succ_mul]
      omega
    obtain ⟨v, hv, -⟩ := Loop.run_of_variant (LengthInv abuf) (lengthVariant abuf) (fun _ => True)
      (fun s hi => by
        obtain ⟨o, ho⟩ := lengthStep_isSome hi.lt_length
        rcases o with s' | r
        · exact .inl ⟨s', ho, hi.step ho⟩
        · exact .inr ⟨r, ho, trivial⟩)
      _ _ (lengthInv_start (Nat.lt_of_not_le h)) hvar
    exact ⟨v, hv⟩

/-! ### What the length pass accepts is a name -/

/-- Read backwards along a run of the length pass: an accepted position holds a name, and
the result is the count so far plus what the rest of the name writes, less its last dot. -/
theorem nameAt_of_lengthRun {fuel : ℕ} {s : LengthState} {v : ℤ}
    (h : Loop.run (lengthStep abuf) fuel s = some v) (hv : 0 ≤ v) :
    ∃ labels k, NameAt abuf s.encoded labels k ∧ v = ((s.n + (expansion labels).length - 1 : ℕ) : ℤ) := by
  revert hv
  refine Loop.run_induction (fun s v => 0 ≤ v → ∃ labels k, NameAt abuf s.encoded labels k ∧
    v = ((s.n + (expansion labels).length - 1 : ℕ) : ℤ)) ?_ ?_ fuel s h
  · intro s v hs hv
    obtain ⟨h0, rfl⟩ := lengthStep_inr hs hv
    exact ⟨[], 1, .root h0, by simp⟩
  · intro s s' v hs ih hv
    obtain ⟨labels, k, hname, rfl⟩ := ih hv
    rcases lengthStep_inl hs with ⟨b, hb, hpos, hlt, -, rfl⟩ | ⟨b, b1, hb, hge, hb1, -, -, -, rfl⟩
    · refine ⟨_, _, .label hb hpos hlt hname, ?_⟩
      simp only [expansion_cons, List.length_append, List.length_singleton]
      congr 2
      omega
    · exact ⟨labels, 2, .pointer hb hge hb1 hname, rfl⟩

/-- What `dns_name_length` accepts is a name, and the result is its presentation's length. -/
theorem nameAt_of_dnsNameLength {encoded : ℕ} {v : ℤ} (h : dnsNameLength encoded abuf = some v)
    (hv : 0 ≤ v) : ∃ labels k, NameAt abuf encoded labels k ∧ v = (presentation labels).length := by
  unfold dnsNameLength at h
  split at h
  · cases h
    omega
  · obtain ⟨labels, k, hname, rfl⟩ := nameAt_of_lengthRun h hv
    refine ⟨labels, k, hname, ?_⟩
    by_cases hnil : labels = []
    · subst hnil
      rfl
    · rw [expansion_eq_presentation_append hnil]
      simp

/-! ### `dns_expand_name` -/

/-- The inner loop of `dns_expand_name` over the `len` bytes of a label from `p`, appending
to what has been written. -/
def expandLabel (abuf : List UInt8) : (p len : ℕ) → List UInt8 → Option (List UInt8)
  | _, 0, q => some q
  | p, len + 1, q =>
    match abuf[p]? with
    | none => none
    | some c =>
      expandLabel abuf (p + 1) len
        (q ++ if c = '.'.toUInt8 ∨ c = '\\'.toUInt8 then ['\\'.toUInt8, c] else [c])

theorem expandLabel_eq : ∀ {p len : ℕ} {q : List UInt8}, p + len ≤ abuf.length →
    expandLabel abuf p len q = some (q ++ ((abuf.drop p).take len).flatMap escape)
  | _, 0, _, _ => by simp [expandLabel]
  | p, len + 1, q, h => by
    have hp : p < abuf.length := by omega
    rw [expandLabel, List.getElem?_eq_getElem hp]
    dsimp only
    rw [expandLabel_eq (by omega), List.drop_eq_getElem_cons hp, List.take_succ_cons, List.flatMap_cons, ← List.append_assoc]
    rfl

/-- The variables of the loop of `dns_expand_name`: the position `p`, what has been written
to the name, `indir` (whether a pointer was followed) and `*enclen`. -/
structure ExpandState where
  p : ℕ
  q : List UInt8
  indir : Bool
  enclen : ℕ
  deriving DecidableEq, Repr

/-- One iteration of the loop of `dns_expand_name` from the name at `encoded`; `.inr` is the
state in which the loop ends. -/
def expandStep (abuf : List UInt8) (encoded : ℕ) (s : ExpandState) :
    Option (ExpandState ⊕ ExpandState) :=
  match abuf[s.p]? with
  | none => none
  | some b =>
    if b = 0 then some (.inr s)
    else if b &&& INDIR_MASK = INDIR_MASK then
      match abuf[s.p + 1]? with
      | none => none
      | some b1 =>
        -- the first pointer ends the name's bytes in place
        some (.inl ⟨(b &&& ~~~INDIR_MASK).toNat <<< 8 ||| b1.toNat, s.q, true,
          if s.indir then s.enclen else aresxUztosl (s.p + 2 - encoded)⟩)
    else
      (expandLabel abuf (s.p + 1) b.toNat s.q).map
        fun q => .inl ⟨s.p + 1 + b.toNat, q ++ ['.'.toUInt8], s.indir, s.enclen⟩

/-- `dns_expand_name`: the bytes written to the expanded name, and `*enclen`. -/
def dnsExpandName (encoded : ℕ) (abuf : List UInt8) : Option (List UInt8 × ℕ) :=
  (Loop.run (expandStep abuf encoded) (nameFuel abuf) ⟨encoded, [], false, 0⟩).map fun s =>
    -- nuke the trailing period if one was written
    (if s.q ≠ [] then s.q.dropLast ++ [0] else [0],
      if s.indir then s.enclen else aresxUztosl (s.p + 1 - encoded))

/-- `dns_expand_name_maxlen`: the status, and on success the bytes written to the name,
`*enclen` and `*expanded_len`. -/
def dnsExpandNameMaxlen (encoded : ℕ) (abuf : List UInt8) : Option (Except ℤ (List UInt8 × ℕ × ℤ)) :=
  match dnsNameLength encoded abuf with
  | none => none
  | some len =>
    if len < 0 then some (.error ARES_EBADNAME)
    else if DNS_NAME_MAX_LENGTH < len + 1 then some (.error ARES_ENOMEM)
    else (dnsExpandName encoded abuf).map fun r => .ok (r.1, r.2, len)

/-! ### The expansion follows the length pass -/

/-- Every iteration of the length pass that goes on is matched by one of the expansion from
the same position, and so is its exit at the zero byte. -/
theorem expandStep_of_lengthStep {encoded : ℕ} {s s' : LengthState} {t : ExpandState}
    (hp : t.p = s.encoded) (h : lengthStep abuf s = some (.inl s')) :
    ∃ t', expandStep abuf encoded t = some (.inl t') ∧ t'.p = s'.encoded := by
  unfold expandStep
  rw [hp]
  rcases lengthStep_inl h with ⟨b, hb, hpos, hlt, hin, rfl⟩ | ⟨b, b1, hb, hge, hb1, -, -, -, rfl⟩
  · have hb0 : b ≠ 0 := fun h0 => by simp [h0] at hpos
    have hnot : ¬b &&& INDIR_MASK = INDIR_MASK := fun h' => by
      have := (and_indirMask_eq_indirMask_iff b).mp h'
      omega
    rw [hb]
    dsimp only
    rw [if_neg hb0, if_neg hnot, expandLabel_eq (by omega)]
    exact ⟨_, rfl, by dsimp only; omega⟩
  · have hb0 : b ≠ 0 := fun h0 => by simp [h0] at hge
    rw [hb]
    dsimp only
    rw [if_neg hb0, if_pos ((and_indirMask_eq_indirMask_iff b).mpr hge), hb1]
    exact ⟨_, rfl, pointer_offset_eq b1 hge⟩

theorem expandStep_of_zero {encoded : ℕ} {t : ExpandState} (h : abuf[t.p]? = some 0) :
    expandStep abuf encoded t = some (.inr t) := by
  simp [expandStep, h]

/-- The expansion leaves its loop only at a zero byte. -/
theorem expandStep_inr {encoded : ℕ} {t r : ExpandState}
    (h : expandStep abuf encoded t = some (.inr r)) : abuf[t.p]? = some 0 ∧ r = t := by
  unfold expandStep at h
  split at h
  · cases h
  rename_i b hb
  split at h
  · cases h
    subst b
    exact ⟨hb, rfl⟩
  split at h
  · split at h <;> cases h
  · cases hl : expandLabel abuf (t.p + 1) b.toNat t.q <;> simp [hl] at h

/-- Everything one iteration of the expansion can do that goes on: follow a pointer, keeping
the first one's end as `*enclen`, or write a label and its dot. -/
theorem expandStep_inl {encoded : ℕ} {t t' : ExpandState}
    (h : expandStep abuf encoded t = some (.inl t')) :
    ∃ b, abuf[t.p]? = some b ∧ b ≠ 0 ∧
      ((192 ≤ b.toNat ∧ ∃ b1, abuf[t.p + 1]? = some b1 ∧
          t' = ⟨(b.toNat - 192) * 256 + b1.toNat, t.q, true,
            if t.indir then t.enclen else aresxUztosl (t.p + 2 - encoded)⟩) ∨
        (b.toNat < 192 ∧ ∃ q, expandLabel abuf (t.p + 1) b.toNat t.q = some q ∧
          t' = ⟨t.p + 1 + b.toNat, q ++ ['.'.toUInt8], t.indir, t.enclen⟩)) := by
  unfold expandStep at h
  split at h
  · cases h
  rename_i b hb
  split at h
  · cases h
  rename_i hb0
  refine ⟨b, hb, hb0, ?_⟩
  split at h
  · rename_i hmask
    have hge := (and_indirMask_eq_indirMask_iff b).mp hmask
    split at h
    · cases h
    rename_i b1 hb1
    cases h
    exact .inl ⟨hge, b1, hb1, by rw [pointer_offset_eq b1 hge]⟩
  · rename_i hmask
    have hlt : b.toNat < 192 := Nat.lt_of_not_le fun hge =>
      hmask ((and_indirMask_eq_indirMask_iff b).mpr hge)
    cases hl : expandLabel abuf (t.p + 1) b.toNat t.q with
    | none => simp [hl] at h
    | some q =>
      simp only [hl, Option.map_some, Option.some_inj, Sum.inl.injEq] at h
      exact .inr ⟨hlt, q, rfl, h.symm⟩

/-- Read backwards along a run of the expansion over a name: it writes what it has written
and the rest of the name, and `*enclen` ends as the bytes the name takes at `encoded`. -/
theorem expandRun_of_nameAt {encoded fuel : ℕ} {t r : ExpandState}
    (h : Loop.run (expandStep abuf encoded) fuel t = some r) :
    ∀ labels k, NameAt abuf t.p labels k → r.q = t.q ++ expansion labels ∧
      (if r.indir then r.enclen else aresxUztosl (r.p + 1 - encoded)) =
        if t.indir then t.enclen else aresxUztosl (t.p + k - encoded) := by
  refine Loop.run_induction (fun t r => ∀ labels k, NameAt abuf t.p labels k →
    r.q = t.q ++ expansion labels ∧ (if r.indir then r.enclen else aresxUztosl (r.p + 1 - encoded)) =
      if t.indir then t.enclen else aresxUztosl (t.p + k - encoded)) ?_ ?_ fuel t h
  · -- the loop ends on a zero byte, the root of the name
    intro t r ht labels k hname
    obtain ⟨h0, rfl⟩ := expandStep_inr ht
    obtain ⟨rfl, rfl⟩ := hname.root_inv h0
    exact ⟨by simp, rfl⟩
  · intro t t' r ht ih labels k hname
    obtain ⟨b, hb, hb0, ⟨hge, b1, hb1, rfl⟩ | ⟨hlt, q, hq, rfl⟩⟩ := expandStep_inl ht
    · -- a pointer: the rest of the name is where it points
      obtain ⟨rfl, k', hrest⟩ := hname.pointer_inv hb hge hb1
      obtain ⟨hq, henc⟩ := ih labels k' hrest
      refine ⟨hq, ?_⟩
      rw [henc]
      cases t.indir <;> rfl
    · -- a label: written escaped, then the rest of the name after it
      obtain ⟨labels', k', hrest, rfl, rfl⟩ := hname.label_inv hb hb0 hlt
      have hin := hrest.lt_length
      rw [expandLabel_eq (by omega), Option.some_inj] at hq
      subst hq
      obtain ⟨hq', henc⟩ := ih labels' k' (by rw [show t.p + 1 + b.toNat = t.p + b.toNat + 1 by omega]; exact hrest)
      refine ⟨by rw [hq', expansion_cons]; simp, ?_⟩
      rw [henc]
      dsimp only
      rw [show t.p + 1 + b.toNat + k' = t.p + (b.toNat + 1 + k') by omega]

/-- Over a name the length pass accepts, the expansion ends without reading outside the
message; it writes the presentation and a NUL, and `*enclen` is the bytes the name takes. -/
theorem dnsExpandName_of_nameAt {encoded : ℕ} {v : ℤ} (h : dnsNameLength encoded abuf = some v)
    (hv : 0 ≤ v) {labels : List (List UInt8)} {k : ℕ} (hname : NameAt abuf encoded labels k) :
    dnsExpandName encoded abuf = some (presentation labels ++ [0], aresxUztosl k) := by
  have hlt := hname.lt_length
  unfold dnsNameLength at h
  rw [if_neg (Nat.not_le.mpr hlt)] at h
  -- the expansion runs in lockstep with the length pass, from the same position
  have hsim : ∃ r, Loop.run (expandStep abuf encoded) (nameFuel abuf) ⟨encoded, [], false, 0⟩ = some r :=
    Loop.run_sim (fun s t => t.p = s.encoded) (fun v => 0 ≤ v)
      (fun s t s' hp hs => expandStep_of_lengthStep hp hs)
      (fun s t v hp hs hv => ⟨t, expandStep_of_zero (hp ▸ (lengthStep_inr hs hv).1)⟩)
      _ _ _ rfl h hv
  obtain ⟨r, hr⟩ := hsim
  obtain ⟨hq, henc⟩ := expandRun_of_nameAt hr labels k hname
  unfold dnsExpandName
  rw [hr, Option.map_some, henc, hq]
  dsimp only
  rw [List.nil_append, finish_expansion, if_neg Bool.false_ne_true, Nat.add_sub_cancel_left]

-- the label `a.c`: its dot is escaped, and the name takes its five bytes
example : dnsExpandNameMaxlen 0 [3, 97, 46, 99, 0] = some (.ok ([97, 92, 46, 99, 0], 5, 4)) := by
  decide

/-- `dns_expand_name_maxlen` fails with a status other than `ARES_SUCCESS`, or it expands a
name that fits the buffer: the presentation and its NUL, with the name's bytes as
`*enclen` and the presentation's length as `*expanded_len`.  It never reads outside `abuf`. -/
theorem dnsExpandNameMaxlen_cases (encoded : ℕ) (abuf : List UInt8) :
    (∃ e, dnsExpandNameMaxlen encoded abuf = some (.error e) ∧ e ≠ ARES_SUCCESS) ∨
      ∃ labels k, NameAt abuf encoded labels k ∧
        ((presentation labels).length : ℤ) + 1 ≤ DNS_NAME_MAX_LENGTH ∧
        dnsExpandNameMaxlen encoded abuf =
          some (.ok (presentation labels ++ [0], aresxUztosl k, (presentation labels).length)) := by
  obtain ⟨v, hv⟩ := dnsNameLength_isSome encoded abuf
  unfold dnsExpandNameMaxlen
  rw [hv]
  dsimp only
  split
  · exact .inl ⟨_, rfl, by decide⟩
  split
  · exact .inl ⟨_, rfl, by decide⟩
  rename_i hneg hmax
  obtain ⟨labels, k, hname, rfl⟩ := nameAt_of_dnsNameLength hv (by omega)
  rw [dnsExpandName_of_nameAt hv (by omega) hname]
  exact .inr ⟨labels, k, hname, by omega, rfl⟩

/-- A name that is a pointer at once: none of its bytes comes before its first pointer, and
`*enclen` is the pointer's two bytes. -/
theorem enclen_counts_pointer_bytes :
    (192 : UInt8) &&& INDIR_MASK = INDIR_MASK ∧
      dnsExpandNameMaxlen 0 [192, 2, 0] = some (.ok ([0], 2, 0)) := by
  decide

end Dns

end OtelEbpf
