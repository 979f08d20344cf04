import Mathlib.Data.List.Basic

/-!
# HTTP request detection

The TCP processor (`collector/kernel/bpf_src/tcp-processor`) looks at the first bytes of a
stream to decide its protocol.  `http_detect` (`bpf_http_protocol.h`) switches on the first
byte, and for `'P'` on the second, and compares the rest of one HTTP method with
`string_starts_with` (`bpf_memory.h`) behind a length guard of its own for each method.  It
answers `TPD_SUCCESS`, `TPD_FAILED` or `TPD_UNKNOWN` (too short to tell); on `TPD_FAILED` the
caller clears the HTTP candidate bit of the connection for good.

The data are the `data_len` bytes at `data`, a list of bytes; `bpf_probe_read` of a byte inside
them reads it.

The switch is read as the table `httpSwitch` of its cases (`httpDetect_eq_detectWith`).

* `httpDetect_eq_success_iff` : `TPD_SUCCESS` exactly when the data begin with one of the nine
  methods.
* `httpDetect_failed` : `TPD_FAILED` only when no continuation of the data begins with a
  method, or the data are the three bytes `POS`.
* `httpDetect_fails_prefix_of_POST` : `POS` is answered `TPD_FAILED` although it is the start
  of `POST`: the `'O'` case after `'P'` has no length guard, and `string_starts_with` fails on
  the one byte left for `"ST"`.
-/

namespace OtelEbpf

namespace TcpProcessor

/-- The bytes of an ASCII string. -/
def ascii (s : String) : List UInt8 := s.toList.map Char.toUInt8

/-- `enum TCP_PROTOCOL_DETECT_RESULT` (`tcp_processor.h`). -/
inductive TcpProtocolDetectResult
  | TPD_FAILED
  | TPD_UNKNOWN
  | TPD_SUCCESS
  deriving DecidableEq, Repr

open TcpProtocolDetectResult

/-- `string_starts_with(s1, s1_len, s2)`: `0` if `s1_len < strlen(s2)`, else the `strlen(s2)`
bytes read from `s1` into `localdata` compared with `s2` one by one. -/
def stringStartsWith (s1 : List UInt8) (s1Len : ℕ) (s2 : List UInt8) : Bool :=
  if s1Len < s2.length then false
  else (List.range s2.length).all fun i => s1.getD i 0 == s2.getD i 0

/-- `string_starts_with(...) ? TPD_SUCCESS : TPD_FAILED`. -/
def successOrFailed (b : Bool) : TcpProtocolDetectResult := if b then TPD_SUCCESS else TPD_FAILED

/-- `http_detect(ctx, pconn, pctrl, streamtype, data, data_len)`. -/
def httpDetect (data : List UInt8) (dataLen : ℕ) : TcpProtocolDetectResult :=
  if dataLen ≥ 3 then
    let c := data.getD 0 0
    if c = 'G'.toUInt8 then successOrFailed (stringStartsWith (data.drop 1) (dataLen - 1) (ascii "ET"))
    else if c = 'H'.toUInt8 then
      if dataLen ≥ 4 then successOrFailed (stringStartsWith (data.drop 1) (dataLen - 1) (ascii "EAD"))
      else TPD_UNKNOWN
    else if c = 'D'.toUInt8 then
      if dataLen ≥ 6 then successOrFailed (stringStartsWith (data.drop 1) (dataLen - 1) (ascii "ELETE"))
      else TPD_UNKNOWN
    else if c = 'C'.toUInt8 then
      if dataLen ≥ 7 then successOrFailed (stringStartsWith (data.drop 1) (dataLen - 1) (ascii "ONNECT"))
      else TPD_UNKNOWN
    else if c = 'O'.toUInt8 then
      if dataLen ≥ 7 then successOrFailed (stringStartsWith (data.drop 1) (dataLen - 1) (ascii "PTIONS"))
      else TPD_UNKNOWN
    else if c = 'T'.toUInt8 then
      if dataLen ≥ 5 then successOrFailed (stringStartsWith (data.drop 1) (dataLen - 1) (ascii "RACE"))
      else TPD_UNKNOWN
    else if c = 'P'.toUInt8 then
      -- the second byte picks the method, with no guard of its own for `PUT` and `POST`
      let c := data.getD 1 0
      if c = 'U'.toUInt8 then successOrFailed (stringStartsWith (data.drop 2) (dataLen - 2) (ascii "T"))
      else if c = 'O'.toUInt8 then
        successOrFailed (stringStartsWith (data.drop 2) (dataLen - 2) (ascii "ST"))
      else if c = 'A'.toUInt8 then
        if dataLen ≥ 5 then successOrFailed (stringStartsWith (data.drop 2) (dataLen - 2) (ascii "TCH"))
        else TPD_UNKNOWN
      else TPD_FAILED
    else TPD_FAILED
  else TPD_UNKNOWN

/-! ### What the detector is meant to decide -/

/-- The methods `http_detect` accepts. -/
def httpVerbs : List (List UInt8) :=
  ["GET", "HEAD", "DELETE", "CONNECT", "OPTIONS", "TRACE", "PUT", "POST", "PATCH"].map ascii

/-- The data begin with an HTTP method. -/
def BeginsWithVerb (d : List UInt8) : Prop := ∃ v ∈ httpVerbs, v <+: d

/-- Some continuation of the data begins with an HTTP method. -/
def ExtendsToVerb (d : List UInt8) : Prop := ∃ v ∈ httpVerbs, ∃ e, v <+: d ++ e

/-- A continuation of `d` begins with `v` exactly when one of the two is a prefix of the other. -/
theorem exists_prefix_append_iff (v d : List UInt8) : (∃ e, v <+: d ++ e) ↔ v <+: d ∨ d <+: v := by
  constructor
  · rintro ⟨e, he⟩
    exact List.prefix_or_prefix_of_prefix he (List.prefix_append d e)
  · rintro (h | ⟨e, rfl⟩)
    · exact ⟨[], by simpa using h⟩
    · exact ⟨e, List.prefix_refl _⟩

theorem extendsToVerb_iff (d : List UInt8) : ExtendsToVerb d ↔ ∃ v ∈ httpVerbs, v <+: d ∨ d <+: v := by
  simp only [ExtendsToVerb, exists_prefix_append_iff]

/-! ### `string_starts_with` is a prefix test -/

/-- Over the whole of `s1`, `string_starts_with` tests whether `s2` is a prefix of it. -/
theorem stringStartsWith_eq (s1 s2 : List UInt8) :
    stringStartsWith s1 s1.length s2 = decide (s2 <+: s1) := by
  unfold stringStartsWith
  by_cases hlt : s1.length < s2.length
  · have : ¬ s2 <+: s1 := fun h => absurd h.length_le (by omega)
    simp [hlt, this]
  · simp only [hlt, if_false]
    rw [Bool.eq_iff_iff, List.all_eq_true, decide_eq_true_iff, List.prefix_iff_eq_take]
    constructor
    · intro h
      apply List.ext_getElem (by simp; omega)
      intro i h₁ h₂
      have := h i (List.mem_range.mpr h₁)
      rw [beq_iff_eq, List.getD_eq_getElem?_getD, List.getD_eq_getElem?_getD,
        List.getElem?_eq_getElem (by omega), List.getElem?_eq_getElem h₁] at this
      simpa [List.getElem_take] using this.symm
    · intro h i hi
      have hi : i < s2.length := List.mem_range.mp hi
      rw [beq_iff_eq, h, List.getD_eq_getElem?_getD, List.getD_eq_getElem?_getD,
        List.getElem?_take_of_lt hi]

theorem stringStartsWith_drop (data s2 : List UInt8) (k : ℕ) :
    stringStartsWith (data.drop k) (data.length - k) s2 = decide (s2 <+: data.drop k) := by
  rw [← List.length_drop, stringStartsWith_eq]

/-! ### The switch as a table -/

/-- The cases of the switch: the byte the data must begin with, the second byte for the cases
under `'P'`, the method and the length its guard asks for. -/
def httpSwitch : List (UInt8 × Option UInt8 × List UInt8 × ℕ) :=
  [('G'.toUInt8, none, 'G'.toUInt8 :: ascii "ET", 3),
   ('H'.toUInt8, none, 'H'.toUInt8 :: ascii "EAD", 4),
   ('D'.toUInt8, none, 'D'.toUInt8 :: ascii "ELETE", 6),
   ('C'.toUInt8, none, 'C'.toUInt8 :: ascii "ONNECT", 7),
   ('O'.toUInt8, none, 'O'.toUInt8 :: ascii "PTIONS", 7),
   ('T'.toUInt8, none, 'T'.toUInt8 :: ascii "RACE", 5),
   ('P'.toUInt8, some 'U'.toUInt8, 'P'.toUInt8 :: 'U'.toUInt8 :: ascii "T", 3),
   ('P'.toUInt8, some 'O'.toUInt8, 'P'.toUInt8 :: 'O'.toUInt8 :: ascii "ST", 3),
   ('P'.toUInt8, some 'A'.toUInt8, 'P'.toUInt8 :: 'A'.toUInt8 :: ascii "TCH", 5)]

/-- The method and guard of the case the first two bytes `a`, `b` select, if any. -/
def methodFor (a b : UInt8) : Option (List UInt8 × ℕ) :=
  (httpSwitch.find? fun e => a = e.1 ∧ e.2.1.all (b = ·)).map (·.2.2)

/-- What `http_detect` answers for the case selected, `TPD_FAILED` when none is. -/
def detectWith (d : List UInt8) : Option (List UInt8 × ℕ) → TcpProtocolDetectResult
  | none => TPD_FAILED
  | some (v, guard) => if guard ≤ d.length then successOrFailed (decide (v <+: d)) else TPD_UNKNOWN

theorem detectWith_eq_success_iff (d : List UInt8) (o : Option (List UInt8 × ℕ)) :
    detectWith d o = TPD_SUCCESS ↔ ∃ v g, o = some (v, g) ∧ g ≤ d.length ∧ v <+: d := by
  cases o with
  | none => simp [detectWith]
  | some p =>
    obtain ⟨v, g⟩ := p
    by_cases hg : g ≤ d.length <;> by_cases hv : v <+: d <;> simp [detectWith, successOrFailed, hg, hv]

theorem detectWith_eq_failed_iff (d v : List UInt8) (g : ℕ) :
    detectWith d (some (v, g)) = TPD_FAILED ↔ g ≤ d.length ∧ ¬ v <+: d := by
  by_cases hg : g ≤ d.length <;> by_cases hv : v <+: d <;> simp [detectWith, successOrFailed, hg, hv]

theorem methodFor_mem {a b : UInt8} {v : List UInt8} {g : ℕ} (h : methodFor a b = some (v, g)) :
    v ∈ httpVerbs := by
  obtain ⟨e, he, hv⟩ := Option.map_eq_some_iff.mp h
  have hrows : ∀ e ∈ httpSwitch, e.2.2.1 ∈ httpVerbs := by decide
  have := hrows e (List.mem_of_find?_eq_some he)
  rwa [hv] at this

/-- Every method is selected by its own first two bytes, with a guard of its own length, but
for `POST`, whose guard is the `data_len >= 3` of the whole switch. -/
theorem methodFor_verb : ∀ w ∈ httpVerbs,
    methodFor (w.getD 0 0) (w.getD 1 0) = some (w, if w = ascii "POST" then 3 else w.length) := by
  decide

theorem three_le_length_of_verb : ∀ w ∈ httpVerbs, 3 ≤ w.length := by
  decide

theorem cons_prefix_iff (x : UInt8) (v d : List UInt8) (hd : d ≠ []) :
    x :: v <+: d ↔ d.getD 0 0 = x ∧ v <+: d.drop 1 := by
  obtain ⟨y, d, rfl⟩ := List.exists_cons_of_ne_nil hd
  simp [eq_comm]

/-- A case on the first byte: `string_starts_with` of the rest of the method after it. -/
theorem detectWith_one {d : List UInt8} {x : UInt8} (s2 : List UInt8) (g : ℕ) (hx : d.getD 0 0 = x)
    (hd : d ≠ []) :
    detectWith d (some (x :: s2, g)) =
      if g ≤ d.length then successOrFailed (stringStartsWith (d.drop 1) (d.length - 1) s2)
      else TPD_UNKNOWN := by
  rw [detectWith, stringStartsWith_drop]
  simp only [cons_prefix_iff x s2 d hd, hx, true_and]

/-- A case on the first two bytes. -/
theorem detectWith_two {d : List UInt8} {x y : UInt8} (s2 : List UInt8) (g : ℕ) (hx : d.getD 0 0 = x)
    (hy : d.getD 1 0 = y) (hd : 2 ≤ d.length) :
    detectWith d (some (x :: y :: s2, g)) =
      if g ≤ d.length then successOrFailed (stringStartsWith (d.drop 2) (d.length - 2) s2)
      else TPD_UNKNOWN := by
  have hd₁ : d.drop 1 ≠ [] := List.ne_nil_of_length_pos (by rw [List.length_drop]; omega)
  have hy₁ : (d.drop 1).getD 0 0 = y := by rw [← hy]; cases d <;> simp
  rw [detectWith, stringStartsWith_drop]
  simp only [cons_prefix_iff x _ d (List.ne_nil_of_length_pos (by omega)), cons_prefix_iff y s2 _ hd₁,
    List.drop_drop, hx, hy₁, true_and]

/-- On three bytes or more, `http_detect` answers for the case of `httpSwitch` that the first two
bytes select. -/
theorem httpDetect_eq_detectWith (d : List UInt8) (hd : 3 ≤ d.length) :
    httpDetect d d.length = detectWith d (methodFor (d.getD 0 0) (d.getD 1 0)) := by
  have hne : d ≠ [] := List.ne_nil_of_length_pos (by omega)
  unfold httpDetect
  rw [if_pos hd]
  dsimp only
  -- the cases of the switch in its order, each against its row of `httpSwitch`
  by_cases hG : d.getD 0 0 = 'G'.toUInt8
  · rw [if_pos hG, show methodFor _ _ = some _ by rw [hG]; rfl, detectWith_one _ _ hG hne, if_pos hd]
  rw [if_neg hG]
  by_cases hH : d.getD 0 0 = 'H'.toUInt8
  · rw [if_pos hH, show methodFor _ _ = some _ by rw [hH]; rfl, detectWith_one _ _ hH hne]
  rw [if_neg hH]
  by_cases hD : d.getD 0 0 = 'D'.toUInt8
  · rw [if_pos hD, show methodFor _ _ = some _ by rw [hD]; rfl, detectWith_one _ _ hD hne]
  rw [if_neg hD]
  by_cases hC : d.getD 0 0 = 'C'.toUInt8
  · rw [if_pos hC, show methodFor _ _ = some _ by rw [hC]; rfl, detectWith_one _ _ hC hne]
  rw [if_neg hC]
  by_cases hO : d.getD 0 0 = 'O'.toUInt8
  · rw [if_pos hO, show methodFor _ _ = some _ by rw [hO]; rfl, detectWith_one _ _ hO hne]
  rw [if_neg hO]
  by_cases hT : d.getD 0 0 = 'T'.toUInt8
  · rw [if_pos hT, show methodFor _ _ = some _ by rw [hT]; rfl, detectWith_one _ _ hT hne]
  rw [if_neg hT]
  by_cases hP : d.getD 0 0 = 'P'.toUInt8
  · rw [if_pos hP]
    by_cases hU : d.getD 1 0 = 'U'.toUInt8
    · rw [if_pos hU, show methodFor _ _ = some _ by rw [hP, hU]; rfl,
        detectWith_two _ _ hP hU (by omega), if_pos hd]
    rw [if_neg hU]
    by_cases hO : d.getD 1 0 = 'O'.toUInt8
    · rw [if_pos hO, show methodFor _ _ = some _ by rw [hP, hO]; rfl,
        detectWith_two _ _ hP hO (by omega), if_pos hd]
    rw [if_neg hO]
    by_cases hA : d.getD 1 0 = 'A'.toUInt8
    · rw [if_pos hA, show methodFor _ _ = some _ by rw [hP, hA]; rfl,
        detectWith_two _ _ hP hA (by omega)]
    rw [if_neg hA, show methodFor _ _ = none by
      rw [hP]; generalize d.getD 1 0 = b at hU hO hA; simp +decide [methodFor, httpSwitch, hU, hO, hA]]
    rfl
  rw [if_neg hP, show methodFor _ _ = none by
    generalize d.getD 0 0 = a at hG hH hD hC hO hT hP
    simp +decide [methodFor, httpSwitch, hG, hH, hD, hC, hO, hT, hP]]
  rfl


/-! ### What `http_detect` answers -/

theorem getD_eq_of_isPrefix {l₁ l₂ : List UInt8} (h : l₁ <+: l₂) {i : ℕ} (hi : i < l₁.length) :
    l₁.getD i 0 = l₂.getD i 0 := by
  rw [List.getD_eq_getElem?_getD, List.getD_eq_getElem?_getD, List.getElem?_eq_getElem hi,
    List.getElem?_eq_getElem (by have := h.length_le; omega), h.getElem hi]

/-- Data of fewer than three bytes are `TPD_UNKNOWN`, and begin with no method. -/
theorem httpDetect_of_lt_three {d : List UInt8} (hd : ¬ 3 ≤ d.length) :
    httpDetect d d.length = TPD_UNKNOWN ∧ ¬ BeginsWithVerb d := by
  refine ⟨by rw [httpDetect, if_neg hd], ?_⟩
  rintro ⟨w, hw, hpre⟩
  have := three_le_length_of_verb w hw
  have := hpre.length_le
  omega

/-- `TPD_SUCCESS` exactly when the data begin with an HTTP method. -/
theorem httpDetect_eq_success_iff (d : List UInt8) :
    httpDetect d d.length = TPD_SUCCESS ↔ BeginsWithVerb d := by
  by_cases hd : 3 ≤ d.length
  swap
  · obtain ⟨hu, hno⟩ := httpDetect_of_lt_three hd
    simp [hu, hno]
  rw [httpDetect_eq_detectWith d hd, detectWith_eq_success_iff]
  constructor
  · rintro ⟨v, g, hm, -, hpre⟩
    exact ⟨v, methodFor_mem hm, hpre⟩
  · rintro ⟨w, hw, hpre⟩
    -- the method the data begin with is the one their first two bytes select
    have h3 := three_le_length_of_verb w hw
    have h0 := getD_eq_of_isPrefix hpre (i := 0) (by omega)
    have h1 := getD_eq_of_isPrefix hpre (i := 1) (by omega)
    refine ⟨w, _, by rw [← h0, ← h1, methodFor_verb w hw], ?_, hpre⟩
    have := hpre.length_le
    split_ifs <;> omega

/-- `TPD_FAILED` only when no continuation of the data begins with an HTTP method, or the data
are `POS`: a method compatible with the data is the one their first bytes select, and it fails
only below its own length, which only the guard of `POST` allows. -/
theorem httpDetect_failed (d : List UInt8) (h : httpDetect d d.length = TPD_FAILED) :
    ¬ ExtendsToVerb d ∨ d = ascii "POS" := by
  by_cases hd : 3 ≤ d.length
  swap
  · rw [(httpDetect_of_lt_three hd).1] at h
    cases h
  rw [or_iff_not_imp_left, not_not, extendsToVerb_iff]
  rintro ⟨w, hw, hwd⟩
  have h3 := three_le_length_of_verb w hw
  have hbytes : d.getD 0 0 = w.getD 0 0 ∧ d.getD 1 0 = w.getD 1 0 := by
    rcases hwd with hp | hp
    · exact ⟨(getD_eq_of_isPrefix hp (by omega)).symm, (getD_eq_of_isPrefix hp (by omega)).symm⟩
    · exact ⟨getD_eq_of_isPrefix hp (by omega), getD_eq_of_isPrefix hp (by omega)⟩
  rw [httpDetect_eq_detectWith d hd, hbytes.1, hbytes.2, methodFor_verb w hw,
    detectWith_eq_failed_iff] at h
  obtain ⟨hg, hnot⟩ := h
  -- the method is not a prefix of the data, so the data are a proper prefix of it
  have hdw : d <+: w := hwd.resolve_left hnot
  have hlt : d.length < w.length := by
    rcases Nat.lt_or_eq_of_le hdw.length_le with hlt | heq
    · exact hlt
    · exact absurd (hdw.eq_of_length heq ▸ List.prefix_refl w) hnot
  split_ifs at hg with hpost
  · subst hpost
    have hlen : d.length = 3 := by
      have : (ascii "POST").length = 4 := by decide
      omega
    rw [List.prefix_iff_eq_take.mp hdw, hlen]
    decide
  · omega

/-- `POS`, the start of `POST`, is answered `TPD_FAILED`. -/
theorem httpDetect_fails_prefix_of_POST :
    httpDetect (ascii "POS") (ascii "POS").length = TPD_FAILED ∧ ExtendsToVerb (ascii "POS") :=
  ⟨by decide, ⟨ascii "POST", by decide, ascii "T", by decide⟩⟩

end TcpProcessor

end OtelEbpf
