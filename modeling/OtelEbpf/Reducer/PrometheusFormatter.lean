import OtelEbpf.Reducer.TsdbFormatter

/-!
# The Prometheus formatter

`PrometheusFormatter::format` (`reducer/prometheus_formatter.cc`) writes a sample of the text
exposition format as three pieces: the metric name with every `.` replaced by `_`, the label
block `{name="value",...}` that `prom_format_labels` writes into the 8192 bytes of
`labels_buf_`, and the suffix ` <value> <milliseconds>\n` that `prom_format_suffix` writes into
the 64 bytes of `suffix_buf_`.  It keeps the label block and the timestamp's text between calls.

Label values are written as they are, with no escape.

* `promFormatLabels_eq_take` : the label block is the first 8192 bytes of its text.
* `prometheus_run_eq_specRun` : along every sequence of calls, every `write` writes what a
  formatter that keeps nothing writes, so the kept label block and timestamp are never stale.
* `readLabels_promLabelsText` : the exposition reader reads back the sanitized labels from a
  block whose names are label names and whose values hold no `"`, `\` or newline.
* `promLine_one_newline` : a sample from names and values with no newline, whose pieces fit the
  buffers, is one line.
-/

namespace OtelEbpf

namespace Reducer

/-- A name with every `.` replaced by `_`, as `format` and `prom_format_labels` sanitize the
metric and the label names. -/
def sanitize (name : List Char) : List Char := name.map fun c => if c = '.' then '_' else c

/-- `prom_format_labels(buff_ptr, buff_size, labels)`: each piece is cut to the room left in
the buffer. -/
def promFormatLabels (buffSize : ℕ) (labels : Labels) : List Char :=
  let writeStr := Bytes.appendBounded buffSize
  let writeLabel (st : List Char × ℕ) (name value : List Char) : List Char × ℕ :=
    let buf := if st.2 > 0 then writeStr st.1 [','] else st.1
    let buf := writeStr (writeStr (writeStr (writeStr buf name) ['=', '"']) value) ['"']
    (buf, st.2 + 1)
  let st := labels.foldl (fun st l => writeLabel st (sanitize l.1) l.2) (writeStr [] ['{'], 0)
  writeStr st.1 ['}']

/-- `prom_format_suffix(buf_ptr, buf_size, value, timestamp)`: `fmt::format_to_n` of
`" {} {}\n"`, cut to the buffer. -/
def promFormatSuffix (bufSize : ℕ) (value timestamp : List Char) : List Char :=
  (' ' :: value ++ ' ' :: timestamp ++ ['\n']).take bufSize

/-- `std::to_string(integer_time<std::chrono::milliseconds>(timestamp))`: the milliseconds,
truncated toward zero. -/
def timestampText (timestamp : Int) : List Char := (toString (timestamp.tdiv 1000000)).toList

/-- What `PrometheusFormatter` keeps between calls: `labels_` and `timestamp_str_`, empty at
first. -/
structure PromCache where
  labels : List Char
  timestampStr : List Char

/-- `PrometheusFormatter::format`. -/
def promFormat (pr : Printers) (c : PromCache) (e : Entry) : PromCache × Line :=
  let timestampStr := if e.timestampChanged || c.timestampStr.isEmpty then
    timestampText e.timestamp else c.timestampStr
  let labels := if e.aggregationChanged || e.rollupChanged || e.labelsChanged || c.labels.isEmpty
    then promFormatLabels 8192 e.labels else c.labels
  let suffix := promFormatSuffix 64 (formatValue pr e.value) timestampStr
  (⟨labels, timestampStr⟩, (sanitize e.metric, labels, suffix))

/-- A new `PrometheusFormatter`. -/
def PromCache.init : PromCache := ⟨[], []⟩

/-! ### The label block -/

/-- A label as `prom_format_labels` writes it. -/
def promLabel (l : List Char × List Char) : List Char :=
  sanitize l.1 ++ '=' :: '"' :: l.2 ++ ['"']

/-- The labels after `n` others, each after a `,` but the first. -/
def promLabelsBody (n : ℕ) : Labels → List Char
  | [] => []
  | l :: ls => (if n > 0 then [','] else []) ++ promLabel l ++ promLabelsBody (n + 1) ls

/-- The label block that a buffer without bound would hold. -/
def promLabelsText (labels : Labels) : List Char := '{' :: promLabelsBody 0 labels ++ ['}']

/-- The loop over the labels writes the first bytes of the text of the labels. -/
theorem foldl_writeLabel (size : ℕ) (labels : Labels) (text : List Char) (n : ℕ) :
    labels.foldl (fun st l =>
      let buf := if st.2 > 0 then Bytes.appendBounded size st.1 [','] else st.1
      (Bytes.appendBounded size (Bytes.appendBounded size (Bytes.appendBounded size
        (Bytes.appendBounded size buf (sanitize l.1)) ['=', '"']) l.2) ['"'], st.2 + 1))
      (text.take size, n) =
      ((text ++ promLabelsBody n labels).take size, n + labels.length) := by
  induction labels generalizing text n with
  | nil => simp [promLabelsBody]
  | cons l labels ih =>
    have hsep : (if n > 0 then Bytes.appendBounded size (text.take size) [','] else
        text.take size) = (text ++ if n > 0 then [','] else []).take size := by
      split
      · exact Bytes.appendBounded_take size text [',']
      · simp
    simp only [List.foldl_cons]
    rw [hsep, Bytes.appendBounded_take, Bytes.appendBounded_take, Bytes.appendBounded_take,
      Bytes.appendBounded_take, ih]
    simp only [promLabelsBody, promLabel, List.length_cons, List.append_assoc, List.cons_append,
      List.nil_append, Nat.add_assoc, Nat.add_comm 1]

/-- The label block is the first `buff_size` bytes of its text. -/
theorem promFormatLabels_eq_take (buffSize : ℕ) (labels : Labels) :
    promFormatLabels buffSize labels = (promLabelsText labels).take buffSize := by
  have hopen : Bytes.appendBounded buffSize [] ['{'] = (['{'] : List Char).take buffSize := by
    simpa using Bytes.appendBounded_take buffSize [] ['{']
  unfold promFormatLabels
  dsimp only
  rw [hopen, foldl_writeLabel, Bytes.appendBounded_take]
  simp [promLabelsText]

/-! ### The kept text is never stale -/

/-- What a `PrometheusFormatter` that keeps nothing writes. -/
def promLine (pr : Printers) (f : TsdbFormatter) (metric : List Char) (value : Value) : Line :=
  (sanitize metric, promFormatLabels 8192 f.labels,
    promFormatSuffix 64 (formatValue pr value) (timestampText f.timestamp))

/-- The kept label block is that of the labels, and the kept timestamp that of the timestamp,
unless they are still empty or the labels or the timestamp changed since. -/
def PromCache.Fresh (f : TsdbFormatter) (c : PromCache) : Prop :=
  (f.labelsChanged = false → c.labels = [] ∨ c.labels = promFormatLabels 8192 f.labels) ∧
    (f.timestampChanged = false → c.timestampStr = [] ∨ c.timestampStr = timestampText f.timestamp)

theorem PromCache.fresh_setter (s : Setter) (f : TsdbFormatter) (c : PromCache)
    (h : PromCache.Fresh f c) : PromCache.Fresh (s.apply f) c := by
  refine ⟨fun hl => ?_, fun ht => ?_⟩
  · obtain ⟨heq, hl'⟩ := s.labels_of_not_changed f hl
    rw [heq]
    exact h.1 hl'
  · obtain ⟨heq, ht'⟩ := s.timestamp_of_not_changed f ht
    rw [heq]
    exact h.2 ht'

/-- A cached piece is recomputed when a flag is set or it is empty, so it is fresh after. -/
theorem recompute_of_fresh {flag : Bool} {cached fresh : List Char}
    (h : flag = false → cached = [] ∨ cached = fresh) :
    (if flag || cached.isEmpty then fresh else cached) = fresh := by
  cases flag with
  | true => rfl
  | false =>
    rcases h rfl with rfl | rfl
    · rfl
    · simp

/-- `format` from a cache fresh for the entry writes the entry's label block and timestamp. -/
theorem promFormat_of_fresh (pr : Printers) (c : PromCache) (e : Entry)
    (hl : e.labelsChanged = false → c.labels = [] ∨ c.labels = promFormatLabels 8192 e.labels)
    (ht : e.timestampChanged = false →
      c.timestampStr = [] ∨ c.timestampStr = timestampText e.timestamp) :
    promFormat pr c e = (⟨promFormatLabels 8192 e.labels, timestampText e.timestamp⟩,
      (sanitize e.metric, promFormatLabels 8192 e.labels,
        promFormatSuffix 64 (formatValue pr e.value) (timestampText e.timestamp))) := by
  -- the label block is also redone when the aggregation or the rollup changed
  have hl' : (e.aggregationChanged || e.rollupChanged || e.labelsChanged) = false →
      c.labels = [] ∨ c.labels = promFormatLabels 8192 e.labels := fun hf =>
    hl (Bool.or_eq_false_iff.mp hf).2
  unfold promFormat
  rw [recompute_of_fresh ht, recompute_of_fresh hl']

theorem PromCache.fresh_write (pr : Printers) (f : TsdbFormatter) (c : PromCache)
    (metric : List Char) (value : Value) (h : PromCache.Fresh f c) :
    (promFormat pr c (f.entry metric value)).2 = promLine pr f metric value ∧
      PromCache.Fresh f.written (promFormat pr c (f.entry metric value)).1 := by
  rw [promFormat_of_fresh pr c _ h.1 h.2]
  exact ⟨rfl, fun _ => Or.inr rfl, fun _ => Or.inr rfl⟩

/-- Along every sequence of calls on a new `PrometheusFormatter`, every `write` writes what a
formatter that keeps nothing writes. -/
theorem prometheus_run_eq_specRun (pr : Printers) (calls : List Call) :
    Formatter.run (promFormat pr) ⟨TsdbFormatter.init, PromCache.init⟩ calls =
      Formatter.specRun (promLine pr) TsdbFormatter.init calls :=
  Formatter.run_eq_specRun (promFormat pr) PromCache.fresh_setter
    (PromCache.fresh_write pr) calls _ ⟨fun _ => Or.inl rfl, fun _ => Or.inl rfl⟩


/-! ### Reading a label block back -/

/-- A character of a label name of the exposition format, `[a-zA-Z0-9_]`. -/
def isLabelNameChar (c : Char) : Bool := c.isAlphanum || c = '_'

/-- A label name of the exposition format, `[a-zA-Z_][a-zA-Z0-9_]*`. -/
def isLabelName : List Char → Bool
  | [] => false
  | c :: cs => !c.isDigit && (c :: cs).all isLabelNameChar

/-- The exposition reader of a label name. -/
def readLabelName (l : List Char) : Option (List Char × List Char) :=
  match l.takeWhile isLabelNameChar with
  | [] => none
  | c :: cs => if c.isDigit then none else some (c :: cs, l.dropWhile isLabelNameChar)

/-- The exposition reader of a label value after its opening quote: up to the closing quote,
with the escapes `\\`, `\"` and `\n`; a sample is one line, so a newline ends it. -/
def readLabelValue : List Char → Option (List Char × List Char)
  | [] => none
  | '"' :: rest => some ([], rest)
  | '\n' :: _ => none
  | '\\' :: c :: rest =>
    (readLabelValue rest).map fun r => ((if c = 'n' then '\n' else c) :: r.1, r.2)
  | c :: rest => (readLabelValue rest).map fun r => (c :: r.1, r.2)

/-- The exposition reader of the pairs of a label block after `{`: `name="value"` pairs
separated by `,`, up to `}`; `n` bounds the number of pairs. -/
def readLabelPairs : ℕ → List Char → Option (Labels × List Char)
  | 0, _ => none
  | n + 1, l =>
    if l.head? = some '}' then some ([], l.tail)
    else do
      let (name, l) ← readLabelName l
      match l with
      | '=' :: '"' :: l =>
        let (value, l) ← readLabelValue l
        match l with
        | ',' :: l =>
          let (labels, l) ← readLabelPairs n l
          pure ((name, value) :: labels, l)
        | '}' :: l => pure ([(name, value)], l)
        | _ => none
      | _ => none

/-- The exposition reader of a label block. -/
def readLabels : List Char → Option (Labels × List Char)
  | '{' :: l => readLabelPairs l.length l
  | _ => none

theorem readLabelName_append {name : List Char} (hname : isLabelName name = true) {c : Char}
    (hc : isLabelNameChar c = false) (rest : List Char) :
    readLabelName (name ++ c :: rest) = some (name, c :: rest) := by
  cases name with
  | nil => cases hname
  | cons d ds =>
    simp only [isLabelName, Bool.and_eq_true, Bool.not_eq_true', List.all_eq_true] at hname
    have hstop : (c :: rest).takeWhile isLabelNameChar = [] := by simp [hc]
    unfold readLabelName
    rw [List.takeWhile_append_of_pos hname.2, hstop, List.append_nil]
    dsimp only
    rw [if_neg (by simp [hname.1]), List.dropWhile_append_of_pos hname.2,
      List.dropWhile_cons_of_neg (by simp [hc])]

/-- A value with no `"`, `\` or newline, the only ones the writer does not have to escape, is
read back. -/
theorem readLabelValue_plain (v : List Char) (hv : ∀ c ∈ v, c ≠ '"' ∧ c ≠ '\\' ∧ c ≠ '\n')
    (rest : List Char) : readLabelValue (v ++ '"' :: rest) = some (v, rest) := by
  induction v with
  | nil => rfl
  | cons c v ih =>
    obtain ⟨hquote, hslash, hnl⟩ := hv c List.mem_cons_self
    rw [List.cons_append, readLabelValue.eq_5 c _ hquote hnl (fun _ _ h _ => hslash h),
      ih fun d hd => hv d (List.mem_cons_of_mem c hd)]
    rfl

/-- A label the exposition format reads back as written: a label name, and a value with no
`"`, `\` or newline. -/
def PlainLabel (l : List Char × List Char) : Prop :=
  isLabelName (sanitize l.1) = true ∧ ∀ c ∈ l.2, c ≠ '"' ∧ c ≠ '\\' ∧ c ≠ '\n'

theorem promLabelsBody_succ (n : ℕ) (labels : Labels) :
    promLabelsBody (n + 1) labels = promLabelsBody 1 labels := by
  induction labels generalizing n with
  | nil => rfl
  | cons l labels ih =>
    simp only [promLabelsBody, if_pos (Nat.succ_pos n), if_pos Nat.one_pos, ih (n + 1), ih 1]

theorem length_le_promLabelsBody (n : ℕ) (labels : Labels) :
    labels.length ≤ (promLabelsBody n labels).length := by
  induction labels generalizing n with
  | nil => exact Nat.zero_le _
  | cons l labels ih =>
    have := ih (n + 1)
    simp only [promLabelsBody, promLabel, List.length_append, List.length_cons]
    omega

/-- The reader takes the pairs of plain labels back, from the first on. -/
theorem readLabelPairs_promLabel (rest : List Char) :
    ∀ (labels : Labels) (l : List Char × List Char) (n : ℕ), PlainLabel l →
      (∀ l' ∈ labels, PlainLabel l') → labels.length < n →
      readLabelPairs n (promLabel l ++ promLabelsBody 1 labels ++ '}' :: rest) =
        some ((l :: labels).map fun l => (sanitize l.1, l.2), rest)
  | labels, l, n + 1, ⟨hname, hvalue⟩, hlabels, hn => by
    obtain ⟨d, ds, hd⟩ : ∃ d ds, sanitize l.1 = d :: ds := by
      cases h : sanitize l.1 with
      | nil => rw [h] at hname; cases hname
      | cons d ds => exact ⟨d, ds, rfl⟩
    -- a label name does not start with `}`
    have hhead : (promLabel l ++ promLabelsBody 1 labels ++ '}' :: rest).head? ≠ some '}' := by
      have : isLabelNameChar d = true := by
        rw [hd] at hname
        exact (List.all_eq_true.mp (Bool.and_eq_true _ _ |>.mp hname).2) d List.mem_cons_self
      simp only [promLabel, hd, List.cons_append, List.head?_cons, ne_eq, Option.some.injEq]
      rintro rfl
      exact absurd this (by decide)
    have htext : promLabel l ++ promLabelsBody 1 labels ++ '}' :: rest =
        sanitize l.1 ++ '=' :: '"' :: (l.2 ++ '"' :: (promLabelsBody 1 labels ++ '}' :: rest)) := by
      simp [promLabel]
    have hname' := readLabelName_append hname (c := '=') (by decide)
      ('"' :: (l.2 ++ '"' :: (promLabelsBody 1 labels ++ '}' :: rest)))
    have hvalue' := readLabelValue_plain l.2 hvalue (promLabelsBody 1 labels ++ '}' :: rest)
    unfold readLabelPairs
    rw [if_neg hhead, htext, hname']
    simp only [Option.bind_eq_bind, Option.bind_some]
    rw [hvalue']
    simp only [Option.bind_some]
    cases labels with
    | nil => rfl
    | cons l' labels =>
      have ih := readLabelPairs_promLabel rest labels l' n (hlabels l' List.mem_cons_self)
        (fun l'' h => hlabels l'' (List.mem_cons_of_mem l' h)) (by simp at hn; omega)
      simp only [promLabelsBody, if_pos Nat.one_pos, List.cons_append, List.nil_append,
        promLabelsBody_succ] at ih ⊢
      rw [ih]
      rfl

/-- The exposition reader reads the sanitized labels back from a block of plain labels. -/
theorem readLabels_promLabelsText (labels : Labels) (h : ∀ l ∈ labels, PlainLabel l)
    (rest : List Char) :
    readLabels (promLabelsText labels ++ rest) =
      some (labels.map fun l => (sanitize l.1, l.2), rest) := by
  cases labels with
  | nil => rfl
  | cons l labels =>
    have hlen := length_le_promLabelsBody 1 labels
    simp only [promLabelsText, promLabelsBody, if_neg (Nat.lt_irrefl 0), List.nil_append,
      Nat.zero_add, List.cons_append, readLabels]
    rw [List.append_assoc (promLabel l ++ _) ['}'] rest, List.singleton_append,
      readLabelPairs_promLabel rest labels l _ (h l List.mem_cons_self)
        (fun l' hl' => h l' (List.mem_cons_of_mem l hl')) ?_]
    simp only [List.length_append, List.length_cons]
    omega

/-! ### One line -/

theorem newline_not_mem_toString (a : Int) : '\n' ∉ (toString a).toList := by
  rw [Int.toString_eq_repr, Int.repr_eq_if]
  have hnat : ∀ n : ℕ, '\n' ∉ n.repr.toList := fun n h => by
    rw [Nat.repr_eq_ofList_toDigits, String.toList_ofList] at h
    simpa using Nat.isDigit_of_mem_toDigits (by decide) (by decide) h
  split
  · exact hnat _
  · rw [String.toList_append]
    intro h
    rcases List.mem_append.mp h with h | h
    · simp at h
    · exact hnat _ h

theorem newline_not_mem_sanitize {name : List Char} (h : '\n' ∉ name) :
    '\n' ∉ sanitize name := by
  simp only [sanitize, List.mem_map, not_exists, not_and]
  intro c hc heq
  split at heq
  · cases heq
  · exact h (heq ▸ hc)

theorem newline_not_mem_promLabelsText {labels : Labels}
    (h : ∀ l ∈ labels, '\n' ∉ l.1 ∧ '\n' ∉ l.2) : '\n' ∉ promLabelsText labels := by
  have hbody : ∀ n, '\n' ∉ promLabelsBody n labels := by
    induction labels with
    | nil => intro n; simp [promLabelsBody]
    | cons l labels ih =>
      intro n
      have hl := h l List.mem_cons_self
      have hsan := newline_not_mem_sanitize hl.1
      have hrest := ih (fun l' hl' => h l' (List.mem_cons_of_mem l hl')) (n + 1)
      simp only [promLabelsBody, promLabel, List.mem_append, List.mem_cons, List.mem_ite_nil_right,
        List.not_mem_nil] at hrest ⊢
      simp_all
  simp only [promLabelsText, List.mem_cons, List.mem_append]
  simp_all

/-- A sample from a metric name and labels with no newline, and a value whose text has none,
whose label block and suffix fit their buffers, is one line. -/
theorem promLine_one_newline (pr : Printers) (f : TsdbFormatter) (metric : List Char)
    (value : Value) (hmetric : '\n' ∉ metric) (hlabels : ∀ l ∈ f.labels, '\n' ∉ l.1 ∧ '\n' ∉ l.2)
    (hvalue : '\n' ∉ formatValue pr value) (hfit : (promLabelsText f.labels).length ≤ 8192)
    (hsuffix : (' ' :: formatValue pr value ++ ' ' :: timestampText f.timestamp ++ ['\n']).length ≤
      64) :
    ∃ text, '\n' ∉ text ∧
      (promLine pr f metric value).1 ++ (promLine pr f metric value).2.1 ++
        (promLine pr f metric value).2.2 = text ++ ['\n'] := by
  refine ⟨sanitize metric ++ promLabelsText f.labels ++ ' ' :: formatValue pr value ++
    ' ' :: timestampText f.timestamp, ?_, ?_⟩
  · have hts := newline_not_mem_toString (f.timestamp.tdiv 1000000)
    have hsan := newline_not_mem_sanitize hmetric
    have hblock := newline_not_mem_promLabelsText hlabels
    simp only [List.mem_append, List.mem_cons, timestampText] at hts ⊢
    simp_all
  · simp only [promLine]
    rw [promFormatLabels_eq_take, List.take_of_length_le hfit, promFormatSuffix,
      List.take_of_length_le hsuffix]
    simp only [List.append_assoc, List.cons_append]

end Reducer

end OtelEbpf
