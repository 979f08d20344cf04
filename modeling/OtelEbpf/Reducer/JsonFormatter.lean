import OtelEbpf.Reducer.PrometheusFormatter

/-!
# The JSON formatter

`JsonTsdbFormatter::format` (`reducer/json_formatter.cc`) writes a sample as one JSON object in
three pieces: `json_format_prefix` writes the aggregation member, from `aggregation_label_`, and
the metric's member into the 512 bytes of `prefix_buf_`; `json_format_labels` writes a member for
every label with a value into the 8192 bytes of `labels_buf_`; and `json_format_suffix` writes the
timestamp member and closes the object in the 64 bytes of `suffix_buf_`.  It keeps the labels and
the suffix between calls.

Nothing assigns `aggregation_label_`, and names and values are written with no escape.

* `json_run_eq_specRun` : along every sequence of calls, every `write` writes what a formatter
  that keeps nothing writes.
* `tsdb_formats_unescaped` : neither encoder writes a decodable sample for every label: a value
  with a newline puts a newline inside a Prometheus sample, a value with a quote makes its label
  block unreadable, and the JSON object's aggregation member is empty while the aggregation
  label repeats its name.
-/

namespace OtelEbpf

namespace Reducer

/-- `json_format_prefix(buf_ptr, buf_size, metric, aggregation_label, value)`: `fmt::format_to_n`
of `{"aggregation":"{}","{}":{},`, cut to the buffer. -/
def jsonFormatPrefix (bufSize : ℕ) (metric aggregationLabel value : List Char) : List Char :=
  ('{' :: "\"aggregation\":\"".toList ++ aggregationLabel ++ "\",\"".toList ++ metric ++
    "\":".toList ++ value ++ [',']).take bufSize

/-- `json_format_labels(buff_ptr, buff_size, labels)`: a member `"name":"value",` for every label
with a value, each piece cut to the room left in the buffer. -/
def jsonFormatLabels (buffSize : ℕ) (labels : Labels) : List Char :=
  let writeStr := Bytes.appendBounded buffSize
  let writeLabel (buf name value : List Char) : List Char :=
    if value.isEmpty then buf
    else writeStr (writeStr (writeStr (writeStr (writeStr buf ['"']) name) ['"', ':', '"']) value)
      ['"', ',']
  labels.foldl (fun buf l => writeLabel buf l.1 l.2) []

/-- `fmt`'s `{:03}`: at least three characters, zero-padded after the sign. -/
def pad3 (n : Int) : List Char :=
  if n < 0 then '-' :: (toString (-n)).toList.leftpad 2 '0' else (toString n).toList.leftpad 3 '0'

/-- `json_format_suffix(buf_ptr, buf_size, timestamp)`: the timestamp member, from the seconds and
the milliseconds, each truncated toward zero, and the end of the object, cut to the buffer. -/
def jsonFormatSuffix (pr : Printers) (bufSize : ℕ) (timestamp : Int) : List Char :=
  let time := timestamp.tdiv 1000000000
  let millis := timestamp.tdiv 1000000 - time * 1000
  ("\"timestamp\":\"".toList ++ pr.isoTime time ++ '.' :: pad3 millis ++ ['Z', '"', '}', '\n']).take
    bufSize

/-- What `JsonTsdbFormatter` keeps between calls: `labels_`, `suffix_` and `aggregation_label_`,
empty at first. -/
structure JsonCache where
  labels : List Char
  suffix : List Char
  aggregationLabel : List Char

/-- A new `JsonTsdbFormatter`. -/
def JsonCache.init : JsonCache := ⟨[], [], []⟩

/-- `JsonTsdbFormatter::format`. -/
def jsonFormat (pr : Printers) (c : JsonCache) (e : Entry) : JsonCache × Line :=
  let pre := jsonFormatPrefix 512 e.metric c.aggregationLabel (formatValue pr e.value)
  let labels := if e.labelsChanged || c.labels.isEmpty then jsonFormatLabels 8192 e.labels
    else c.labels
  let suffix := if e.timestampChanged || c.suffix.isEmpty then jsonFormatSuffix pr 64 e.timestamp
    else c.suffix
  (⟨labels, suffix, c.aggregationLabel⟩, (pre, labels, suffix))

/-! ### The kept text is never stale -/

/-- What a `JsonTsdbFormatter` that keeps nothing writes. -/
def jsonLine (pr : Printers) (f : TsdbFormatter) (metric : List Char) (value : Value) : Line :=
  (jsonFormatPrefix 512 metric [] (formatValue pr value), jsonFormatLabels 8192 f.labels,
    jsonFormatSuffix pr 64 f.timestamp)

/-- The kept aggregation label is still empty, and the kept labels and suffix are those of the
labels and the timestamp unless they are empty or changed since. -/
def JsonCache.Fresh (pr : Printers) (f : TsdbFormatter) (c : JsonCache) : Prop :=
  c.aggregationLabel = [] ∧
    (f.labelsChanged = false → c.labels = [] ∨ c.labels = jsonFormatLabels 8192 f.labels) ∧
    (f.timestampChanged = false → c.suffix = [] ∨ c.suffix = jsonFormatSuffix pr 64 f.timestamp)

theorem JsonCache.fresh_setter (pr : Printers) (s : Setter) (f : TsdbFormatter) (c : JsonCache)
    (h : JsonCache.Fresh pr f c) : JsonCache.Fresh pr (s.apply f) c := by
  refine ⟨h.1, fun hl => ?_, fun ht => ?_⟩
  · obtain ⟨heq, hl'⟩ := s.labels_of_not_changed f hl
    rw [heq]
    exact h.2.1 hl'
  · obtain ⟨heq, ht'⟩ := s.timestamp_of_not_changed f ht
    rw [heq]
    exact h.2.2 ht'

/-- `format` from a cache fresh for the entry writes the entry's labels and suffix. -/
theorem jsonFormat_of_fresh (pr : Printers) (c : JsonCache) (e : Entry)
    (hl : e.labelsChanged = false → c.labels = [] ∨ c.labels = jsonFormatLabels 8192 e.labels)
    (ht : e.timestampChanged = false →
      c.suffix = [] ∨ c.suffix = jsonFormatSuffix pr 64 e.timestamp) :
    jsonFormat pr c e = (⟨jsonFormatLabels 8192 e.labels, jsonFormatSuffix pr 64 e.timestamp,
      c.aggregationLabel⟩,
        (jsonFormatPrefix 512 e.metric c.aggregationLabel (formatValue pr e.value),
          jsonFormatLabels 8192 e.labels, jsonFormatSuffix pr 64 e.timestamp)) := by
  unfold jsonFormat
  rw [recompute_of_fresh hl, recompute_of_fresh ht]

theorem JsonCache.fresh_write (pr : Printers) (f : TsdbFormatter) (c : JsonCache)
    (metric : List Char) (value : Value) (h : JsonCache.Fresh pr f c) :
    (jsonFormat pr c (f.entry metric value)).2 = jsonLine pr f metric value ∧
      JsonCache.Fresh pr f.written (jsonFormat pr c (f.entry metric value)).1 := by
  rw [jsonFormat_of_fresh pr c _ h.2.1 h.2.2]
  refine ⟨?_, h.1, fun _ => Or.inr rfl, fun _ => Or.inr rfl⟩
  simp only [jsonLine, TsdbFormatter.entry, h.1]

/-- Along every sequence of calls on a new `JsonTsdbFormatter`, every `write` writes what a
formatter that keeps nothing writes. -/
theorem json_run_eq_specRun (pr : Printers) (calls : List Call) :
    Formatter.run (jsonFormat pr) ⟨TsdbFormatter.init, JsonCache.init⟩ calls =
      Formatter.specRun (jsonLine pr) TsdbFormatter.init calls :=
  Formatter.run_eq_specRun (jsonFormat pr) (JsonCache.fresh_setter pr)
    (JsonCache.fresh_write pr) calls _ ⟨rfl, fun _ => Or.inl rfl, fun _ => Or.inl rfl⟩

/-! ### Samples that do not decode -/

/-- Neither encoder escapes.  After `set_labels({{"k", "a\nb"}})` the Prometheus sample has a
newline inside its label block; the label block of `{{"k", "a\"b"}}` ends the value at the quote,
so that the exposition reader fails on it; and after `set_aggregation("az_az")` the JSON object
opens with an empty aggregation member, `aggregation_label_` being never assigned, and names
`aggregation` again among the labels. -/
theorem tsdb_formats_unescaped (pr : Printers) :
    Formatter.run (promFormat pr) ⟨TsdbFormatter.init, PromCache.init⟩
        [.set (.setLabels [(['k'], ['a', '\n', 'b'])]), .write ['m'] (.u32 1)] =
      [(['m'], '{' :: ['k', '=', '"', 'a', '\n', 'b', '"'] ++ ['}'],
        [' ', '1', ' ', '0', '\n'])] ∧
    readLabels (promFormatLabels 8192 [(['k'], ['a', '"', 'b'])]) = none ∧
    (Formatter.run (jsonFormat pr) ⟨TsdbFormatter.init, JsonCache.init⟩
        [.set (.setAggregation "az_az".toList), .write ['m'] (.u32 1)]).map
          (fun l => (l.1, l.2.1)) =
      [('{' :: "\"aggregation\":\"\",\"m\":1,".toList, "\"aggregation\":\"az_az\",".toList)] := by
  refine ⟨?_, by decide, ?_⟩
  · simp only [Formatter.run, Formatter.apply, Formatter.write, Setter.apply,
      TsdbFormatter.setLabels, TsdbFormatter.entry, TsdbFormatter.init, PromCache.init, promFormat,
      formatValue]
    rfl
  · simp only [Formatter.run, Formatter.apply, Formatter.write, Setter.apply,
      TsdbFormatter.setAggregation, TsdbFormatter.assignLabel, TsdbFormatter.entry,
      TsdbFormatter.init, JsonCache.init, jsonFormat, formatValue]
    rfl

end Reducer

end OtelEbpf
