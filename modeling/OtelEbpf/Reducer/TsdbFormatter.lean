import Mathlib.Data.List.Basic
import OtelEbpf.Lib.Bytes

/-!
# The TSDB formatters' shared state

`TsdbFormatter` (`reducer/tsdb_formatter.h`, `reducer/tsdb_formatter.cc`) holds the parameters
of the time series written next, the aggregation, the rollup, the labels and the timestamp, each
with a flag that says whether it changed since the last `write`.  `write` hands them, with the
metric and its value, to the subclass's `format`, which may reuse text it formatted before, and
clears the flags.

Strings are lists of characters, one per byte; `labels_t`, a `std::map`, is the list of its
entries in key order.  What a subclass keeps between calls is a cache `C`.

* `Formatter.run_eq_specRun` : a cache that every setter keeps fresh, and from which `format`
  writes what a formatter without a cache writes, makes every `write` along every sequence of
  calls write what the formatter without a cache writes.
* `Setter.labels_of_not_changed`, `Setter.timestamp_of_not_changed` : a setter that leaves a flag
  clear leaves its parameter alone, so the flags are enough to keep a cache fresh.
-/

namespace OtelEbpf

namespace Reducer

/-- `labels_t`, a `std::map<std::string, std::string>`, as its entries in key order. -/
abbrev Labels := List (List Char × List Char)

/-- `std::map::insert_or_assign(name, value)`. -/
def insertOrAssign (name value : List Char) : Labels → Labels
  | [] => [(name, value)]
  | (k, v) :: rest =>
    if name = k then (name, value) :: rest
    else if name < k then (name, value) :: (k, v) :: rest
    else (k, v) :: insertOrAssign name value rest

/-- `std::map::erase(name)`. -/
def eraseLabel (name : List Char) (labels : Labels) : Labels :=
  labels.filter fun e => e.1 ≠ name

/-- `TsdbFormatter::value_t`, a `std::variant<u32, u64, double>`. -/
inductive Value
  | u32 (v : UInt32)
  | u64 (v : UInt64)
  | double (v : Float)

/-- The text of the library calls the formatters make, which this model does not reimplement:
`fmt`'s `{}` of a double, and `strftime("%FT%T", gmtime_r(t))` of a count of seconds since the
epoch. -/
structure Printers where
  fmtDouble : Float → List Char
  isoTime : Int → List Char

/-- `fmt`'s `{}` of a value: decimal digits for the integers. -/
def formatValue (pr : Printers) : Value → List Char
  | .u32 v => (Nat.repr v.toNat).toList
  | .u64 v => (Nat.repr v.toNat).toList
  | .double v => pr.fmtDouble v

/-- The members of a `TsdbFormatter`; `timestamp_t` counts nanoseconds. -/
structure TsdbFormatter where
  aggregation : List Char
  aggregationChanged : Bool
  rollup : Option Int
  rollupChanged : Bool
  labels : Labels
  labelsChanged : Bool
  timestamp : Int
  timestampChanged : Bool

namespace TsdbFormatter

/-- A new formatter. -/
def init : TsdbFormatter := ⟨[], false, none, false, [], false, 0, false⟩

/-- `assign_label(name, value)`. -/
def assignLabel (f : TsdbFormatter) (name value : List Char) : TsdbFormatter :=
  { f with labels := insertOrAssign name value f.labels, labelsChanged := true }

/-- `set_aggregation(aggregation)`: the aggregation is also a label. -/
def setAggregation (f : TsdbFormatter) (aggregation : List Char) : TsdbFormatter :=
  let f := f.assignLabel "aggregation".toList aggregation
  { f with aggregation := aggregation, aggregationChanged := true }

/-- `set_rollup(rollup)`. -/
def setRollup (f : TsdbFormatter) (rollup : Option Int) : TsdbFormatter :=
  { f with rollup := rollup, rollupChanged := true }

/-- `set_timestamp(timestamp)`. -/
def setTimestamp (f : TsdbFormatter) (timestamp : Int) : TsdbFormatter :=
  { f with timestamp := timestamp, timestampChanged := true }

/-- `set_labels(labels_t labels)`. -/
def setLabels (f : TsdbFormatter) (labels : Labels) : TsdbFormatter :=
  { f with labels := labels, labelsChanged := true }

/-- `set_labels(std::initializer_list<...> labels)`: the labels are cleared and each is
assigned. -/
def setLabelsList (f : TsdbFormatter) (labels : List (List Char × List Char)) : TsdbFormatter :=
  let f := labels.foldl (fun f l => f.assignLabel l.1 l.2) { f with labels := [] }
  { f with labelsChanged := true }

/-- `remove_label(name)`. -/
def removeLabel (f : TsdbFormatter) (name : List Char) : TsdbFormatter :=
  { f with labels := eraseLabel name f.labels, labelsChanged := true }

/-- `clear_labels()`. -/
def clearLabels (f : TsdbFormatter) : TsdbFormatter :=
  { f with labels := [], labelsChanged := true }

end TsdbFormatter

/-- The arguments `write(metric, value, writer)` passes to `format`. -/
structure Entry where
  metric : List Char
  value : Value
  aggregation : List Char
  aggregationChanged : Bool
  rollup : Option Int
  rollupChanged : Bool
  labels : Labels
  labelsChanged : Bool
  timestamp : Int
  timestampChanged : Bool

namespace TsdbFormatter

/-- The members `write` passes to `format` with the metric and its value. -/
def entry (f : TsdbFormatter) (metric : List Char) (value : Value) : Entry :=
  ⟨metric, value, f.aggregation, f.aggregationChanged, f.rollup, f.rollupChanged, f.labels,
    f.labelsChanged, f.timestamp, f.timestampChanged⟩

/-- The formatter after `write`, which clears the flags. -/
def written (f : TsdbFormatter) : TsdbFormatter :=
  { f with
    aggregationChanged := false
    rollupChanged := false
    labelsChanged := false
    timestampChanged := false }

end TsdbFormatter

/-- What `format` hands the writer, `writer->write(prefix, labels, suffix)`. -/
abbrev Line := List Char × List Char × List Char

/-- The setters of a formatter. -/
inductive Setter
  | setAggregation (aggregation : List Char)
  | setRollup (rollup : Option Int)
  | setTimestamp (timestamp : Int)
  | setLabels (labels : Labels)
  | setLabelsList (labels : List (List Char × List Char))
  | assignLabel (name value : List Char)
  | removeLabel (name : List Char)
  | clearLabels

/-- A setter's call. -/
def Setter.apply : Setter → TsdbFormatter → TsdbFormatter
  | .setAggregation aggregation, f => f.setAggregation aggregation
  | .setRollup rollup, f => f.setRollup rollup
  | .setTimestamp timestamp, f => f.setTimestamp timestamp
  | .setLabels labels, f => f.setLabels labels
  | .setLabelsList labels, f => f.setLabelsList labels
  | .assignLabel name value, f => f.assignLabel name value
  | .removeLabel name, f => f.removeLabel name
  | .clearLabels, f => f.clearLabels

/-- The calls on a formatter: a setter, or a `write` of a metric and its value. -/
inductive Call
  | set (s : Setter)
  | write (metric : List Char) (value : Value)

/-- A formatter with what its `format` keeps between calls. -/
structure Formatter (C : Type) where
  base : TsdbFormatter
  cache : C

namespace Formatter

variable {C : Type} (format : C → Entry → C × Line)

/-- `write(metric, value, writer)`: `format`, then the flags are cleared. -/
def write (f : Formatter C) (metric : List Char) (value : Value) : Formatter C × Line :=
  let r := format f.cache (f.base.entry metric value)
  (⟨f.base.written, r.1⟩, r.2)

/-- A call, and the line it writes if it is a `write`. -/
def apply (f : Formatter C) : Call → Formatter C × Option Line
  | .set s => (⟨s.apply f.base, f.cache⟩, none)
  | .write metric value =>
    let r := f.write format metric value
    (r.1, some r.2)

/-- The lines written along a sequence of calls. -/
def run (f : Formatter C) : List Call → List Line
  | [] => []
  | c :: cs =>
    let r := f.apply format c
    r.2.toList ++ run r.1 cs

/-- The lines that the formatting `spec`, which keeps nothing between calls, writes along a
sequence of calls. -/
def specRun (spec : TsdbFormatter → List Char → Value → Line) (f : TsdbFormatter) :
    List Call → List Line
  | [] => []
  | .set s :: cs => specRun spec (s.apply f) cs
  | .write metric value :: cs => spec f metric value :: specRun spec f.written cs

variable {spec : TsdbFormatter → List Char → Value → Line} {Fresh : TsdbFormatter → C → Prop}

/-- A cache that every setter keeps fresh, and from which `format` writes what `spec` writes,
leaving it fresh, makes the formatter write what `spec` writes along every sequence of calls. -/
theorem run_eq_specRun (hset : ∀ (s : Setter) f x, Fresh f x → Fresh (s.apply f) x)
    (hwrite : ∀ f x metric value, Fresh f x →
      (format x (f.entry metric value)).2 = spec f metric value ∧
        Fresh f.written (format x (f.entry metric value)).1) :
    ∀ (calls : List Call) (f : Formatter C), Fresh f.base f.cache →
      run format f calls = specRun spec f.base calls
  | [], _, _ => rfl
  | .set s :: cs, f, hf => run_eq_specRun hset hwrite cs _ (hset s f.base f.cache hf)
  | .write metric value :: cs, f, hf => by
    obtain ⟨hline, hfresh⟩ := hwrite f.base f.cache metric value hf
    simp only [run, apply, write, specRun, Option.toList_some, List.singleton_append, hline]
    rw [run_eq_specRun hset hwrite cs _ hfresh]

end Formatter

/-- Assigning labels one by one leaves the timestamp alone. -/
theorem TsdbFormatter.timestamp_foldl_assignLabel (labels : List (List Char × List Char))
    (f : TsdbFormatter) :
    (labels.foldl (fun f l => f.assignLabel l.1 l.2) f).timestamp = f.timestamp ∧
      (labels.foldl (fun f l => f.assignLabel l.1 l.2) f).timestampChanged =
        f.timestampChanged := by
  induction labels generalizing f with
  | nil => exact ⟨rfl, rfl⟩
  | cons l labels ih => exact ih (f.assignLabel l.1 l.2)

namespace Setter

/-- A setter that leaves `labels_changed_` clear leaves the labels alone. -/
theorem labels_of_not_changed (s : Setter) (f : TsdbFormatter)
    (h : (s.apply f).labelsChanged = false) :
    (s.apply f).labels = f.labels ∧ f.labelsChanged = false := by
  cases s <;> simp_all [apply, TsdbFormatter.setAggregation, TsdbFormatter.setRollup,
    TsdbFormatter.setTimestamp, TsdbFormatter.setLabels, TsdbFormatter.setLabelsList,
    TsdbFormatter.assignLabel, TsdbFormatter.removeLabel, TsdbFormatter.clearLabels]

/-- A setter that leaves `timestamp_changed_` clear leaves the timestamp alone. -/
theorem timestamp_of_not_changed (s : Setter) (f : TsdbFormatter)
    (h : (s.apply f).timestampChanged = false) :
    (s.apply f).timestamp = f.timestamp ∧ f.timestampChanged = false := by
  cases s with
  | setLabelsList labels =>
    obtain ⟨hts, hchanged⟩ :=
      TsdbFormatter.timestamp_foldl_assignLabel labels { f with labels := [] }
    simp only [apply, TsdbFormatter.setLabelsList] at h ⊢
    exact ⟨hts, hchanged ▸ h⟩
  | _ => simp_all [apply, TsdbFormatter.setAggregation, TsdbFormatter.setRollup,
    TsdbFormatter.setTimestamp, TsdbFormatter.setLabels, TsdbFormatter.assignLabel,
    TsdbFormatter.removeLabel, TsdbFormatter.clearLabels]

end Setter

end Reducer

end OtelEbpf
