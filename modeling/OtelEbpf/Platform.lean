import Mathlib.Data.Int.Notation

/-!
# Platform constants

The Linux `errno` values the modelled functions return (negated, as the kernel convention the
repository follows has it), and the `perf_event` record types the perf rings carry.
-/

namespace OtelEbpf

/-- `EPERM`: operation not permitted. -/
def EPERM : ℤ := 1
/-- `ENOENT`: no such entry. -/
def ENOENT : ℤ := 2
/-- `EAGAIN`: try again. -/
def EAGAIN : ℤ := 11
/-- `EINVAL`: invalid argument. -/
def EINVAL : ℤ := 22
/-- `ENOSPC`: no space left. -/
def ENOSPC : ℤ := 28
/-- `EPROTO`: protocol error. -/
def EPROTO : ℤ := 71
/-- `EOVERFLOW`: value too large. -/
def EOVERFLOW : ℤ := 75

/-- `PERF_RECORD_LOST`: the kernel dropped records. -/
def PERF_RECORD_LOST : UInt32 := 2
/-- `PERF_RECORD_SAMPLE`: a sample, here the raw bytes a BPF program submitted. -/
def PERF_RECORD_SAMPLE : UInt32 := 9

/-- The C++ exceptions the modelled code throws, with their messages. -/
inductive CppException
  | invalidArgument (msg : String)
  | rangeError (msg : String)
  | runtimeError (msg : String)
  | outOfRange (msg : String)
  | lengthError
  deriving DecidableEq, Repr

end OtelEbpf
