import Mathlib

/-!
# Sessions per key

A stream of messages, each about one key, in which every key's messages are to open a session,
close it, or use it while it is open.  `state key phase k ms` replays the messages about `k`
from a closed session: `some true` when it ends open, `some false` when it ends closed, `none`
once one of them came out of order (an open of an open session, a close or a use of a closed
one).

* `Follows O ms` : the stream is in order for every key, and the sessions open at its end are
  those of the keys in `O`;
* `Follows.opens`, `Follows.closes`, `Follows.uses`, `Follows.append_uses` : how a message in
  order extends it;
* `state_append_of_forall_ne` : messages about other keys leave a key's session as it is;
* `state_opens_of_open`, `state_append_of_none` : an open of an open session breaks the stream
  of its key for good.
-/

namespace OtelEbpf

namespace Session

/-- What a message does to the session of its key. -/
inductive Phase
  | opens
  | closes
  | uses
  deriving DecidableEq, Repr

/-- The session after a message in this phase, from open (`true`) or closed (`false`): an open
of a closed session, a close or a use of an open one; anything else is out of order. -/
def Phase.advance : Phase → Bool → Option Bool
  | .opens, false => some true
  | .closes, true => some false
  | .uses, true => some true
  | _, _ => none

variable {κ μ : Type*} [DecidableEq κ] (key : μ → κ) (phase : μ → Phase)

/-- The session of `k` after the messages `ms`, from closed, or `none` once a message about `k`
came out of order. -/
def state (k : κ) (ms : List μ) : Option Bool :=
  ms.foldl (fun o m => o.bind fun isOpen => if key m = k then (phase m).advance isOpen
    else some isOpen) (some false)

/-- The stream `ms` is in order for every key, and the sessions open at its end are `O`. -/
def Follows (O : Finset κ) (ms : List μ) : Prop := ∀ k, state key phase k ms = some (decide (k ∈ O))

variable {key phase} {k : κ} {ms ms' : List μ} {m : μ} {O : Finset κ}

@[simp] theorem state_nil : state key phase k [] = some false := rfl

theorem state_append_singleton :
    state key phase k (ms ++ [m]) = (state key phase k ms).bind fun isOpen =>
      if key m = k then (phase m).advance isOpen else some isOpen := by
  simp only [state, List.foldl_append, List.foldl_cons, List.foldl_nil]

theorem state_append_of_ne (h : key m ≠ k) :
    state key phase k (ms ++ [m]) = state key phase k ms := by
  rw [state_append_singleton]
  cases state key phase k ms <;> simp [h]

/-- Messages about other keys leave a key's session as it is. -/
theorem state_append_of_forall_ne (h : ∀ m ∈ ms', key m ≠ k) :
    state key phase k (ms ++ ms') = state key phase k ms := by
  induction ms' using List.reverseRecOn with
  | nil => rw [List.append_nil]
  | append_singleton ms' m ih =>
    rw [← List.append_assoc, state_append_of_ne (h m (List.mem_append_right _ (List.mem_singleton_self m)))]
    exact ih fun m' hm' => h m' (List.mem_append_left _ hm')

theorem state_append_self {b : Bool} (hm : key m = k) (h : state key phase k ms = some b) :
    state key phase k (ms ++ [m]) = (phase m).advance b := by
  rw [state_append_singleton, h, Option.bind_some, if_pos hm]

/-- A stream broken for a key stays broken. -/
theorem state_append_of_none (h : state key phase k ms = none) :
    state key phase k (ms ++ ms') = none := by
  induction ms' using List.reverseRecOn with
  | nil => simpa using h
  | append_singleton ms' m ih => rw [← List.append_assoc, state_append_singleton, ih]; rfl

theorem follows_nil : Follows key phase ∅ [] := fun _ => rfl

namespace Follows

/-- An open of a closed session opens it. -/
theorem opens (h : Follows key phase O ms) (hp : phase m = .opens) (hk : key m ∉ O) :
    Follows key phase (insert (key m) O) (ms ++ [m]) := by
  intro k
  by_cases hmk : key m = k
  · subst hmk
    rw [state_append_self rfl (h (key m)), hp, decide_eq_false hk]
    simp [Phase.advance]
  · rw [state_append_of_ne hmk, h k]
    simp [Finset.mem_insert, Ne.symm hmk]

/-- A close of an open session closes it. -/
theorem closes (h : Follows key phase O ms) (hp : phase m = .closes) (hk : key m ∈ O) :
    Follows key phase (O.erase (key m)) (ms ++ [m]) := by
  intro k
  by_cases hmk : key m = k
  · subst hmk
    rw [state_append_self rfl (h (key m)), hp, decide_eq_true hk]
    simp [Phase.advance]
  · rw [state_append_of_ne hmk, h k]
    simp [Finset.mem_erase, Ne.symm hmk]

/-- A use of an open session changes no session. -/
theorem uses (h : Follows key phase O ms) (hp : phase m = .uses) (hk : key m ∈ O) :
    Follows key phase O (ms ++ [m]) := by
  intro k
  by_cases hmk : key m = k
  · subst hmk
    rw [state_append_self rfl (h (key m)), hp, decide_eq_true hk]
    rfl
  · rw [state_append_of_ne hmk]
    exact h k

/-- Uses of open sessions change no session. -/
theorem append_uses (h : Follows key phase O ms)
    (hall : ∀ m ∈ ms', phase m = .uses ∧ key m ∈ O) : Follows key phase O (ms ++ ms') := by
  induction ms' using List.reverseRecOn with
  | nil => simpa using h
  | append_singleton ms' m ih =>
    have hm := hall m (List.mem_append_right _ (List.mem_singleton_self m))
    rw [← List.append_assoc]
    exact (ih fun m' hm' => hall m' (List.mem_append_left _ hm')).uses hm.1 hm.2

end Follows

/-- An open of an open session is out of order. -/
theorem state_opens_of_open (h : Follows key phase O ms) (hp : phase m = .opens)
    (hk : key m ∈ O) : state key phase (key m) (ms ++ [m]) = none := by
  rw [state_append_self rfl (h (key m)), hp, decide_eq_true hk]
  rfl

end Session

end OtelEbpf
