import Mathlib.Data.Nat.ModEq
import Mathlib.Data.List.Basic

/-!
# Draining FIFO queues in turn

A reader that serves several FIFO queues visits them one after another, takes a prefix of the
queue it visits, and appends what it takes, tagged with the queue, to one log.
`Drained Q₀ order Q log` says that the queues, `Q₀` at first, are now `Q`, each the initial
one less a prefix; that only the queues of `order` lost elements; and that the log is the
prefixes taken, queue after queue in the order of the visits.  Starting to visit a queue not
yet visited (`Drained.visit`) and taking more from the queue being visited (`Drained.take`)
keep it.

`roundRobin start n v` is the order of `v` visits of `n` queues from queue `start`, each the
one after the previous modulo `n`; it visits no queue twice in its first `n` visits
(`not_mem_roundRobin`).
-/

namespace OtelEbpf

namespace Drain

variable {α : Type*}

/-- The queues `Q` are the queues `Q₀` less the prefixes in `log`, taken from the queues of
`order` in turn. -/
def Drained (Q₀ : List (List α)) (order : List ℕ) (Q : List (List α)) (log : List (ℕ × α)) :
    Prop :=
  ∃ k : ℕ → ℕ, Q.length = Q₀.length ∧ (∀ i, Q.getD i [] = (Q₀.getD i []).drop (k i)) ∧
    (∀ i ∉ order, k i = 0) ∧ log = order.flatMap fun i => ((Q₀.getD i []).take (k i)).map (i, ·)

theorem getD_set (Q : List (List α)) (i j : ℕ) (x : List α) :
    (Q.set j x).getD i [] = if i = j ∧ j < Q.length then x else Q.getD i [] := by
  simp only [List.getD_eq_getElem?_getD, List.getElem?_set]
  by_cases hij : j = i
  · subst hij
    by_cases hj : j < Q.length
    · simp [hj]
    · simp [hj]
  · simp [hij, Ne.symm hij]

theorem exists_mem_of_mem_getD {Q : List (List α)} {i : ℕ} {e : α} (h : e ∈ Q.getD i []) :
    ∃ q ∈ Q, e ∈ q := by
  rw [List.getD_eq_getElem?_getD] at h
  cases hi : Q[i]? with
  | none => simp [hi] at h
  | some q =>
    rw [hi, Option.getD_some] at h
    exact ⟨q, List.mem_of_getElem? hi, h⟩

theorem drained_start (Q₀ : List (List α)) : Drained Q₀ [] Q₀ [] :=
  ⟨fun _ => 0, rfl, fun _ => rfl, fun _ _ => rfl, rfl⟩

variable {Q₀ Q : List (List α)} {order : List ℕ} {log : List (ℕ × α)}

/-- Starting to visit a queue not visited before takes nothing yet. -/
theorem Drained.visit (h : Drained Q₀ order Q log) {j : ℕ} (hj : j ∉ order) :
    Drained Q₀ (order ++ [j]) Q log := by
  obtain ⟨k, hlen, hQ, hk, hlog⟩ := h
  refine ⟨k, hlen, hQ, fun i hi => hk i fun hi' => hi (List.mem_append_left _ hi'), ?_⟩
  simp [hlog, hk j hj]

/-- Taking `r` more elements from the queue being visited appends them to the log. -/
theorem Drained.take (h : Drained Q₀ (order ++ [j]) Q log) (hj : j ∉ order) (r : ℕ) :
    Drained Q₀ (order ++ [j]) (Q.set j ((Q.getD j []).drop r))
      (log ++ ((Q.getD j []).take r).map (j, ·)) := by
  obtain ⟨k, hlen, hQ, hk, hlog⟩ := h
  refine ⟨Function.update k j (k j + r), by simp [hlen], fun i => ?_, fun i hi => ?_, ?_⟩
  · rw [getD_set]
    by_cases hij : i = j
    · subst hij
      rw [Function.update_self]
      by_cases hjl : i < Q.length
      · rw [if_pos ⟨rfl, hjl⟩, hQ, List.drop_drop]
      · -- a queue past the end is empty in both lists
        have hQi : Q.getD i [] = [] := by
          rw [List.getD_eq_getElem?_getD, List.getElem?_eq_none (Nat.le_of_not_lt hjl)]
          rfl
        have hQ₀i : Q₀.getD i [] = [] := by
          rw [List.getD_eq_getElem?_getD, List.getElem?_eq_none (hlen ▸ Nat.le_of_not_lt hjl)]
          rfl
        rw [if_neg fun h => hjl h.2, hQi, hQ₀i, List.drop_nil]
    · rw [if_neg fun h => hij h.1, Function.update_of_ne hij, hQ]
  · have hij : i ≠ j := fun hij => hi (hij ▸ List.mem_append_right _ (List.mem_singleton_self _))
    rw [Function.update_of_ne hij]
    exact hk i hi
  · -- the prefixes of the other queues are unchanged, since `j` is visited once
    have hother : (order.flatMap fun i =>
        ((Q₀.getD i []).take (Function.update k j (k j + r) i)).map (i, ·)) =
        order.flatMap fun i => ((Q₀.getD i []).take (k i)).map (i, ·) := by
      apply List.flatMap_congr
      intro i hi
      have hij : i ≠ j := by
        rintro rfl
        exact hj hi
      rw [Function.update_of_ne hij]
    rw [List.flatMap_append, hother, hlog, List.flatMap_append, hQ j]
    simp [List.take_add]

/-- What is left of a queue was in it at first. -/
theorem Drained.mem (h : Drained Q₀ order Q log) {i : ℕ} {e : α} (he : e ∈ Q.getD i []) :
    e ∈ Q₀.getD i [] := by
  obtain ⟨k, -, hQ, -, -⟩ := h
  rw [hQ] at he
  exact List.mem_of_mem_drop he

/-- `v` visits of `n` queues from `start`, round robin. -/
def roundRobin (start n v : ℕ) : List ℕ := (List.range v).map fun j => (start + j) % n

theorem roundRobin_succ (start n v : ℕ) :
    roundRobin start n (v + 1) = roundRobin start n v ++ [(start + v) % n] := by
  simp [roundRobin, List.range_succ]

/-- Before its `n`-th visit the round robin has not visited the next queue. -/
theorem not_mem_roundRobin {start n v : ℕ} (hv : v < n) : (start + v) % n ∉ roundRobin start n v := by
  simp only [roundRobin, List.mem_map, List.mem_range, not_exists, not_and]
  intro j hj heq
  have := (Nat.ModEq.add_left_cancel' start heq).eq_of_lt_of_lt (by omega) hv
  omega

end Drain

end OtelEbpf
