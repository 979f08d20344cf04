import Mathlib.Data.List.AList

/-!
# Association lists as finite maps

Mathlib's `AList` is a list of entries with distinct keys.  Read as a finite map, its meaning is
its lookup function and its keys: `AList.insert` updates the lookup at a key and puts the key
first, `AList.erase` removes the key.  These are those facts in the form the containers'
abstractions use, with the lookup a function `κ → Option ν` updated at one key.
-/

namespace OtelEbpf

namespace Assoc

variable {κ ν : Type*} [DecidableEq κ] {A : AList fun _ : κ => ν} {k : κ}

theorem lookup_insert_eq (v : ν) :
    (fun a => (A.insert k v).lookup a) = Function.update (fun a => A.lookup a) k (some v) := by
  funext a
  by_cases hak : a = k
  · subst hak
    simp
  · simp [AList.lookup_insert_ne hak, hak]

theorem lookup_erase_eq :
    (fun a => (A.erase k).lookup a) = Function.update (fun a => A.lookup a) k none := by
  funext a
  by_cases hak : a = k
  · subst hak
    simp
  · simp [AList.lookup_erase_ne hak, hak]

theorem lookup_eq_none_iff : A.lookup k = none ↔ k ∉ A.keys := by
  rw [AList.lookup_eq_none, AList.mem_keys]

theorem lookup_ne_none_iff : A.lookup k ≠ none ↔ k ∈ A.keys := by
  rw [Ne, lookup_eq_none_iff, not_not]

/-- Erasing a key just inserted erases it from the list before. -/
theorem erase_insert (v : ν) : (A.insert k v).erase k = A.erase k := by
  apply AList.ext
  show (A.insert k v).entries.kerase k = A.entries.kerase k
  rw [AList.entries_insert]
  exact List.kerase_cons_eq rfl

theorem length_keys_insert {v : ν} (hk : k ∉ A.keys) :
    (A.insert k v).keys.length = A.keys.length + 1 := by
  rw [AList.keys_insert, List.length_cons, List.erase_of_not_mem hk]

/-- Erasing a key that is not there leaves the list as it is. -/
theorem erase_of_not_mem (hk : k ∉ A.keys) : A.erase k = A :=
  AList.ext (List.kerase_of_notMem_keys hk)

theorem length_keys_erase (hk : k ∈ A.keys) : (A.erase k).keys.length = A.keys.length - 1 := by
  rw [AList.keys_erase, List.length_erase_of_mem hk]

end Assoc

end OtelEbpf
