import Mathlib.Data.List.Perm.Basic
import Mathlib.Data.List.Nodup

/-!
# Secondary indices of a list

A container that keeps its elements in a list and beside it an index from a key of each element
to the element (a multimap of iterators, say) is consistent when the index holds the key of each
element exactly once and nothing else: the index is a permutation of the list mapped by the
key.  `Indexes f idx l` says so.

Adding an element to both keeps it (`Indexes.snoc`); a filter of the index by a property of the
key indexes the filter of the list (`Indexes.filter`); erasing the first index entry with a
property erases the element whose key has it, when at most one has (`Indexes.eraseP`).  Such an
erase is then a filter (`eraseP_eq_filter`).
-/

namespace OtelEbpf

namespace Index

variable {α κ : Type*}

/-- `idx` holds the key `f a` of each element `a` of `l`, each once, and nothing else. -/
def Indexes (f : α → κ) (idx : List κ) (l : List α) : Prop := idx.Perm (l.map f)

variable {f : α → κ} {idx : List κ} {l : List α}

theorem indexes_nil : Indexes f [] [] := List.Perm.nil

theorem Indexes.snoc (h : Indexes f idx l) (a : α) : Indexes f (idx ++ [f a]) (l ++ [a]) := by
  unfold Indexes at *
  rw [List.map_append]
  exact h.append_right [f a]

theorem Indexes.filter (h : Indexes f idx l) (p : κ → Bool) :
    Indexes f (idx.filter p) (l.filter (p ∘ f)) := by
  unfold Indexes at *
  rw [← List.filter_map]
  exact h.filter p

/-- Erasing the first entry with property `p` from the index erases the element whose key has
it, when no two elements' keys have it. -/
theorem Indexes.eraseP (h : Indexes f idx l) (p : κ → Bool)
    (hu : l.Pairwise fun a b => p (f a) → p (f b) → False) :
    Indexes f (idx.eraseP p) (l.eraseP (p ∘ f)) := by
  unfold Indexes at *
  rw [← List.eraseP_map]
  have hsymm : ∀ {x y : κ}, (p x → p y → False) → p y → p x → False :=
    fun hxy hy hx => hxy hx hy
  exact h.eraseP p ((h.pairwise_iff hsymm).mpr (List.pairwise_map.mpr hu))

theorem Indexes.map {β : Type*} (h : Indexes f idx l) (g : κ → β) :
    (idx.map g).Perm (l.map (g ∘ f)) := by
  rw [← List.map_map]
  exact List.Perm.map g h

theorem eraseP_congr {p q : α → Bool} (h : ∀ a ∈ l, p a = q a) :
    l.eraseP p = l.eraseP q := by
  induction l with
  | nil => rfl
  | cons a l ih =>
    rw [List.eraseP_cons, List.eraseP_cons, h a List.mem_cons_self,
      ih fun b hb => h b (List.mem_cons_of_mem a hb)]

/-- When at most one element has `p`, erasing the first one erases all. -/
theorem eraseP_eq_filter {p : α → Bool} (hu : l.Pairwise fun a b => p a → p b → False) :
    l.eraseP p = l.filter fun a => !p a := by
  induction l with
  | nil => rfl
  | cons a l ih =>
    rw [List.pairwise_cons] at hu
    by_cases ha : p a = true
    · -- no later element has `p`
      have hl : ∀ b ∈ l, p b = false := fun b hb => by
        by_contra hb'
        exact hu.1 b hb ha (by simpa using hb')
      rw [List.eraseP_cons_of_pos ha, List.filter_cons_of_neg (by simp [ha]),
        List.filter_eq_self.mpr fun b hb => by simp [hl b hb]]
    · rw [List.eraseP_cons_of_neg ha, List.filter_cons_of_pos (by simpa using ha), ih hu.2]

end Index

end OtelEbpf
