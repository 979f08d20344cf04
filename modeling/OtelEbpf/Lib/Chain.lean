import Mathlib.Logic.Function.Basic
import Mathlib.Data.List.Nodup

/-!
# Intrusive singly linked lists

A list threaded through an array, each element holding the index of the next one and a sentinel
`nil` ending the list (a free list, a queue of changed entries), is read off the successor
function `next : α → α` and the head `p`.  `Chain next nil p l` says that following `next` from
`p` visits the elements of `l` in order and then reaches `nil`.

* `Chain.unique` : the list is determined by `next` and the head.
* `Chain.nodup` : it has no duplicates, as an element seen twice would start a cycle that never
  reaches `nil`.
* `Chain.congr` : it depends on `next` only at its elements.
* `Chain.push` and `Chain.pop` : linking a new element in front of the head, and taking the head
  off while overwriting its link, are `List.cons` and `List.tail` of the list.
-/

namespace OtelEbpf

variable {α : Type*}

/-- Following `next` from `p` visits `l`, then `nil`. -/
def Chain (next : α → α) (nil : α) : α → List α → Prop
  | p, [] => p = nil
  | p, a :: l => p = a ∧ a ≠ nil ∧ Chain next nil (next a) l

namespace Chain

variable {next next' : α → α} {nil p a : α} {l l' : List α}

@[simp] theorem nil_iff : Chain next nil p [] ↔ p = nil := Iff.rfl

@[simp] theorem cons_iff :
    Chain next nil p (a :: l) ↔ p = a ∧ a ≠ nil ∧ Chain next nil (next a) l := Iff.rfl

theorem not_mem_nil (h : Chain next nil p l) : nil ∉ l := by
  induction l generalizing p with
  | nil => exact List.not_mem_nil
  | cons a l ih =>
    rw [List.mem_cons, not_or]
    exact ⟨fun ha => h.2.1 ha.symm, ih h.2.2⟩

/-- The list is empty exactly when the head is the sentinel. -/
theorem eq_nil_iff (h : Chain next nil p l) : p = nil ↔ l = [] := by
  cases l with
  | nil => exact ⟨fun _ => rfl, fun _ => h⟩
  | cons a l => exact ⟨fun hp => absurd (h.1.symm.trans hp) h.2.1, fun h' => nomatch h'⟩

theorem unique (h : Chain next nil p l) (h' : Chain next nil p l') : l = l' := by
  induction l generalizing p l' with
  | nil => exact ((h'.eq_nil_iff).mp h).symm
  | cons a l ih =>
    cases l' with
    | nil => exact absurd (h.1.symm.trans h') h.2.1
    | cons b l' =>
      have hab : a = b := h.1.symm.trans h'.1
      subst hab
      rw [ih h.2.2 h'.2.2]

/-- From an element of the list, the chain goes on with the rest of the list. -/
theorem of_append {l₁ : List α} (h : Chain next nil p (l₁ ++ a :: l)) :
    Chain next nil a (a :: l) := by
  induction l₁ generalizing p with
  | nil => exact ⟨rfl, h.2.1, h.2.2⟩
  | cons b l₁ ih => exact ih h.2.2

theorem nodup (h : Chain next nil p l) : l.Nodup := by
  induction l generalizing p with
  | nil => exact List.nodup_nil
  | cons a l ih =>
    refine List.nodup_cons.mpr ⟨fun ha => ?_, ih h.2.2⟩
    -- from `a` the chain would be both `a :: l₁ ++ a :: l₂` and `a :: l₂`
    obtain ⟨l₁, l₂, rfl⟩ := List.append_of_mem ha
    have h₁ : Chain next nil a (a :: (l₁ ++ a :: l₂)) := ⟨rfl, h.2.1, h.2.2⟩
    have h₂ : Chain next nil a (a :: l₂) := of_append h.2.2
    have hlen := congrArg List.length (h₁.unique h₂)
    simp only [List.length_cons, List.length_append] at hlen
    omega

/-- The chain reads `next` only at its elements. -/
theorem congr (h : Chain next nil p l) (heq : ∀ a ∈ l, next' a = next a) :
    Chain next' nil p l := by
  induction l generalizing p with
  | nil => exact h
  | cons a l ih =>
    refine ⟨h.1, h.2.1, ?_⟩
    rw [heq a List.mem_cons_self]
    exact ih h.2.2 fun b hb => heq b (List.mem_cons_of_mem a hb)

variable [DecidableEq α]

/-- Linking a new element `a` to the head puts it in front of the list. -/
theorem push (h : Chain next nil p l) (ha : a ∉ l) (hnil : a ≠ nil) :
    Chain (Function.update next a p) nil a (a :: l) := by
  refine ⟨rfl, hnil, ?_⟩
  rw [Function.update_self]
  exact h.congr fun b hb => Function.update_of_ne (ne_of_mem_of_not_mem hb ha) _ _

/-- Overwriting the head's link leaves the chain from the old link, the rest of the list. -/
theorem pop (h : Chain next nil p (a :: l)) (x : α) :
    Chain (Function.update next a x) nil (next a) l := by
  have ha : a ∉ l := (List.nodup_cons.mp h.nodup).1
  exact h.2.2.congr fun b hb => Function.update_of_ne (ne_of_mem_of_not_mem hb ha) _ _

end Chain

end OtelEbpf
