import Mathlib.Data.List.Forall2

/-!
# Lists related element by element

`List.Forall₂ R l₁ l₂` pairs the elements of two lists of the same length in order.  A container
that keeps a list of handles (indices, pointers) in the order of a list of keys is related to it
so, with `R` the lookup from a key to its handle.  When `R` is injective both ways, the
relation carries membership and distinctness from one list to the other, and removing one
element from each keeps it.
-/

namespace OtelEbpf

namespace ListRel

variable {α β : Type*} {R : α → β → Prop} {l₁ : List α} {l₂ : List β}

theorem mem_left (h : List.Forall₂ R l₁ l₂) {x : α} (hx : x ∈ l₁) : ∃ y ∈ l₂, R x y := by
  induction h with
  | nil => cases hx
  | @cons a b l₁ l₂ hab _ ih =>
    rcases List.mem_cons.1 hx with rfl | hx
    · exact ⟨b, List.mem_cons_self, hab⟩
    · obtain ⟨y, hy, hxy⟩ := ih hx
      exact ⟨y, List.mem_cons_of_mem _ hy, hxy⟩

theorem mem_right (h : List.Forall₂ R l₁ l₂) {y : β} (hy : y ∈ l₂) : ∃ x ∈ l₁, R x y := by
  induction h with
  | nil => cases hy
  | @cons a b l₁ l₂ hab _ ih =>
    rcases List.mem_cons.1 hy with rfl | hy
    · exact ⟨a, List.mem_cons_self, hab⟩
    · obtain ⟨x, hx, hxy⟩ := ih hy
      exact ⟨x, List.mem_cons_of_mem _ hx, hxy⟩

/-- A relation that implies another on the elements of the second list carries over. -/
theorem imp_of_mem {S : α → β → Prop} (h : List.Forall₂ R l₁ l₂)
    (hRS : ∀ x y, y ∈ l₂ → R x y → S x y) : List.Forall₂ S l₁ l₂ := by
  induction h with
  | nil => exact List.Forall₂.nil
  | @cons a b l₁ l₂ hab _ ih =>
    exact List.Forall₂.cons (hRS a b List.mem_cons_self hab)
      (ih fun x y hy hxy => hRS x y (List.mem_cons_of_mem _ hy) hxy)

/-- A list related to a list of distinct elements by a relation that determines the second
element from the first is itself of distinct elements. -/
theorem nodup_left (h : List.Forall₂ R l₁ l₂) (hR : ∀ x y y', R x y → R x y' → y = y')
    (h₂ : l₂.Nodup) : l₁.Nodup := by
  induction h with
  | nil => exact List.nodup_nil
  | @cons a b l₁ l₂ hab hrest ih =>
    obtain ⟨hb, h₂⟩ := List.nodup_cons.1 h₂
    refine List.nodup_cons.2 ⟨fun ha => ?_, ih h₂⟩
    obtain ⟨y, hy, hay⟩ := mem_left hrest ha
    exact hb (hR a b y hab hay ▸ hy)

variable [DecidableEq α] [DecidableEq β]

/-- Removing two related elements, each from its list, keeps the lists related. -/
theorem filter_ne (h : List.Forall₂ R l₁ l₂) {a : α} {b : β}
    (hab : ∀ x y, R x y → (x = a ↔ y = b)) :
    List.Forall₂ R (l₁.filter (· != a)) (l₂.filter (· != b)) :=
  List.rel_filter (fun x y hxy => by simp [hab x y hxy]) h

end ListRel

end OtelEbpf
