import Mathlib.Logic.Function.Basic

/-!
# Partial bijections kept as two tables

A one-to-one correspondence between some `α`s and some `β`s is often kept as a forward table
`f : α → Option β` and a reverse table `g : β → Option α`, each a map whose missing keys are
`none`.  `Inverse f g` says the two tables hold the same pairs.

Erasing a key from one table and its value from the other keeps them inverse
(`Inverse.erase`).  `link f a b` is the forward table after `a` is paired with `b`: the old
image of `a` and the old preimage of `b` are dropped and `a ↦ b` added; linking both tables keeps
them inverse (`Inverse.link`), and `link_eq_some_iff` says which pairs it holds.
`Inverse.update_eq_link` recognises a link done one table at a time, and
`Inverse.link_of_eraseImage` the one that erases the stale reverse entry of the key's old image,
then the stale forward entry of the value's old preimage, and writes the pair.
-/

namespace OtelEbpf

namespace PartialBij

variable {α β : Type*}

/-- The two tables hold the same pairs. -/
def Inverse (f : α → Option β) (g : β → Option α) : Prop := ∀ a b, f a = some b ↔ g b = some a

variable {f : α → Option β} {g : β → Option α}

theorem inverse_none : Inverse (fun _ : α => (none : Option β)) (fun _ => none) := by
  simp [Inverse]

theorem Inverse.symm (h : Inverse f g) : Inverse g f := fun b a => (h a b).symm

theorem Inverse.injective (h : Inverse f g) {a a' : α} {b : β} (ha : f a = some b)
    (ha' : f a' = some b) : a = a' := by
  have h₁ := (h a b).mp ha
  have h₂ := (h a' b).mp ha'
  rw [h₁] at h₂
  exact Option.some.inj h₂

variable [DecidableEq α] [DecidableEq β]

/-- Erasing a pair from both tables. -/
theorem Inverse.erase (h : Inverse f g) {a : α} {b : β} (hab : f a = some b) :
    Inverse (Function.update f a none) (Function.update g b none) := by
  intro x y
  simp only [Function.update_apply]
  by_cases hx : x = a <;> by_cases hy : y = b
  · simp [hx, hy]
  · -- `a` was paired with `b` only
    subst hx
    have : g y ≠ some x := fun hg => hy (Option.some.inj (((h x y).mpr hg).symm.trans hab))
    simp [hy, this]
  · subst hy
    have : f x ≠ some y := fun hf => hx (h.injective hf hab)
    simp [hx, this]
  · simp [hx, hy, h x y]

/-- The forward table after `a` is paired with `b`: the old image of `a` and the old preimage of
`b` dropped, `a ↦ b` added. -/
def link (f : α → Option β) (a : α) (b : β) : α → Option β :=
  fun x => if x = a then some b else if f x = some b then none else f x

theorem link_eq_some_iff {a x : α} {b y : β} :
    link f a b x = some y ↔ (x = a ∧ y = b) ∨ (x ≠ a ∧ y ≠ b ∧ f x = some y) := by
  unfold link
  by_cases hx : x = a
  · simp [hx, eq_comm]
  · by_cases hfx : f x = some b
    · simp only [hx, hfx, if_false, if_true, false_and, ne_eq, not_false_eq_true, true_and,
        false_or]
      constructor
      · intro h; cases h
      · rintro ⟨hy, hf⟩
        exact absurd (Option.some.inj hf) (Ne.symm hy)
    · simp only [hx, hfx, if_false, false_and, ne_eq, not_false_eq_true, true_and, false_or]
      constructor
      · intro hf
        exact ⟨fun hy => hfx (hy ▸ hf), hf⟩
      · exact fun h => h.2

/-- Linking `a` to `b` in both tables keeps them inverse. -/
theorem Inverse.link (h : Inverse f g) (a : α) (b : β) :
    Inverse (PartialBij.link f a b) (PartialBij.link g b a) := by
  intro x y
  rw [link_eq_some_iff, link_eq_some_iff, h x y]
  constructor
  · rintro (⟨rfl, rfl⟩ | ⟨hx, hy, hg⟩)
    · exact .inl ⟨rfl, rfl⟩
    · exact .inr ⟨hy, hx, hg⟩
  · rintro (⟨rfl, rfl⟩ | ⟨hy, hx, hg⟩)
    · exact .inl ⟨rfl, rfl⟩
    · exact .inr ⟨hx, hy, hg⟩

/-- A table whose entries off `a` are those of `f` less the old preimage of `b`, updated at `a`
to `b`, is `link f a b`: code that unlinks the stale pairs one table at a time and then writes
the new pair computes the link. -/
theorem Inverse.update_eq_link (h : Inverse f g) {f' : α → Option β} {a : α} {b : β}
    (hf' : ∀ x, x ≠ a → f' x = if g b = some x then none else f x) :
    Function.update f' a (some b) = PartialBij.link f a b := by
  funext x
  by_cases hx : x = a
  · subst hx
    simp [PartialBij.link]
  · rw [Function.update_of_ne hx, hf' x hx, PartialBij.link, if_neg hx]
    simp only [h x b]

/-- The reverse table `g` after the entry of `a`'s image under `f`, if any, is erased. -/
def eraseImage (f : α → Option β) (g : β → Option α) (a : α) : β → Option α :=
  match f a with
  | some b => Function.update g b none
  | none => g

omit [DecidableEq α] in
theorem eraseImage_apply (f : α → Option β) (g : β → Option α) (a : α) (y : β) :
    eraseImage f g a y = if f a = some y then none else g y := by
  unfold eraseImage
  cases hfa : f a with
  | none => simp
  | some b =>
    rcases eq_or_ne y b with rfl | hy
    · simp
    · simp [Function.update_of_ne hy, Ne.symm hy]

/-- Erasing the stale entries one table at a time, then writing the pair, links both tables. -/
theorem Inverse.link_of_eraseImage (h : Inverse f g) (a : α) (b : β) :
    Function.update (eraseImage (eraseImage f g a) f b) a (some b) = PartialBij.link f a b ∧
      Function.update (eraseImage f g a) b (some a) = PartialBij.link g b a := by
  constructor
  · refine h.update_eq_link fun x hx => ?_
    rw [eraseImage_apply, eraseImage_apply]
    by_cases hab : f a = some b
    · -- the old image of `a` was `b` itself: its reverse entry `a` is not `x`
      have hg : g b ≠ some x := by
        rw [(h a b).mp hab]
        exact fun he => hx (Option.some.inj he).symm
      simp [hab, hg]
    · simp [hab]
  · exact h.symm.update_eq_link fun y _ => eraseImage_apply f g a y

end PartialBij

end OtelEbpf
