import Mathlib.Data.List.Lex
import Mathlib.Data.List.Infix
import Mathlib.Order.Lattice

/-!
# Foundations/Lex — lexicographic order and prefixes

The lists between `p` and one of its extensions are exactly extensions of `p`
(`isPrefix_of_le_of_le_append`): this is what makes a listing that is sorted by key also sorted by
any prefix taken from the keys.  Everything is over an arbitrary linearly ordered alphabet.
-/

namespace S000

namespace Lex

open List

variable {α : Type*} [LinearOrder α]

theorem cons_le_cons_iff {a b : α} {l l' : List α} : a :: l ≤ b :: l' ↔ a < b ∨ a = b ∧ l ≤ l' := by
  rw [← not_lt, cons_lt_cons_iff, not_or, not_and, not_lt]
  refine ⟨fun ⟨hab, h⟩ => ?_, ?_⟩
  · rcases lt_or_eq_of_le hab with hab | rfl
    · exact .inl hab
    · exact .inr ⟨rfl, not_lt.mp (h rfl)⟩
  · rintro (hab | ⟨rfl, h⟩)
    · exact ⟨hab.le, fun h => absurd h hab.ne'⟩
    · exact ⟨le_refl _, fun _ => not_lt.mpr h⟩

theorem le_append : ∀ p x : List α, p ≤ p ++ x
  | [], [] => le_refl _
  | [], a :: x => le_of_lt (nil_lt_cons a x)
  | a :: p, x => cons_le_cons a (le_append p x)

variable {p k k' q : List α}

theorem le_of_isPrefix (h : p <+: k) : p ≤ k := by
  obtain ⟨x, rfl⟩ := h
  exact le_append p x

theorem lt_of_isPrefix_of_ne (h : p <+: k) (hne : p ≠ k) : p < k :=
  lt_of_le_of_ne (le_of_isPrefix h) hne

/-- **Nothing but extensions of `p` lies between `p` and an extension of `p`.** -/
theorem isPrefix_of_le_of_le_append : ∀ {p k x : List α}, p ≤ k → k ≤ p ++ x → p <+: k
  | [], k, _, _, _ => nil_prefix
  | a :: p, [], _, h, _ => absurd h (not_le_of_gt (nil_lt_cons a p))
  | a :: p, b :: k, x, h₁, h₂ => by
      rcases cons_le_cons_iff.mp h₁ with hab | ⟨rfl, hpk⟩
      · rcases cons_le_cons_iff.mp h₂ with hba | ⟨rfl, _⟩
        · exact absurd hba (lt_asymm hab)
        · exact absurd hab (lt_irrefl _)
      · rcases cons_le_cons_iff.mp h₂ with haa | ⟨_, hkx⟩
        · exact absurd haa (lt_irrefl _)
        · exact (prefix_cons_inj a).mpr (isPrefix_of_le_of_le_append hpk hkx)

theorem isPrefix_of_between (h₁ : p ≤ k) (h₂ : k ≤ k') (hp : p <+: k') : p <+: k := by
  obtain ⟨x, rfl⟩ := hp
  exact isPrefix_of_le_of_le_append h₁ h₂

omit [LinearOrder α] in
theorem isPrefix_or_isPrefix (hp : p <+: k) (hq : q <+: k) : p <+: q ∨ q <+: p := by
  rcases le_total p.length q.length with h | h
  · exact Or.inl (prefix_of_prefix_length_le hp hq h)
  · exact Or.inr (prefix_of_prefix_length_le hq hp h)

/-- **Prefixes taken from ordered keys are ordered, unless one is a proper prefix of the other.** -/
theorem le_of_isPrefix_of_le (hp : p <+: k) (hq : q <+: k') (hk : k ≤ k')
    (hpq : ¬ (q <+: p ∧ q ≠ p)) : p ≤ q := by
  by_contra h
  have hlt : q < p := lt_of_not_ge h
  have hpk' : p ≤ k' := le_trans (le_of_isPrefix hp) hk
  exact hpq ⟨isPrefix_of_between hlt.le hpk' hq, hlt.ne⟩

end Lex

end S000
