import Mathlib

/-! Acyclic relations: no element is reachable from itself. -/

namespace Acyclicity
open Relation

variable {α β : Type*}

def Acyclic (R : α → α → Prop) : Prop := ∀ a, ¬TransGen R a a

/-- A relation that only climbs a rank is acyclic. -/
theorem acyclic_of_rank {R : α → α → Prop} (rank : α → ℕ)
    (h : ∀ a b, R a b → rank a < rank b) : Acyclic R := by
  have hpath : ∀ a b, TransGen R a b → rank a < rank b := by
    intro a b hab
    induction hab with
    | single hab => exact h _ _ hab
    | tail _ hbc ih => exact Nat.lt_trans ih (h _ _ hbc)
  exact fun a ha => Nat.lt_irrefl _ (hpath a a ha)

/-- A relation whose steps either follow an acyclic relation between labels, or stay at
one label and climb a rank, is acyclic. -/
theorem acyclic_of_label {R : α → α → Prop} {E : β → β → Prop} (label : α → β) (rank : α → ℕ)
    (hE : Acyclic E)
    (h : ∀ a b, R a b → (label a = label b ∧ rank a < rank b) ∨ E (label a) (label b)) :
    Acyclic R := by
  have hpath : ∀ a b, TransGen R a b →
      (label a = label b ∧ rank a < rank b) ∨ TransGen E (label a) (label b) := by
    intro a b hab
    induction hab with
    | single hab => exact (h _ _ hab).imp id TransGen.single
    | tail _ hbc ih =>
      rcases ih with ⟨hl, hr⟩ | hpath <;> rcases h _ _ hbc with ⟨hl', hr'⟩ | hstep
      · exact Or.inl ⟨hl.trans hl', Nat.lt_trans hr hr'⟩
      · exact Or.inr (hl ▸ TransGen.single hstep)
      · exact Or.inr (hl' ▸ hpath)
      · exact Or.inr (hpath.tail hstep)
  intro a ha
  obtain ⟨_, hr⟩ | hpath := hpath a a ha
  · exact Nat.lt_irrefl _ hr
  · exact hE _ hpath

end Acyclicity
