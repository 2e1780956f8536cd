import Mathlib.Data.List.Induction
import Mathlib.Tactic.Common

/-!
# What has happened in a run

Properties of the actions taken so far, where what an action means may depend on the actions before it
(`P bs a`: the action `a`, taken after `bs`).

* `Once P as` : `P` has happened; `once_concat` : it has before, or it does now;
* `Since P Q as` : `P` has happened and no `Q` since; `since_concat` : it happens now, or it held and there is
  no `Q` now.
-/

namespace HardLight.Lib

variable {α : Type*} {P : List α → α → Prop} {Q : α → Prop}

/-- `P` has happened. -/
def Once (P : List α → α → Prop) (as : List α) : Prop := ∃ bs a cs, as = bs ++ a :: cs ∧ P bs a

/-- `P` has happened, and no `Q` since. -/
def Since (P : List α → α → Prop) (Q : α → Prop) (as : List α) : Prop :=
  ∃ bs a cs, as = bs ++ a :: cs ∧ P bs a ∧ ∀ b ∈ cs, ¬ Q b

theorem concat_eq_append_cons {as bs cs : List α} {a b : α} :
    as ++ [b] = bs ++ a :: cs ↔
      (as = bs ∧ b = a ∧ cs = []) ∨ ∃ ds, cs = ds ++ [b] ∧ as = bs ++ a :: ds := by
  rcases List.eq_nil_or_concat cs with rfl | ⟨ds, d, rfl⟩
  · simp
  · rw [List.concat_eq_append, ← List.cons_append, ← List.append_assoc, List.append_singleton_inj]
    constructor
    · rintro ⟨rfl, rfl⟩
      exact Or.inr ⟨ds, rfl, rfl⟩
    · rintro (⟨-, -, hnil⟩ | ⟨es, heq, rfl⟩)
      · simp at hnil
      · obtain ⟨rfl, rfl⟩ := List.append_singleton_inj.mp heq
        exact ⟨rfl, rfl⟩

@[simp] theorem not_once_nil : ¬ Once P [] := by
  rintro ⟨bs, a, cs, heq, -⟩
  simp at heq

@[simp] theorem not_since_nil : ¬ Since P Q [] := by
  rintro ⟨bs, a, cs, heq, -⟩
  simp at heq

theorem once_concat {as : List α} {a : α} : Once P (as ++ [a]) ↔ Once P as ∨ P as a := by
  constructor
  · rintro ⟨bs, b, cs, heq, hP⟩
    rcases concat_eq_append_cons.mp heq with ⟨rfl, rfl, -⟩ | ⟨ds, -, rfl⟩
    · exact Or.inr hP
    · exact Or.inl ⟨bs, b, ds, rfl, hP⟩
  · rintro (⟨bs, b, cs, rfl, hP⟩ | hP)
    · exact ⟨bs, b, cs ++ [a], by simp, hP⟩
    · exact ⟨as, a, [], rfl, hP⟩

theorem Once.append {as : List α} (h : Once P as) (bs : List α) : Once P (as ++ bs) := by
  obtain ⟨cs, a, ds, rfl, hP⟩ := h
  exact ⟨cs, a, ds ++ bs, by simp, hP⟩

theorem since_concat {as : List α} {a : α} :
    Since P Q (as ++ [a]) ↔ P as a ∨ (Since P Q as ∧ ¬ Q a) := by
  constructor
  · rintro ⟨bs, b, cs, heq, hP, hQ⟩
    rcases concat_eq_append_cons.mp heq with ⟨rfl, rfl, -⟩ | ⟨ds, rfl, rfl⟩
    · exact Or.inl hP
    · refine Or.inr ⟨⟨bs, b, ds, rfl, hP, fun d hd => hQ d (by simp [hd])⟩, hQ a (by simp)⟩
  · rintro (hP | ⟨⟨bs, b, cs, rfl, hP, hQ⟩, ha⟩)
    · exact ⟨as, a, [], rfl, hP, fun d hd => by cases hd⟩
    · refine ⟨bs, b, cs ++ [a], by simp, hP, fun d hd => ?_⟩
      rcases List.mem_append.mp hd with hd | hd
      · exact hQ d hd
      · exact List.mem_singleton.mp hd ▸ ha

end HardLight.Lib
