import Mathlib.Tactic.Common

/-!
# Progress

Of the steps of a machine some are its own work, `W`; others, `F`, come from outside, and may bring new work.

* `Works step W s as t` : a run of work from `s` to `t`;
* `Mixed step W F brings s w f t` : a run of `w` steps of work and of others that bring `f`, in any order;
* `Mixed.add_le` : when work makes a measure smaller, and the others make it larger by what they bring at most, there
  is no more work than the measure and what is brought;
* `Progress` : there is no more work than that, and where none is left `D` holds, whichever steps are taken;
  `progress_of_measure` : a measure that work makes smaller, and work to do as long as `D` does not hold;
* `Progress.exists_works` : work that ends in `D`.
-/

namespace HardLight.Lib

variable {σ α : Type*} {step : σ → α → Option σ} {W F : σ → α → Prop} {brings : α → Nat} {I D : σ → Prop}
  {measure : σ → Nat}

/-- A run of work. -/
inductive Works (step : σ → α → Option σ) (W : σ → α → Prop) : σ → List α → σ → Prop
  | nil (s : σ) : Works step W s [] s
  | cons (s : σ) (a : α) (s' : σ) (as : List α) (t : σ) (hW : W s a) (hs : step s a = some s')
      (h : Works step W s' as t) : Works step W s (a :: as) t

/-- A run of work and other steps: the number of the steps of work, and what the others bring. -/
inductive Mixed (step : σ → α → Option σ) (W F : σ → α → Prop) (brings : α → Nat) : σ → Nat → Nat → σ → Prop
  | nil (s : σ) : Mixed step W F brings s 0 0 s
  | work (s : σ) (a : α) (s' : σ) (w f : Nat) (t : σ) (hW : W s a) (hs : step s a = some s')
      (h : Mixed step W F brings s' w f t) : Mixed step W F brings s (w + 1) f t
  | other (s : σ) (a : α) (s' : σ) (w f : Nat) (t : σ) (hF : F s a) (hs : step s a = some s')
      (h : Mixed step W F brings s' w f t) : Mixed step W F brings s w (f + brings a) t

/-- There are no more steps of work than `bound` and what other steps bring, and where no work is left `D` holds. -/
structure Progress (step : σ → α → Option σ) (W F : σ → α → Prop) (brings : α → Nat) (D : σ → Prop) (bound : Nat)
    (s : σ) : Prop where
  bounded : ∀ w f t, Mixed step W F brings s w f t → w ≤ bound + f
  done : ∀ w f t, Mixed step W F brings s w f t → (∀ a t', W t a → step t a ≠ some t') → D t

theorem Works.concat {s t u : σ} {as : List α} {a : α} (h : Works step W s as t) (hW : W t a)
    (ht : step t a = some u) : Works step W s (as ++ [a]) u := by
  induction h with
  | nil s => exact .cons s a u [] u hW ht (.nil u)
  | cons s b s' as t hb hs h ih => exact .cons s b s' _ u hb hs (ih hW ht)

theorem Works.mixed {s t : σ} {as : List α} (h : Works step W s as t) : Mixed step W F brings s as.length 0 t := by
  induction h with
  | nil s => exact .nil s
  | cons s a s' as t hW hs h ih => exact .work s a s' as.length 0 t hW hs ih

theorem Works.invariant (hstep : ∀ s a s', I s → W s a → step s a = some s' → I s') {s t : σ} {as : List α}
    (hI : I s) (h : Works step W s as t) : I t := by
  induction h with
  | nil s => exact hI
  | cons s a s' as t hW hs h ih => exact ih (hstep s a s' hI hW hs)

theorem Mixed.invariant (hwork : ∀ s a s', I s → W s a → step s a = some s' → I s')
    (hother : ∀ s a s', I s → F s a → step s a = some s' → I s') {s t : σ} {w f : Nat} (hI : I s)
    (h : Mixed step W F brings s w f t) : I t := by
  induction h with
  | nil s => exact hI
  | work s a s' w f t hW hs h ih => exact ih (hwork s a s' hI hW hs)
  | other s a s' w f t hF hs h ih => exact ih (hother s a s' hI hF hs)

/-- **There is no more work than the measure and what is brought.** -/
theorem Mixed.add_le (hwork : ∀ s a s', I s → W s a → step s a = some s' → I s')
    (hother : ∀ s a s', I s → F s a → step s a = some s' → I s')
    (hless : ∀ s a s', I s → W s a → step s a = some s' → measure s' < measure s)
    (hmore : ∀ s a s', I s → F s a → step s a = some s' → measure s' ≤ measure s + brings a) {s t : σ} {w f : Nat}
    (hI : I s) (h : Mixed step W F brings s w f t) : w + measure t ≤ measure s + f := by
  induction h with
  | nil s => omega
  | work s a s' w f t hW hs h ih =>
    have hrest := ih (hwork s a s' hI hW hs)
    have hfirst := hless s a s' hI hW hs
    omega
  | other s a s' w f t hF hs h ih =>
    have hrest := ih (hother s a s' hI hF hs)
    have hfirst := hmore s a s' hI hF hs
    omega

/-- **Progress from a measure.** -/
theorem progress_of_measure (hwork : ∀ s a s', I s → W s a → step s a = some s' → I s')
    (hother : ∀ s a s', I s → F s a → step s a = some s' → I s')
    (hless : ∀ s a s', I s → W s a → step s a = some s' → measure s' < measure s)
    (hmore : ∀ s a s', I s → F s a → step s a = some s' → measure s' ≤ measure s + brings a)
    (hdone : ∀ s, I s → (∀ a s', W s a → step s a ≠ some s') → D s) {s : σ} (hI : I s) :
    Progress step W F brings D (measure s) s where
  bounded w _ _ h := Nat.le_trans (Nat.le_add_right w _) (h.add_le hwork hother hless hmore hI)
  done _ _ t h hend := hdone t (h.invariant hwork hother hI) hend

theorem Progress.exists_works {bound : Nat} {s : σ} (h : Progress step W F brings D bound s) :
    ∃ as t, Works step W s as t ∧ D t := by
  by_contra hno
  have hlonger : ∀ n, ∃ as t, as.length = n ∧ Works step W s as t := by
    intro n
    induction n with
    | zero => exact ⟨[], s, rfl, .nil s⟩
    | succ n ih =>
      obtain ⟨as, t, hlength, hworks⟩ := ih
      have hmore : ∃ a u, W t a ∧ step t a = some u := by
        by_contra hend
        exact hno ⟨as, t, hworks, h.done _ _ t hworks.mixed fun a u hW hu => hend ⟨a, u, hW, hu⟩⟩
      obtain ⟨a, u, hW, hu⟩ := hmore
      exact ⟨as ++ [a], u, by rw [List.length_append, hlength, List.length_singleton], hworks.concat hW hu⟩
  obtain ⟨as, t, hlength, hworks⟩ := hlonger (bound + 1)
  have hle := h.bounded _ _ t hworks.mixed
  omega

end HardLight.Lib
