import HardLight.Lib.Past
import Mathlib.Data.List.Nodup

/-!
# Linearizability

A sequential object is a function `apply : ω → σ → ρ × σ`: what an operation returns and what it leaves. The
users of the object see calls, and calls that return or fail; `ι` names the calls.

* `Legal apply s ops t` : operations with their results, done one after another;
* `Linearizes apply s history order t` : `order` explains what the users have seen. Every call is in it once at
  most, with its own operation; the results are those of the sequential object; what failed is not in it; and what
  had returned when a call was made comes before that call;
* `linearizes_nil`, `Linearizes.call`, `Linearizes.effect`, `Linearizes.ret`, `Linearizes.fail` : the rules for
  a call that is made, takes effect, returns or fails;
* `Linearizes.outside`, `Linearizes.observe` : for an operation of somebody who is not seen, and for several calls
  that return or fail.
-/

namespace HardLight.Lib

variable {ι ω ρ σ : Type*}

/-- What the users of an object see. -/
inductive Observation (ι ω ρ : Type*)
  | called (c : ι) (op : ω)
  | returned (c : ι) (result : ρ)
  | failed (c : ι)

def Observation.called? : Observation ι ω ρ → Option ι
  | called c _ => some c
  | _ => none

/-- The call that is seen. -/
def Observation.id : Observation ι ω ρ → ι
  | called c _ => c
  | returned c _ => c
  | failed c => c

/-- Operations with their results, done one after another. -/
inductive Legal (apply : ω → σ → ρ × σ) : σ → List (ω × ρ) → σ → Prop
  | nil (s : σ) : Legal apply s [] s
  | cons (op : ω) (s t : σ) (ops : List (ω × ρ)) (h : Legal apply (apply op s).2 ops t) :
      Legal apply s ((op, (apply op s).1) :: ops) t

/-- The call `c` had returned when `d` was made. -/
def Before (history : List (Observation ι ω ρ)) (c d : ι) : Prop :=
  ∃ as r bs op cs, history = as ++ .returned c r :: (bs ++ .called d op :: cs)

structure Linearizes (apply : ω → σ → ρ × σ) (s : σ) (history : List (Observation ι ω ρ))
    (order : List (ι × ω × ρ)) (t : σ) : Prop where
  distinct : (history.filterMap Observation.called?).Nodup
  made : ∀ o ∈ history, o.id ∈ history.filterMap Observation.called?
  legal : Legal apply s (order.map Prod.snd) t
  once : (order.map Prod.fst).Nodup
  own : ∀ x ∈ order, .called x.1 x.2.1 ∈ history
  complete : ∀ c r, .returned c r ∈ history → ∃ op, (c, op, r) ∈ order
  failed : ∀ c, .failed c ∈ history → c ∉ order.map Prod.fst
  real_time : ∀ c d, Before history c d → ∀ xs x ys, order = xs ++ x :: ys → x.1 = d → c ∈ xs.map Prod.fst

section Rules
variable {apply : ω → σ → ρ × σ} {s t : σ} {history : List (Observation ι ω ρ)} {order : List (ι × ω × ρ)}

theorem Legal.concat {ops : List (ω × ρ)} (h : Legal apply s ops t) (op : ω) :
    Legal apply s (ops ++ [(op, (apply op t).1)]) (apply op t).2 := by
  induction h with
  | nil s => exact .cons op s _ [] (.nil _)
  | cons op' s t ops h ih => exact .cons op' s _ _ ih

theorem mem_called_iff {c : ι} :
    c ∈ history.filterMap Observation.called? ↔ ∃ op, .called c op ∈ history := by
  rw [List.mem_filterMap]
  constructor
  · rintro ⟨o, ho, hc⟩
    cases o with
    | called c' op => cases hc; exact ⟨op, ho⟩
    | returned => cases hc
    | failed => cases hc
  · rintro ⟨op, h⟩
    exact ⟨_, h, rfl⟩

theorem called_concat {o : Observation ι ω ρ} (h : o.called? = none) :
    (history ++ [o]).filterMap Observation.called? = history.filterMap Observation.called? := by
  simp [h]

/-- After one more observation a call had returned before another one if it had before, or the new observation
is that other call. -/
theorem before_concat {o : Observation ι ω ρ} {c d : ι} (h : Before (history ++ [o]) c d) :
    Before history c d ∨ ∃ r op, o = .called d op ∧ .returned c r ∈ history := by
  obtain ⟨as, r, bs, op, cs, heq⟩ := h
  rw [show as ++ .returned c r :: (bs ++ .called d op :: cs) =
    (as ++ .returned c r :: bs) ++ .called d op :: cs by simp] at heq
  rcases concat_eq_append_cons.mp heq with ⟨rfl, rfl, -⟩ | ⟨ds, -, rfl⟩
  · exact Or.inr ⟨r, op, rfl, by simp⟩
  · exact Or.inl ⟨as, r, bs, op, ds, by simp⟩

theorem linearizes_nil (apply : ω → σ → ρ × σ) (s : σ) :
    Linearizes apply s ([] : List (Observation ι ω ρ)) [] s where
  distinct := List.nodup_nil
  made o ho := by cases ho
  legal := .nil s
  once := List.nodup_nil
  own x hx := by cases hx
  complete c r h := by cases h
  failed c h := by cases h
  real_time := by
    rintro c d ⟨as, r, bs, op, cs, heq⟩
    simp at heq

theorem Linearizes.mem_called (h : Linearizes apply s history order t) {c : ι}
    (hc : c ∈ order.map Prod.fst) : c ∈ history.filterMap Observation.called? := by
  obtain ⟨x, hx, rfl⟩ := List.mem_map.mp hc
  exact mem_called_iff.mpr ⟨_, h.own x hx⟩

theorem Linearizes.call (h : Linearizes apply s history order t) {c : ι} (op : ω)
    (hc : c ∉ history.filterMap Observation.called?) :
    Linearizes apply s (history ++ [.called c op]) order t where
  distinct := by
    rw [List.filterMap_append]
    exact List.Nodup.append h.distinct (List.nodup_singleton c) (List.disjoint_singleton.mpr hc)
  made o ho := by
    rw [List.filterMap_append, List.mem_append]
    rcases List.mem_append.mp ho with ho | ho
    · exact Or.inl (h.made o ho)
    · obtain rfl := List.mem_singleton.mp ho
      exact Or.inr List.mem_cons_self
  legal := h.legal
  once := h.once
  own x hx := List.mem_append_left _ (h.own x hx)
  complete c' r hr := by
    simp only [List.mem_append, List.mem_singleton, reduceCtorEq, or_false] at hr
    exact h.complete c' r hr
  failed c' hf := by
    simp only [List.mem_append, List.mem_singleton, reduceCtorEq, or_false] at hf
    exact h.failed c' hf
  real_time c' d hb xs x ys heq hd := by
    rcases before_concat hb with hb | ⟨r, op', ho, -⟩
    · exact h.real_time c' d hb xs x ys heq hd
    · -- the new call has no place in the order yet
      cases ho
      refine absurd (h.mem_called ?_) hc
      rw [heq, ← hd]
      simp

theorem Linearizes.effect (h : Linearizes apply s history order t) {c : ι} {op : ω}
    (hcalled : .called c op ∈ history) (hc : c ∉ order.map Prod.fst) (hfailed : .failed c ∉ history) :
    Linearizes apply s history (order ++ [(c, op, (apply op t).1)]) (apply op t).2 where
  distinct := h.distinct
  made := h.made
  legal := by
    rw [List.map_append]
    exact h.legal.concat op
  once := by
    rw [List.map_append]
    exact List.Nodup.append h.once (List.nodup_singleton c) (List.disjoint_singleton.mpr hc)
  own x hx := by
    rcases List.mem_append.mp hx with hx | hx
    · exact h.own x hx
    · obtain rfl := List.mem_singleton.mp hx
      exact hcalled
  complete c' r hr := (h.complete c' r hr).imp fun op' hin => List.mem_append_left _ hin
  failed c' hf hin := by
    rw [List.map_append, List.mem_append] at hin
    rcases hin with hin | hin
    · exact h.failed c' hf hin
    · obtain rfl := List.mem_singleton.mp hin
      exact hfailed hf
  real_time c' d hb xs x ys heq hd := by
    rcases concat_eq_append_cons.mp heq with ⟨rfl, -, -⟩ | ⟨zs, -, horder⟩
    · -- what has returned is in the order already
      obtain ⟨as, r, bs, op', cs, hhist⟩ := hb
      obtain ⟨op'', hin⟩ := h.complete c' r (by rw [hhist]; simp)
      exact List.mem_map.mpr ⟨_, hin, rfl⟩
    · exact h.real_time c' d hb xs x zs horder hd

theorem Linearizes.outside (h : Linearizes apply s history order t) {c : ι} (op : ω)
    (hc : c ∉ history.filterMap Observation.called?) :
    Linearizes apply s (history ++ [.called c op]) (order ++ [(c, op, (apply op t).1)]) (apply op t).2 := by
  refine (h.call op hc).effect (by simp) (fun hin => hc (h.mem_called hin)) fun hf => ?_
  rw [List.mem_append, List.mem_singleton] at hf
  rcases hf with hf | hf
  · exact hc (h.made _ hf)
  · cases hf

theorem Linearizes.ret (h : Linearizes apply s history order t) {c : ι} {op : ω} {r : ρ}
    (hin : (c, op, r) ∈ order) : Linearizes apply s (history ++ [.returned c r]) order t where
  distinct := by
    rw [called_concat rfl]
    exact h.distinct
  made o ho := by
    rw [called_concat rfl]
    rcases List.mem_append.mp ho with ho | ho
    · exact h.made o ho
    · obtain rfl := List.mem_singleton.mp ho
      exact h.mem_called (List.mem_map.mpr ⟨_, hin, rfl⟩)
  legal := h.legal
  once := h.once
  own x hx := List.mem_append_left _ (h.own x hx)
  complete c' r' hr := by
    rcases List.mem_append.mp hr with hr | hr
    · exact h.complete c' r' hr
    · cases List.mem_singleton.mp hr
      exact ⟨op, hin⟩
  failed c' hf := by
    simp only [List.mem_append, List.mem_singleton, reduceCtorEq, or_false] at hf
    exact h.failed c' hf
  real_time c' d hb xs x ys heq hd := by
    rcases before_concat hb with hb | ⟨r', op', ho, -⟩
    · exact h.real_time c' d hb xs x ys heq hd
    · cases ho

theorem Linearizes.fail (h : Linearizes apply s history order t) {c : ι}
    (hmade : c ∈ history.filterMap Observation.called?) (hc : c ∉ order.map Prod.fst) :
    Linearizes apply s (history ++ [.failed c]) order t where
  distinct := by
    rw [called_concat rfl]
    exact h.distinct
  made o ho := by
    rw [called_concat rfl]
    rcases List.mem_append.mp ho with ho | ho
    · exact h.made o ho
    · obtain rfl := List.mem_singleton.mp ho
      exact hmade
  legal := h.legal
  once := h.once
  own x hx := List.mem_append_left _ (h.own x hx)
  complete c' r hr := by
    simp only [List.mem_append, List.mem_singleton, reduceCtorEq, or_false] at hr
    exact h.complete c' r hr
  failed c' hf := by
    rcases List.mem_append.mp hf with hf | hf
    · exact h.failed c' hf
    · cases List.mem_singleton.mp hf
      exact hc
  real_time c' d hb xs x ys heq hd := by
    rcases before_concat hb with hb | ⟨r', op', ho, -⟩
    · exact h.real_time c' d hb xs x ys heq hd
    · cases ho

/-- Calls that have taken effect return and calls that have not fail, several at once. -/
theorem Linearizes.observe {os : List (Observation ι ω ρ)} (h : Linearizes apply s history order t)
    (hos : ∀ o ∈ os, (∃ c op r, o = .returned c r ∧ (c, op, r) ∈ order) ∨
      ∃ c, o = .failed c ∧ c ∈ history.filterMap Observation.called? ∧ c ∉ order.map Prod.fst) :
    Linearizes apply s (history ++ os) order t := by
  induction os generalizing history with
  | nil => rwa [List.append_nil]
  | cons o os ih =>
    rw [← List.singleton_append, ← List.append_assoc]
    have hrest : ∀ {history' : List (Observation ι ω ρ)},
        history'.filterMap Observation.called? = history.filterMap Observation.called? →
        ∀ o' ∈ os, (∃ c op r, o' = .returned c r ∧ (c, op, r) ∈ order) ∨
          ∃ c, o' = .failed c ∧ c ∈ history'.filterMap Observation.called? ∧ c ∉ order.map Prod.fst :=
      fun heq o' ho' => heq ▸ hos o' (List.mem_cons_of_mem o ho')
    rcases hos o List.mem_cons_self with ⟨c, op, r, rfl, hin⟩ | ⟨c, rfl, hmade, hc⟩
    · exact ih (h.ret hin) (hrest (called_concat rfl))
    · exact ih (h.fail hmade hc) (hrest (called_concat rfl))

end Rules

end HardLight.Lib
