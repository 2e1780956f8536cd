import Mathlib.Data.List.Nodup
import Mathlib.Tactic.Common

/-!
# Typed arguments and scopes

Values of the types `El t`, where the codes `t` can be compared.

* `Value`, `Value.as` : a value with its code, read at a code;
* `Args` : a value for each of several codes, in their order;
* `Scope.bind`, `Scope.pass` : names are bound to arguments, and names in scope are passed as arguments;
* `Scope.pass_bind` : names bound once pass what they are bound to;
* `find?_key`, `find?_map_key` : what is found by a key that nothing else has.
-/

namespace HardLight.Lib

variable {τ : Type} {El : τ → Type}

/-- A value with the code of its type. -/
structure Value (El : τ → Type) where
  ty : τ
  val : El ty

def Value.as [DecidableEq τ] (v : Value El) (t : τ) : Option (El t) :=
  if h : v.ty = t then some (h ▸ v.val) else none

@[simp] theorem Value.as_self [DecidableEq τ] (t : τ) (x : El t) : (Value.mk t x).as t = some x := by
  simp [Value.as]

/-- A value for each code. -/
def Args (El : τ → Type) : List τ → Type
  | [] => Unit
  | t :: ts => El t × Args El ts

abbrev Scope (El : τ → Type) := List (String × Value El)

namespace Scope

/-- The names are bound to the arguments at their places. -/
def bind : List String → (ts : List τ) → Args El ts → Scope El
  | x :: xs, t :: ts, args => (x, ⟨t, args.1⟩) :: bind xs ts args.2
  | _, _, _ => []

/-- What the names stand for, as arguments at their places. -/
def pass [DecidableEq τ] (scope : Scope El) : List String → (ts : List τ) → Option (Args El ts)
  | [], [] => some ()
  | x :: xs, t :: ts =>
    ((scope.lookup x).bind fun v => v.as t).bind fun val => (pass scope xs ts).map fun args => (val, args)
  | _, _ => none

theorem pass_of_notMem [DecidableEq τ] {x : String} {xs : List String} (h : x ∉ xs) (v : Value El)
    (scope : Scope El) (ts : List τ) : pass ((x, v) :: scope) xs ts = pass scope xs ts := by
  induction xs generalizing ts with
  | nil => cases ts <;> rfl
  | cons y ys ih =>
    rw [List.mem_cons, not_or] at h
    cases ts with
    | nil => rfl
    | cons t ts =>
      rw [pass, pass, ih h.2, List.lookup_cons, beq_false_of_ne (Ne.symm h.1)]

/-- **Names that are bound once pass what they are bound to.** -/
theorem pass_bind [DecidableEq τ] {xs : List String} {ts : List τ} (hnodup : xs.Nodup)
    (hlength : xs.length = ts.length) (args : Args El ts) : pass (bind xs ts args) xs ts = some args := by
  induction xs generalizing ts with
  | nil =>
    cases ts with
    | nil => rfl
    | cons t ts => cases hlength
  | cons x xs ih =>
    cases ts with
    | nil => cases hlength
    | cons t ts =>
      obtain ⟨hx, hxs⟩ := List.nodup_cons.mp hnodup
      obtain ⟨val, args⟩ := args
      have hrest := ih hxs (Nat.succ.inj hlength) args
      show pass ((x, ⟨t, val⟩) :: bind xs ts args) (x :: xs) (t :: ts) = some (val, args)
      simp only [pass, pass_of_notMem hx, hrest, List.lookup_cons_self, Option.bind_some, Value.as_self]
      rfl

theorem exists_pass_bind [DecidableEq τ] {xs : List String} {ts ts' : List τ} (hnodup : xs.Nodup)
    (hlength : xs.length = ts.length) (h : ts' = ts) (args : Args El ts) :
    ∃ args', (bind xs ts args).pass xs ts' = some args' ∧ bind xs ts' args' = bind xs ts args := by
  subst h
  exact ⟨args, pass_bind hnodup hlength args, rfl⟩

end Scope

theorem find?_key {α β : Type} [BEq β] [LawfulBEq β] {key : α → β} {l : List α} (h : (l.map key).Nodup) {a : α}
    (ha : a ∈ l) : l.find? (fun b => key b == key a) = some a := by
  induction l with
  | nil => cases ha
  | cons b l ih =>
    rw [List.map_cons, List.nodup_cons] at h
    rcases List.mem_cons.mp ha with rfl | ha
    · exact List.find?_cons_of_pos (beq_self_eq_true _)
    · have hne : key b ≠ key a := fun heq => h.1 (heq ▸ List.mem_map_of_mem ha)
      rw [List.find?_cons_of_neg (by simpa using hne), ih h.2 ha]

theorem find?_map_key {α β γ : Type} [BEq γ] [LawfulBEq γ] (key : β → γ) (f : α → β) {l : List α}
    (h : (l.map fun a => key (f a)).Nodup) {a : α} (ha : a ∈ l) :
    (l.map f).find? (fun b => key b == key (f a)) = some (f a) := by
  refine find?_key ?_ (List.mem_map_of_mem ha)
  rwa [List.map_map]

end HardLight.Lib
