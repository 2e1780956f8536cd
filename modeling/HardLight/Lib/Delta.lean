import Mathlib.Data.List.Induction
import Mathlib.Data.Nat.Find
import Mathlib.Tactic.Common

/-!
# A replica fed by deltas

A source goes through the states of a history; a replica gets, in order, a delta for every step of it
that changed something. `Delta σ δ` says what a delta is, with the two laws that make this work.

* `deltas` : the deltas of a history, `deltas_concat` : one more state adds its delta at the end;
* `Follows h r q m` : the replica `r` is at place `m` of `h`, and `q` is what is still to come;
* `Follows.commit`, `Follows.apply` : the source moves on, the replica takes the next delta (and its
  place only moves forward); `Follows.caught_up` : with nothing to come it is at the last state;
* `Follows.applies`, `Follows.extend` : the replica takes the first of the deltas to come, the source goes on;
  `Follows.later` : one that has taken more of them is no further back;
  `Follows.exists_last` : of the places where the replica may be, one is the last.
-/

namespace HardLight.Lib

/-- `diff a b` is what to send when the source goes from `a` to `b`, `none` when there is nothing. -/
structure Delta (σ δ : Type*) where
  diff : σ → σ → Option δ
  patch : σ → δ → σ
  patch_diff : ∀ {a b d}, diff a b = some d → patch a d = b
  eq_of_diff : ∀ {a b}, diff a b = none → a = b

namespace Delta

variable {σ δ : Type*} (D : Delta σ δ)

def deltas : List σ → List δ
  | a :: b :: h => (D.diff a b).toList ++ deltas (b :: h)
  | _ => []

@[simp] theorem deltas_singleton (a : σ) : D.deltas [a] = [] := rfl

theorem deltas_cons_cons (a b : σ) (h : List σ) :
    D.deltas (a :: b :: h) = (D.diff a b).toList ++ D.deltas (b :: h) := rfl

theorem deltas_concat {h : List σ} {a : σ} (hlast : h.getLast? = some a) (b : σ) :
    D.deltas (h ++ [b]) = D.deltas h ++ (D.diff a b).toList := by
  induction h with
  | nil => cases hlast
  | cons x h ih =>
    cases h with
    | nil =>
      rw [List.getLast?_singleton, Option.some.injEq] at hlast
      subst hlast
      simp [deltas_cons_cons]
    | cons y h =>
      rw [List.getLast?_cons_cons] at hlast
      rw [List.cons_append, List.cons_append, deltas_cons_cons, deltas_cons_cons, List.append_assoc,
        ← ih hlast, List.cons_append]

/-- The replica `r` is at place `m` of the history `h`, with the deltas `q` still to come. -/
def Follows (h : List σ) (r : σ) (q : List δ) (m : Nat) : Prop :=
  h[m]? = some r ∧ q = D.deltas (h.drop m)

variable {D} {h : List σ} {r : σ} {q : List δ} {m : Nat}

theorem follows_start (a : σ) : D.Follows [a] a [] 0 := ⟨rfl, rfl⟩

theorem Follows.commit (hf : D.Follows h r q m) {a : σ} (hlast : h.getLast? = some a) (b : σ) :
    D.Follows (h ++ [b]) r (q ++ (D.diff a b).toList) m := by
  obtain ⟨hr, rfl⟩ := hf
  have hm : m < h.length := (List.getElem?_eq_some_iff.mp hr).1
  refine ⟨by rw [List.getElem?_append_left hm, hr], ?_⟩
  have hdrop : (h.drop m).getLast? = some a := by
    rw [List.getLast?_drop, if_neg (by omega), hlast]
  rw [List.drop_append_of_le_length (Nat.le_of_lt hm), deltas_concat D hdrop]

theorem Follows.caught_up (hf : D.Follows h r [] m) : h.getLast? = some r := by
  obtain ⟨hr, hq⟩ := hf
  have hm : m < h.length := (List.getElem?_eq_some_iff.mp hr).1
  have hlast : h.getLast? = (h.drop m).getLast? := by
    rw [List.getLast?_drop, if_neg (by omega)]
  have hhead : (h.drop m).head? = some r := by rw [List.head?_drop, hr]
  rw [hlast]
  generalize h.drop m = l at hq hhead
  induction l with
  | nil => cases hhead
  | cons x l ih =>
    cases l with
    | nil => exact hhead
    | cons y l =>
      rw [deltas_cons_cons, eq_comm, List.append_eq_nil_iff, Option.toList_eq_nil_iff] at hq
      rw [List.getLast?_cons_cons]
      refine ih hq.2.symm ?_
      rw [List.head?_cons, ← D.eq_of_diff hq.1]
      exact hhead

/-- **The replica takes the next delta**, and its place in the history moves forward. -/
theorem Follows.apply {d : δ} (hf : D.Follows h r (d :: q) m) :
    ∃ m', m ≤ m' ∧ D.Follows h (D.patch r d) q m' := by
  obtain ⟨hr, hq⟩ := hf
  -- skip the states that differ from the next one in nothing
  induction hn : h.length - m generalizing m r with
  | zero =>
    have hm : m < h.length := (List.getElem?_eq_some_iff.mp hr).1
    omega
  | succ n ih =>
    obtain ⟨hm, rfl⟩ := List.getElem?_eq_some_iff.mp hr
    rw [List.drop_eq_getElem_cons hm] at hq
    by_cases hm' : m + 1 < h.length
    · rw [List.drop_eq_getElem_cons hm', deltas_cons_cons] at hq
      cases hd : D.diff h[m] h[m + 1] with
      | some d' =>
        rw [hd, Option.toList_some, List.singleton_append, List.cons.injEq] at hq
        obtain ⟨rfl, rfl⟩ := hq
        rw [D.patch_diff hd]
        exact ⟨m + 1, by omega, List.getElem?_eq_getElem hm', by rw [List.drop_eq_getElem_cons hm']⟩
      | none =>
        rw [hd, Option.toList_none, List.nil_append] at hq
        have hsame := D.eq_of_diff hd
        obtain ⟨m', hle, hf⟩ := ih (m := m + 1) (r := h[m]) (by rw [hsame, List.getElem?_eq_getElem hm'])
          (by rw [List.drop_eq_getElem_cons hm']; exact hq) (by omega)
        exact ⟨m', by omega, hf⟩
    · rw [List.drop_eq_nil_of_le (by omega), deltas_singleton] at hq
      cases hq

theorem Follows.applies {more : List δ} (hf : D.Follows h r (q ++ more) m) :
    ∃ m', m ≤ m' ∧ D.Follows h (q.foldl D.patch r) more m' := by
  induction q generalizing r m with
  | nil => exact ⟨m, Nat.le_refl m, hf⟩
  | cons d q ih =>
    obtain ⟨m', hle, hf⟩ := hf.apply
    obtain ⟨m'', hle', hf⟩ := ih hf
    exact ⟨m'', Nat.le_trans hle hle', hf⟩

/-- The source goes on, and the same deltas are to come at every place. -/
theorem Follows.extend {h' : List σ} (hh : h <+: h') :
    ∃ more, ∀ {r q m}, D.Follows h r q m → D.Follows h' r (q ++ more) m := by
  obtain ⟨t, rfl⟩ := hh
  induction t using List.reverseRecOn with
  | nil => exact ⟨[], fun hf => by rwa [List.append_nil, List.append_nil]⟩
  | append_singleton t b ih =>
    obtain ⟨more, ih⟩ := ih
    cases hlast : (h ++ t).getLast? with
    | none =>
      refine ⟨[], fun hf => ?_⟩
      obtain ⟨hm, -⟩ := hf
      rw [(List.append_eq_nil_iff.mp (List.getLast?_eq_none_iff.mp hlast)).1] at hm
      cases hm
    | some a =>
      refine ⟨more ++ (D.diff a b).toList, fun hf => ?_⟩
      rw [← List.append_assoc, ← List.append_assoc]
      exact (ih hf).commit hlast b

/-- A replica that has taken more deltas, of a source that has gone on, is no further back. -/
theorem Follows.later {h' : List σ} (hh : h <+: h') {q₁ q₂ p p' : List δ} (hf : D.Follows h r (q₁ ++ p) m)
    (hf' : D.Follows h' r (q₁ ++ q₂ ++ p') m) :
    ∃ m₁ m₂, m₁ ≤ m₂ ∧ D.Follows h (q₁.foldl D.patch r) p m₁ ∧ D.Follows h' ((q₁ ++ q₂).foldl D.patch r) p' m₂ := by
  obtain ⟨m₁, -, hf₁⟩ := hf.applies
  obtain ⟨more, hextend⟩ := Follows.extend (D := D) hh
  -- what is to come in `h'` is the same, however it is cut
  have hsame : p ++ more = q₂ ++ p' := by
    have hcut := (hextend hf).2.trans hf'.2.symm
    rw [List.append_assoc, List.append_assoc] at hcut
    exact List.append_cancel_left hcut
  have hf₂ := hextend hf₁
  rw [hsame] at hf₂
  obtain ⟨m₂, hle, hf₂⟩ := hf₂.applies
  rw [List.foldl_append]
  exact ⟨m₁, m₂, hle, hf₁, hf₂⟩

theorem Follows.exists_last (hf : D.Follows h r q m) :
    ∃ last, D.Follows h r q last ∧ ∀ n, D.Follows h r q n → n ≤ last := by
  classical
  have hbound : ∀ {n}, D.Follows h r q n → n ≤ h.length := fun hn =>
    Nat.le_of_lt (List.getElem?_eq_some_iff.mp hn.1).1
  exact ⟨Nat.findGreatest (D.Follows h r q) h.length, Nat.findGreatest_spec (hbound hf) hf,
    fun n hn => Nat.le_findGreatest (hbound hn) hn⟩

end Delta

end HardLight.Lib
