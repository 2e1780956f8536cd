import Mathlib.Logic.Relation
import Mathlib.Tactic.Common

/-!
# Segments of a list between separators

`List.splitOn b` cuts a list at every `b`; a function that gives nothing for an empty segment does not see
how many separators stand together, or at the two ends.

* `InsertSep`, `Padded` : one more separator beside one that is there, or at an end; any number of them;
* `flatMap_splitOn_padded` : such a function gives the same for a list and for the list padded;
* `not_mem_of_mem_splitOn` : a segment has no separator.
-/

namespace HardLight.Lib

variable {α β : Type*} {b : α}

/-- `t` is `s` with one more separator, beside a separator of `s` or at one of its ends. -/
inductive InsertSep (b : α) : List α → List α → Prop
  | front (s : List α) : InsertSep b s (b :: s)
  | back (s : List α) : InsertSep b s (s ++ [b])
  | beside (pre post : List α) : InsertSep b (pre ++ b :: post) (pre ++ b :: b :: post)

/-- `t` is `s` with any number of separators more. -/
def Padded (b : α) : List α → List α → Prop := Relation.ReflTransGen (InsertSep b)

section Split
variable [DecidableEq α]

theorem flatMap_splitOn_insertSep {f : List α → List β} (hf : f [] = []) {s t : List α}
    (h : InsertSep b s t) : (t.splitOn b).flatMap f = (s.splitOn b).flatMap f := by
  cases h with
  | front s =>
    have hsplit := List.splitOn_append_cons_self (a := b) [] s
    rw [List.nil_append, List.splitOn_nil] at hsplit
    rw [hsplit, List.flatMap_append, List.flatMap_singleton, hf, List.nil_append]
  | back s =>
    rw [List.splitOn_append_cons_self, List.splitOn_nil, List.flatMap_append, List.flatMap_singleton, hf,
      List.append_nil]
  | beside pre post =>
    have hsplit := List.splitOn_append_cons_self (a := b) [] post
    rw [List.nil_append, List.splitOn_nil] at hsplit
    rw [List.splitOn_append_cons_self, List.splitOn_append_cons_self, hsplit, List.flatMap_append,
      List.flatMap_append, List.flatMap_append, List.flatMap_singleton, hf, List.nil_append]

/-- **How many separators stand together does not matter** to a function that gives nothing for an empty
segment. -/
theorem flatMap_splitOn_padded {f : List α → List β} (hf : f [] = []) {s t : List α} (h : Padded b s t) :
    (t.splitOn b).flatMap f = (s.splitOn b).flatMap f := by
  induction h with
  | refl => rfl
  | tail _ hins ih => exact (flatMap_splitOn_insertSep hf hins).trans ih

theorem not_mem_of_mem_splitOn {s seg : List α} (h : seg ∈ s.splitOn b) : b ∉ seg := by
  induction s generalizing seg with
  | nil =>
    rw [List.splitOn_nil, List.mem_singleton] at h
    simp [h]
  | cons x s ih =>
    rw [List.splitOn_cons_eq_if_modifyHead] at h
    by_cases hx : x = b
    · rw [if_pos (beq_iff_eq.mpr hx), List.mem_cons] at h
      rcases h with rfl | h
      · exact List.not_mem_nil
      · exact ih h
    · rw [if_neg (by simpa using hx)] at h
      obtain ⟨first, rest, hsplit⟩ := List.exists_cons_of_ne_nil (List.splitOn_ne_nil b s)
      rw [hsplit] at h ih
      rw [List.modifyHead_cons, List.mem_cons] at h
      rcases h with rfl | h
      · rw [List.mem_cons, not_or]
        exact ⟨fun heq => hx heq.symm, ih List.mem_cons_self⟩
      · exact ih (List.mem_cons_of_mem first h)

end Split

end HardLight.Lib
