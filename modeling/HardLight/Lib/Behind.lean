import Mathlib.Tactic.Common

/-!
# Two ends of a queue of updates

The near end makes updates and sends them down a queue; the far end applies them as they come out. An
update is made only where it is enabled.

* `Behind far q near` : the queue takes the far end to the near end, each update enabled in its turn;
* `Behind.send`, `Behind.receive` : the two ends of the queue; `Behind.settled` : the queue is empty;
-/

namespace HardLight.Lib

variable {M N : Type*}

/-- Every update of the queue is enabled where it is applied. -/
def AllEnabled (apply : M → N → M) (enabled : M → N → Prop) (m : M) : List N → Prop
  | [] => True
  | n :: q => enabled m n ∧ AllEnabled apply enabled (apply m n) q

theorem allEnabled_concat {apply : M → N → M} {enabled : M → N → Prop} {m : M} {q : List N} {n : N} :
    AllEnabled apply enabled m (q ++ [n]) ↔
      AllEnabled apply enabled m q ∧ enabled (q.foldl apply m) n := by
  induction q generalizing m with
  | nil => simp [AllEnabled]
  | cons n' q ih =>
    rw [List.cons_append, AllEnabled, AllEnabled, ih, List.foldl_cons, and_assoc]

structure Behind (apply : M → N → M) (enabled : M → N → Prop) (far : M) (q : List N) (near : M) :
    Prop where
  replay : q.foldl apply far = near
  all_enabled : AllEnabled apply enabled far q

namespace Behind

variable {apply : M → N → M} {enabled : M → N → Prop} {far near : M} {q : List N} {n : N}

theorem start (m : M) : Behind apply enabled m [] m := ⟨rfl, trivial⟩

theorem send (h : Behind apply enabled far q near) (hn : enabled near n) :
    Behind apply enabled far (q ++ [n]) (apply near n) where
  replay := by rw [List.foldl_append, h.replay, List.foldl_cons, List.foldl_nil]
  all_enabled := allEnabled_concat.mpr ⟨h.all_enabled, h.replay ▸ hn⟩

theorem receive (h : Behind apply enabled far (n :: q) near) :
    enabled far n ∧ Behind apply enabled (apply far n) q near :=
  ⟨h.all_enabled.1, h.replay, h.all_enabled.2⟩

theorem settled (h : Behind apply enabled far [] near) : far = near := h.replay

end Behind

end HardLight.Lib
