import Mathlib.Data.Finset.Basic
import Mathlib.Tactic.Common

/-!
# Publish and subscribe

A service that does one thing at a time: a subscriber subscribes to a topic or unsubscribes from it, or an event is
published, which goes to the subscribers of its topic there and then. What the service has done is a log.

* `Entry` : what the service does; `own c log` : what subscriber `c` has asked of it;
* `topics c log` : the topics of `c` after the log, which are up to `c` alone (`topics_eq_own`);
* `delivered topic c log` : the events that `c` gets.
-/

namespace HardLight.Lib

/-- What a publish/subscribe service does. -/
inductive Entry (κ τ ε : Type*)
  | subscribe (c : κ) (t : τ)
  | unsubscribe (c : κ) (t : τ)
  | publish (e : ε)
  deriving DecidableEq, Repr

namespace Entry
variable {κ τ ε : Type*}

def published? : Entry κ τ ε → Option ε
  | publish e => some e
  | _ => none

section Subscriber
variable [DecidableEq κ]

/-- The entry is an operation of `c`. -/
def isOf (c : κ) : Entry κ τ ε → Bool
  | subscribe c' _ => decide (c' = c)
  | unsubscribe c' _ => decide (c' = c)
  | publish _ => false

/-- What `c` has asked for. -/
def own (c : κ) (log : List (Entry κ τ ε)) : List (Entry κ τ ε) := log.filter (isOf c)

@[simp] theorem own_append (c : κ) (log log' : List (Entry κ τ ε)) :
    own c (log ++ log') = own c log ++ own c log' := List.filter_append _ _

variable [DecidableEq τ]

/-- What an entry makes of the topics of `c`. -/
def apply (c : κ) (T : Finset τ) : Entry κ τ ε → Finset τ
  | subscribe c' t => if c' = c then insert t T else T
  | unsubscribe c' t => if c' = c then T.erase t else T
  | publish _ => T

theorem apply_of_not_isOf {c : κ} {x : Entry κ τ ε} (h : x.isOf c = false) (T : Finset τ) : x.apply c T = T := by
  cases x with
  | subscribe c' t => exact if_neg (of_decide_eq_false h)
  | unsubscribe c' t => exact if_neg (of_decide_eq_false h)
  | publish e => rfl

/-- The topics of `c` after the log. -/
def topics (c : κ) (log : List (Entry κ τ ε)) : Finset τ := log.foldl (apply c) ∅

theorem topics_append (c : κ) (log log' : List (Entry κ τ ε)) :
    topics c (log ++ log') = log'.foldl (apply c) (topics c log) := List.foldl_append

/-- **The topics of a subscriber are up to its own operations.** -/
theorem foldl_own (c : κ) (log : List (Entry κ τ ε)) (T : Finset τ) :
    (own c log).foldl (apply c) T = log.foldl (apply c) T := by
  induction log generalizing T with
  | nil => rfl
  | cons x log ih =>
    rw [List.foldl_cons, ← ih]
    cases h : x.isOf c with
    | true => rw [own, List.filter_cons_of_pos h]; rfl
    | false => rw [own, List.filter_cons_of_neg (by simp [h]), apply_of_not_isOf h]; rfl

theorem topics_own (c : κ) (log : List (Entry κ τ ε)) : topics c (own c log) = topics c log := foldl_own c log ∅

variable (topic : ε → τ)

/-- What an entry gives to a subscriber to `T`. -/
def given (T : Finset τ) : Entry κ τ ε → List ε
  | publish e => if topic e ∈ T then [e] else []
  | _ => []

def deliveredFrom (c : κ) (T : Finset τ) : List (Entry κ τ ε) → List ε
  | [] => []
  | x :: log => x.given topic T ++ deliveredFrom c (x.apply c T) log

/-- The events that `c` gets. -/
def delivered (c : κ) (log : List (Entry κ τ ε)) : List ε := deliveredFrom topic c ∅ log

theorem deliveredFrom_append (c : κ) (T : Finset τ) (log log' : List (Entry κ τ ε)) :
    deliveredFrom topic c T (log ++ log') =
      deliveredFrom topic c T log ++ deliveredFrom topic c (log.foldl (apply c) T) log' := by
  induction log generalizing T with
  | nil => rfl
  | cons x log ih => rw [List.cons_append, deliveredFrom, deliveredFrom, ih, List.append_assoc]; rfl

/-- Where nothing is published nothing is given. -/
theorem deliveredFrom_quiet (c : κ) (T : Finset τ) {log : List (Entry κ τ ε)}
    (h : log.filterMap published? = []) : deliveredFrom topic c T log = [] := by
  induction log generalizing T with
  | nil => rfl
  | cons x log ih =>
    cases x with
    | publish e => simp [published?] at h
    | subscribe c' t => exact ih _ h
    | unsubscribe c' t => exact ih _ h

theorem delivered_append (c : κ) (log log' : List (Entry κ τ ε)) :
    delivered topic c (log ++ log') = delivered topic c log ++ deliveredFrom topic c (topics c log) log' :=
  deliveredFrom_append topic c ∅ log log'

theorem delivered_publish (c : κ) (log : List (Entry κ τ ε)) (e : ε) :
    delivered topic c (log ++ [publish e]) =
      delivered topic c log ++ if topic e ∈ topics c log then [e] else [] := by
  rw [delivered_append, deliveredFrom, deliveredFrom, List.append_nil, given]

end Subscriber

end Entry

end HardLight.Lib
