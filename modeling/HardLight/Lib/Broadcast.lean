import Mathlib.Data.List.Basic
import Mathlib.Tactic.Common

/-!
# Broadcast channels

A channel that keeps the last `capacity` values sent and gives them to every receiver. A receiver starts with the
values sent after it was made; one that falls behind is told how many values it has missed and goes on with the
oldest value kept. The values sent so far are the `log` of the channel.

* `Receiver.recv` : what a receiver gets next; `recv_of_le`, `recv_of_lt` : as it depends on how far it is behind;
* `Fills capacity log items i j` : the items got account for the log from `i` to `j`: values one by one, and gaps of the
  length reported, which the channel does not keep any more;
* `Receiver.Follows`, `Follows.recv`, `Follows.send` : a receiver has got an account of a segment of the log, from
  where it started to where it is;
* `Fills.values_sublist`, `Fills.values_eq` : what it has got is in order, and complete if nothing was missed.
-/

namespace HardLight.Lib

variable {α : Type*}

/-- What a receiver gets: a value, or how many values it has missed. -/
inductive Item (α : Type*)
  | value (x : α)
  | lagged (missed : Nat)

def Item.value? : Item α → Option α
  | value x => some x
  | lagged _ => none

/-- The value got next is number `next` of the log. `start` and `items` are history variables: where the receiver
was made, and what it has got since. -/
structure Receiver (α : Type*) where
  start : Nat
  next : Nat
  items : List (Item α)

namespace Receiver

/-- A new receiver of a channel with this log. -/
def subscribe (log : List α) : Receiver α where
  start := log.length
  next := log.length
  items := []

/-- `none` when there is nothing to get. -/
def recv (capacity : Nat) (log : List α) (r : Receiver α) : Option (Receiver α) :=
  let oldest := log.length - capacity
  if r.next < oldest then
    some { r with next := oldest, items := r.items ++ [.lagged (oldest - r.next)] }
  else (log[r.next]?).map fun x => { r with next := r.next + 1, items := r.items ++ [.value x] }

variable {log : List α} {r : Receiver α} {capacity : Nat}

/-- A receiver that is not further behind than the channel reaches gets the next value. -/
theorem recv_of_le {x : α} (hle : log.length ≤ r.next + capacity) (hx : log[r.next]? = some x) :
    r.recv capacity log = some { r with next := r.next + 1, items := r.items ++ [.value x] } := by
  have hkept : ¬ r.next < log.length - capacity := by omega
  rw [recv, if_neg hkept, hx, Option.map_some]

/-- A receiver that is further behind is told how many values it has missed, and goes on with the oldest kept. -/
theorem recv_of_lt (hlt : r.next + capacity < log.length) :
    r.recv capacity log = some { r with
      next := log.length - capacity, items := r.items ++ [.lagged (log.length - capacity - r.next)] } :=
  if_pos (Nat.lt_sub_of_add_lt hlt)

end Receiver

/-- The items account for the values of the log from `i` to `j`. A stretch is missed only if at least `capacity` values
have been sent after it. -/
inductive Fills (capacity : Nat) (log : List α) : List (Item α) → Nat → Nat → Prop
  | nil (i : Nat) : Fills capacity log [] i i
  | value (items : List (Item α)) (i j : Nat) (x : α) (h : Fills capacity log items i j) (hx : log[j]? = some x) :
      Fills capacity log (items ++ [.value x]) i (j + 1)
  | lagged (items : List (Item α)) (i j k : Nat) (h : Fills capacity log items i j) (hjk : j < k)
      (hk : k + capacity ≤ log.length) : Fills capacity log (items ++ [.lagged (k - j)]) i k

theorem extract_append {log : List α} {i j k : Nat} (hij : i ≤ j) (hjk : j ≤ k) :
    log.extract i j ++ log.extract j k = log.extract i k := by
  have hdrop : (log.drop i).drop (j - i) = log.drop j := by
    rw [List.drop_drop, Nat.add_sub_cancel' hij]
  rw [List.extract_eq_take_drop, List.extract_eq_take_drop, List.extract_eq_take_drop, ← hdrop,
    ← List.take_add]
  congr 1
  omega

theorem extract_one {log : List α} {j : Nat} {x : α} (hx : log[j]? = some x) : log.extract j (j + 1) = [x] := by
  obtain ⟨hlt, hget⟩ := List.getElem?_eq_some_iff.mp hx
  rw [List.extract_eq_take_drop, Nat.add_sub_cancel_left, List.drop_eq_getElem_cons hlt, hget]
  rfl

namespace Fills
variable {capacity : Nat} {log : List α} {items : List (Item α)} {i j : Nat}

theorem le (h : Fills capacity log items i j) : i ≤ j := by
  induction h with
  | nil i => exact Nat.le_refl i
  | value items i j x h hx ih => exact Nat.le_succ_of_le ih
  | lagged items i j k h hjk hk ih => exact Nat.le_trans ih (Nat.le_of_lt hjk)

theorem send (h : Fills capacity log items i j) {log' : List α} (hlog : log <+: log') :
    Fills capacity log' items i j := by
  obtain ⟨rest, rfl⟩ := hlog
  induction h with
  | nil i => exact .nil i
  | value items i j x h hx ih =>
    refine .value items i j x ih ?_
    rw [List.getElem?_append_left (List.getElem?_eq_some_iff.mp hx).1, hx]
  | lagged items i j k h hjk hk ih =>
    refine .lagged items i j k ih hjk (Nat.le_trans hk ?_)
    rw [List.length_append]
    exact Nat.le_add_right _ _

/-- What has been got is in order, none of it twice. -/
theorem values_sublist (h : Fills capacity log items i j) :
    (items.filterMap Item.value?).Sublist (log.extract i j) := by
  induction h with
  | nil i => exact List.nil_sublist _
  | value items i j x h hx ih =>
    rw [← extract_append h.le (Nat.le_succ j), extract_one hx, List.filterMap_append]
    exact ih.append (List.Sublist.refl [x])
  | lagged items i j k h hjk hk ih =>
    rw [← extract_append h.le (Nat.le_of_lt hjk), List.filterMap_append]
    exact ih.append (List.nil_sublist _)

/-- If nothing was missed, everything has been got. -/
theorem values_eq (h : Fills capacity log items i j) (hall : ∀ missed, .lagged missed ∉ items) :
    items.filterMap Item.value? = log.extract i j := by
  induction h with
  | nil i => rw [List.extract_eq_take_drop, Nat.sub_self, List.take_zero, List.filterMap_nil]
  | value items i j x h hx ih =>
    have hrest := ih fun missed hin => hall missed (List.mem_append_left _ hin)
    rw [← extract_append h.le (Nat.le_succ j), extract_one hx, List.filterMap_append, hrest]
    rfl
  | lagged items i j k h hjk hk ih =>
    exact absurd (List.mem_append_right _ List.mem_cons_self) (hall (k - j))

/-- A gap is at least one value long, and at least `capacity` values have come after it. -/
theorem add_le_of_lagged (h : Fills capacity log items i j) {missed : Nat} (hin : .lagged missed ∈ items) :
    0 < missed ∧ i + missed + capacity ≤ log.length := by
  induction h with
  | nil i => cases hin
  | value items i j x h hx ih =>
    rcases List.mem_append.mp hin with hin | hin
    · exact ih hin
    · cases List.mem_singleton.mp hin
  | lagged items i j k h hjk hk ih =>
    rcases List.mem_append.mp hin with hin | hin
    · exact ih hin
    · cases List.mem_singleton.mp hin
      have hle := h.le
      omega

end Fills

namespace Receiver
variable {log : List α} {r r' : Receiver α} {capacity : Nat}

/-- The receiver has an account of the log from where it started to where it is. -/
structure Follows (capacity : Nat) (log : List α) (r : Receiver α) : Prop where
  next_le : r.next ≤ log.length
  fills : Fills capacity log r.items r.start r.next

theorem follows_subscribe (log : List α) : (subscribe log).Follows capacity log where
  next_le := Nat.le_refl _
  fills := .nil _

theorem Follows.recv (h : r.Follows capacity log) (hr : r.recv capacity log = some r') :
    r'.Follows capacity log := by
  rcases Nat.lt_or_ge (r.next + capacity) log.length with hlt | hle
  · rw [recv_of_lt hlt] at hr
    cases hr
    refine ⟨Nat.sub_le _ _, .lagged _ _ _ _ h.fills ?_ ?_⟩
    · exact Nat.lt_sub_of_add_lt hlt
    · omega
  · have hkept : ¬ r.next < log.length - capacity := by omega
    rw [Receiver.recv, if_neg hkept] at hr
    obtain ⟨x, hx, rfl⟩ := Option.map_eq_some_iff.mp hr
    exact ⟨(List.getElem?_eq_some_iff.mp hx).1, .value _ _ _ x h.fills hx⟩

theorem Follows.send (h : r.Follows capacity log) {log' : List α} (hlog : log <+: log') :
    r.Follows capacity log' :=
  ⟨Nat.le_trans h.next_le hlog.length_le, h.fills.send hlog⟩

end Receiver

end HardLight.Lib
