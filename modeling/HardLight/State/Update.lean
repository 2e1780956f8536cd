import HardLight.Wire
import HardLight.Lib.Delta
import Mathlib.Data.List.FinRange

/-!
# What `#[connection_state]` generates

A struct given to the macro is its number of fields, the type of each, and for each field what the
generated code uses of it: equality, the default, and the rkyv encoding. The generated code numbers the
fields `0 .. fields` in the order of the struct, both where it compares them (`changes`, the body of
`StateGuard::drop`) and where it assigns them (`applyChanges`).

* `applyChanges_changesOn` : applying the updates for some fields sets exactly those that changed;
* `applyChanges_changes` : applying the updates of a session to its starting state gives its end state;
* `delta` : the two functions as deltas of a history.
-/

namespace HardLight
open Lib

/-- A struct given to `#[connection_state]`. -/
structure StateStruct where
  fields : Nat
  Field : Fin fields → Type
  decEq : ∀ i, DecidableEq (Field i)
  default : ∀ i, Field i
  toBytes : ∀ i, Field i → Bytes
  fromBytes : ∀ i, Bytes → Option (Field i)

namespace StateStruct

variable (S : StateStruct)

instance (i : Fin S.fields) : DecidableEq (S.Field i) := S.decEq i

/-- A value of the struct. -/
abbrev State := ∀ i, S.Field i

/-- `StateGuard::drop` on the fields `is`: an update for every field whose value differs. -/
def changesOn (start current : S.State) (is : List (Fin S.fields)) : List StateUpdate :=
  is.filterMap fun i =>
    if current i ≠ start i then some { index := i.val, data := S.toBytes i (current i) } else none

/-- The list `changes` that `StateGuard::drop` builds from the starting state and the current one. -/
def changes (start current : S.State) : List StateUpdate :=
  S.changesOn start current (List.finRange S.fields)

/-- `ClientState::apply_changes`: the state it leaves behind, and what it returns. -/
def applyChanges (s : S.State) : List StateUpdate → S.State × HandlerResult Unit
  | [] => (s, .ok ())
  | update :: rest =>
    if h : update.index < S.fields then
      match S.fromBytes ⟨update.index, h⟩ update.data with
      | some value => applyChanges (Function.update s ⟨update.index, h⟩ value) rest
      | none => (s, .error .clientDecodeError)
    else applyChanges s rest

end StateStruct

/-- A struct whose fields decode to what was encoded. -/
structure LawfulStateStruct extends StateStruct where
  fromBytes_toBytes : ∀ i x, fromBytes i (toBytes i x) = some x

namespace LawfulStateStruct

variable (S : LawfulStateStruct)

theorem applyChanges_cons (s : S.State) (i : Fin S.fields) (x : S.Field i) (rest : List StateUpdate) :
    S.applyChanges s ({ index := i.val, data := S.toBytes i x } :: rest) =
      S.applyChanges (Function.update s i x) rest := by
  rw [StateStruct.applyChanges, dif_pos i.isLt]
  simp only [Fin.eta, S.fromBytes_toBytes]

theorem applyChanges_changesOn (start current s : S.State) (is : List (Fin S.fields)) :
    S.applyChanges s (S.changesOn start current is) =
      (fun j => if j ∈ is ∧ current j ≠ start j then current j else s j, .ok ()) := by
  induction is generalizing s with
  | nil => simp [StateStruct.changesOn, StateStruct.applyChanges]
  | cons i is ih =>
    unfold StateStruct.changesOn at ih ⊢
    rw [List.filterMap_cons]
    by_cases hi : current i = start i
    · simp only [hi, ne_eq, not_true_eq_false, if_false]
      rw [ih]
      congr 1
      funext j
      by_cases hj : j = i
      · subst hj
        simp [hi]
      · simp [hj]
    · simp only [ne_eq, hi, not_false_eq_true, if_true]
      rw [applyChanges_cons, ih]
      congr 1
      funext j
      by_cases hj : j = i
      · subst hj
        simp [hi]
      · simp [hj]

/-- **The updates of a write session carry its starting state to its end state.** -/
theorem applyChanges_changes (start current : S.State) :
    S.applyChanges start (S.changes start current) = (current, .ok ()) := by
  rw [StateStruct.changes, applyChanges_changesOn]
  congr 1
  funext j
  by_cases hj : current j = start j <;> simp [hj, List.mem_finRange]

theorem changes_eq_nil {start current : S.State} (h : S.changes start current = []) :
    start = current := by
  have hap := S.applyChanges_changes start current
  rw [h, StateStruct.applyChanges] at hap
  exact congrArg Prod.fst hap

/-- The change lists of write sessions as deltas: an empty list is not sent. -/
def delta : Delta S.State (List StateUpdate) where
  diff start current :=
    if S.changes start current = [] then none else some (S.changes start current)
  patch s changes := (S.applyChanges s changes).1
  patch_diff := by
    intro a b d h
    split at h
    · cases h
    · rw [← Option.some.inj h, applyChanges_changes]
  eq_of_diff := by
    intro a b h
    split at h
    next hnil => exact S.changes_eq_nil hnil
    next => cases h

end LawfulStateStruct

/-- `struct State { counter: u32 }`, the connection state of the counter service. -/
def counterState : LawfulStateStruct where
  fields := 1
  Field _ := UInt32
  decEq _ := inferInstanceAs (DecidableEq UInt32)
  default _ := 0
  toBytes _ x := [0, 8, 16, 24].map fun shift => UInt8.ofNat (x.toNat >>> shift)
  fromBytes _ data :=
    match data with
    | [a, b, c, d] => some (UInt32.ofNat (a.toNat + b.toNat <<< 8 + c.toNat <<< 16 + d.toNat <<< 24))
    | _ => none
  fromBytes_toBytes _ x := by
    have hx := x.toNat_lt
    simp only [List.map_cons, List.map_nil, Option.some.injEq, UInt8.toNat_ofNat']
    apply UInt32.toNat_inj.mp
    rw [UInt32.toNat_ofNat']
    omega

def counter (s : counterState.State) : UInt32 := s ⟨0, by decide⟩

end HardLight
