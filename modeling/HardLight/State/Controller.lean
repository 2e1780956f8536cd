import HardLight.State.Update
import HardLight.Lib.Run
import Mathlib.Data.List.Nodup

/-!
# The state controller

`StateController` and its guards over a whole history of write sessions: `write` takes the lock and keeps a
copy of the state, the holder of the guard changes the state in any way, `drop` builds the change list and
gives it to a task to send. The lock is held by one guard at a time.

* `map_index_changes` : the indices of a change list are those of the fields that differ, in their order;
* `after`, `replay` : a client that applies change lists one after the other;
* `Tracks`, `Tracks.session` : the states such a client goes through, one session after the other;
* `Keeps`, `step_keeps` : it is where the controller was at the last drop;
* `inverse_of_run` : diff and apply are inverse along every history.
-/

namespace HardLight
open Lib

namespace StateStruct
variable {S : StateStruct}

theorem map_index_changesOn (start current : S.State) (is : List (Fin S.fields)) :
    (S.changesOn start current is).map (·.index) =
      (is.filter fun i => current i ≠ start i).map Fin.val := by
  induction is with
  | nil => rfl
  | cons i is ih =>
    unfold changesOn at ih ⊢
    by_cases hi : current i = start i
    · rw [List.filterMap_cons_none (by rw [if_neg (not_not_intro hi)]), List.filter_cons_of_neg (by simp [hi]), ih]
    · rw [List.filterMap_cons_some (by rw [if_pos hi]), List.filter_cons_of_pos (by simp [hi]), List.map_cons,
        List.map_cons, ih]

theorem map_index_changes (start current : S.State) :
    (S.changes start current).map (·.index) =
      ((List.finRange S.fields).filter fun i => current i ≠ start i).map Fin.val :=
  map_index_changesOn start current _

theorem pairwise_changes (start current : S.State) :
    ((S.changes start current).map (·.index)).Pairwise (· < ·) := by
  rw [map_index_changes, List.pairwise_map]
  exact (List.pairwise_lt_finRange S.fields).sublist List.filter_sublist

theorem mem_index_changes {start current : S.State} {i : Fin S.fields} :
    i.val ∈ (S.changes start current).map (·.index) ↔ current i ≠ start i := by
  rw [map_index_changes, List.mem_map_of_injective Fin.val_injective, List.mem_filter]
  simp [List.mem_finRange]

theorem count_index_changes (start current : S.State) (i : Fin S.fields) :
    ((S.changes start current).map (·.index)).count i.val = if current i ≠ start i then 1 else 0 := by
  have hnodup := (pairwise_changes start current).imp Nat.ne_of_lt
  rw [List.Nodup.count hnodup]
  simp only [mem_index_changes]

theorem index_changes_lt {start current : S.State} {u : StateUpdate} (h : u ∈ S.changes start current) :
    u.index < S.fields := by
  have hmem : u.index ∈ (S.changes start current).map (·.index) := List.mem_map_of_mem h
  rw [map_index_changes, List.mem_map] at hmem
  obtain ⟨i, -, hi⟩ := hmem
  exact hi ▸ i.isLt

/-! ## A client that applies change lists -/

/-- The state after the change lists. -/
def after (s : S.State) (lists : List (List StateUpdate)) : S.State :=
  lists.foldl (fun s changes => (S.applyChanges s changes).1) s

/-- What every call of `apply_changes` leaves behind and returns. -/
def replay (s : S.State) : List (List StateUpdate) → List (S.State × HandlerResult Unit)
  | [] => []
  | changes :: lists => S.applyChanges s changes :: replay (S.applyChanges s changes).1 lists

theorem after_concat (s : S.State) (lists : List (List StateUpdate)) (changes : List StateUpdate) :
    after s (lists ++ [changes]) = (S.applyChanges (after s lists) changes).1 := by
  rw [after, List.foldl_append]
  rfl

theorem replay_concat (s : S.State) (lists : List (List StateUpdate)) (changes : List StateUpdate) :
    replay s (lists ++ [changes]) = replay s lists ++ [S.applyChanges (after s lists) changes] := by
  induction lists generalizing s with
  | nil => rfl
  | cons l lists ih =>
    rw [List.cons_append, replay, replay, ih]
    rfl

end StateStruct

namespace LawfulStateStruct
variable (S : LawfulStateStruct)

/-- On any state a change list changes only the fields it names. -/
theorem applyChanges_changes_frame (start current s : S.State) {i : Fin S.fields}
    (h : ∀ u ∈ S.changes start current, u.index ≠ i.val) :
    (S.applyChanges s (S.changes start current)).1 i = s i := by
  have hsame : ¬ (current i ≠ start i) := by
    rw [← StateStruct.mem_index_changes, List.mem_map]
    exact fun ⟨u, hu, hi⟩ => h u hu hi
  rw [StateStruct.changes, applyChanges_changesOn]
  exact if_neg fun hi => hsame hi.2

/-- A client that starts at the default and applies `lists` goes through `states` and ends at `s`. -/
structure Tracks (lists : List (List StateUpdate)) (states : List S.State) (s : S.State) : Prop where
  after : StateStruct.after S.default lists = s
  replay : StateStruct.replay S.default lists = states.map fun s => (s, .ok ())

variable {S}

theorem Tracks.session {lists : List (List StateUpdate)} {states : List S.State} {start : S.State}
    (h : S.Tracks lists states start) (current : S.State) :
    S.Tracks (lists ++ [S.changes start current]) (states ++ [current]) current where
  after := by rw [StateStruct.after_concat, h.after, applyChanges_changes]
  replay := by
    rw [StateStruct.replay_concat, h.after, h.replay, applyChanges_changes, List.map_append, List.map_singleton]

end LawfulStateStruct

/-! ## The controller -/

/-- A write session that is over: the state it started from, the state at the drop of its guard, and the
change list built there. -/
structure WriteSession (S : StateStruct) where
  start : S.State
  final : S.State
  changes : List StateUpdate

structure StateController (S : StateStruct) where
  /-- What the `RwLock` protects. -/
  state : S.State
  /-- `starting_state` of the guard that is held. -/
  guard : Option S.State
  /-- The change lists given to a task to send, in the order of the drops. -/
  sent : List (List StateUpdate)
  sessions : List (WriteSession S)

inductive ControllerAct (S : StateStruct)
  | write
  /-- The holder of the guard changes the state. -/
  | mutate (next : S.State)
  | drop

namespace StateController

section Machine
variable {S : StateStruct}

def init (S : StateStruct) : StateController S where
  state := S.default
  guard := none
  sent := []
  sessions := []

def write (c : StateController S) : Option (StateController S) :=
  match c.guard with
  | none => some { c with guard := some c.state }
  | some _ => none

def mutate (c : StateController S) (next : S.State) : Option (StateController S) :=
  match c.guard with
  | some _ => some { c with state := next }
  | none => none

/-- `StateGuard::drop` -/
def drop (c : StateController S) : Option (StateController S) :=
  match c.guard with
  | some start =>
    let changes := S.changes start c.state
    let c := { c with guard := none, sessions := c.sessions ++ [⟨start, c.state, changes⟩] }
    if changes.isEmpty then some c else some { c with sent := c.sent ++ [changes] }
  | none => none

def step (c : StateController S) : ControllerAct S → Option (StateController S)
  | .write => c.write
  | .mutate next => c.mutate next
  | .drop => c.drop

end Machine

/-! ## The property -/

variable {S : LawfulStateStruct}

/-- **Diff and apply are inverse** along the sessions so far. -/
structure Inverse (c : StateController S.toStateStruct) : Prop where
  once : ∀ w ∈ c.sessions, ∀ i : Fin S.fields,
    (w.changes.map (·.index)).count i.val = if w.final i ≠ w.start i then 1 else 0
  indices : ∀ w ∈ c.sessions, (w.changes.map (·.index)).Pairwise (· < ·) ∧
    ∀ u ∈ w.changes, u.index < S.fields
  sent : c.sent = (c.sessions.map (·.changes)).filter fun changes => !changes.isEmpty
  replay : StateStruct.replay S.default (c.sessions.map (·.changes)) =
    c.sessions.map fun w => (w.final, .ok ())
  replay_sent : StateStruct.replay S.default c.sent =
    (c.sessions.filter fun w => !w.changes.isEmpty).map fun w => (w.final, .ok ())
  frame : ∀ w ∈ c.sessions, ∀ (s : S.State) (i : Fin S.fields), (∀ u ∈ w.changes, u.index ≠ i.val) →
    (S.applyChanges s w.changes).1 i = s i

/-- A client that applies the lists is at the state of the last drop; a guard has a copy of it. -/
structure Keeps (c : StateController S.toStateStruct) : Prop where
  built : ∀ w ∈ c.sessions, w.changes = S.changes w.start w.final
  sent : c.sent = (c.sessions.map (·.changes)).filter fun changes => !changes.isEmpty
  tracks : S.Tracks (c.sessions.map (·.changes)) (c.sessions.map (·.final)) (c.guard.getD c.state)
  tracks_sent : S.Tracks c.sent ((c.sessions.filter fun w => !w.changes.isEmpty).map (·.final))
    (c.guard.getD c.state)

theorem keeps_init (S : LawfulStateStruct) : Keeps (init S.toStateStruct) where
  built w hw := by cases hw
  sent := rfl
  tracks := ⟨rfl, rfl⟩
  tracks_sent := ⟨rfl, rfl⟩

theorem drop_keeps {c c' : StateController S.toStateStruct} (hinv : Keeps c) (h : c.drop = some c') :
    Keeps c' := by
  obtain ⟨hbuilt, hsent, htracks, htrackss⟩ := hinv
  unfold drop at h
  split at h
  next start hguard =>
    rw [hguard, Option.getD_some] at htracks htrackss
    have hbuilt' : ∀ w ∈ c.sessions ++ [⟨start, c.state, S.changes start c.state⟩],
        w.changes = S.changes w.start w.final := by
      intro w hw
      rcases List.mem_append.mp hw with hw | hw
      · exact hbuilt w hw
      · rw [List.mem_singleton.mp hw]
    have htracks' := htracks.session c.state
    have htrackss' := htrackss.session c.state
    dsimp only at h
    split at h
    next hempty =>
      -- nothing is sent: the session ends where it started
      cases h
      have hsame : start = c.state := S.changes_eq_nil (List.isEmpty_iff.mp hempty)
      refine ⟨hbuilt', ?_, ?_, ?_⟩
      · rw [List.map_append, List.filter_append, ← hsent]
        simp [hempty]
      · rw [List.map_append, List.map_append]
        exact htracks'
      · rw [List.filter_append, List.filter_cons_of_neg (by simpa using hempty), List.filter_nil,
          List.append_nil, ← hsame]
        exact htrackss
    next hempty =>
      cases h
      refine ⟨hbuilt', ?_, ?_, ?_⟩
      · rw [List.map_append, List.filter_append, ← hsent]
        simp [hempty]
      · rw [List.map_append, List.map_append]
        exact htracks'
      · rw [List.filter_append, List.filter_cons_of_pos (by simpa using hempty), List.filter_nil,
          List.map_append]
        exact htrackss'
  next => cases h

theorem step_keeps {c c' : StateController S.toStateStruct} {a : ControllerAct S.toStateStruct}
    (hinv : Keeps c) (h : c.step a = some c') : Keeps c' := by
  cases a with
  | write =>
    rw [step, write] at h
    split at h
    next hguard =>
      cases h
      obtain ⟨hbuilt, hsent, htracks, htrackss⟩ := hinv
      rw [hguard] at htracks htrackss
      exact ⟨hbuilt, hsent, htracks, htrackss⟩
    next => cases h
  | mutate next =>
    rw [step, mutate] at h
    split at h
    next start hguard =>
      cases h
      obtain ⟨hbuilt, hsent, htracks, htrackss⟩ := hinv
      rw [hguard] at htracks htrackss
      exact ⟨hbuilt, hsent, by rw [hguard]; exact htracks, by rw [hguard]; exact htrackss⟩
    next => cases h
  | drop => exact drop_keeps hinv h

theorem Keeps.inverse {c : StateController S.toStateStruct} (hinv : Keeps c) : Inverse c where
  once w hw i := by
    rw [hinv.built w hw]
    exact StateStruct.count_index_changes w.start w.final i
  indices w hw := by
    rw [hinv.built w hw]
    exact ⟨StateStruct.pairwise_changes w.start w.final, fun u hu => StateStruct.index_changes_lt hu⟩
  sent := hinv.sent
  replay := by rw [hinv.tracks.replay, List.map_map]; rfl
  replay_sent := by rw [hinv.tracks_sent.replay, List.map_map]; rfl
  frame w hw s i hi := by
    rw [hinv.built w hw] at hi ⊢
    exact S.applyChanges_changes_frame w.start w.final s hi

/-- **Diff and apply are inverse along every history of write sessions.** -/
theorem inverse_of_run {as : List (ControllerAct S.toStateStruct)} {c : StateController S.toStateStruct}
    (h : run step (init S.toStateStruct) as = some c) : Inverse c :=
  (run_invariant (P := fun _ => True) (I := Keeps) (fun _ _ _ _ hinv hs => step_keeps hinv hs)
    (fun _ _ => trivial) (keeps_init S) h).inverse

/-- A session that overwrites, one that does nothing on balance, and one that goes back. -/
def threeSessions : List (ControllerAct counterState.toStateStruct) :=
  [.write, .mutate (fun _ => (1 : UInt32)), .mutate (fun _ => (2 : UInt32)), .drop,
    .write, .mutate (fun _ => (3 : UInt32)), .mutate (fun _ => (2 : UInt32)), .drop,
    .write, .mutate (fun _ => (0 : UInt32)), .drop]

theorem inverse_threeSessions : ∃ c, run step (init counterState.toStateStruct) threeSessions = some c ∧
    c.sessions.map (·.changes.length) = [1, 0, 1] ∧ Inverse (S := counterState) c := by
  have hrun : (run step (init counterState.toStateStruct) threeSessions).map (fun c =>
      c.sessions.map (·.changes.length)) = some [1, 0, 1] := rfl
  obtain ⟨c, hc, hlengths⟩ := Option.map_eq_some_iff.mp hrun
  exact ⟨c, hc, hlengths, inverse_of_run hc⟩

end StateController

end HardLight
