import HardLight.Session.Basic
import HardLight.Server.Traffic
import HardLight.State.Controller

/-!
# Replication of the connection state

A `StateController` on top of a session with the client loop: write sessions under the lock, the change
list that each drop of a guard builds, the task it spawns to send the list, and the client's replica.

* `commits` : the state at first and after every write session, in the order of the lock;
* `controller_of_run` : its write sessions are those of a `StateController`;
* `Mirrors`, `step_mirrors` : the replica is at some place of `commits`, and the change lists on their
  way are the ones from there to the end;
* `Replicates` : the replica is always at some place of `commits`, never goes back, and catches up;
  `replicates_of_run` : so it is when the spawned tasks get to the channel in the order of the drops.
  Nothing in the code makes them.
-/

namespace HardLight
open Lib

namespace Conn

theorem trafficLabel_stateOut {k : Conn} {a : ConnAct} (h : a.ofClient = false) :
    (k.trafficLabel a).stateOut = [] := by
  cases a with
  | sendDone ok =>
    simp only [trafficLabel]
    repeat' first
      | rfl
      | split
  | peerRead => cases h
  | _ => rfl

end Conn

namespace SessionAct

/-- A change list is put in the connection's state change channel. -/
def sendsState : SessionAct → Bool
  | conn (.stateUpdate _) => true
  | _ => false

end SessionAct

namespace ClientLoop
variable {S : StateStruct}

theorem Step.state {c c' : ClientLoop S} {out : Option Request} (h : Step c out c') : c'.state = c.state := by
  cases h <;> rfl

theorem onServerMessage_state {c c' : ClientLoop S} {msg : ServerMessage}
    (h : c.onServerMessage (some msg) = some c') :
    c'.state = msg.changes?.elim c.state fun changes => (S.applyChanges c.state changes).1 := by
  unfold onServerMessage at h
  split at h
  next =>
    cases msg with
    | rpcResponse r =>
      dsimp only at h
      split at h <;> (cases h; rfl)
    | newEvent topic payload => cases h; rfl
    | stateChange changes => cases h; rfl
  next => cases h

end ClientLoop

namespace Session
variable {S : StateStruct}

/-- The change lists on their way from the channel to the client. -/
def stateLine (s : Session S) : List (List StateUpdate) := s.conn.trafficView.stateLine

/-- A session step with no message lost leaves the line and the replica alone, or applies the first list of
the line. -/
theorem step_stateLine {s s' : Session S} {a : SessionAct} (hship : s.shipped = true)
    (hok : a.succeeds = true) (hno : a.sendsState = false) (h : s.step a = some s') :
    (s'.client.state = s.client.state ∧ s'.stateLine = s.stateLine) ∨
      ∃ changes, s.stateLine = changes :: s'.stateLine ∧
        s'.client.state = (S.applyChanges s.client.state changes).1 := by
  cases a with
  | client a =>
    obtain ⟨out, hc, -, hk⟩ := step_client h
    refine Or.inl ⟨(ClientLoop.step_cases hc).state, ?_⟩
    cases out with
    | none => rw [stateLine, stateLine, hk]
    | some r =>
      have hline : s.stateLine ++ [] = s'.stateLine := (Conn.step_trafficView hk).stateLine rfl
      rw [List.append_nil] at hline
      exact hline.symm
  | receive decoded =>
    have hdec : decoded = true := hok
    subst hdec
    obtain ⟨msg, rest, hout, -, hc, hk⟩ := step_receive h
    have hstate := ClientLoop.onServerMessage_state hc
    have hview := Conn.step_trafficView hk
    simp only [Conn.trafficLabel, hout] at hview
    have hline := hview.stateLine rfl
    simp only [TrafficLabel.stateIn, TrafficLabel.stateOut, List.append_nil] at hline
    cases hmsg : msg.changes? with
    | none =>
      rw [hmsg] at hstate hline
      exact Or.inl ⟨hstate, hline.symm⟩
    | some changes =>
      rw [hmsg] at hstate hline
      exact Or.inr ⟨changes, hline, hstate⟩
  | conn a =>
    obtain ⟨hc, -, hserver, hk⟩ := step_conn h
    refine Or.inl ⟨by rw [hc], ?_⟩
    have hsent : a ≠ .sendDone false := by
      rintro rfl
      cases hok
    have hline := (Conn.step_trafficView hk).stateLine (Conn.trafficLabel_isLost hsent)
    have hin : (s.conn.trafficLabel a).stateIn = [] := by
      cases a with
      | stateUpdate changes => cases hno
      | sendDone ok =>
        simp only [Conn.trafficLabel]
        repeat' first
          | rfl
          | split
      | peerRead => cases hserver hship
      | _ => rfl
    rw [hin, Conn.trafficLabel_stateOut (hserver hship), List.append_nil, List.nil_append] at hline
    exact hline.symm
  | abort => cases h; exact Or.inl ⟨rfl, rfl⟩

end Session

/-! ## The state controller -/

structure Replication (S : LawfulStateStruct) where
  session : Session S.toStateStruct
  /-- What the `RwLock` protects. -/
  state : S.State
  /-- `starting_state` of the guard that is held. -/
  guard : Option S.State
  /-- The change lists of the spawned tasks that have not sent them, in the order of the drops. -/
  spawned : List (List StateUpdate)
  commits : List S.State

inductive ReplicationAct (S : LawfulStateStruct)
  /-- `StateController::write` gets the lock. -/
  | write
  /-- The holder of the guard changes the state. -/
  | mutate (next : S.State)
  /-- The guard is dropped. -/
  | drop
  /-- A spawned task gets to `channel.send(changes)`. -/
  | send (n : Nat)
  | session (a : SessionAct)

namespace ReplicationAct
variable {S : LawfulStateStruct}

def succeeds : ReplicationAct S → Bool
  | session a => a.succeeds
  | _ => true

/-- A task that sends is the oldest one. -/
def inOrder : ReplicationAct S → Bool
  | send n => n == 0
  | _ => true

end ReplicationAct

namespace Replication
variable {S : LawfulStateStruct}

def init (S : LawfulStateStruct) : Replication S where
  session := .init S.toStateStruct true
  state := S.default
  guard := none
  spawned := []
  commits := [S.default]

def replica (r : Replication S) : S.State := r.session.client.state

def write (r : Replication S) : Option (Replication S) :=
  match r.guard with
  | none => some { r with guard := some r.state }
  | some _ => none

def mutate (r : Replication S) (next : S.State) : Option (Replication S) :=
  match r.guard with
  | some _ => some { r with state := next }
  | none => none

/-- `StateGuard::drop`: the differences to the starting state go to a task of their own. -/
def drop (r : Replication S) : Option (Replication S) :=
  match r.guard with
  | some start =>
    let changes := S.changes start r.state
    let r := { r with guard := none, commits := r.commits ++ [r.state] }
    if changes.isEmpty then some r else some { r with spawned := r.spawned ++ [changes] }
  | none => none

def send (r : Replication S) (n : Nat) : Option (Replication S) :=
  match r.spawned[n]? with
  | some changes =>
    (r.session.step (.conn (.stateUpdate changes))).map fun session =>
      { r with session := session, spawned := r.spawned.eraseIdx n }
  | none => none

def step (r : Replication S) : ReplicationAct S → Option (Replication S)
  | .write => r.write
  | .mutate next => r.mutate next
  | .drop => r.drop
  | .send n => r.send n
  | .session a =>
    -- the controller has the only sender of the channel
    if a.sendsState then none else (r.session.step a).map fun session => { r with session := session }

/-- What a `StateController` and the replication have in common. -/
structure Controlled (r : Replication S) (c : StateController S.toStateStruct) : Prop where
  state : c.state = r.state
  guard : c.guard = r.guard
  commits : r.commits = S.default :: c.sessions.map (·.final)
  spawned : ∀ changes ∈ r.spawned, changes ∈ c.sent

theorem step_controlled {r r' : Replication S} {a : ReplicationAct S} {c : StateController S.toStateStruct}
    (hc : Controlled r c) (h : r.step a = some r') :
    ∃ bs c', run StateController.step c bs = some c' ∧ Controlled r' c' := by
  obtain ⟨hstate, hguard, hcommits, hspawned⟩ := hc
  cases a with
  | write =>
    rw [step, write] at h
    split at h
    next hnone =>
      cases h
      refine ⟨[.write], { c with guard := some c.state }, ?_, hstate, congrArg some hstate, hcommits, hspawned⟩
      simp only [run_cons, StateController.step, StateController.write, hguard.trans hnone]
      rfl
    next => cases h
  | mutate next =>
    rw [step, mutate] at h
    split at h
    next start hsome =>
      cases h
      refine ⟨[.mutate next], { c with state := next }, ?_, rfl, hguard, hcommits, hspawned⟩
      simp only [run_cons, StateController.step, StateController.mutate, hguard.trans hsome]
      rfl
    next => cases h
  | drop =>
    rw [step, drop] at h
    split at h
    next start hsome =>
      refine ⟨[.drop], ?_⟩
      simp only [run_cons, StateController.step, StateController.drop, hguard.trans hsome, hstate]
      dsimp only at h
      split at h
      next hempty =>
        cases h
        rw [if_pos hempty]
        exact ⟨_, rfl, rfl, rfl, by simp [hcommits], hspawned⟩
      next hempty =>
        cases h
        rw [if_neg hempty]
        refine ⟨_, rfl, rfl, rfl, by simp [hcommits], fun changes hmem => ?_⟩
        rcases List.mem_append.mp hmem with hmem | hmem
        · exact List.mem_append_left _ (hspawned changes hmem)
        · exact List.mem_append_right _ hmem
    next => cases h
  | send n =>
    rw [step, send] at h
    split at h
    next =>
      rw [Option.map_eq_some_iff] at h
      obtain ⟨session, -, rfl⟩ := h
      exact ⟨[], c, rfl, hstate, hguard, hcommits, fun l hl => hspawned l (List.mem_of_mem_eraseIdx hl)⟩
    next => cases h
  | session a =>
    rw [step, Option.ite_none_left_eq_some, Option.map_eq_some_iff] at h
    obtain ⟨-, s, -, rfl⟩ := h
    exact ⟨[], c, rfl, hstate, hguard, hcommits, hspawned⟩

/-- **The write sessions of a run are those of a `StateController`.** -/
theorem controller_of_run {as : List (ReplicationAct S)} {r : Replication S}
    (h : run step (init S) as = some r) :
    ∃ bs c, run StateController.step (.init S.toStateStruct) bs = some c ∧ Controlled r c := by
  have hinit : Controlled (init S) (.init S.toStateStruct) := ⟨rfl, rfl, rfl, fun l hl => by cases hl⟩
  exact run_simulation (fun _ _ _ _ hc hs => step_controlled hc hs) hinit h

/-- The change lists on their way: the line of the connection, then the spawned tasks. -/
def pending (r : Replication S) : List (List StateUpdate) := r.session.stateLine ++ r.spawned

/-- The replica is at place `m` of the commits and what is pending takes it to the end. -/
structure Mirrors (r : Replication S) (m : Nat) : Prop where
  shipped : r.session.shipped = true
  last : r.commits.getLast? = some (r.guard.getD r.state)
  follows : S.delta.Follows r.commits r.replica r.pending m

theorem mirrors_init (S : LawfulStateStruct) : Mirrors (init S) 0 where
  shipped := rfl
  last := rfl
  follows := Delta.follows_start S.default

theorem drop_mirrors {r r' : Replication S} {m : Nat} (hinv : Mirrors r m) (h : r.drop = some r') :
    Mirrors r' m := by
  unfold drop at h
  split at h
  next start hguard =>
    have hlast := hinv.last
    rw [hguard, Option.getD_some] at hlast
    have hfollows := hinv.follows.commit hlast r.state
    have hdiff : S.delta.diff start r.state =
        if S.changes start r.state = [] then none else some (S.changes start r.state) := rfl
    rw [hdiff] at hfollows
    dsimp only at h
    split at h
    next hempty =>
      rw [if_pos (List.isEmpty_iff.mp hempty), Option.toList_none, List.append_nil] at hfollows
      cases h
      exact ⟨hinv.shipped, by simp, hfollows⟩
    next hempty =>
      rw [if_neg (fun hnil => hempty (List.isEmpty_iff.mpr hnil)), Option.toList_some, pending,
        List.append_assoc] at hfollows
      cases h
      exact ⟨hinv.shipped, by simp, hfollows⟩
  next => cases h

theorem send_mirrors {r r' : Replication S} {m : Nat} (hinv : Mirrors r m) (h : r.send 0 = some r') :
    Mirrors r' m := by
  unfold send at h
  split at h
  next changes hget =>
    rw [Option.map_eq_some_iff] at h
    obtain ⟨session, hs, rfl⟩ := h
    obtain ⟨hclient, hship, -, hk⟩ := Session.step_conn hs
    obtain ⟨rest, hspawned⟩ : ∃ rest, r.spawned = changes :: rest := by
      cases hq : r.spawned with
      | nil => rw [hq] at hget; cases hget
      | cons x rest => rw [hq] at hget; cases hget; exact ⟨rest, rfl⟩
    have hline : r.session.stateLine ++ [changes] = session.stateLine :=
      (Conn.step_trafficView hk).stateLine rfl
    refine ⟨hship.trans hinv.shipped, hinv.last, ?_⟩
    have hfollows := hinv.follows
    rw [pending, hspawned] at hfollows
    rw [pending, replica, hclient, hspawned, ← hline, List.eraseIdx_cons_zero, List.append_assoc]
    exact hfollows
  next => cases h

theorem session_mirrors {r : Replication S} {s : Session S.toStateStruct} {a : SessionAct} {m : Nat}
    (hinv : Mirrors r m) (hok : a.succeeds = true) (hno : a.sendsState = false)
    (h : r.session.step a = some s) : ∃ m', m ≤ m' ∧ Mirrors { r with session := s } m' := by
  have hship := (Session.step_shipped h).trans hinv.shipped
  have hfollows := hinv.follows
  rcases Session.step_stateLine hinv.shipped hok hno h with ⟨hstate, hline⟩ | ⟨changes, hline, hstate⟩
  · refine ⟨m, Nat.le_refl m, hship, hinv.last, ?_⟩
    rw [pending, replica, ← hline, ← hstate] at hfollows
    exact hfollows
  · rw [pending, hline, List.cons_append] at hfollows
    obtain ⟨m', hle, happ⟩ := hfollows.apply
    refine ⟨m', hle, hship, hinv.last, ?_⟩
    rw [pending, replica, hstate]
    exact happ

/-- **Every step keeps the replica on the commits**, and takes it forward if anywhere. -/
theorem step_mirrors {r r' : Replication S} {a : ReplicationAct S} {m : Nat} (hinv : Mirrors r m)
    (hok : a.succeeds = true) (horder : a.inOrder = true) (h : r.step a = some r') :
    ∃ m', m ≤ m' ∧ Mirrors r' m' := by
  cases a with
  | write =>
    rw [step, write] at h
    split at h
    next hguard =>
      cases h
      have hlast := hinv.last
      rw [hguard] at hlast
      exact ⟨m, Nat.le_refl m, hinv.shipped, hlast, hinv.follows⟩
    next => cases h
  | mutate next =>
    rw [step, mutate] at h
    split at h
    next start hguard =>
      cases h
      have hlast := hinv.last
      rw [hguard] at hlast
      exact ⟨m, Nat.le_refl m, hinv.shipped, by rw [hguard]; exact hlast, hinv.follows⟩
    next => cases h
  | drop => exact ⟨m, Nat.le_refl m, drop_mirrors hinv h⟩
  | send n =>
    have hn : n = 0 := by simpa [ReplicationAct.inOrder] using horder
    subst hn
    exact ⟨m, Nat.le_refl m, send_mirrors hinv h⟩
  | session a =>
    rw [step, Option.ite_none_left_eq_some, Option.map_eq_some_iff] at h
    obtain ⟨hno, s, hs, rfl⟩ := h
    exact session_mirrors hinv hok (Bool.eq_false_iff.mpr hno) hs

/-! ## The property -/

/-- No guard is held and no change list is pending anywhere. -/
structure Settled (r : Replication S) : Prop where
  no_guard : r.guard = none
  no_task : r.spawned = []
  channel_empty : r.session.conn.stateChangeRx = []
  wire_empty : r.session.conn.outbox.filterMap ServerMessage.changes? = []

/-- **The replica follows the commits** along a run: `place n` is how many write sessions it is at after
`n` steps. -/
def Replicates (as : List (ReplicationAct S)) : Prop :=
  ∃ place : Nat → Nat, Monotone place ∧ ∀ n r, run step (init S) (as.take n) = some r →
    r.commits[place n]? = some r.replica ∧ (r.Settled → r.replica = r.state)

theorem settled_caught_up {r : Replication S} {m : Nat} (hinv : Mirrors r m) (hset : r.Settled) :
    r.replica = r.state := by
  have hnil : r.pending = [] := by
    rw [pending, Session.stateLine, TrafficView.stateLine, Conn.trafficView_outbox, hset.wire_empty,
      Conn.trafficView_stateChangeRx, hset.channel_empty, hset.no_task]
    rfl
  have hfollows := hinv.follows
  rw [hnil] at hfollows
  have hlast := hinv.last
  rw [hset.no_guard, Option.getD_none, hfollows.caught_up, Option.some.injEq] at hlast
  exact hlast

/-- **The replica follows the commits when change lists are sent in the order of the drops.** -/
theorem replicates_of_run {as : List (ReplicationAct S)} {r : Replication S}
    (hok : ∀ a ∈ as, a.succeeds = true) (horder : ∀ a ∈ as, a.inOrder = true)
    (h : run step (init S) as = some r) : Replicates as := by
  obtain ⟨place, hmono, -, hall⟩ := run_place (P := fun a => a.succeeds = true ∧ a.inOrder = true)
    (I := Mirrors) (fun r a r' m ha hinv hs => step_mirrors hinv ha.1 ha.2 hs)
    (fun a ha => ⟨hok a ha, horder a ha⟩) (mirrors_init S) h
  exact ⟨place, hmono, fun n r hr => ⟨(hall n r hr).follows.1, settled_caught_up (hall n r hr)⟩⟩

/-! ## Two write sessions -/

/-- Two write sessions, whose tasks get to the channel as said, and their way to the client. -/
def twoTasks (sends : List (ReplicationAct counterState)) : List (ReplicationAct counterState) :=
  [.write, .mutate (fun _ => (1 : UInt32)), .drop, .write, .mutate (fun _ => (2 : UInt32)), .drop] ++ sends ++
    [.session (.conn .pollNext), .session (.conn .stateChange), .session (.conn (.sendDone true)),
      .session (.conn .pollNext), .session (.conn .stateChange), .session (.conn (.sendDone true)),
      .session (.receive true), .session (.receive true)]

/-- The task of the first drop gets to the channel first. -/
def orderedTasks : List (ReplicationAct counterState) := twoTasks [.send 0, .send 0]

theorem replicates_orderedTasks :
    (run step (init counterState) orderedTasks).map (fun r => counter r.replica) = some 2 ∧
      Replicates orderedTasks := by
  have hrun : (run step (init counterState) orderedTasks).map (fun r => counter r.replica) = some 2 := rfl
  obtain ⟨r, hr, -⟩ := Option.map_eq_some_iff.mp hrun
  exact ⟨hrun, replicates_of_run (by decide) (by decide) hr⟩

/-- The task of the second drop gets to the channel first. -/
def overtakingTasks : List (ReplicationAct counterState) := twoTasks [.send 1, .send 0]

/-- The replica ends at 1, with nothing pending, where the server is at 2. -/
theorem stale_overtakingTasks : ¬ ∀ (as : List (ReplicationAct counterState))
    (r : Replication counterState), (∀ a ∈ as, a.succeeds = true) →
      run step (init counterState) as = some r → Replicates as := by
  intro hall
  have hrun : (run step (init counterState) overtakingTasks).map (fun r =>
      (counter r.replica, counter r.state, r.guard.isNone, r.spawned,
        r.session.conn.stateChangeRx, r.session.conn.outbox.filterMap ServerMessage.changes?)) =
      some (1, 2, true, [], [], []) := rfl
  obtain ⟨r, hr, hstate⟩ := Option.map_eq_some_iff.mp hrun
  simp only [Prod.mk.injEq] at hstate
  obtain ⟨hreplica, hserver, hguard, hspawned, hchannel, hwire⟩ := hstate
  obtain ⟨place, -, hplace⟩ := hall overtakingTasks r (by decide) hr
  have hend : run step (init counterState) (overtakingTasks.take overtakingTasks.length) = some r := by
    rw [List.take_length, hr]
  have hsame := (hplace _ r hend).2 ⟨Option.isNone_iff_eq_none.mp hguard, hspawned, hchannel, hwire⟩
  rw [hsame, hserver] at hreplica
  exact absurd hreplica (by decide)

end Replication

end HardLight
