import HardLight.Session.Replication
import HardLight.State.Group

/-!
# Replication, field by field

What the client's replica is when the spawned tasks get to the channel in any order. A task that overtakes
another does harm only where their lists meet: the fields that both have an update of.

* `TrafficView.Step.mem_stateLine`, `Session.step_mem_stateLine` : whatever is lost, the client applies only
  lists that were sent;
* `Step`, `step_cases` : what a step of the replication can do;
* `Known`, `step_known`, `known_of_run` : in every run a field of the replica is what it was at some commit;
* `keepsOrder` : a task overtakes none that has an update of the group, or has none itself;
* `MirrorsOn`, `step_mirrorsOn` : the replica, cut down to the group, is at some place of the commits;
* `ReplicatesOn`, `replicatesOn_of_run` : the group follows the commits when the tasks keep its order.
-/

namespace HardLight
open Lib

/-! ## The line of change lists, with losses -/

theorem TrafficView.Step.mem_stateLine {v v' : TrafficView} {l : TrafficLabel} (h : TrafficView.Step v l v')
    {changes : List StateUpdate} (hmem : changes ∈ v'.stateLine) :
    changes ∈ v.stateLine ∨ changes ∈ l.stateIn := by
  cases hl : l.isLost with
  | true =>
    cases h with
    | lost msg front hout =>
      rw [TrafficView.stateLine, List.mem_append] at hmem ⊢
      rw [hout, List.filterMap_append, List.mem_append]
      exact Or.inl (hmem.imp Or.inl id)
    | _ => cases hl
  | false =>
    rw [← List.mem_append, h.stateLine hl]
    exact List.mem_append_right _ hmem

theorem ClientLoop.onServerMessage_none {S : StateStruct} {c c' : ClientLoop S}
    (h : c.onServerMessage none = some c') : c'.state = c.state := by
  unfold onServerMessage at h
  split at h
  next => cases h; rfl
  next => cases h

namespace Session
variable {S : StateStruct}

/-- **A step of a session sends no list of its own**, and the client applies one of the line or none. -/
theorem step_mem_stateLine {s s' : Session S} {a : SessionAct} (hno : a.sendsState = false)
    (h : s.step a = some s') : (∀ changes ∈ s'.stateLine, changes ∈ s.stateLine) ∧
      (s'.client.state = s.client.state ∨
        ∃ changes ∈ s.stateLine, s'.client.state = (S.applyChanges s.client.state changes).1) := by
  -- what a step of the connection brings into the line
  have hconn {a : ConnAct} (hin : (s.conn.trafficLabel a).stateIn = []) (hk : s.conn.step a = some s'.conn) :
      ∀ changes ∈ s'.stateLine, changes ∈ s.stateLine := by
    intro changes hmem
    rcases (Conn.step_trafficView hk).mem_stateLine hmem with hold | hnew
    · exact hold
    · rw [hin] at hnew
      cases hnew
  cases a with
  | client a =>
    obtain ⟨out, hc, -, hk⟩ := step_client h
    refine ⟨?_, Or.inl (ClientLoop.step_cases hc).state⟩
    cases out with
    | none => exact fun changes hmem => by rwa [stateLine, hk] at hmem
    | some r => exact hconn rfl hk
  | receive decoded =>
    obtain ⟨msg, rest, hout, -, hc, hk⟩ := step_receive h
    have hread : s.conn.trafficLabel .peerRead = .read msg := by rw [Conn.trafficLabel, hout]
    refine ⟨hconn (by rw [hread]; rfl) hk, ?_⟩
    cases decoded with
    | false => exact Or.inl (ClientLoop.onServerMessage_none hc)
    | true =>
      have hstate := ClientLoop.onServerMessage_state hc
      cases hmsg : msg.changes? with
      | none =>
        rw [hmsg] at hstate
        exact Or.inl hstate
      | some changes =>
        rw [hmsg] at hstate
        refine Or.inr ⟨changes, List.mem_append_left _ (List.mem_filterMap.mpr ⟨msg, ?_, hmsg⟩), hstate⟩
        rw [Conn.trafficView_outbox, Conn.outbox, hout]
        exact List.mem_cons_self
  | conn a =>
    obtain ⟨hc, -, -, hk⟩ := step_conn h
    refine ⟨hconn ?_ hk, Or.inl (by rw [hc])⟩
    cases a with
    | stateUpdate changes => cases hno
    | sendDone ok =>
      simp only [Conn.trafficLabel]
      repeat' first
        | rfl
        | split
    | peerRead =>
      simp only [Conn.trafficLabel]
      split <;> rfl
    | _ => rfl
  | abort => cases h; exact ⟨fun changes hmem => hmem, Or.inl rfl⟩

theorem step_stateUpdate {s s' : Session S} {changes : List StateUpdate}
    (h : s.step (.conn (.stateUpdate changes)) = some s') :
    s'.client = s.client ∧ s'.stateLine = s.stateLine ++ [changes] := by
  obtain ⟨hclient, -, -, hk⟩ := step_conn h
  have hline : s.stateLine ++ [changes] = s'.stateLine := (Conn.step_trafficView hk).stateLine rfl
  exact ⟨hclient, hline.symm⟩

end Session

namespace Replication
variable {S : LawfulStateStruct}

theorem pending_eq (r : Replication S) : r.pending = r.session.stateLine ++ r.spawned := rfl

/-! ## What a step can do -/

inductive Step (r : Replication S) : ReplicationAct S → Replication S → Prop
  | wrote (hguard : r.guard = none) : Step r .write { r with guard := some r.state }
  | mutated (next start : S.State) (hguard : r.guard = some start) : Step r (.mutate next) { r with state := next }
  | dropped (start : S.State) (hguard : r.guard = some start) :
      Step r .drop { r with
        guard := none
        commits := r.commits ++ [r.state]
        spawned := r.spawned ++ (S.delta.diff start r.state).toList }
  | sent (n : Nat) (changes : List StateUpdate) (session : Session S.toStateStruct)
      (hget : r.spawned[n]? = some changes) (hs : r.session.step (.conn (.stateUpdate changes)) = some session) :
      Step r (.send n) { r with session := session, spawned := r.spawned.eraseIdx n }
  | session (a : SessionAct) (session : Session S.toStateStruct) (hno : a.sendsState = false)
      (hs : r.session.step a = some session) : Step r (.session a) { r with session := session }

theorem step_cases {r r' : Replication S} {a : ReplicationAct S} (h : r.step a = some r') : Step r a r' := by
  cases a with
  | write =>
    rw [step, write] at h
    split at h
    next hguard => cases h; exact .wrote hguard
    next => cases h
  | mutate next =>
    rw [step, mutate] at h
    split at h
    next start hguard => cases h; exact .mutated next start hguard
    next => cases h
  | drop =>
    rw [step, drop] at h
    split at h
    next start hguard =>
      have hstep := Step.dropped start hguard
      change Step r .drop { r with
        guard := none
        commits := r.commits ++ [r.state]
        spawned := r.spawned ++
          (if S.changes start r.state = [] then none else some (S.changes start r.state)).toList } at hstep
      dsimp only at h
      split at h
      next hempty =>
        cases h
        rw [if_pos (List.isEmpty_iff.mp hempty), Option.toList_none, List.append_nil] at hstep
        exact hstep
      next hempty =>
        cases h
        rw [if_neg fun hnil => hempty (List.isEmpty_iff.mpr hnil), Option.toList_some] at hstep
        exact hstep
    next => cases h
  | send n =>
    rw [step, send] at h
    split at h
    next changes hget =>
      obtain ⟨session, hs, rfl⟩ := Option.map_eq_some_iff.mp h
      exact .sent n changes session hget hs
    next => cases h
  | session a =>
    rw [step, Option.ite_none_left_eq_some, Option.map_eq_some_iff] at h
    obtain ⟨hno, session, hs, rfl⟩ := h
    exact .session a session (Bool.eq_false_iff.mpr hno) hs

/-! ## No value out of thin air -/

/-- The value was in field `i` at some commit. -/
def Committed (r : Replication S) (i : Fin S.fields) (x : S.Field i) : Prop := ∃ c ∈ r.commits, c i = x

/-- The replica has committed values only, and so have the lists on their way to it. -/
structure Known (r : Replication S) : Prop where
  replica : ∀ i, r.Committed i (r.replica i)
  pending : ∀ changes ∈ r.pending, ∀ u ∈ changes, ∀ i x, u.index = i.val → S.fromBytes i u.data = some x →
    r.Committed i x

theorem known_init (S : LawfulStateStruct) : Known (init S) where
  replica i := ⟨S.default, List.mem_singleton_self _, rfl⟩
  pending changes h := by cases h

theorem Known.of_eq {r r' : Replication S} (hinv : Known r) (hcommits : r.commits ⊆ r'.commits)
    (hreplica : r'.replica = r.replica) (hpending : ∀ changes ∈ r'.pending, changes ∈ r.pending) :
    Known r' where
  replica i := by
    obtain ⟨c, hc, heq⟩ := hinv.replica i
    exact ⟨c, hcommits hc, by rw [heq, hreplica]⟩
  pending changes hmem u hu i x hi hx := by
    obtain ⟨c, hc, heq⟩ := hinv.pending changes (hpending changes hmem) u hu i x hi hx
    exact ⟨c, hcommits hc, heq⟩

theorem committed_changes {r : Replication S} {start next : S.State} (hcommit : next ∈ r.commits)
    {u : StateUpdate} (hu : u ∈ S.changes start next) {i : Fin S.fields} {x : S.Field i}
    (hi : u.index = i.val) (hx : S.fromBytes i u.data = some x) : r.Committed i x := by
  obtain ⟨j, rfl⟩ := StateStruct.mem_changes hu
  obtain rfl : j = i := Fin.val_injective hi
  rw [S.fromBytes_toBytes] at hx
  exact ⟨next, hcommit, Option.some.inj hx⟩

theorem drop_known {r : Replication S} (hinv : Known r) (start : S.State) : Known { r with
    guard := none
    commits := r.commits ++ [r.state]
    spawned := r.spawned ++ (S.delta.diff start r.state).toList } := by
  refine ⟨fun i => ?_, fun changes hmem u hu i x hi hx => ?_⟩
  · obtain ⟨c, hc, heq⟩ := hinv.replica i
    exact ⟨c, List.mem_append_left _ hc, heq⟩
  · rw [pending_eq, ← List.append_assoc, List.mem_append] at hmem
    rcases hmem with hold | hnew
    · obtain ⟨c, hc, heq⟩ := hinv.pending changes hold u hu i x hi hx
      exact ⟨c, List.mem_append_left _ hc, heq⟩
    · rw [LawfulStateStruct.mem_diff hnew] at hu
      exact committed_changes (List.mem_append_right _ (List.mem_singleton_self _)) hu hi hx

theorem step_known {r r' : Replication S} {a : ReplicationAct S} (hinv : Known r) (h : r.step a = some r') :
    Known r' := by
  cases step_cases h with
  | wrote hguard => exact ⟨hinv.replica, hinv.pending⟩
  | mutated next start hguard => exact ⟨hinv.replica, hinv.pending⟩
  | dropped start hguard => exact drop_known hinv start
  | sent n changes session hget hs =>
    obtain ⟨hclient, hline⟩ := Session.step_stateUpdate hs
    refine hinv.of_eq (List.Subset.refl _) (by rw [replica, replica, hclient]) fun other hmem => ?_
    rw [pending_eq, hline, List.mem_append, List.mem_append, List.mem_singleton] at hmem
    rw [pending_eq, List.mem_append]
    rcases hmem with (hold | rfl) | hold
    · exact Or.inl hold
    · exact Or.inr (List.mem_of_getElem? hget)
    · exact Or.inr (List.mem_of_mem_eraseIdx hold)
  | session a session hno hs =>
    obtain ⟨hline, hreplica⟩ := Session.step_mem_stateLine hno hs
    have hpending : ∀ changes ∈ session.stateLine ++ r.spawned, changes ∈ r.pending := by
      intro changes hmem
      exact List.mem_append.mpr ((List.mem_append.mp hmem).imp_left (hline changes))
    refine ⟨fun i => ?_, fun changes hmem => hinv.pending changes (hpending changes hmem)⟩
    rcases hreplica with hsame | ⟨changes, hmem, hstate⟩
    · rw [replica, hsame]
      exact hinv.replica i
    · rw [replica, hstate]
      exact StateStruct.applyChanges_provenance hinv.replica
        (hinv.pending changes (List.mem_append_left _ hmem)) i

/-- **A field of the replica is what it was at some commit**, in every run: with tasks that overtake each
other, messages that are lost and connections that are given up. Nothing uncommitted is ever seen. -/
theorem known_of_run {as : List (ReplicationAct S)} {r : Replication S}
    (h : run step (init S) as = some r) (i : Fin S.fields) : ∃ c ∈ r.commits, c i = r.replica i :=
  (run_invariant (P := fun _ => True) (I := Known) (fun _ _ _ _ hinv hs => step_known hinv hs)
    (fun _ _ => trivial) (known_init S) h).replica i

/-! ## A group of fields -/

/-- The task that sends has nothing of the group, or overtakes none that has. -/
def keepsOrder (K : Finset (Fin S.fields)) (r : Replication S) : ReplicationAct S → Prop
  | .send n => ∀ changes, r.spawned[n]? = some changes →
    S.updatesOn K changes = [] ∨ ∀ earlier ∈ r.spawned.take n, S.updatesOn K earlier = []
  | _ => True

instance (K : Finset (Fin S.fields)) (r : Replication S) : (a : ReplicationAct S) → Decidable (r.keepsOrder K a)
  | .send n =>
    match hget : r.spawned[n]? with
    | some changes => decidable_of_iff
        (S.updatesOn K changes = [] ∨ ∀ earlier ∈ r.spawned.take n, S.updatesOn K earlier = []) (by
          rw [keepsOrder, hget]
          simp)
    | none => .isTrue fun changes h => by rw [hget] at h; cases h
  | .write => .isTrue trivial
  | .mutate _ => .isTrue trivial
  | .drop => .isTrue trivial
  | .session _ => .isTrue trivial

/-- The replica, cut down to the group, is at place `m` of the commits, and what is pending takes it on. -/
structure MirrorsOn (K : Finset (Fin S.fields)) (r : Replication S) (m : Nat) : Prop where
  shipped : r.session.shipped = true
  last : r.commits.getLast? = some (r.guard.getD r.state)
  decodes : ∀ changes ∈ r.pending, ∀ u ∈ changes, S.decodes u = true
  follows : S.delta.Follows (r.commits.map (S.on K)) (S.on K r.replica) (S.listsOn K r.pending) m

variable {K : Finset (Fin S.fields)}

theorem MirrorsOn.caught_up {r : Replication S} {m : Nat} (hinv : MirrorsOn K r m) (hset : r.Settled) :
    ∀ i ∈ K, r.replica i = r.state i := by
  have hnil : r.pending = [] := by
    rw [pending, Session.stateLine, TrafficView.stateLine, Conn.trafficView_outbox, hset.wire_empty,
      Conn.trafficView_stateChangeRx, hset.channel_empty, hset.no_task]
    rfl
  have hfollows := hinv.follows
  rw [hnil] at hfollows
  have hlast := hfollows.caught_up
  rw [List.getLast?_map, hinv.last, hset.no_guard, Option.getD_none, Option.map_some, Option.some.injEq] at hlast
  exact fun i hi => (StateStruct.on_eq_iff.mp hlast i hi).symm

/-- `struct State { requests: u32, errors: u32 }` -/
def tallyState : LawfulStateStruct where
  fields := 2
  Field _ := UInt32
  decEq _ := inferInstanceAs (DecidableEq UInt32)
  default _ := 0
  toBytes _ := counterState.toBytes ⟨0, Nat.one_pos⟩
  fromBytes _ := counterState.fromBytes ⟨0, Nat.one_pos⟩
  fromBytes_toBytes _ := counterState.fromBytes_toBytes ⟨0, Nat.one_pos⟩

def tally (requests errors : UInt32) : tallyState.State := fun i => if i.val = 0 then requests else errors

/-- What the state counts: requests, then errors. -/
def counts (s : tallyState.State) : UInt32 × UInt32 := (s ⟨0, by decide⟩, s ⟨1, by decide⟩)

/-- One session counts a request and the next one an error; the second task gets to the channel first. -/
def crossingTasks : List (ReplicationAct tallyState) :=
  [.write, .mutate (tally 1 0), .drop, .write, .mutate (tally 1 1), .drop, .send 1, .send 0,
    .session (.conn .pollNext), .session (.conn .stateChange), .session (.conn (.sendDone true)),
    .session (.conn .pollNext), .session (.conn .stateChange), .session (.conn (.sendDone true)),
    .session (.receive true), .session (.receive true)]

/-- The error is seen before the request, which was counted first: each field was so at some commit, the two
of them together at none. -/
theorem known_crossingTasks : ∃ r, run step (init tallyState) (crossingTasks.take 15) = some r ∧
    r.commits.map counts = [(0, 0), (1, 0), (1, 1)] ∧ counts r.replica = (0, 1) ∧
    ∀ i, ∃ c ∈ r.commits, c i = r.replica i := by
  have hrun : (run step (init tallyState) (crossingTasks.take 15)).map (fun r =>
      (r.commits.map counts, counts r.replica)) = some ([(0, 0), (1, 0), (1, 1)], (0, 1)) := rfl
  obtain ⟨r, hr, heq⟩ := Option.map_eq_some_iff.mp hrun
  rw [Prod.mk.injEq] at heq
  exact ⟨r, hr, heq.1, heq.2, known_of_run hr⟩

end Replication

end HardLight
