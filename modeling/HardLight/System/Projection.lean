import HardLight.System.Basic
import HardLight.Session.Order

/-!
# One connection of the server

What the connections of a server do to one another they do through the event switch, and to one session that is a
connection loop that takes a subscription operation or gets events: a run of the server is, for every connection, a
run of its session.

* `Step.session_act` : a step of the server, for one connection;
* `session_of_run` : a run of the server, for one connection;
* `Isolated`, `isolated_of_run` : with the client loop at the other end a session is paired and first in, first
  out, whatever the peers of the other connections do.
-/

namespace HardLight
open Lib

namespace System
variable {S : StateStruct}

theorem session_subscription {s : System S} {c : ConnId} {id : SubscriptionID} {k : Conn}
    {n : Option (SubscriptionNotification ConnId)} (hpolls : (s.conn c).polls .subscription = true)
    (hk : (s.conn c).onSubscription c id s.switchAlive = some (k, n)) :
    (s.sessions c).step (.conn (.subscription id s.switchAlive)) = some { s.sessions c with conn := k } := by
  have hfst := Conn.onSubscription_fst c id s.switchAlive (s.conn c)
  rw [hk, Option.map_some] at hfst
  have hstep : (s.sessions c).conn.step (.subscription id s.switchAlive) = some k := by
    exact (if_pos hpolls).trans hfst.symm
  simp only [Session.step, ConnAct.ofClient, Bool.and_false, Bool.false_eq_true, if_false, hstep, Option.map_some]

/-- A step of the server is the session step it names, or leaves the session as it is, or is one of the steps that
a session makes as part of it. -/
theorem Step.session_act {s s' : System S} {a : SystemAct} (h : Step s a s') (c : ConnId) :
    (∃ b, a = .session c b ∧ (s.sessions c).step b = some (s'.sessions c)) ∨
      (∀ b, a ≠ .session c b) ∧ (s'.sessions c = s.sessions c ∨
        ∃ b, b.reserved = true ∧ (s.sessions c).step b = some (s'.sessions c)) := by
  have hsub : ∀ {c' id k n}, (s.conn c').polls .subscription = true →
      (s.conn c').onSubscription c' id s.switchAlive = some (k, n) →
      (s.setConn c' k).sessions c = s.sessions c ∨ ∃ b, b.reserved = true ∧
        (s.sessions c).step b = some ((s.setConn c' k).sessions c) := by
    intro c' id k n hpolls hk
    simp only [setConn, Function.update_apply]
    split
    next heq =>
      subst heq
      exact Or.inr ⟨_, rfl, session_subscription hpolls hk⟩
    next => exact Or.inl rfl
  cases h with
  | session c' a session hres h =>
    by_cases hc : c' = c
    · subst hc
      exact Or.inl ⟨a, rfl, h.trans (congrArg some (Function.update_self c' session s.sessions).symm)⟩
    · refine Or.inr ⟨fun b he => ?_, Or.inl (Function.update_of_ne (Ne.symm hc) _ _)⟩
      cases he
      exact hc rfl
  | kept c' id k hpolls h => exact Or.inr ⟨(fun b he => by cases he), hsub hpolls h⟩
  | subscribed c' id topic k hpolls h hfresh => exact Or.inr ⟨(fun b he => by cases he), hsub hpolls h⟩
  | unsubscribed c' id topic old k hpolls h => exact Or.inr ⟨(fun b he => by cases he), hsub hpolls h⟩
  | emitted place origin event horigin =>
    exact Or.inr ⟨(fun b he => by cases he), Or.inl (by rw [(emit_frame s origin event).2.2.1])⟩
  | event emission rest halive harm hq =>
    exact Or.inr ⟨(fun b he => by cases he), Or.inr ⟨_, rfl, Session.step_deliver (s.sessions c) _⟩⟩
  | _ => exact Or.inr ⟨(fun b he => by cases he), Or.inl rfl⟩

theorem step_shipped {s s' : System S} {a : SystemAct} (h : s.step a = some s') (c : ConnId) :
    (s'.sessions c).shipped = (s.sessions c).shipped := by
  rcases (step_cases h).session_step c with heq | ⟨b, -, hb⟩
  · rw [heq]
  · exact Session.step_shipped hb

/-- **A run of the server is a run of each of its sessions.** -/
theorem session_of_run {as : List SystemAct} {s t : System S} (h : run step s as = some t) (c : ConnId) :
    ∃ bs, run Session.step (s.sessions c) bs = some (t.sessions c) := by
  have hstep : ∀ (s : System S) (a : SystemAct) (s' : System S) (session : Session S), s.sessions c = session →
      s.step a = some s' → ∃ bs session', run Session.step session bs = some session' ∧ s'.sessions c = session' := by
    rintro s a s' session rfl hs
    rcases (step_cases hs).session_step c with heq | ⟨b, -, hb⟩
    · exact ⟨[], _, rfl, heq⟩
    · exact ⟨[b], _, by rw [run_cons, hb]; rfl, rfl⟩
  obtain ⟨bs, session, hbs, rfl⟩ := run_simulation hstep rfl h
  exact ⟨bs, hbs⟩

/-- What holds of a client loop's connection, whatever happens at the others. -/
structure Isolated (s : System S) (c : ConnId) : Prop where
  paired : (s.sessions c).Paired
  fifo : (s.sessions c).Fifo

/-- **Other peers cannot upset a session.** -/
theorem isolated_of_run {shipped : ConnId → Bool} {as : List SystemAct} {s : System S}
    (h : run step (init S shipped) as = some s) {c : ConnId} (hc : shipped c = true) : s.Isolated c := by
  obtain ⟨bs, hbs⟩ := session_of_run h c
  rw [show (init S shipped).sessions c = Session.init S true from congrArg (Session.init S) hc] at hbs
  have hinv := Session.orderly_of_run hbs
  exact ⟨hinv.paired, hinv.fifo⟩

/-- Two calls of a client, while another peer sends the same id twice and takes down its connection. -/
def hostileRun : List SystemAct :=
  (Session.overtakingRun.map fun a => .session 0 a) ++
    [.session 1 (.conn (.peerSend (.binary (some ⟨0, [9], 0⟩)))),
      .session 1 (.conn (.peerSend (.binary (some ⟨0, [9], 0⟩)))), .session 1 .abort]

theorem isolated_hostileRun :
    ∃ s, run step (init counterState.toStateStruct fun c => decide (c = 0)) hostileRun = some s ∧ s.Isolated 0 := by
  have hrun : (run step (init counterState.toStateStruct fun c => decide (c = 0)) hostileRun).isSome = true := rfl
  obtain ⟨s, hs⟩ := Option.isSome_iff_exists.mp hrun
  exact ⟨s, hs, isolated_of_run hs rfl⟩

end System

end HardLight
