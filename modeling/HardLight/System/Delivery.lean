import HardLight.System.Agreement
import HardLight.Server.Traffic

/-!
# Event delivery

* `expected` : the events taken by the switch whose topic a connection was subscribed to, in its map, when
  it took them;
* `Delivers`, `step_delivers` : these are the events the connection has passed on and those on their way;
* `Added`, `step_added` : a connection is subscribed to nothing its handler has not added;
* `Delivery`, `delivery_of_run` : what reaches a connection is a prefix of what is expected, and all of it
  once its queues are drained.
-/

namespace HardLight
open Lib

namespace Session
variable {S : StateStruct}

theorem step_eventLine {s s' : Session S} {a : SessionAct} (hres : a.reserved = false)
    (hsent : a ≠ .conn (.sendDone false)) (h : s.step a = some s') :
    s'.conn.eventLine = s.conn.eventLine := by
  cases a with
  | client a =>
    obtain ⟨out, -, -, hk⟩ := step_client h
    cases out with
    | none =>
      have hsame : s'.conn = s.conn := hk
      rw [hsame]
    | some r => exact Conn.step_eventLine hk (by simp) (by simp)
  | receive decoded =>
    obtain ⟨-, -, -, -, -, hk⟩ := step_receive h
    exact Conn.step_eventLine hk (by simp) (by simp)
  | conn a =>
    refine Conn.step_eventLine (step_conn h).2.2.2 (fun he => hsent (he ▸ rfl)) fun events he => ?_
    subst he
    cases hres
  | abort => cases h; rfl

end Session

namespace System
variable {S : StateStruct}

/-- The events that connection `c` is to get. -/
def expected (s : System S) (c : ConnId) : List Event :=
  (s.taken.filter fun x => EventSwitch.subscribes x.subscriptions c x.event.topic).map Taken.event

/-- What is expected has been passed on or is on its way. -/
def Delivers (s : System S) (c : ConnId) : Prop :=
  (s.conn c).exited = false → (s.conn c).eventLine = s.expected c

/-- The switch gives an event to a connection once if it is subscribed, and not at all otherwise. -/
theorem count_receivers {s : System S} {c : ConnId} (hviews : Views s c) (hex : (s.conn c).exited = false)
    (e : Event) : (s.switch.onEvent s.failed e).2.count c =
      if EventSwitch.subscribes s.switch.subscriptions c e.topic then 1 else 0 :=
  EventSwitch.count_delivered (fun _ => hex) fun id id' hid hid' => hviews.one_id hex e.topic id id' hid hid'

theorem step_delivers {s s' : System S} {a : SystemAct} {c : ConnId} (hviews : Views s c)
    (hinv : Delivers s c) (hsent : a ≠ .session c (.conn (.sendDone false))) (h : Step s a s') :
    Delivers s' c := by
  intro hex
  have hold := hinv (h.exited hex)
  have hsub : ∀ {c' id k n}, (s.conn c').polls .subscription = true →
      (s.conn c').onSubscription c' id s.switchAlive = some (k, n) →
      ((s.setConn c' k).conn c).eventLine = (s.conn c).eventLine := by
    intro c' id k n hpolls hk
    rw [conn_setConn]
    split
    next heq =>
      subst heq
      have hfst := Conn.onSubscription_fst c id s.switchAlive (s.conn c)
      rw [hk, Option.map_some] at hfst
      have hstep : (s.conn c).step (.subscription id s.switchAlive) = some k :=
        (if_pos hpolls).trans hfst.symm
      exact Conn.step_eventLine hstep (by simp) (by simp)
    next => rfl
  cases h with
  | session c' a session hres h =>
    have hline : (Function.update s.sessions c' session c).conn.eventLine = (s.conn c).eventLine := by
      rw [Function.update_apply]
      split
      next heq =>
        subst heq
        exact Session.step_eventLine hres (fun he => hsent (by rw [he])) h
      next => rfl
    exact hline.trans hold
  | kept c' id k hpolls h => exact (hsub hpolls h).trans hold
  | subscribed c' id topic k hpolls h hfresh => exact (hsub hpolls h).trans hold
  | unsubscribed c' id topic old k hpolls h => exact (hsub hpolls h).trans hold
  | emitted place origin event horigin =>
    obtain ⟨-, -, hsessions, -, -, htaken⟩ := emit_frame s origin event
    rw [conn, hsessions, expected, htaken]
    exact hold
  | event emission rest halive harm hq =>
    have hcount := count_receivers hviews hex emission.event
    have hdel := (Conn.step_trafficView (k := s.conn c) (a := .deliver
      (List.replicate ((s.switch.onEvent s.failed emission.event).2.count c) emission.event)) rfl).eventLine rfl
    have hline : (s.conn c).eventLine ++
        List.replicate ((s.switch.onEvent s.failed emission.event).2.count c) emission.event =
          s.expected c ++
            if EventSwitch.subscribes s.switch.subscriptions c emission.event.topic
            then [emission.event] else [] := by
      rw [hold, hcount]
      split <;> rfl
    refine (hdel.trans hline).trans ?_
    rw [expected, expected, List.filter_append, List.map_append]
    congr 1
    by_cases hs : EventSwitch.subscribes s.switch.subscriptions c emission.event.topic = true <;> simp [hs]
  | polled arm => exact hold
  | notification c' n rest halive hq => exact hold
  | stopped => exact hold

/-! ## Topics of the handler's own -/

/-- Connection `c`'s handler has called `add(t)` and its connection loop has taken that. -/
def HasAdded (s : System S) (c : ConnId) (t : Topic) : Prop := ∃ o ∈ (s.conn c).handled, o.op = .subscribe t

/-- What connection `c` is subscribed to, its handler has added. -/
structure Added (s : System S) (c : ConnId) : Prop where
  switch : ∀ t id, s.switch.find t id = some c → s.HasAdded c t
  queue : ∀ t id tx, (c, SubscriptionNotification.subscribe t id tx) ∈ s.subscriptionRx → s.HasAdded c t
  taken : ∀ x ∈ s.taken, EventSwitch.subscribes x.subscriptions c x.event.topic = true →
    s.HasAdded c x.event.topic

theorem Step.hasAdded {s s' : System S} {a : SystemAct} (h : Step s a s') {c : ConnId} {t : Topic}
    (hadd : s.HasAdded c t) : s'.HasAdded c t := by
  have hsub : ∀ {c' id k n}, (s.conn c').onSubscription c' id s.switchAlive = some (k, n) →
      (s.setConn c' k).HasAdded c t := by
    intro c' id k n hk
    obtain ⟨o, rest, -, -, hhandled, -⟩ := Conn.onSubscription_cases hk
    obtain ⟨o', ho', hop⟩ := hadd
    refine ⟨o', ?_, hop⟩
    rw [conn_setConn]
    split
    next heq => rw [hhandled]; exact List.mem_append_left _ (heq ▸ ho')
    next => exact ho'
  cases h with
  | session c' a session hres h =>
    obtain ⟨o, ho, hop⟩ := hadd
    refine ⟨o, ?_, hop⟩
    simp only [conn, Function.update_apply]
    split
    next heq => rw [(Session.step_frame hres h).2]; exact heq ▸ ho
    next => exact ho
  | kept c' id k hpolls h => exact hsub h
  | subscribed c' id topic k hpolls h hfresh => exact hsub h
  | unsubscribed c' id topic old k hpolls h => exact hsub h
  | emitted place origin event horigin =>
    rw [HasAdded, conn, (emit_frame s origin event).2.2.1]
    exact hadd
  | event emission rest halive harm hq => exact hadd
  | polled arm => exact hadd
  | notification c' n rest halive hq => exact hadd
  | stopped => exact hadd

theorem step_added {s s' : System S} {a : SystemAct} {c : ConnId} (howned : Owned s) (hinv : Added s c)
    (h : Step s a s') : Added s' c := by
  have hgrow : ∀ t, s.HasAdded c t → s'.HasAdded c t := fun t => h.hasAdded
  cases h with
  | subscribed c' id topic k hpolls h hfresh =>
    refine ⟨fun t id hf => hgrow t (hinv.switch t id hf), fun t id tx hx => ?_,
      fun x hx hs => hgrow _ (hinv.taken x hx hs)⟩
    rcases List.mem_append.mp hx with hx | hx
    · exact hgrow t (hinv.queue t id tx hx)
    · rw [List.mem_singleton] at hx
      cases hx
      obtain ⟨o, rest, -, -, hhandled, -, hcase⟩ := Conn.onSubscription_cases h
      cases hcase with
      | subscribed _ hop _ _ _ =>
        refine ⟨o, ?_, hop⟩
        have hk : (s.setConn c k).conn c = k := by rw [conn_setConn, if_pos rfl]
        show o ∈ ((s.setConn c k).conn c).handled
        rw [hk, hhandled]
        exact List.mem_append_right _ List.mem_cons_self
  | unsubscribed c' id topic old k hpolls h =>
    refine ⟨fun t id hf => hgrow t (hinv.switch t id hf), fun t id tx hx => ?_,
      fun x hx hs => hgrow _ (hinv.taken x hx hs)⟩
    rcases List.mem_append.mp hx with hx | hx
    · exact hgrow t (hinv.queue t id tx hx)
    · rw [List.mem_singleton] at hx
      cases hx
  | emitted place origin event horigin =>
    obtain ⟨hswitch, hqueue, -, -, -, htaken⟩ := emit_frame s origin event
    refine ⟨fun t id hf => hgrow t (hinv.switch t id (hswitch ▸ hf)), fun t id tx hx =>
      hgrow t (hinv.queue t id tx (hqueue ▸ hx)), fun x hx hs => hgrow _ (hinv.taken x (htaken ▸ hx) hs)⟩
  | event emission rest halive harm hq =>
    refine ⟨fun t id hf => hinv.switch t id (EventSwitch.find_onEvent_subset hf), hinv.queue,
      fun x hx hs => ?_⟩
    rcases List.mem_append.mp hx with hx | hx
    · exact hinv.taken x hx hs
    · rw [List.mem_singleton] at hx
      subst hx
      obtain ⟨id, hf⟩ := EventSwitch.subscribes_iff.mp hs
      exact hinv.switch _ id hf
  | notification c' n rest halive hq =>
    have hhead : (c', n) ∈ s.subscriptionRx := hq ▸ List.mem_cons_self
    refine ⟨fun t id hf => ?_, fun t id tx hx => hinv.queue t id tx (hq ▸ List.mem_cons_of_mem _ hx),
      hinv.taken⟩
    rcases EventSwitch.find_onNotification hf with hf | rfl
    · exact hinv.switch t id hf
    · have hc : c = c' := (howned.queue _ hhead).2 t id c rfl
      exact hinv.queue t id c (hc ▸ hhead)
  | session c' a session hres h =>
    exact ⟨fun t id hf => hgrow t (hinv.switch t id hf), fun t id tx hx => hgrow t (hinv.queue t id tx hx),
      fun x hx hs => hgrow _ (hinv.taken x hx hs)⟩
  | kept c' id k hpolls h =>
    exact ⟨fun t id hf => hgrow t (hinv.switch t id hf), fun t id tx hx => hgrow t (hinv.queue t id tx hx),
      fun x hx hs => hgrow _ (hinv.taken x hx hs)⟩
  | polled arm => exact ⟨hinv.switch, hinv.queue, hinv.taken⟩
  | stopped => exact ⟨hinv.switch, hinv.queue, hinv.taken⟩

/-! ## The property -/

/-- The events of the `NewEvent` messages sent on the WebSocket, in order. -/
def reached (s : System S) (c : ConnId) : List Event :=
  ((s.conn c).wsRead ++ (s.conn c).wsOut).filterMap ServerMessage.event?

/-- **Events reach a connection in the order of the switch**, each once and none besides. -/
structure Delivery (s : System S) (c : ConnId) : Prop where
  reached_prefix : s.reached c <+: s.expected c
  drained : (s.conn c).eventsRx = [] → (s.conn c).sending = none → s.reached c = s.expected c
  own_topics : ∀ e ∈ s.reached c, s.HasAdded c e.topic

theorem delivery_of_inv {s : System S} {c : ConnId} (hdel : (s.conn c).eventLine = s.expected c)
    (hadded : Added s c) : Delivery s c := by
  have hline : s.reached c ++ ((s.conn c).sending.toList.filterMap ServerMessage.event? ++ (s.conn c).eventsRx) =
      s.expected c := by
    rw [← hdel]
    simp [reached, Conn.eventLine, TrafficView.eventLine, Conn.outbox]
  have hpre : s.reached c <+: s.expected c := ⟨_, hline⟩
  refine ⟨hpre, fun hq hs => ?_, fun e he => ?_⟩
  · rw [hq, hs] at hline
    simpa using hline
  · obtain ⟨x, hx, rfl⟩ := List.mem_map.mp (hpre.subset he)
    obtain ⟨hx, hsub⟩ := List.mem_filter.mp hx
    exact hadded.taken x hx hsub

/-- **Event delivery, in every reachable state and for every connection that is there.** -/
theorem delivery_of_run {shipped : ConnId → Bool} {as : List SystemAct} {s : System S} {c : ConnId}
    (h : run step (init S shipped) as = some s) (hex : (s.conn c).exited = false)
    (hsent : SystemAct.session c (.conn (.sendDone false)) ∉ as) : Delivery s c := by
  have hinv : (Owned s ∧ ∀ c, Views s c) ∧ Delivers s c ∧ Added s c := by
    refine run_invariant (P := fun a => a ≠ SystemAct.session c (.conn (.sendDone false)))
      (I := fun s : System S => (Owned s ∧ ∀ c, Views s c) ∧ Delivers s c ∧ Added s c) ?_
      (fun a ha he => hsent (he ▸ ha)) ⟨views_init shipped, fun _ => rfl, ?_, ?_, ?_⟩ h
    · rintro s a s' hne ⟨hviews, hdel, hadded⟩ hs
      have hcases := step_cases hs
      exact ⟨step_owned_views hviews hcases, step_delivers (hviews.2 c) hdel hne hcases,
        step_added hviews.1 hadded hcases⟩
    · intro t id hf
      rw [init, EventSwitch.find_new] at hf
      cases hf
    · intro t id tx hx; cases hx
    · intro x hx; cases hx
  exact delivery_of_inv (hinv.2.1 hex) hinv.2.2

/-- A connection subscribes, the application emits two events, one of them on another topic, and the
connection reads what it is sent. -/
def eventRun : List SystemAct :=
  [.session 0 (.conn (.handlerOp none (.subscribe ⟨[116], true⟩))),
    .session 0 (.conn .pollNext), .session 0 (.conn .pollNext), .session 0 (.conn .pollNext),
    .subscription 0 (Vector.replicate 16 0), .switchPoll, .switchNotification,
    .emit none ⟨⟨[117], true⟩, [1]⟩, .emit none ⟨⟨[116], true⟩, [2]⟩, .switchEvent, .switchEvent,
    .session 0 (.conn .pollNext), .session 0 (.conn .pollNext), .session 0 (.conn .event),
    .session 0 (.conn (.sendDone true)), .session 0 (.receive true)]

theorem delivery_eventRun :
    ∃ s, run step (init counterState.toStateStruct fun _ => true) eventRun = some s ∧
      s.reached 0 = [⟨⟨[116], true⟩, [2]⟩] ∧ Delivery s 0 := by
  have hrun : (run step (init counterState.toStateStruct fun _ => true) eventRun).map (fun s =>
      ((s.conn 0).exited, s.reached 0)) = some (false, [⟨⟨[116], true⟩, [2]⟩]) := by decide
  obtain ⟨s, hs, hstate⟩ := Option.map_eq_some_iff.mp hrun
  rw [Prod.mk.injEq] at hstate
  exact ⟨s, hs, hstate.2, delivery_of_run hs hstate.1 (by simp [eventRun])⟩

end System

end HardLight
