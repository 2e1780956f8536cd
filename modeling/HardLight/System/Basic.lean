import HardLight.Session.Basic
import HardLight.Server.Subscriptions

/-!
# The server

The event switch and any number of connections, each a session, with the two queues into the switch. The
`events_tx` of a connection is its number, `ConnId`; a send on it fails once the connection's task is gone.

The steps of a session that touch the switch are steps of the system: `subscription`, where the
connection loop takes a notification from its handler and may pass one on, and the delivery of events.
The switch's `select!` is biased; `switchArm` is the arm it polls next.

History variables: `minted`, `taken` and the `origin` of an emission.

* `Step`, `step_cases` : what a step of the system can be;
* `Step.session_step` : what it is for one connection.
-/

namespace HardLight
open Lib

/-- A connection: the number of its task. -/
abbrev ConnId := Nat

/-- An event on its way to the switch. `origin` is the connection and the call whose handler emitted it,
`none` for the application. -/
structure Emission where
  event : Event
  origin : Option (ConnId × Call)
  deriving DecidableEq, Repr

/-- An event the switch has taken, with the map it found. -/
structure Taken where
  event : Event
  subscriptions : HashMap Topic (HashMap SubscriptionID ConnId)

inductive SwitchArm
  | event
  | notification
  deriving DecidableEq, Repr

structure System (S : StateStruct) where
  sessions : ConnId → Session S
  newEventRx : List Emission
  /-- `subscription_notification_rx`, each notification with the connection that sent it. -/
  subscriptionRx : List (ConnId × SubscriptionNotification ConnId)
  switch : EventSwitch ConnId
  switchArm : SwitchArm
  /-- The switch's task, and with it its receivers, is there. -/
  switchAlive : Bool
  /-- The subscription ids drawn and sent to the switch, each with its connection. -/
  minted : List (SubscriptionID × ConnId)
  taken : List Taken

inductive SystemAct
  | session (c : ConnId) (a : SessionAct)
  /-- The connection loop takes a notification from its handler; `id` is the id drawn, if one is. -/
  | subscription (c : ConnId) (id : SubscriptionID)
  /-- `EventEmitter::emit`, by the application or by the handler task at place `n` of a connection. -/
  | emit (origin : Option (ConnId × Nat)) (event : Event)
  | switchPoll
  | switchEvent
  | switchNotification
  /-- The runtime drops the task of the switch. -/
  | stopSwitch

namespace SessionAct

/-- The steps that a session makes as part of a step of the system. -/
def reserved : SessionAct → Bool
  | conn (.subscription _ _) => true
  | conn (.deliver _) => true
  | _ => false

end SessionAct

namespace Session
variable {S : StateStruct}

/-- Events are put in the connection's event channel. -/
def deliver (s : Session S) (events : List Event) : Session S :=
  { s with conn := { s.conn with eventsRx := s.conn.eventsRx ++ events } }

theorem step_deliver (s : Session S) (events : List Event) :
    s.step (.conn (.deliver events)) = some (s.deliver events) := by
  simp [step, ConnAct.ofClient, Conn.step, deliver]

end Session

namespace System
variable {S : StateStruct}

/-- `shipped c` says whether the peer of connection `c` is the client loop. -/
def init (S : StateStruct) (shipped : ConnId → Bool) : System S where
  sessions c := .init S (shipped c)
  newEventRx := []
  subscriptionRx := []
  switch := .new
  switchArm := .event
  switchAlive := true
  minted := []
  taken := []

def conn (s : System S) (c : ConnId) : Conn := (s.sessions c).conn

/-- The receiver of the connection's event channel is gone. -/
def failed (s : System S) (_ : SubscriptionID) (c : ConnId) : Bool := (s.conn c).exited

def setConn (s : System S) (c : ConnId) (k : Conn) : System S :=
  { s with sessions := Function.update s.sessions c { s.sessions c with conn := k } }

def session (s : System S) (c : ConnId) (a : SessionAct) : Option (System S) :=
  if a.reserved then none
  else ((s.sessions c).step a).map fun session =>
    { s with sessions := Function.update s.sessions c session }

/-- The subscription branch of connection `c`, with its send to the switch. Ids do not repeat. -/
def subscription (s : System S) (c : ConnId) (id : SubscriptionID) : Option (System S) :=
  if (s.conn c).polls .subscription then
    match (s.conn c).onSubscription c id s.switchAlive with
    | some (k, none) => some (s.setConn c k)
    | some (k, some (.subscribe topic id tx)) =>
      if id ∈ s.minted.map Prod.fst then none
      else some { s.setConn c k with
        subscriptionRx := s.subscriptionRx ++ [(c, .subscribe topic id tx)]
        minted := s.minted ++ [(id, c)] }
    | some (k, some (.unsubscribe topic id)) =>
      some { s.setConn c k with subscriptionRx := s.subscriptionRx ++ [(c, .unsubscribe topic id)] }
    | none => none
  else none

/-- `EventEmitter::emit`; the result of the send is ignored. -/
def emit (s : System S) (origin : Option (ConnId × Call)) (event : Event) : System S :=
  if s.switchAlive then { s with newEventRx := s.newEventRx ++ [{ event := event, origin := origin }] }
  else s

/-- The switch polls an arm with nothing to take. -/
def switchPoll (s : System S) : Option (System S) :=
  if s.switchAlive then
    match s.switchArm with
    | .event => if s.newEventRx.isEmpty then some { s with switchArm := .notification } else none
    | .notification => if s.subscriptionRx.isEmpty then some { s with switchArm := .event } else none
  else none

/-- The event branch of the switch. -/
def switchEvent (s : System S) : Option (System S) :=
  if s.switchAlive && decide (s.switchArm = .event) then
    match s.newEventRx with
    | emission :: rest =>
      let (switch, receivers) := s.switch.onEvent s.failed emission.event
      some { s with
        sessions := fun c => (s.sessions c).deliver (List.replicate (receivers.count c) emission.event)
        newEventRx := rest
        switch := switch
        taken := s.taken ++ [{ event := emission.event, subscriptions := s.switch.subscriptions }] }
    | [] => none
  else none

/-- The notification branch of the switch. -/
def switchNotification (s : System S) : Option (System S) :=
  if s.switchAlive && decide (s.switchArm = .notification) then
    match s.subscriptionRx with
    | (_, notification) :: rest =>
      some { s with
        subscriptionRx := rest
        switch := s.switch.onNotification notification
        switchArm := .event }
    | [] => none
  else none

def step (s : System S) : SystemAct → Option (System S)
  | .session c a => s.session c a
  | .subscription c id => s.subscription c id
  | .emit none event => some (s.emit none event)
  | .emit (some (c, n)) event =>
    match (s.conn c).tasks[n]? with
    | some r => some (s.emit (some (c, r.call)) event)
    | none => none
  | .switchPoll => s.switchPoll
  | .switchEvent => s.switchEvent
  | .switchNotification => s.switchNotification
  | .stopSwitch => some { s with switchAlive := false }

/-! ## What a step can do -/

inductive Step (s : System S) : SystemAct → System S → Prop
  | session (c : ConnId) (a : SessionAct) (session : Session S) (hres : a.reserved = false)
      (h : (s.sessions c).step a = some session) :
      Step s (.session c a) { s with sessions := Function.update s.sessions c session }
  | kept (c : ConnId) (id : SubscriptionID) (k : Conn) (hpolls : (s.conn c).polls .subscription = true)
      (h : (s.conn c).onSubscription c id s.switchAlive = some (k, none)) :
      Step s (.subscription c id) (s.setConn c k)
  | subscribed (c : ConnId) (id : SubscriptionID) (topic : Topic) (k : Conn)
      (hpolls : (s.conn c).polls .subscription = true)
      (h : (s.conn c).onSubscription c id s.switchAlive = some (k, some (.subscribe topic id c)))
      (hfresh : id ∉ s.minted.map Prod.fst) :
      Step s (.subscription c id) { s.setConn c k with
        subscriptionRx := s.subscriptionRx ++ [(c, .subscribe topic id c)]
        minted := s.minted ++ [(id, c)] }
  | unsubscribed (c : ConnId) (id : SubscriptionID) (topic : Topic) (old : SubscriptionID) (k : Conn)
      (hpolls : (s.conn c).polls .subscription = true)
      (h : (s.conn c).onSubscription c id s.switchAlive = some (k, some (.unsubscribe topic old))) :
      Step s (.subscription c id)
        { s.setConn c k with subscriptionRx := s.subscriptionRx ++ [(c, .unsubscribe topic old)] }
  | emitted (place : Option (ConnId × Nat)) (origin : Option (ConnId × Call)) (event : Event)
      (horigin : ∀ c call, origin = some (c, call) → ∃ r ∈ (s.conn c).tasks, r.call = call) :
      Step s (.emit place event) (s.emit origin event)
  | polled (arm : SwitchArm) : Step s .switchPoll { s with switchArm := arm }
  | event (emission : Emission) (rest : List Emission) (halive : s.switchAlive = true)
      (harm : s.switchArm = .event) (hq : s.newEventRx = emission :: rest) :
      Step s .switchEvent { s with
        sessions := fun c => (s.sessions c).deliver
          (List.replicate ((s.switch.onEvent s.failed emission.event).2.count c) emission.event)
        newEventRx := rest
        switch := (s.switch.onEvent s.failed emission.event).1
        taken := s.taken ++ [{ event := emission.event, subscriptions := s.switch.subscriptions }] }
  | notification (c : ConnId) (n : SubscriptionNotification ConnId)
      (rest : List (ConnId × SubscriptionNotification ConnId)) (halive : s.switchAlive = true)
      (hq : s.subscriptionRx = (c, n) :: rest) :
      Step s .switchNotification { s with
        subscriptionRx := rest, switch := s.switch.onNotification n, switchArm := .event }
  | stopped : Step s .stopSwitch { s with switchAlive := false }

theorem subscription_cases {s s' : System S} {c : ConnId} {id : SubscriptionID}
    (h : s.subscription c id = some s') : Step s (.subscription c id) s' := by
  unfold subscription at h
  rw [Option.ite_none_right_eq_some] at h
  obtain ⟨hpolls, h⟩ := h
  split at h
  next k hk => cases h; exact .kept c id k hpolls hk
  next k topic id' tx hk =>
    obtain ⟨o, rest, -, -, -, -, hcase⟩ := Conn.onSubscription_cases hk
    cases hcase
    rw [Option.ite_none_left_eq_some] at h
    obtain ⟨hfresh, h⟩ := h
    cases h
    exact .subscribed c id topic k hpolls hk hfresh
  next k topic old hk => cases h; exact .unsubscribed c id topic old k hpolls hk
  next => cases h

/-- **Every step of the system is one of the kinds of `Step`.** -/
theorem step_cases {s s' : System S} {a : SystemAct} (h : s.step a = some s') : Step s a s' := by
  cases a with
  | session c a =>
    rw [step, session, Option.ite_none_left_eq_some, Option.map_eq_some_iff] at h
    obtain ⟨hres, session, hs, rfl⟩ := h
    exact .session c a session (Bool.eq_false_iff.mpr hres) hs
  | subscription c id => exact subscription_cases h
  | emit place event =>
    cases place with
    | none =>
      cases h
      exact .emitted none none event fun c call hno => by cases hno
    | some place =>
      obtain ⟨c, n⟩ := place
      rw [step] at h
      split at h
      next r hr =>
        cases h
        refine .emitted _ (some (c, r.call)) event fun c' call ho => ?_
        cases ho
        exact ⟨r, List.mem_of_getElem? hr, rfl⟩
      next => cases h
  | switchPoll =>
    rw [step, switchPoll, Option.ite_none_right_eq_some] at h
    obtain ⟨-, h⟩ := h
    split at h <;>
      (rw [Option.ite_none_right_eq_some] at h; cases h.2; exact .polled _)
  | switchEvent =>
    rw [step, switchEvent, Option.ite_none_right_eq_some, Bool.and_eq_true, decide_eq_true_eq] at h
    obtain ⟨⟨halive, harm⟩, h⟩ := h
    split at h
    next emission rest hq => cases h; exact .event emission rest halive harm hq
    next => cases h
  | switchNotification =>
    rw [step, switchNotification, Option.ite_none_right_eq_some, Bool.and_eq_true] at h
    obtain ⟨⟨halive, -⟩, h⟩ := h
    split at h
    next c n rest hq => cases h; exact .notification c n rest halive hq
    next => cases h
  | stopSwitch => cases h; exact .stopped

@[simp] theorem conn_setConn (s : System S) (c c' : ConnId) (k : Conn) :
    (s.setConn c k).conn c' = if c' = c then k else s.conn c' := by
  simp only [conn, setConn, Function.update_apply]
  split <;> rfl

theorem emit_frame (s : System S) (origin : Option (ConnId × Call)) (event : Event) :
    (s.emit origin event).switch = s.switch ∧ (s.emit origin event).subscriptionRx = s.subscriptionRx ∧
      (s.emit origin event).sessions = s.sessions ∧ (s.emit origin event).minted = s.minted ∧
      (s.emit origin event).switchAlive = s.switchAlive ∧ (s.emit origin event).taken = s.taken := by
  unfold emit
  split <;> exact ⟨rfl, rfl, rfl, rfl, rfl, rfl⟩

/-- A step of the system is, for every connection, at most one step of its session. -/
theorem Step.session_step {s s' : System S} {a : SystemAct} (h : Step s a s') (c : ConnId) :
    s'.sessions c = s.sessions c ∨
      ∃ b, (b = .abort → a = .session c .abort) ∧ (s.sessions c).step b = some (s'.sessions c) := by
  have hsub : ∀ {c' id k n}, (s.conn c').polls .subscription = true →
      (s.conn c').onSubscription c' id s.switchAlive = some (k, n) →
      (s.setConn c' k).sessions c = s.sessions c ∨ ∃ b, (b = .abort → a = .session c .abort) ∧
        (s.sessions c).step b = some ((s.setConn c' k).sessions c) := by
    intro c' id k n hpolls hk
    simp only [setConn, Function.update_apply]
    split
    next heq =>
      subst heq
      refine Or.inr ⟨.conn (.subscription id s.switchAlive), (fun he => by cases he), ?_⟩
      have hfst := Conn.onSubscription_fst c id s.switchAlive (s.conn c)
      rw [hk, Option.map_some] at hfst
      have hstep : (s.sessions c).conn.step (.subscription id s.switchAlive) = some k := by
        exact (if_pos hpolls).trans hfst.symm
      simp only [Session.step, ConnAct.ofClient, Bool.and_false, Bool.false_eq_true, if_false, hstep,
        Option.map_some]
    next => exact Or.inl rfl
  cases h with
  | session c' a session hres h =>
    simp only [Function.update_apply]
    split
    next heq => exact Or.inr ⟨a, fun he => by rw [he, heq], heq ▸ h⟩
    next => exact Or.inl rfl
  | kept c' id k hpolls h => exact hsub hpolls h
  | subscribed c' id topic k hpolls h hfresh => exact hsub hpolls h
  | unsubscribed c' id topic old k hpolls h => exact hsub hpolls h
  | emitted place origin event horigin => exact Or.inl (by rw [(emit_frame s origin event).2.2.1])
  | event emission rest halive harm hq =>
    exact Or.inr ⟨_, (fun he => by cases he), Session.step_deliver (s.sessions c) _⟩
  | _ => exact Or.inl rfl

end System

end HardLight
