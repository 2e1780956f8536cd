import HardLight.Server.Conn

/-!
# What a connection sends

State updates and events come to the connection loop in two queues and leave it on the WebSocket, where
responses stand between them. `trafficView` keeps the queues, the messages on their way out and those
the peer has read; `step_trafficView` says how each step moves them.

* `stateLine` : the change lists on their way to the client, in the order in which it will read them;
* `eventLine` : the events the client has read and those on their way to it, in order;
* `Step.stateLine`, `Step.eventLine` : with no message lost, both are plain queues.
-/

namespace HardLight
open Lib

structure TrafficView where
  stateChangeRx : List (List StateUpdate)
  eventsRx : List Event
  outbox : List ServerMessage
  wsRead : List ServerMessage

inductive TrafficLabel
  /-- Nothing but responses moves, or a queue passes its first item on. -/
  | passing
  | updated (changes : List StateUpdate)
  | delivered (events : List Event)
  | read (msg : ServerMessage)
  | lost (msg : ServerMessage)

namespace TrafficLabel

def isLost : TrafficLabel → Bool
  | lost _ => true
  | _ => false

/-- The change lists that come into the connection. -/
def stateIn : TrafficLabel → List (List StateUpdate)
  | updated changes => [changes]
  | _ => []

/-- The change lists that the peer reads. -/
def stateOut : TrafficLabel → List (List StateUpdate)
  | read msg => msg.changes?.toList
  | _ => []

/-- The events that come into the connection. -/
def eventsIn : TrafficLabel → List Event
  | delivered events => events
  | _ => []

end TrafficLabel

namespace TrafficView

inductive Step : TrafficView → TrafficLabel → TrafficView → Prop
  | silent (v : TrafficView) : Step v .passing v
  | responded (v : TrafficView) (r : Response) :
      Step v .passing { v with outbox := v.outbox ++ [.rpcResponse r] }
  | stateChanged (v : TrafficView) (changes : List StateUpdate) (rest : List (List StateUpdate))
      (h : v.stateChangeRx = changes :: rest) :
      Step v .passing { v with stateChangeRx := rest, outbox := v.outbox ++ [.stateChange changes] }
  | newEvent (v : TrafficView) (e : Event) (rest : List Event) (h : v.eventsRx = e :: rest) :
      Step v .passing { v with eventsRx := rest, outbox := v.outbox ++ [.newEvent e.topic e.payload] }
  | updated (v : TrafficView) (changes : List StateUpdate) :
      Step v (.updated changes) { v with stateChangeRx := v.stateChangeRx ++ [changes] }
  | delivered (v : TrafficView) (events : List Event) :
      Step v (.delivered events) { v with eventsRx := v.eventsRx ++ events }
  | read (v : TrafficView) (msg : ServerMessage) (rest : List ServerMessage) (h : v.outbox = msg :: rest) :
      Step v (.read msg) { v with outbox := rest, wsRead := v.wsRead ++ [msg] }
  | lost (v : TrafficView) (msg : ServerMessage) (front : List ServerMessage)
      (h : v.outbox = front ++ [msg]) : Step v (.lost msg) { v with outbox := front }

def stateLine (v : TrafficView) : List (List StateUpdate) :=
  v.outbox.filterMap ServerMessage.changes? ++ v.stateChangeRx

def eventLine (v : TrafficView) : List Event :=
  (v.wsRead ++ v.outbox).filterMap ServerMessage.event? ++ v.eventsRx

/-- **The line of change lists.** What is sent joins it at the end, what is read leaves it in front. -/
theorem Step.stateLine {v v' : TrafficView} {l : TrafficLabel} (h : Step v l v') (hl : l.isLost = false) :
    v.stateLine ++ l.stateIn = l.stateOut ++ v'.stateLine := by
  cases h with
  | silent => simp [TrafficLabel.stateIn, TrafficLabel.stateOut]
  | responded r => simp [TrafficView.stateLine, TrafficLabel.stateIn, TrafficLabel.stateOut, ServerMessage.changes?]
  | stateChanged changes rest hq =>
    simp [TrafficView.stateLine, TrafficLabel.stateIn, TrafficLabel.stateOut, hq, ServerMessage.changes?]
  | newEvent e rest hq =>
    simp [TrafficView.stateLine, TrafficLabel.stateIn, TrafficLabel.stateOut, ServerMessage.changes?]
  | updated changes => simp [TrafficView.stateLine, TrafficLabel.stateIn, TrafficLabel.stateOut]
  | delivered events => simp [TrafficView.stateLine, TrafficLabel.stateIn, TrafficLabel.stateOut]
  | read msg rest hout =>
    simp only [TrafficView.stateLine, TrafficLabel.stateIn, TrafficLabel.stateOut, hout, List.append_nil]
    cases msg <;> simp [List.filterMap_cons, ServerMessage.changes?]
  | lost msg front hout => cases hl

/-- **The line of events.** What is delivered joins it at the end, and nothing leaves it. -/
theorem Step.eventLine {v v' : TrafficView} {l : TrafficLabel} (h : Step v l v') (hl : l.isLost = false) :
    v'.eventLine = v.eventLine ++ l.eventsIn := by
  cases h with
  | silent => simp [TrafficLabel.eventsIn]
  | responded r => simp [TrafficView.eventLine, TrafficLabel.eventsIn, ServerMessage.event?]
  | stateChanged changes rest hq => simp [TrafficView.eventLine, TrafficLabel.eventsIn, ServerMessage.event?]
  | newEvent e rest hq => simp [TrafficView.eventLine, TrafficLabel.eventsIn, hq, ServerMessage.event?]
  | updated changes => simp [TrafficView.eventLine, TrafficLabel.eventsIn]
  | delivered events => simp [TrafficView.eventLine, TrafficLabel.eventsIn]
  | read msg rest hout => simp [TrafficView.eventLine, TrafficLabel.eventsIn, hout]
  | lost msg front hout => cases hl

end TrafficView

namespace Conn

/-- The messages on their way to the peer, the one handed to `send_msg` last. -/
def outbox (k : Conn) : List ServerMessage := k.wsOut ++ k.sending.toList

@[simps]
def trafficView (k : Conn) : TrafficView where
  stateChangeRx := k.stateChangeRx
  eventsRx := k.eventsRx
  outbox := k.outbox
  wsRead := k.wsRead

/-- What an action does to the traffic. -/
def trafficLabel (k : Conn) : ConnAct → TrafficLabel
  | .sendDone ok =>
    match k.sending with
    | some msg => if ok then .passing else .lost msg
    | none => .passing
  | .stateUpdate changes => .updated changes
  | .deliver events => .delivered events
  | .peerRead =>
    match k.wsOut with
    | msg :: _ => .read msg
    | [] => .passing
  | _ => .passing

theorem outbox_of_sending_none {k : Conn} (h : k.sending = none) (msg : ServerMessage) :
    k.wsOut ++ [msg] = k.outbox ++ [msg] := by
  rw [outbox, h, Option.toList_none, List.append_nil]

/-- **Every step of a connection moves its traffic as the view does.** -/
theorem step_trafficView {k k' : Conn} {a : ConnAct} (h : k.step a = some k') :
    TrafficView.Step k.trafficView (k.trafficLabel a) k'.trafficView := by
  -- what is handed to `send_msg` goes to the end of the outbox
  have hhanded {arm : Arm} (hpolls : k.polls arm = true) (msg : ServerMessage) :
      k.trafficView.outbox ++ [msg] = k.wsOut ++ [msg] := by
    rw [trafficView_outbox, outbox_of_sending_none (polls_iff.mp hpolls).2.1]
  cases step_cases h with
  | responded r rest hpolls hq =>
    have hstep := TrafficView.Step.responded k.trafficView r
    rw [hhanded hpolls] at hstep
    exact hstep
  | stateChanged changes rest hpolls hq =>
    have hstep := TrafficView.Step.stateChanged k.trafficView changes rest hq
    rw [hhanded hpolls] at hstep
    exact hstep
  | newEvent e rest hpolls hq =>
    have hstep := TrafficView.Step.newEvent k.trafficView e rest hq
    rw [hhanded hpolls] at hstep
    exact hstep
  | sent msg hsending hrun =>
    have hout : k.outbox = k.wsOut ++ [msg] := by rw [outbox, hsending, Option.toList_some]
    have hsame : ({ k with sending := none, wsOut := k.wsOut ++ [msg] } : Conn).trafficView = k.trafficView := by
      simp only [trafficView, hout]
      simp [outbox]
    simp only [trafficLabel, hsending, if_true]
    rw [hsame]
    exact .silent _
  | lost msg hsending hrun =>
    have hout : k.outbox = k.wsOut ++ [msg] := by rw [outbox, hsending, Option.toList_some]
    have hstep := TrafficView.Step.lost k.trafficView msg k.wsOut hout
    simpa only [trafficLabel, hsending, trafficView, outbox, Option.toList_none, List.append_nil,
      Bool.false_eq_true, if_false] using hstep
  | updated changes hrun hroom => exact .updated _ changes
  | delivered events => exact .delivered _ events
  | read msg rest hq =>
    simp only [trafficLabel, hq]
    have hout : k.trafficView.outbox = msg :: (rest ++ k.sending.toList) := by
      rw [trafficView_outbox, outbox, hq, List.cons_append]
    exact .read k.trafficView msg _ hout
  | _ => exact .silent _

theorem trafficLabel_isLost {k : Conn} {a : ConnAct} (h : a ≠ .sendDone false) :
    (k.trafficLabel a).isLost = false := by
  cases a with
  | sendDone ok =>
    cases ok with
    | false => exact absurd rfl h
    | true =>
      simp only [trafficLabel, ↓reduceIte]
      split <;> rfl
  | peerRead =>
    simp only [trafficLabel]
    split <;> rfl
  | _ => rfl

theorem trafficLabel_eventsIn {k : Conn} {a : ConnAct} (h : ∀ events, a ≠ .deliver events) :
    (k.trafficLabel a).eventsIn = [] := by
  cases a with
  | deliver events => exact absurd rfl (h events)
  | sendDone ok =>
    simp only [trafficLabel]
    repeat' first
      | rfl
      | split
  | peerRead =>
    simp only [trafficLabel]
    split <;> rfl
  | _ => rfl

/-- The events the peer has read and those on their way to it. -/
def eventLine (k : Conn) : List Event := k.trafficView.eventLine

theorem step_eventLine {k k' : Conn} {a : ConnAct} (h : k.step a = some k') (hsent : a ≠ .sendDone false)
    (hdel : ∀ events, a ≠ .deliver events) : k'.eventLine = k.eventLine := by
  have hline := (step_trafficView h).eventLine (trafficLabel_isLost hsent)
  rw [trafficLabel_eventsIn hdel, List.append_nil] at hline
  exact hline

end Conn

end HardLight
