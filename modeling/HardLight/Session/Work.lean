import HardLight.Session.Basic

/-!
# Work

The work of the two loops of a session: taking calls, moving messages, and, for the handlers that return, their
responses. A loop that sends awaits the send and reads nothing meanwhile, and a send may have to wait until the other
end has read.

* `Conn.distance` : how many arms are passed over before one is taken;
* `Conn.work`, `ClientLoop.work`, `Session.work` : how much work there is;
* `Socket`, `SendsUp`, `SendsDown` : when a send goes through;
* `Work`, `step_work` : a step of work makes it less; `step_brings` : how much more another step can make it.
-/

namespace HardLight
open Lib

/-- The arms in the order in which they are polled from an arm on. -/
def Arm.round (arm : Arm) : List Arm :=
  [arm, arm.next, arm.next.next, arm.next.next.next, arm.next.next.next.next]

theorem Arm.mem_round (arm arm' : Arm) : arm' ∈ arm.round := by
  cases arm <;> cases arm' <;> decide

theorem Arm.round_next (arm : Arm) : ∃ rest, arm.round = arm :: rest ∧ arm.next.round = rest ++ [arm] := by
  cases arm <;> exact ⟨_, rfl, rfl⟩

namespace Conn

/-- How many arms are passed over before one is taken. -/
def distance (k : Conn) : Nat := k.arm.round.findIdx k.ready

theorem distance_le (k : Conn) : k.distance ≤ 5 := by
  show k.arm.round.findIdx k.ready ≤ k.arm.round.length
  exact List.findIdx_le_length

/-- Passing over an arm comes nearer to one that is taken, if there is one. -/
theorem distance_pollNext {k : Conn} (hready : k.ready k.arm = false) {arm : Arm} (harm : k.ready arm = true) :
    ({ k with arm := k.arm.next } : Conn).distance < k.distance := by
  obtain ⟨rest, hround, hnext⟩ := k.arm.round_next
  have hin : arm ∈ rest := by
    have hmem := k.arm.mem_round arm
    rw [hround, List.mem_cons] at hmem
    rcases hmem with rfl | hmem
    · rw [hready] at harm
      cases harm
    · exact hmem
  have hsame : ({ k with arm := k.arm.next } : Conn).ready = k.ready := by
    funext arm
    cases arm <;> rfl
  have hlt : rest.findIdx k.ready < rest.length := List.findIdx_lt_length_of_exists ⟨arm, hin, harm⟩
  rw [distance, distance, hsame]
  show k.arm.next.round.findIdx k.ready < _
  rw [hnext, hround, List.findIdx_cons, hready, List.findIdx_append, if_pos hlt]
  exact Nat.lt_succ_self _

theorem step_pollNext {k k' : Conn} {arm : Arm} (harm : k.ready arm = true) (h : k.step .pollNext = some k') :
    k'.distance < k.distance := by
  cases step_cases h with
  | passedOver hpolls hready => exact distance_pollNext hready harm

/-- The work there is for the connection loop, its handler tasks and the reader of its messages. -/
def work (k : Conn) : Nat :=
  7 * k.wsIn.length + 6 * k.tasks.length + 5 * k.rpcRx.length + 4 * (k.stateChangeRx.length + k.eventsRx.length) +
    3 * k.proxyRx.length + 2 * k.sending.toList.length + k.wsOut.length

end Conn

namespace ConnAct

/-- The connection loop takes something, or passes it on. -/
def moves : ConnAct → Bool
  | response => true
  | stateChange => true
  | event => true
  | subscription _ _ => true
  | clientMessage _ => true
  | sendDone ok => ok
  | handlerReturns _ _ => true
  | _ => false

end ConnAct

namespace ConnAct

/-- How much work the action can bring. -/
def brings : ConnAct → Nat
  | deliver events => 4 * events.length
  | _ => 10

end ConnAct

namespace ClientAct

/-- The request branch takes something, or passes it on. -/
def moves : ClientAct → Bool
  | takeRequest => true
  | send outcome => decide (outcome = .sent)
  | fillSlot => true
  | _ => false

end ClientAct

namespace Conn

theorem step_work {k k' : Conn} {a : ConnAct} (ha : a.moves = true) (h : k.step a = some k') :
    k'.work < k.work := by
  cases step_cases h with
  | responded r rest hpolls hq =>
    simp only [work, hq, (polls_iff.mp hpolls).2.1, List.length_cons, Option.toList_some, Option.toList_none,
      List.length_nil]
    omega
  | stateChanged changes rest hpolls hq =>
    simp only [work, hq, (polls_iff.mp hpolls).2.1, List.length_cons, Option.toList_some, Option.toList_none,
      List.length_nil]
    omega
  | newEvent e rest hpolls hq =>
    simp only [work, hq, (polls_iff.mp hpolls).2.1, List.length_cons, Option.toList_some, Option.toList_none,
      List.length_nil]
    omega
  | notified id alive o rest subscriptions hpolls hq =>
    simp only [work, hq, List.length_cons]
    omega
  | noRequest decoded item rest hpolls hq hitem =>
    simp only [work, hq, List.length_cons]
    omega
  | undecoded r rest hpolls hq =>
    simp only [work, hq, List.length_cons]
    omega
  | ignored r rest hpolls hq hbusy =>
    simp only [work, hq, List.length_cons]
    omega
  | accepted r rest hpolls hq hfree =>
    simp only [work, hq, List.length_cons, List.length_append, List.length_nil]
    omega
  | sent msg hsending hrun =>
    simp only [work, hsending, List.length_append, List.length_cons, List.length_nil, Option.toList_some,
      Option.toList_none]
    omega
  | returned n output r hr hrun =>
    obtain ⟨hn, -⟩ := List.getElem?_eq_some_iff.mp hr
    simp only [work, List.length_eraseIdx_of_lt hn, List.length_append, List.length_cons, List.length_nil]
    omega
  | orphaned n output r hr hexited =>
    obtain ⟨hn, -⟩ := List.getElem?_eq_some_iff.mp hr
    simp only [work, List.length_eraseIdx_of_lt hn]
    omega
  | _ => cases ha

theorem work_pollNext {k k' : Conn} (h : k.step .pollNext = some k') : k'.work = k.work := by
  cases step_cases h with
  | passedOver hpolls hready => rfl

/-- What does not make less work makes little more. -/
theorem step_brings {k k' : Conn} {a : ConnAct} (h : k.step a = some k') : k'.work ≤ k.work + a.brings := by
  cases hmoves : a.moves with
  | true => exact (step_work hmoves h).le.trans (Nat.le_add_right _ _)
  | false =>
    cases step_cases h with
    | asked n o hrun hcaller =>
      simp only [work, ConnAct.brings, List.length_append, List.length_singleton]
      omega
    | updated changes hrun hroom =>
      simp only [work, ConnAct.brings, List.length_append, List.length_singleton]
      omega
    | delivered events =>
      simp only [work, ConnAct.brings, List.length_append]
      omega
    | arrived item hopen =>
      simp only [work, ConnAct.brings, List.length_append, List.length_singleton]
      omega
    | lost msg hsending hrun =>
      simp only [work, hsending, Option.toList_some, Option.toList_none, List.length_singleton, List.length_nil]
      omega
    | panicked n r hr =>
      obtain ⟨hn, -⟩ := List.getElem?_eq_some_iff.mp hr
      simp only [work, List.length_eraseIdx_of_lt hn]
      omega
    | read msg rest hq =>
      simp only [work, hq, List.length_cons]
      omega
    | passedOver hpolls hready => exact Nat.le_add_right _ _
    | noArmLeft hpolls hall => exact Nat.le_add_right _ _
    | ended => exact Nat.le_add_right _ _
    | _ => cases hmoves

theorem work_peerSend {k k' : Conn} {item : WsItem} (h : k.step (.peerSend item) = some k') :
    k'.work = k.work + 7 := by
  cases step_cases h with
  | arrived item hopen =>
    simp only [work, List.length_append, List.length_singleton]
    omega

theorem work_peerRead {k k' : Conn} (h : k.step .peerRead = some k') : k'.work + 1 = k.work := by
  cases step_cases h with
  | read msg rest hq =>
    simp only [work, hq, List.length_cons]
    omega

end Conn

namespace ClientLoop
variable {S : StateStruct}

/-- The work there is for the request branch of the loop. -/
def work (c : ClientLoop S) : Nat :=
  10 * c.rpcRequestRx.length +
    match c.phase with
    | .sending _ _ _ => 9
    | .sent _ _ => 1
    | _ => 0

theorem work_select {c : ClientLoop S} (h : c.phase = .select) : c.work = 10 * c.rpcRequestRx.length := by
  rw [work, h, Nat.add_zero]

theorem Receives.work {c c' : ClientLoop S} {r : Option Response} (h : Receives c r c') : c'.work = c.work := by
  cases h with
  | completed r call hphase hslot =>
    rw [work_select rfl, work_select hphase]
    rfl
  | unknown r hphase hslot => rfl
  | other state events hphase => rfl

theorem step_work {c c' : ClientLoop S} {a : ClientAct} {out : Option Request} (ha : a.moves = true)
    (h : c.step a = some (c', out)) : c'.work + 7 * out.toList.length < c.work := by
  cases a with
  | takeRequest =>
    obtain ⟨c'', htake, heq⟩ := Option.map_eq_some_iff.mp h
    obtain ⟨rfl, rfl⟩ := Prod.mk.inj heq
    obtain ⟨internal, call, rest, hphase, hq, ⟨slot, -, rfl⟩ | ⟨-, rfl⟩⟩ := takeRequest_cases htake
    · rw [work_select hphase, hq]
      simp only [work, List.length_cons, Option.toList_none, List.length_nil]
      omega
    · rw [work_select hphase, hq, work_select rfl]
      simp only [complete, List.length_cons, Option.toList_none, List.length_nil]
      omega
  | send outcome =>
    obtain ⟨slot, call, internal, hphase, ⟨-, heq⟩ | ⟨error, herror, -⟩⟩ := onSend_cases h
    · obtain ⟨rfl, rfl⟩ := Prod.mk.inj heq
      simp only [work, hphase, Option.toList_some, List.length_singleton]
      omega
    · cases outcome with
      | sent => cases herror
      | _ => cases ha
  | fillSlot =>
    obtain ⟨c'', hfill, heq⟩ := Option.map_eq_some_iff.mp h
    obtain ⟨rfl, rfl⟩ := Prod.mk.inj heq
    obtain ⟨slot, call, hphase, rfl⟩ := fillSlot_cases hfill
    simp only [work, hphase, Option.toList_none, List.length_nil]
    omega
  | _ => cases ha

theorem step_brings {c c' : ClientLoop S} {a : ClientAct} {out : Option Request} (h : c.step a = some (c', out)) :
    c'.work + 7 * out.toList.length ≤ c.work + 10 := by
  cases hmoves : a.moves with
  | true => exact (step_work hmoves h).le.trans (Nat.le_add_right _ _)
  | false =>
    cases a with
    | call internal =>
      obtain ⟨c'', hcall, heq⟩ := Option.map_eq_some_iff.mp h
      obtain ⟨rfl, rfl⟩ := Prod.mk.inj heq
      rw [call_cases hcall]
      simp only [work, List.length_append, List.length_singleton, Option.toList_none, List.length_nil]
      omega
    | send outcome =>
      obtain ⟨slot, call, internal, hphase, ⟨rfl, -⟩ | ⟨error, -, heq⟩⟩ := onSend_cases h
      · cases hmoves
      · obtain ⟨rfl, rfl⟩ := Prod.mk.inj heq
        rw [work_select rfl, work, hphase]
        simp only [complete, Option.toList_none, List.length_nil]
        omega
    | shutdown =>
      obtain ⟨c'', hshutdown, heq⟩ := Option.map_eq_some_iff.mp h
      obtain ⟨rfl, rfl⟩ := Prod.mk.inj heq
      obtain ⟨hphase, rfl⟩ := shutdown_cases hshutdown
      rw [work_select hphase]
      simp only [work, Option.toList_none, List.length_nil]
      omega
    | takeRequest => cases hmoves
    | fillSlot => cases hmoves

end ClientLoop

/-- The buffers between the two ends of a connection: whether a message has room behind those that the other end has
not read. -/
structure Socket where
  up : List WsItem → Bool
  down : List ServerMessage → Bool

/-- Every send completes. -/
def Socket.Completes (socket : Socket) : Prop :=
  (∀ items, socket.up items = true) ∧ ∀ messages, socket.down messages = true

namespace SessionAct

/-- How much work the action can bring, with the arms that are passed over. -/
def brings : SessionAct → Nat
  | client _ => 65
  | receive _ => 0
  | conn a => 6 * a.brings + 5
  | abort => 0

end SessionAct

namespace Session
variable {S : StateStruct}

/-- The work there is for both loops, each taking of something together with the arms passed over before it. -/
def work (s : Session S) : Nat := 6 * (s.client.work + s.conn.work) + s.conn.distance

/-- The client's send goes through: there is room for the request, or the connection loop has read all before it and
reads on. -/
def SendsUp (socket : Socket) (s : Session S) : Prop :=
  socket.up s.conn.wsIn = true ∨ s.conn.wsIn = [] ∧ s.conn.sending = none

/-- The connection loop's send goes through: there is room for the message, or the client's loop has read all before it
and reads on. -/
def SendsDown (socket : Socket) (s : Session S) : Prop :=
  socket.down s.conn.wsOut = true ∨ s.conn.wsOut = [] ∧ s.client.phase = .select

/-- A step of work. `returns` says what the handler of a request returns, if it ever does. -/
def Work (socket : Socket) (returns : Request → Option (HandlerResult Bytes)) (s : Session S) : SessionAct → Prop
  | .client .takeRequest => True
  | .client (.send outcome) => outcome = .sent ∧ s.SendsUp socket
  | .client .fillSlot => True
  | .receive decoded => decoded = true
  | .conn .pollNext => ∃ arm, s.conn.ready arm = true
  | .conn .response => True
  | .conn .stateChange => True
  | .conn .event => True
  | .conn (.subscription _ _) => True
  | .conn (.clientMessage decoded) => decoded = true
  | .conn (.sendDone ok) => ok = true ∧ s.SendsDown socket
  | .conn (.handlerReturns n output) => ∃ r, s.conn.tasks[n]? = some r ∧ returns r = some output
  | _ => False

theorem work_lt {s s' : Session S} (h : s'.client.work + s'.conn.work < s.client.work + s.conn.work) :
    s'.work < s.work := by
  have hle := s'.conn.distance_le
  rw [work, work]
  omega

theorem work_moves {s s' : Session S} {a : ConnAct} (ha : a.moves = true) (h : s.step (.conn a) = some s') :
    s'.work < s.work := by
  obtain ⟨hc, -, -, hk⟩ := step_conn h
  have hconn := Conn.step_work ha hk
  exact work_lt (by rw [hc]; omega)

/-- **Work gets less with every step of it.** -/
theorem step_work {socket : Socket} {returns : Request → Option (HandlerResult Bytes)} {s s' : Session S}
    {a : SessionAct} (hW : s.Work socket returns a) (h : s.step a = some s') : s'.work < s.work := by
  cases a with
  | client a =>
    obtain ⟨out, hc, -, hk⟩ := step_client h
    have hmoves : a.moves = true := by
      cases a with
      | send outcome =>
        obtain ⟨rfl, -⟩ := hW
        rfl
      | call => cases hW
      | shutdown => cases hW
      | _ => rfl
    have hclient := ClientLoop.step_work hmoves hc
    cases out with
    | none => exact work_lt (by rw [hk]; simpa using hclient)
    | some r =>
      have hconn := Conn.work_peerSend hk
      rw [Option.toList_some, List.length_singleton] at hclient
      exact work_lt (by omega)
  | receive decoded =>
    obtain ⟨msg, rest, -, -, hc, hk⟩ := step_receive h
    have hclient := (ClientLoop.onServerMessage_cases hc).work
    have hconn := Conn.work_peerRead hk
    exact work_lt (by omega)
  | conn a =>
    cases a with
    | pollNext =>
      obtain ⟨arm, harm⟩ := hW
      obtain ⟨hc, -, -, hk⟩ := step_conn h
      have hdistance := Conn.step_pollNext harm hk
      rw [work, work, hc, Conn.work_pollNext hk]
      omega
    | sendDone ok =>
      obtain ⟨rfl, -⟩ := hW
      exact work_moves rfl h
    | response => exact work_moves rfl h
    | stateChange => exact work_moves rfl h
    | event => exact work_moves rfl h
    | subscription id alive => exact work_moves rfl h
    | clientMessage decoded => exact work_moves rfl h
    | handlerReturns n output => exact work_moves rfl h
    | _ => cases hW
  | abort => cases hW

/-- **Other steps bring a bounded amount of work.** -/
theorem step_brings {s s' : Session S} {a : SessionAct} (h : s.step a = some s') : s'.work ≤ s.work + a.brings := by
  have hle := s'.conn.distance_le
  cases a with
  | client a =>
    obtain ⟨out, hc, -, hk⟩ := step_client h
    have hclient := ClientLoop.step_brings hc
    have hconn : s'.conn.work = s.conn.work + 7 * out.toList.length := by
      cases out with
      | none => rw [hk]; rfl
      | some r => exact Conn.work_peerSend hk
    rw [work, work, SessionAct.brings]
    omega
  | receive decoded =>
    obtain ⟨msg, rest, -, -, hc, hk⟩ := step_receive h
    have hclient := (ClientLoop.onServerMessage_cases hc).work
    have hconn := Conn.work_peerRead hk
    exact (work_lt (by omega)).le
  | conn a =>
    obtain ⟨hc, -, -, hk⟩ := step_conn h
    have hconn := Conn.step_brings hk
    rw [work, work, hc, SessionAct.brings]
    omega
  | abort =>
    cases h
    exact Nat.le_refl _

end Session

end HardLight
