import HardLight.Server.Conn
import Mathlib.Data.List.Perm.Basic

/-!
# The RPC side of the connection loop

`rpcView` keeps of a connection what its RPC side is about: the `in_flight` table, the requests on their
way in, the handler tasks, the responses queued in `rpc_rx`, the responses on their way out, and the
histories. `Step` is an abstract server on such views, with one rule for each thing that can happen to a
request; everything else is `silent`.

`step_rpcView` : every step of a connection is a step of the abstract server, under the label `rpcLabel`.
-/

namespace HardLight
open Lib

structure RpcView where
  inFlight : Fin 256 → Bool
  requests : List Request
  tasks : List Request
  rpcRx : List Response
  replies : List Response
  accepted : List Request
  responded : List Response
  crashed : List Request

inductive RpcLabel
  | silent
  | arrived (r : Request)
  | lost (r : Request)
  | ignored (r : Request)
  | accepted (r : Request)
  | returned (r : Request) (output : HandlerResult Bytes)
  | panicked (r : Request)
  | responded (r : Response)
  | replyLost (r : Response)
  | read (r : Response)

/-- The response a handler task sends for its request. -/
def Request.respond (r : Request) (output : HandlerResult Bytes) : Response :=
  { id := r.id, output := output, call := r.call }

namespace RpcView

/-- The abstract server. -/
inductive Step : RpcView → RpcLabel → RpcView → Prop
  | silent (v : RpcView) : Step v .silent v
  | arrived (v : RpcView) (r : Request) : Step v (.arrived r) { v with requests := v.requests ++ [r] }
  | lost (v : RpcView) (r : Request) (rest : List Request) (h : v.requests = r :: rest) :
      Step v (.lost r) { v with requests := rest }
  | ignored (v : RpcView) (r : Request) (rest : List Request) (h : v.requests = r :: rest)
      (hbusy : v.inFlight (slotOf r.id) = true) : Step v (.ignored r) { v with requests := rest }
  | accepted (v : RpcView) (r : Request) (rest : List Request) (h : v.requests = r :: rest)
      (hfree : v.inFlight (slotOf r.id) = false) :
      Step v (.accepted r) { v with
        requests := rest
        inFlight := Function.update v.inFlight (slotOf r.id) true
        tasks := v.tasks ++ [r]
        accepted := v.accepted ++ [r] }
  | returned (v : RpcView) (r : Request) (output : HandlerResult Bytes) (tasks : List Request)
      (h : v.tasks.Perm (r :: tasks)) :
      Step v (.returned r output) { v with tasks := tasks, rpcRx := v.rpcRx ++ [r.respond output] }
  | panicked (v : RpcView) (r : Request) (tasks : List Request) (h : v.tasks.Perm (r :: tasks)) :
      Step v (.panicked r) { v with tasks := tasks, crashed := v.crashed ++ [r] }
  | responded (v : RpcView) (r : Response) (rest : List Response) (h : v.rpcRx = r :: rest) :
      Step v (.responded r) { v with
        rpcRx := rest
        inFlight := Function.update v.inFlight (slotOf r.id) false
        replies := v.replies ++ [r]
        responded := v.responded ++ [r] }
  | replyLost (v : RpcView) (r : Response) (front : List Response) (h : v.replies = front ++ [r]) :
      Step v (.replyLost r) { v with replies := front }
  | read (v : RpcView) (r : Response) (rest : List Response) (h : v.replies = r :: rest) :
      Step v (.read r) { v with replies := rest }

theorem Step.eq_of_silent {v v' : RpcView} (h : Step v .silent v') : v' = v := by
  cases h
  rfl

end RpcView

namespace Conn

/-- The requests on the WebSocket. -/
def requests (k : Conn) : List Request := k.wsIn.filterMap WsItem.request?

/-- The responses on the WebSocket, the one handed to `send_msg` included. -/
def replies (k : Conn) : List Response := (k.wsOut ++ k.sending.toList).filterMap ServerMessage.response?

@[simps]
def rpcView (k : Conn) : RpcView where
  inFlight := k.inFlight
  requests := k.requests
  tasks := k.tasks
  rpcRx := k.rpcRx
  replies := k.replies
  accepted := k.accepted
  responded := k.responded
  crashed := k.crashed

/-- What an action does to the RPC side. -/
def rpcLabel (k : Conn) : ConnAct → RpcLabel
  | .response =>
    match k.rpcRx with
    | r :: _ => .responded r
    | [] => .silent
  | .clientMessage decoded =>
    match k.wsIn with
    | .binary (some r) :: _ =>
      if decoded then if k.inFlight (slotOf r.id) then .ignored r else .accepted r else .lost r
    | _ => .silent
  | .sendDone ok =>
    match k.sending with
    | some (.rpcResponse r) => if ok then .silent else .replyLost r
    | _ => .silent
  | .handlerReturns n output =>
    match k.tasks[n]? with
    | some r => if k.exited then .panicked r else .returned r output
    | none => .silent
  | .handlerPanics n =>
    match k.tasks[n]? with
    | some r => .panicked r
    | none => .silent
  | .peerSend item =>
    match item.request? with
    | some r => .arrived r
    | none => .silent
  | .peerRead =>
    match k.wsOut with
    | .rpcResponse r :: _ => .read r
    | _ => .silent
  | _ => .silent

theorem perm_eraseIdx {α : Type*} {l : List α} {n : Nat} {x : α} (h : l[n]? = some x) :
    l.Perm (x :: l.eraseIdx n) := by
  obtain ⟨hn, rfl⟩ := List.getElem?_eq_some_iff.mp h
  exact (List.getElem_cons_eraseIdx_perm hn).symm

theorem rpcView_sending {k k' : Conn} (msg : ServerMessage) (hmsg : msg.response? = none)
    (hs : k.sending = none)
    (h : k'.rpcView = { k.rpcView with
      replies := (k.wsOut ++ [msg]).filterMap ServerMessage.response? }) : k'.rpcView = k.rpcView := by
  rw [h]
  simp [rpcView, replies, hs, hmsg]

theorem requests_cons {k : Conn} {r : Request} {rest : List WsItem} (hq : k.wsIn = .binary (some r) :: rest) :
    k.rpcView.requests = r :: rest.filterMap WsItem.request? := by
  simp [rpcView, requests, hq, WsItem.request?]

/-- **A connection refines the abstract server.** -/
theorem step_rpcView {k k' : Conn} {a : ConnAct} (h : k.step a = some k') :
    RpcView.Step k.rpcView (k.rpcLabel a) k'.rpcView := by
  have hsilent : ∀ {k'' : Conn}, k''.rpcView = k.rpcView → RpcView.Step k.rpcView .silent k''.rpcView :=
    fun he => he ▸ .silent _
  cases step_cases h with
  | responded r rest hpolls hq =>
    have hlabel : k.rpcLabel .response = .responded r := by simp only [rpcLabel, hq]
    have hreplies : k.replies ++ [r] =
        (k.wsOut ++ [ServerMessage.rpcResponse r]).filterMap ServerMessage.response? := by
      simp [replies, (polls_iff.mp hpolls).2.1, ServerMessage.response?]
    have hstep := RpcView.Step.responded k.rpcView r rest hq
    rw [show k.rpcView.replies = k.replies from rfl, hreplies] at hstep
    rw [hlabel]
    exact hstep
  | stateChanged changes rest hpolls hq =>
    exact hsilent (rpcView_sending (.stateChange changes) rfl (polls_iff.mp hpolls).2.1 rfl)
  | newEvent e rest hpolls hq =>
    exact hsilent (rpcView_sending (.newEvent e.topic e.payload) rfl (polls_iff.mp hpolls).2.1 rfl)
  | noRequest decoded item rest hpolls hq hitem =>
    have hlabel : k.rpcLabel (.clientMessage decoded) = .silent := by
      simp only [rpcLabel, hq]
      split
      next heq =>
        cases heq
        cases hitem
      next => rfl
    rw [hlabel]
    exact hsilent (by simp [rpcView, requests, replies, hq, hitem])
  | undecoded r rest hpolls hq =>
    simp only [rpcLabel, hq, Bool.false_eq_true, if_false]
    exact .lost _ r _ (requests_cons hq)
  | ignored r rest hpolls hq hbusy =>
    simp only [rpcLabel, hq, hbusy, if_true]
    exact .ignored _ r _ (requests_cons hq) hbusy
  | accepted r rest hpolls hq hfree =>
    simp only [rpcLabel, hq, hfree, if_true, Bool.false_eq_true, if_false]
    exact .accepted _ r _ (requests_cons hq) hfree
  | sent msg hsending hrun =>
    have hlabel : k.rpcLabel (.sendDone true) = .silent := by
      simp only [rpcLabel, hsending]
      cases msg <;> rfl
    rw [hlabel]
    exact hsilent (by simp [rpcView, requests, replies, hsending])
  | lost msg hsending hrun =>
    simp only [rpcLabel, hsending]
    cases msg with
    | rpcResponse r =>
      have hrep : k.rpcView.replies = k.wsOut.filterMap ServerMessage.response? ++ [r] := by
        simp [rpcView, replies, hsending, ServerMessage.response?]
      have hstep := RpcView.Step.replyLost k.rpcView r _ hrep
      have hlost : ({ k with sending := none } : Conn).rpcView =
          { k.rpcView with replies := k.wsOut.filterMap ServerMessage.response? } := by
        simp [rpcView, replies, requests]
      rw [hlost]
      exact hstep
    | newEvent topic payload =>
      exact hsilent (by simp [rpcView, requests, replies, hsending, ServerMessage.response?])
    | stateChange changes =>
      exact hsilent (by simp [rpcView, requests, replies, hsending, ServerMessage.response?])
  | returned n output r hr hrun =>
    simp only [rpcLabel, hr, hrun, Bool.false_eq_true, if_false]
    exact .returned k.rpcView r output _ (perm_eraseIdx hr)
  | orphaned n output r hr hexited =>
    simp only [rpcLabel, hr, hexited, if_true]
    exact .panicked k.rpcView r _ (perm_eraseIdx hr)
  | panicked n r hr =>
    simp only [rpcLabel, hr]
    exact .panicked k.rpcView r _ (perm_eraseIdx hr)
  | arrived item hopen =>
    simp only [rpcLabel]
    cases hi : item.request? with
    | some r =>
      have hstep := RpcView.Step.arrived k.rpcView r
      simpa only [rpcView, requests, replies, List.filterMap_append, List.filterMap_cons, hi,
        List.filterMap_nil] using hstep
    | none => exact hsilent (by simp [rpcView, requests, replies, hi])
  | read msg rest hq =>
    simp only [rpcLabel, hq]
    cases msg with
    | rpcResponse r =>
      have hrep : k.rpcView.replies = r :: (rest ++ k.sending.toList).filterMap ServerMessage.response? := by
        simp [rpcView, replies, hq, ServerMessage.response?]
      exact .read k.rpcView r _ hrep
    | newEvent topic payload =>
      exact hsilent (by
        simp [rpcView, requests, replies, hq, List.filterMap_cons, ServerMessage.response?])
    | stateChange changes =>
      exact hsilent (by
        simp [rpcView, requests, replies, hq, List.filterMap_cons, ServerMessage.response?])
  | _ => exact hsilent rfl

end Conn

end HardLight
