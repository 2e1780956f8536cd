import HardLight.Client.Loop
import HardLight.Server.InFlight

/-!
# A session

One connection with both of its ends: the connection loop of the server, and its peer. When `shipped`
holds, the peer is the client loop, whose requests and reads are the only ones on the WebSocket; any
other peer may send what it likes.

* `RpcStep`, `step_rpcStep` : what a step does to the RPC side of the two ends.
-/

namespace HardLight

namespace ConnAct

/-- What the application protocol of the peer does: it sends a request, it reads a message. -/
def ofClient : ConnAct → Bool
  | peerSend item => item.request?.isSome
  | peerRead => true
  | _ => false

end ConnAct

structure Session (S : StateStruct) where
  /-- The peer is the client loop. -/
  shipped : Bool
  client : ClientLoop S
  conn : Conn

inductive SessionAct
  | client (a : ClientAct)
  /-- The client loop takes the next message from its stream. -/
  | receive (decoded : Bool)
  | conn (a : ConnAct)
  /-- The runtime drops the task of the connection. -/
  | abort

namespace SessionAct

/-- The message the action handles, if there is one, gets through. -/
def succeeds : SessionAct → Bool
  | receive decoded => decoded
  | conn a => a.succeeds
  | _ => true

end SessionAct

namespace Session
variable {S : StateStruct}

def init (S : StateStruct) (shipped : Bool) : Session S where
  shipped := shipped
  client := .init S
  conn := .init

def step (s : Session S) : SessionAct → Option (Session S)
  | .client a =>
    if s.shipped then
      match s.client.step a with
      | some (client, none) => some { s with client := client }
      | some (client, some r) =>
        (s.conn.step (.peerSend (.binary (some r)))).map fun conn => { s with client := client, conn := conn }
      | none => none
    else none
  | .receive decoded =>
    if s.shipped then
      match s.conn.wsOut with
      | msg :: _ =>
        match s.client.onServerMessage (if decoded then some msg else none) with
        | some client => (s.conn.step .peerRead).map fun conn => { s with client := client, conn := conn }
        | none => none
      | [] => none
    else none
  | .conn a =>
    if s.shipped && a.ofClient then none else (s.conn.step a).map fun conn => { s with conn := conn }
  | .abort => some { s with conn := { s.conn with exited := true } }

/-! ## What a step can do -/

/-- The steps of a session, as the RPC side of its two ends sees them. -/
inductive RpcStep (s s' : Session S) : SessionAct → Prop
  | server (a : ConnAct) (hclient : s'.client = s.client) (hserver : s.shipped = true → a.ofClient = false)
      (hview : RpcView.Step s.conn.rpcView (s.conn.rpcLabel a) s'.conn.rpcView) : RpcStep s s' (.conn a)
  | aborted (hclient : s'.client = s.client) (hview : s'.conn.rpcView = s.conn.rpcView) :
      RpcStep s s' .abort
  | client (a : ClientAct) (hclient : ClientLoop.Step s.client none s'.client)
      (hview : s'.conn.rpcView = s.conn.rpcView) : RpcStep s s' (.client a)
  | request (a : ClientAct) (r : Request) (hclient : ClientLoop.Step s.client (some r) s'.client)
      (hview : RpcView.Step s.conn.rpcView (.arrived r) s'.conn.rpcView) : RpcStep s s' (.client a)
  | response (r : Response) (hclient : ClientLoop.Receives s.client (some r) s'.client)
      (hview : RpcView.Step s.conn.rpcView (.read r) s'.conn.rpcView) : RpcStep s s' (.receive true)
  | unreadable (r : Response) (hclient : ClientLoop.Receives s.client none s'.client)
      (hview : RpcView.Step s.conn.rpcView (.read r) s'.conn.rpcView) : RpcStep s s' (.receive false)
  | message (decoded : Bool) (hclient : ClientLoop.Receives s.client none s'.client)
      (hview : s'.conn.rpcView = s.conn.rpcView) : RpcStep s s' (.receive decoded)

theorem step_client {s s' : Session S} {a : ClientAct} (h : s.step (.client a) = some s') :
    ∃ out, s.client.step a = some (s'.client, out) ∧ s'.shipped = s.shipped ∧
      match out with
      | none => s'.conn = s.conn
      | some r => s.conn.step (.peerSend (.binary (some r))) = some s'.conn := by
  rw [step, Option.ite_none_right_eq_some] at h
  obtain ⟨-, h⟩ := h
  split at h
  next client hc => cases h; exact ⟨none, hc, rfl, rfl⟩
  next client r hc =>
    rw [Option.map_eq_some_iff] at h
    obtain ⟨conn, hk, rfl⟩ := h
    exact ⟨some r, hc, rfl, hk⟩
  next => cases h

theorem step_receive {s s' : Session S} {decoded : Bool} (h : s.step (.receive decoded) = some s') :
    ∃ msg rest, s.conn.wsOut = msg :: rest ∧ s'.shipped = s.shipped ∧
      s.client.onServerMessage (if decoded then some msg else none) = some s'.client ∧
      s.conn.step .peerRead = some s'.conn := by
  rw [step, Option.ite_none_right_eq_some] at h
  obtain ⟨-, h⟩ := h
  split at h
  next msg rest hout =>
    split at h
    next client hc =>
      rw [Option.map_eq_some_iff] at h
      obtain ⟨conn, hk, rfl⟩ := h
      exact ⟨msg, rest, hout, rfl, hc, hk⟩
    next => cases h
  next => cases h

theorem step_conn {s s' : Session S} {a : ConnAct} (h : s.step (.conn a) = some s') :
    s'.client = s.client ∧ s'.shipped = s.shipped ∧ (s.shipped = true → a.ofClient = false) ∧
      s.conn.step a = some s'.conn := by
  rw [step, Option.ite_none_left_eq_some, Option.map_eq_some_iff] at h
  obtain ⟨hno, conn, hk, rfl⟩ := h
  refine ⟨rfl, rfl, fun hs => ?_, hk⟩
  simpa [hs] using hno

theorem step_shipped {s s' : Session S} {a : SessionAct} (h : s.step a = some s') :
    s'.shipped = s.shipped := by
  cases a with
  | client a => exact (step_client h).choose_spec.2.1
  | receive decoded =>
    obtain ⟨-, -, -, hs, -⟩ := step_receive h
    exact hs
  | conn a => exact (step_conn h).2.1
  | abort => cases h; rfl

theorem step_conn_cases {s s' : Session S} {a : SessionAct} (h : s.step a = some s') :
    s'.conn = s.conn ∨ (∃ b, s.conn.step b = some s'.conn) ∨
      a = .abort ∧ s'.conn = { s.conn with exited := true } := by
  cases a with
  | client a =>
    obtain ⟨out, -, -, hk⟩ := step_client h
    cases out with
    | none => exact Or.inl hk
    | some r => exact Or.inr (Or.inl ⟨_, hk⟩)
  | receive decoded =>
    obtain ⟨-, -, -, -, -, hk⟩ := step_receive h
    exact Or.inr (Or.inl ⟨_, hk⟩)
  | conn a => exact Or.inr (Or.inl ⟨a, (step_conn h).2.2.2⟩)
  | abort => cases h; exact Or.inr (Or.inr ⟨rfl, rfl⟩)

theorem step_alive {s s' : Session S} {a : SessionAct} (hinv : s.conn.Alive) (ha : a ≠ .abort)
    (h : s.step a = some s') : s'.conn.Alive := by
  rcases step_conn_cases h with hk | ⟨b, hk⟩ | ⟨habort, -⟩
  · exact hk ▸ hinv
  · exact Conn.step_alive hinv hk
  · exact absurd habort ha

/-- **Every step of a session is one of the kinds of `RpcStep`.** -/
theorem step_rpcStep {s s' : Session S} {a : SessionAct} (h : s.step a = some s') : RpcStep s s' a := by
  cases a with
  | client a =>
    obtain ⟨out, hc, -, hk⟩ := step_client h
    cases out with
    | none => exact .client a (ClientLoop.step_cases hc) (congrArg Conn.rpcView hk)
    | some r => exact .request a r (ClientLoop.step_cases hc) (Conn.step_rpcView hk)
  | receive decoded =>
    obtain ⟨msg, rest, hout, -, hc, hk⟩ := step_receive h
    have hview := Conn.step_rpcView hk
    have hrecv := ClientLoop.onServerMessage_cases hc
    simp only [Conn.rpcLabel, hout] at hview
    cases hmsg : msg.response? with
    | none =>
      have hsame : s'.conn.rpcView = s.conn.rpcView := by
        cases msg with
        | rpcResponse r => cases hmsg
        | newEvent topic payload => exact hview.eq_of_silent
        | stateChange changes => exact hview.eq_of_silent
      have hnone : (if decoded then some msg else none).bind ServerMessage.response? = none := by
        cases decoded <;> simp [hmsg]
      rw [hnone] at hrecv
      exact .message decoded hrecv hsame
    | some r =>
      cases msg with
      | rpcResponse r' =>
        cases hmsg
        cases decoded with
        | true => exact .response r hrecv hview
        | false => exact .unreadable r hrecv hview
      | newEvent topic payload => cases hmsg
      | stateChange changes => cases hmsg
  | conn a =>
    obtain ⟨hc, -, hno, hk⟩ := step_conn h
    exact .server a hc hno (Conn.step_rpcView hk)
  | abort => cases h; exact .aborted rfl rfl

end Session

end HardLight
