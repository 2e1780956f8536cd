import HardLight.State.Update

/-!
# The client loop

The loop of `Client::connect`, from the handshake on. The `select!` is not biased, so any arm with
something to take may be taken. The request branch is left and entered again at `stream.send(..).await`,
so it is three steps: `takeRequest` chooses the id, `onSend` is the outcome of encoding, compressing and
sending, and `fillSlot` stores the completion sender. Only between two branches is the loop at its
`select!`.

`issued` and `completions` are history variables.
-/

namespace HardLight

/-- What a completion sender is given: an error of the client's own, or the output of a response. -/
inductive Completion
  | failed (error : RpcHandlerError)
  | output (output : HandlerResult Bytes)

def Completion.output? : Completion → Option (HandlerResult Bytes)
  | .output o => some o
  | .failed _ => none

/-- Where the loop is. -/
inductive ClientPhase
  | select
  /-- The id is chosen and the request is on its way to the stream. -/
  | sending (slot : Fin 256) (call : Call) (internal : Bytes)
  /-- The request is sent and its slot not filled yet. -/
  | sent (slot : Fin 256) (call : Call)
  | exited

/-- How the request branch gets on with its message; what was not sent is not on the wire. -/
inductive SendOutcome
  | encodeError
  | compressError
  | sendError
  | sent
  deriving DecidableEq, Repr

/-- The error that a message not sent is completed with. -/
def SendOutcome.error? : SendOutcome → Option RpcHandlerError
  | .encodeError => some .clientEncodeError
  | .compressError => some .clientCompressError
  | .sendError => some .clientNotConnected
  | .sent => none

/-- An application call: its bytes, and the calls that had been answered with an output before it. -/
structure Issue where
  internal : Bytes
  seen : List Call

structure ClientLoop (S : StateStruct) where
  rpcRequestRx : List (Bytes × Call)
  activeRpcCalls : Fin 256 → Option Call
  phase : ClientPhase
  state : S.State
  events : List Event
  completions : List (Call × Completion)
  /-- Call number `n` is entry `n`. -/
  issued : List Issue

inductive ClientAct
  /-- The application sends a request on `rpc_request_tx`. -/
  | call (internal : Bytes)
  | takeRequest
  | send (outcome : SendOutcome)
  | fillSlot
  | shutdown

namespace ClientLoop
variable {S : StateStruct}

/-- The state in which the loop is entered. -/
def init (S : StateStruct) : ClientLoop S where
  rpcRequestRx := []
  activeRpcCalls _ := none
  phase := .select
  state := S.default
  events := []
  completions := []
  issued := []

/-- The calls that have been answered with an output. -/
def answered (c : ClientLoop S) : List Call :=
  c.completions.filterMap fun x => x.2.output?.map fun _ => x.1

/-- `active_rpc_calls.iter().position(|x| x.is_none())` -/
def freeSlot (c : ClientLoop S) : Option (Fin 256) :=
  (List.finRange 256).find? fun slot => (c.activeRpcCalls slot).isNone

def complete (c : ClientLoop S) (call : Call) (completion : Completion) : ClientLoop S :=
  { c with phase := .select, completions := c.completions ++ [(call, completion)] }

/-- The application makes a call; `mpsc::channel(10)` has to have room for it. -/
def call (c : ClientLoop S) (internal : Bytes) : Option (ClientLoop S) :=
  match c.phase with
  | .exited => none
  | _ =>
    if c.rpcRequestRx.length < 10 then
      some { c with
        rpcRequestRx := c.rpcRequestRx ++ [(internal, c.issued.length)]
        issued := c.issued ++ [{ internal := internal, seen := c.answered }] }
    else none

/-- The request branch up to the sending of the message. -/
def takeRequest (c : ClientLoop S) : Option (ClientLoop S) :=
  match c.phase, c.rpcRequestRx with
  | .select, (internal, call) :: rest =>
    let c := { c with rpcRequestRx := rest }
    match c.freeSlot with
    | some slot => some { c with phase := .sending slot call internal }
    | none => some (c.complete call (.failed .tooManyCallsInFlight))
  | _, _ => none

/-- Encoding, compressing and sending: the new state, and what goes on the wire. -/
def onSend (c : ClientLoop S) (outcome : SendOutcome) : Option (ClientLoop S × Option Request) :=
  match c.phase with
  | .sending slot call internal =>
    match outcome with
    | .encodeError => some (c.complete call (.failed .clientEncodeError), none)
    | .compressError => some (c.complete call (.failed .clientCompressError), none)
    | .sendError => some (c.complete call (.failed .clientNotConnected), none)
    | .sent => some ({ c with phase := .sent slot call },
        some { id := idOf slot, internal := internal, call := call })
  | _ => none

/-- `active_rpc_calls[id] = Some(completion_tx)` -/
def fillSlot (c : ClientLoop S) : Option (ClientLoop S) :=
  match c.phase with
  | .sent slot call =>
    some { c with activeRpcCalls := Function.update c.activeRpcCalls slot (some call), phase := .select }
  | _ => none

/-- The server message branch; `none` is anything that is not a message: an error, a frame that is not
binary, bytes that do not inflate or decode. -/
def onServerMessage (c : ClientLoop S) (msg : Option ServerMessage) : Option (ClientLoop S) :=
  match c.phase with
  | .select =>
    match msg with
    | none => some c
    | some (.rpcResponse r) =>
      match c.activeRpcCalls (slotOf r.id) with
      | some call =>
        let c := { c with activeRpcCalls := Function.update c.activeRpcCalls (slotOf r.id) none }
        some (c.complete call (.output r.output))
      | none => some c
    | some (.stateChange changes) => some { c with state := (S.applyChanges c.state changes).1 }
    | some (.newEvent topic payload) => some { c with events := c.events ++ [⟨topic, payload⟩] }
  | _ => none

def shutdown (c : ClientLoop S) : Option (ClientLoop S) :=
  match c.phase with
  | .select => some { c with phase := .exited }
  | _ => none

/-- A step of the loop or of its application, and what it sends. -/
def step (c : ClientLoop S) : ClientAct → Option (ClientLoop S × Option Request)
  | .call internal => (c.call internal).map fun c => (c, none)
  | .takeRequest => c.takeRequest.map fun c => (c, none)
  | .send outcome => c.onSend outcome
  | .fillSlot => c.fillSlot.map fun c => (c, none)
  | .shutdown => c.shutdown.map fun c => (c, none)

theorem freeSlot_free {c : ClientLoop S} {slot : Fin 256} (h : c.freeSlot = some slot) :
    c.activeRpcCalls slot = none := by
  have hfree := List.find?_some h
  simpa using hfree

theorem freeSlot_eq_none_iff {c : ClientLoop S} :
    c.freeSlot = none ↔ ∀ slot, c.activeRpcCalls slot ≠ none := by
  rw [freeSlot, List.find?_eq_none]
  simp

/-! ## What a step can do -/

theorem call_cases {c c' : ClientLoop S} {internal : Bytes} (h : c.call internal = some c') :
    c' = { c with
      rpcRequestRx := c.rpcRequestRx ++ [(internal, c.issued.length)]
      issued := c.issued ++ [{ internal := internal, seen := c.answered }] } := by
  unfold call at h
  split at h
  · cases h
  · rw [Option.ite_none_right_eq_some] at h
    exact (Option.some.inj h.2).symm

theorem takeRequest_cases {c c' : ClientLoop S} (h : c.takeRequest = some c') :
    ∃ internal call rest, c.phase = .select ∧ c.rpcRequestRx = (internal, call) :: rest ∧
      ((∃ slot, c.activeRpcCalls slot = none ∧
          c' = { c with rpcRequestRx := rest, phase := .sending slot call internal }) ∨
        ((∀ slot, c.activeRpcCalls slot ≠ none) ∧
          c' = { c with rpcRequestRx := rest }.complete call (.failed .tooManyCallsInFlight))) := by
  unfold takeRequest at h
  split at h
  next internal call rest hphase hq =>
    refine ⟨internal, call, rest, hphase, hq, ?_⟩
    dsimp only at h
    split at h
    next slot hslot => exact Or.inl ⟨slot, freeSlot_free hslot, (Option.some.inj h).symm⟩
    next hslot => exact Or.inr ⟨freeSlot_eq_none_iff.mp hslot, (Option.some.inj h).symm⟩
  next => cases h

theorem onSend_cases {c : ClientLoop S} {outcome : SendOutcome} {x : ClientLoop S × Option Request}
    (h : c.onSend outcome = some x) : ∃ slot call internal, c.phase = .sending slot call internal ∧
      ((outcome = .sent ∧ x = ({ c with phase := .sent slot call },
          some { id := idOf slot, internal := internal, call := call })) ∨
        ∃ error, outcome.error? = some error ∧ x = (c.complete call (.failed error), none)) := by
  unfold onSend at h
  split at h
  next slot call internal hphase =>
    refine ⟨slot, call, internal, hphase, ?_⟩
    cases outcome with
    | sent => exact Or.inl ⟨rfl, (Option.some.inj h).symm⟩
    | _ => exact Or.inr ⟨_, rfl, (Option.some.inj h).symm⟩
  next => cases h

theorem fillSlot_cases {c c' : ClientLoop S} (h : c.fillSlot = some c') :
    ∃ slot call, c.phase = .sent slot call ∧
      c' = { c with activeRpcCalls := Function.update c.activeRpcCalls slot (some call), phase := .select } := by
  unfold fillSlot at h
  split at h
  next slot call hphase => exact ⟨slot, call, hphase, (Option.some.inj h).symm⟩
  next => cases h

theorem shutdown_cases {c c' : ClientLoop S} (h : c.shutdown = some c') :
    c.phase = .select ∧ c' = { c with phase := .exited } := by
  unfold shutdown at h
  split at h
  next hphase => exact ⟨hphase, (Option.some.inj h).symm⟩
  next => cases h

/-- The steps of the loop and its application, with what goes on the wire. -/
inductive Step (c : ClientLoop S) : Option Request → ClientLoop S → Prop
  | called (internal : Bytes) : Step c none { c with
      rpcRequestRx := c.rpcRequestRx ++ [(internal, c.issued.length)]
      issued := c.issued ++ [{ internal := internal, seen := c.answered }] }
  | chosen (slot : Fin 256) (call : Call) (internal : Bytes) (rest : List (Bytes × Call))
      (hphase : c.phase = .select) (hq : c.rpcRequestRx = (internal, call) :: rest)
      (hfree : c.activeRpcCalls slot = none) :
      Step c none { c with rpcRequestRx := rest, phase := .sending slot call internal }
  | refused (call : Call) (internal : Bytes) (rest : List (Bytes × Call)) (hphase : c.phase = .select)
      (hq : c.rpcRequestRx = (internal, call) :: rest) (hfull : ∀ slot, c.activeRpcCalls slot ≠ none) :
      Step c none ({ c with rpcRequestRx := rest }.complete call (.failed .tooManyCallsInFlight))
  | failed (slot : Fin 256) (call : Call) (internal : Bytes) (error : RpcHandlerError)
      (hphase : c.phase = .sending slot call internal) :
      Step c none (c.complete call (.failed error))
  | sent (slot : Fin 256) (call : Call) (internal : Bytes)
      (hphase : c.phase = .sending slot call internal) :
      Step c (some { id := idOf slot, internal := internal, call := call })
        { c with phase := .sent slot call }
  | filled (slot : Fin 256) (call : Call) (hphase : c.phase = .sent slot call) :
      Step c none { c with
        activeRpcCalls := Function.update c.activeRpcCalls slot (some call), phase := .select }
  | stopped (hphase : c.phase = .select) : Step c none { c with phase := .exited }

theorem step_cases {c c' : ClientLoop S} {a : ClientAct} {r : Option Request}
    (h : c.step a = some (c', r)) : Step c r c' := by
  cases a with
  | call internal =>
    obtain ⟨c'', hcall, ⟨⟩⟩ := Option.map_eq_some_iff.mp h
    rw [call_cases hcall]
    exact .called internal
  | takeRequest =>
    obtain ⟨c'', htake, ⟨⟩⟩ := Option.map_eq_some_iff.mp h
    obtain ⟨internal, call, rest, hphase, hq, ⟨slot, hfree, rfl⟩ | ⟨hfull, rfl⟩⟩ := takeRequest_cases htake
    · exact .chosen slot call internal rest hphase hq hfree
    · exact .refused call internal rest hphase hq hfull
  | send outcome =>
    obtain ⟨slot, call, internal, hphase, ⟨-, ⟨⟩⟩ | ⟨error, -, ⟨⟩⟩⟩ := onSend_cases h
    · exact .sent slot call internal hphase
    · exact .failed slot call internal error hphase
  | fillSlot =>
    obtain ⟨c'', hfill, ⟨⟩⟩ := Option.map_eq_some_iff.mp h
    obtain ⟨slot, call, hphase, rfl⟩ := fillSlot_cases hfill
    exact .filled slot call hphase
  | shutdown =>
    obtain ⟨c'', hshut, ⟨⟩⟩ := Option.map_eq_some_iff.mp h
    obtain ⟨hphase, rfl⟩ := shutdown_cases hshut
    exact .stopped hphase

/-- What a message does to the table: a response completes the call its slot holds. -/
inductive Receives (c : ClientLoop S) : Option Response → ClientLoop S → Prop
  | completed (r : Response) (call : Call) (hphase : c.phase = .select)
      (hslot : c.activeRpcCalls (slotOf r.id) = some call) :
      Receives c (some r) ({ c with
        activeRpcCalls := Function.update c.activeRpcCalls (slotOf r.id) none }.complete call
          (.output r.output))
  | unknown (r : Response) (hphase : c.phase = .select)
      (hslot : c.activeRpcCalls (slotOf r.id) = none) : Receives c (some r) c
  | other (state : S.State) (events : List Event) (hphase : c.phase = .select) :
      Receives c none { c with state := state, events := events }

theorem onServerMessage_cases {c c' : ClientLoop S} {msg : Option ServerMessage}
    (h : c.onServerMessage msg = some c') : Receives c (msg.bind ServerMessage.response?) c' := by
  unfold onServerMessage at h
  split at h
  next hphase =>
    split at h
    next => cases h; exact .other c.state c.events hphase
    next r =>
      split at h
      next call hslot => cases h; exact .completed r call hphase hslot
      next hslot => cases h; exact .unknown r hphase hslot
    next changes => cases h; exact .other _ c.events hphase
    next topic payload => cases h; exact .other c.state _ hphase
  next => cases h

end ClientLoop

end HardLight
