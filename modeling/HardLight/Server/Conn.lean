import HardLight.Server.Switch

/-!
# The connection loop

The loop of `spawn_connection_handler`, from the end of the handshake on, with the channels only it
reads, the handler tasks it has spawned and both directions of the WebSocket. `step` is one step of the
loop, of a handler task or of the surroundings.

The `select!` is `biased`: an arm is taken only when the ones before it were polled and found nothing.
Between two polls the other tasks may move, so `arm` is the arm polled next and `pollNext` passes over
one arm with nothing to take. A `send_msg` in progress is `sending`; until it is done the loop is not at
its `select!`.

`Step`, `step_cases` : what a step can do, by its action; what is proved of every step goes by it.

History variables, which no branch reads: `accepted`, `responded`, `crashed`, `handled`, `wsRead` and the
`call` of requests and responses.
-/

namespace HardLight
open Lib

/-- Sent by the application's handler to its connection loop. -/
inductive ProxiedSubscriptionNotification
  | subscribe (topic : Topic)
  | unsubscribe (topic : Topic)
  deriving DecidableEq, Repr

/-- A call of `HandlerSubscriptionManager::add` or `remove`. `caller` is the application call whose
handler made it, `none` when it was made outside of any RPC. -/
structure HandlerOp where
  caller : Option Call
  op : ProxiedSubscriptionNotification
  deriving DecidableEq, Repr

/-- What `ws_stream.next()` yields: an error, a text or control frame, or a binary frame, with `none` for
one that does not inflate or decode. -/
inductive WsItem
  | error
  | nonBinary
  | binary (msg : Option Request)

def WsItem.request? : WsItem → Option Request
  | binary msg => msg
  | _ => none

/-- The arms of the `select!`, in the order they are polled. -/
inductive Arm
  | rpc
  | state
  | event
  | subscription
  | client
  deriving DecidableEq, Repr

def Arm.next : Arm → Arm
  | rpc => state
  | state => event
  | event => subscription
  | subscription => client
  | client => rpc

structure Conn where
  inFlight : Fin 256 → Bool
  rpcRx : List Response
  stateChangeRx : List (List StateUpdate)
  eventsRx : List Event
  proxyRx : List HandlerOp
  subscriptions : HashMap Topic SubscriptionID
  /-- Sent by the peer and not yet read. -/
  wsIn : List WsItem
  wsEnded : Bool
  /-- Sent to the peer and not yet read by it. -/
  wsOut : List ServerMessage
  arm : Arm
  sending : Option ServerMessage
  /-- The handler tasks still running, each with its request. -/
  tasks : List Request
  /-- The loop's task is gone, and with it the receivers it owns. -/
  exited : Bool
  /-- Some handler task failed at `tx.send(..).unwrap()`. -/
  unwrapPanicked : Bool
  accepted : List Request
  responded : List Response
  crashed : List Request
  handled : List HandlerOp
  wsRead : List ServerMessage

inductive ConnAct
  /-- The arm polled has nothing to take. -/
  | pollNext
  | response
  | stateChange
  | event
  /-- `id` is the id drawn for a new subscription; `switchAlive` says whether the send to the switch
  succeeds. -/
  | subscription (id : SubscriptionID) (switchAlive : Bool)
  /-- `decoded` is false when the background thread does not come back with a message. -/
  | clientMessage (decoded : Bool)
  /-- `send_msg` ends; `ok` is false when the message was not encoded or not sent. -/
  | sendDone (ok : Bool)
  /-- `select!` panics because every arm is disabled. -/
  | noArmLeft
  | handlerReturns (n : Nat) (output : HandlerResult Bytes)
  | handlerPanics (n : Nat)
  /-- A handler calls `add` or `remove`; `n` is the place of its task. -/
  | handlerOp (n : Option Nat) (op : ProxiedSubscriptionNotification)
  | stateUpdate (changes : List StateUpdate)
  /-- The switch sends events. -/
  | deliver (events : List Event)
  | peerSend (item : WsItem)
  | peerEnd
  | peerRead

namespace Conn

/-- The state in which the loop is entered. -/
def init : Conn where
  inFlight _ := false
  rpcRx := []
  stateChangeRx := []
  eventsRx := []
  proxyRx := []
  subscriptions := ∅
  wsIn := []
  wsEnded := false
  wsOut := []
  arm := .rpc
  sending := none
  tasks := []
  exited := false
  unwrapPanicked := false
  accepted := []
  responded := []
  crashed := []
  handled := []
  wsRead := []

/-- The loop is at its `select!` and polls `arm` next. -/
def polls (k : Conn) (arm : Arm) : Bool := !k.exited && k.sending.isNone && decide (k.arm = arm)

/-- The arm would be taken if it were polled now. -/
def ready (k : Conn) : Arm → Bool
  | .rpc => !k.rpcRx.isEmpty
  | .state => !k.stateChangeRx.isEmpty
  | .event => !k.eventsRx.isEmpty
  | .subscription => !k.proxyRx.isEmpty
  | .client => !k.wsIn.isEmpty

/-- The senders of `rpc_rx`: the loop's own `rpc_tx` and the clone of every running handler task. -/
def rpcSenders (k : Conn) : Nat := 1 + k.tasks.length

/-- No arm can be taken any more; `recv` yields `None` only when every sender is gone. -/
def allDisabled (k : Conn) : Bool :=
  k.rpcRx.isEmpty && k.rpcSenders == 0 && k.stateChangeRx.isEmpty && k.eventsRx.isEmpty &&
    k.proxyRx.isEmpty && k.wsIn.isEmpty && k.wsEnded

/-- An RPC response from a handler task. -/
def onResponse (k : Conn) : Option Conn :=
  match k.rpcRx with
  | r :: rest => some { k with
      rpcRx := rest
      inFlight := Function.update k.inFlight (slotOf r.id) false
      sending := some (.rpcResponse r)
      arm := .rpc
      responded := k.responded ++ [r] }
  | [] => none

/-- A state update from the application. -/
def onStateChange (k : Conn) : Option Conn :=
  match k.stateChangeRx with
  | changes :: rest =>
    some { k with stateChangeRx := rest, sending := some (.stateChange changes), arm := .rpc }
  | [] => none

/-- An event from the event switch. -/
def onEvent (k : Conn) : Option Conn :=
  match k.eventsRx with
  | e :: rest =>
    some { k with eventsRx := rest, sending := some (.newEvent e.topic e.payload), arm := .rpc }
  | [] => none

/-- A subscription notification from the handler: the new state, and what goes to the event switch.
`tx` stands for the connection's `events_tx`. -/
def onSubscription {χ : Type} (tx : χ) (id : SubscriptionID) (switchAlive : Bool) (k : Conn) :
    Option (Conn × Option (SubscriptionNotification χ)) :=
  match k.proxyRx with
  | notification :: rest =>
    let k := { k with proxyRx := rest, arm := .rpc, handled := k.handled ++ [notification] }
    match notification.op with
    | .subscribe topic =>
      match k.subscriptions.lookup topic with
      | none =>
        let subscriptions := k.subscriptions.insert topic id
        if switchAlive then
          some ({ k with subscriptions := subscriptions }, some (.subscribe topic id tx))
        else some ({ k with subscriptions := subscriptions.erase topic }, none)
      | some _ => some (k, none)
    | .unsubscribe topic =>
      match k.subscriptions.lookup topic with
      | some old =>
        let subscriptions := k.subscriptions.erase topic
        if switchAlive then
          some ({ k with subscriptions := subscriptions }, some (.unsubscribe topic old))
        else some ({ k with subscriptions := subscriptions.insert topic old }, none)
      | none => some (k, none)
  | [] => none

/-- An item from the client. -/
def onClientMessage (decoded : Bool) (k : Conn) : Option Conn :=
  match k.wsIn with
  | item :: rest =>
    let k := { k with wsIn := rest, arm := .rpc }
    match item with
    | .error => some k
    | .nonBinary => some k
    | .binary none => some k
    | .binary (some r) =>
      if decoded then
        -- an id in flight is ignored
        if k.inFlight (slotOf r.id) then some k
        else some { k with
          inFlight := Function.update k.inFlight (slotOf r.id) true
          tasks := k.tasks ++ [r]
          accepted := k.accepted ++ [r] }
      else some k
  | [] => none

/-- A handler task comes to `tx.send(RPCResponse { id, output }).unwrap()`. -/
def handlerReturns (n : Nat) (output : HandlerResult Bytes) (k : Conn) : Option Conn :=
  match k.tasks[n]? with
  | some r =>
    let k := { k with tasks := k.tasks.eraseIdx n }
    if k.exited then some { k with unwrapPanicked := true, crashed := k.crashed ++ [r] }
    else some { k with rpcRx := k.rpcRx ++ [{ id := r.id, output := output, call := r.call }] }
  | none => none

/-- A handler panics: its task ends and nothing is sent. -/
def handlerPanics (n : Nat) (k : Conn) : Option Conn :=
  match k.tasks[n]? with
  | some r => some { k with tasks := k.tasks.eraseIdx n, crashed := k.crashed ++ [r] }
  | none => none

/-- `HandlerSubscriptionManager::add` or `remove`. -/
def handlerOp (n : Option Nat) (op : ProxiedSubscriptionNotification) (k : Conn) : Option Conn :=
  match n with
  | none => some { k with proxyRx := k.proxyRx ++ [{ caller := none, op := op }] }
  | some n =>
    match k.tasks[n]? with
    | some r => some { k with proxyRx := k.proxyRx ++ [{ caller := some r.call, op := op }] }
    | none => none

def step (k : Conn) : ConnAct → Option Conn
  | .pollNext => if k.polls k.arm && !k.ready k.arm then some { k with arm := k.arm.next } else none
  | .response => if k.polls .rpc then k.onResponse else none
  | .stateChange => if k.polls .state then k.onStateChange else none
  | .event => if k.polls .event then k.onEvent else none
  | .subscription id switchAlive =>
    if k.polls .subscription then (k.onSubscription () id switchAlive).map Prod.fst else none
  | .clientMessage decoded => if k.polls .client then k.onClientMessage decoded else none
  | .sendDone ok =>
    match k.sending with
    | some msg =>
      if k.exited then none
      else if ok then some { k with sending := none, wsOut := k.wsOut ++ [msg] }
      else some { k with sending := none }
    | none => none
  | .noArmLeft => if k.polls .client && k.allDisabled then some { k with exited := true } else none
  | .handlerReturns n output => k.handlerReturns n output
  | .handlerPanics n => k.handlerPanics n
  | .handlerOp n op => if k.exited then none else k.handlerOp n op
  | .stateUpdate changes =>
    -- `mpsc::channel(10)`: a send waits for room
    if !k.exited && decide (k.stateChangeRx.length < 10) then
      some { k with stateChangeRx := k.stateChangeRx ++ [changes] }
    else none
  | .deliver events => some { k with eventsRx := k.eventsRx ++ events }
  | .peerSend item => if k.wsEnded then none else some { k with wsIn := k.wsIn ++ [item] }
  | .peerEnd => some { k with wsEnded := true }
  | .peerRead =>
    match k.wsOut with
    | msg :: rest => some { k with wsOut := rest, wsRead := k.wsRead ++ [msg] }
    | [] => none

theorem polls_iff {k : Conn} {arm : Arm} :
    k.polls arm = true ↔ k.exited = false ∧ k.sending = none ∧ k.arm = arm := by
  simp [polls, and_assoc]

/-- What a step of the subscription arm leaves in the connection does not depend on the sender. -/
theorem onSubscription_fst {χ : Type} (tx : χ) (id : SubscriptionID) (switchAlive : Bool) (k : Conn) :
    (k.onSubscription tx id switchAlive).map Prod.fst =
      (k.onSubscription () id switchAlive).map Prod.fst := by
  unfold onSubscription
  cases k.proxyRx with
  | nil => rfl
  | cons notification rest =>
    dsimp only
    cases notification.op with
    | subscribe topic => dsimp only; split <;> (try split) <;> rfl
    | unsubscribe topic => dsimp only; split <;> (try split) <;> rfl

/-! ## What a step can do -/

theorem onSubscription_takes {χ : Type} {tx : χ} {id : SubscriptionID} {switchAlive : Bool} {k k' : Conn}
    {n : Option (SubscriptionNotification χ)} (h : k.onSubscription tx id switchAlive = some (k', n)) :
    ∃ o rest subscriptions, k.proxyRx = o :: rest ∧ k' = { k with
      proxyRx := rest, arm := .rpc, handled := k.handled ++ [o], subscriptions := subscriptions } := by
  unfold onSubscription at h
  split at h
  next o rest hq =>
    dsimp only at h
    split at h <;> split at h <;> (try split at h) <;> (cases h; exact ⟨o, rest, _, hq, rfl⟩)
  next => cases h

/-- The steps of a connection, by their actions. -/
inductive Step (k : Conn) : ConnAct → Conn → Prop
  | passedOver (hpolls : k.polls k.arm = true) (hready : k.ready k.arm = false) :
      Step k .pollNext { k with arm := k.arm.next }
  | responded (r : Response) (rest : List Response) (hpolls : k.polls .rpc = true)
      (hq : k.rpcRx = r :: rest) :
      Step k .response { k with
        rpcRx := rest
        inFlight := Function.update k.inFlight (slotOf r.id) false
        sending := some (.rpcResponse r)
        arm := .rpc
        responded := k.responded ++ [r] }
  | stateChanged (changes : List StateUpdate) (rest : List (List StateUpdate))
      (hpolls : k.polls .state = true) (hq : k.stateChangeRx = changes :: rest) :
      Step k .stateChange { k with stateChangeRx := rest, sending := some (.stateChange changes), arm := .rpc }
  | newEvent (e : Event) (rest : List Event) (hpolls : k.polls .event = true) (hq : k.eventsRx = e :: rest) :
      Step k .event { k with eventsRx := rest, sending := some (.newEvent e.topic e.payload), arm := .rpc }
  | notified (id : SubscriptionID) (switchAlive : Bool) (o : HandlerOp) (rest : List HandlerOp)
      (subscriptions : HashMap Topic SubscriptionID) (hpolls : k.polls .subscription = true)
      (hq : k.proxyRx = o :: rest) :
      Step k (.subscription id switchAlive) { k with
        proxyRx := rest, arm := .rpc, handled := k.handled ++ [o], subscriptions := subscriptions }
  | noRequest (decoded : Bool) (item : WsItem) (rest : List WsItem) (hpolls : k.polls .client = true)
      (hq : k.wsIn = item :: rest) (hitem : item.request? = none) :
      Step k (.clientMessage decoded) { k with wsIn := rest, arm := .rpc }
  | undecoded (r : Request) (rest : List WsItem) (hpolls : k.polls .client = true)
      (hq : k.wsIn = .binary (some r) :: rest) :
      Step k (.clientMessage false) { k with wsIn := rest, arm := .rpc }
  | ignored (r : Request) (rest : List WsItem) (hpolls : k.polls .client = true)
      (hq : k.wsIn = .binary (some r) :: rest) (hbusy : k.inFlight (slotOf r.id) = true) :
      Step k (.clientMessage true) { k with wsIn := rest, arm := .rpc }
  | accepted (r : Request) (rest : List WsItem) (hpolls : k.polls .client = true)
      (hq : k.wsIn = .binary (some r) :: rest) (hfree : k.inFlight (slotOf r.id) = false) :
      Step k (.clientMessage true) { k with
        wsIn := rest
        arm := .rpc
        inFlight := Function.update k.inFlight (slotOf r.id) true
        tasks := k.tasks ++ [r]
        accepted := k.accepted ++ [r] }
  | sent (msg : ServerMessage) (hsending : k.sending = some msg) (hrun : k.exited = false) :
      Step k (.sendDone true) { k with sending := none, wsOut := k.wsOut ++ [msg] }
  | lost (msg : ServerMessage) (hsending : k.sending = some msg) (hrun : k.exited = false) :
      Step k (.sendDone false) { k with sending := none }
  | noArmLeft (hpolls : k.polls .client = true) (hall : k.allDisabled = true) :
      Step k .noArmLeft { k with exited := true }
  | returned (n : Nat) (output : HandlerResult Bytes) (r : Request) (hr : k.tasks[n]? = some r)
      (hrun : k.exited = false) :
      Step k (.handlerReturns n output) { k with
        tasks := k.tasks.eraseIdx n
        rpcRx := k.rpcRx ++ [{ id := r.id, output := output, call := r.call }] }
  | orphaned (n : Nat) (output : HandlerResult Bytes) (r : Request) (hr : k.tasks[n]? = some r)
      (hexited : k.exited = true) :
      Step k (.handlerReturns n output) { k with
        tasks := k.tasks.eraseIdx n, unwrapPanicked := true, crashed := k.crashed ++ [r] }
  | panicked (n : Nat) (r : Request) (hr : k.tasks[n]? = some r) :
      Step k (.handlerPanics n) { k with tasks := k.tasks.eraseIdx n, crashed := k.crashed ++ [r] }
  | asked (n : Option Nat) (o : HandlerOp) (hrun : k.exited = false)
      (hcaller : ∀ call, o.caller = some call → ∃ r ∈ k.tasks, r.call = call) :
      Step k (.handlerOp n o.op) { k with proxyRx := k.proxyRx ++ [o] }
  | updated (changes : List StateUpdate) (hrun : k.exited = false) (hroom : k.stateChangeRx.length < 10) :
      Step k (.stateUpdate changes) { k with stateChangeRx := k.stateChangeRx ++ [changes] }
  | delivered (events : List Event) : Step k (.deliver events) { k with eventsRx := k.eventsRx ++ events }
  | arrived (item : WsItem) (hopen : k.wsEnded = false) :
      Step k (.peerSend item) { k with wsIn := k.wsIn ++ [item] }
  | ended : Step k .peerEnd { k with wsEnded := true }
  | read (msg : ServerMessage) (rest : List ServerMessage) (hq : k.wsOut = msg :: rest) :
      Step k .peerRead { k with wsOut := rest, wsRead := k.wsRead ++ [msg] }

theorem onClientMessage_cases {decoded : Bool} {k k' : Conn} (hpolls : k.polls .client = true)
    (h : k.onClientMessage decoded = some k') : Step k (.clientMessage decoded) k' := by
  unfold onClientMessage at h
  split at h
  next item rest hq =>
    dsimp only at h
    split at h
    next => cases h; exact .noRequest decoded _ rest hpolls hq rfl
    next => cases h; exact .noRequest decoded _ rest hpolls hq rfl
    next => cases h; exact .noRequest decoded _ rest hpolls hq rfl
    next r =>
      split at h
      next hdec =>
        subst hdec
        split at h
        next hbusy => cases h; exact .ignored r rest hpolls hq hbusy
        next hfree => cases h; exact .accepted r rest hpolls hq (Bool.eq_false_iff.mpr hfree)
      next hdec =>
        cases h
        rw [Bool.not_eq_true] at hdec
        subst hdec
        exact .undecoded r rest hpolls hq
  next => cases h

/-- **What a step of a connection can do.** -/
theorem step_cases {k k' : Conn} {a : ConnAct} (h : k.step a = some k') : Step k a k' := by
  cases a with
  | pollNext =>
    rw [step, Option.ite_none_right_eq_some, Bool.and_eq_true, Bool.not_eq_true'] at h
    cases h.2
    exact .passedOver h.1.1 h.1.2
  | response =>
    rw [step, Option.ite_none_right_eq_some] at h
    obtain ⟨hpolls, h⟩ := h
    unfold onResponse at h
    split at h
    next r rest hq => cases h; exact .responded r rest hpolls hq
    next => cases h
  | stateChange =>
    rw [step, Option.ite_none_right_eq_some] at h
    obtain ⟨hpolls, h⟩ := h
    unfold onStateChange at h
    split at h
    next changes rest hq => cases h; exact .stateChanged changes rest hpolls hq
    next => cases h
  | event =>
    rw [step, Option.ite_none_right_eq_some] at h
    obtain ⟨hpolls, h⟩ := h
    unfold onEvent at h
    split at h
    next e rest hq => cases h; exact .newEvent e rest hpolls hq
    next => cases h
  | subscription id switchAlive =>
    rw [step, Option.ite_none_right_eq_some, Option.map_eq_some_iff] at h
    obtain ⟨hpolls, ⟨k'', n⟩, h, rfl⟩ := h
    obtain ⟨o, rest, subscriptions, hq, rfl⟩ := onSubscription_takes h
    exact .notified id switchAlive o rest subscriptions hpolls hq
  | clientMessage decoded =>
    rw [step, Option.ite_none_right_eq_some] at h
    exact onClientMessage_cases h.1 h.2
  | sendDone ok =>
    rw [step] at h
    split at h
    next msg hsending =>
      rw [Option.ite_none_left_eq_some, Bool.not_eq_true] at h
      obtain ⟨hrun, h⟩ := h
      cases ok with
      | true => cases h; exact .sent msg hsending hrun
      | false => cases h; exact .lost msg hsending hrun
    next => cases h
  | noArmLeft =>
    rw [step, Option.ite_none_right_eq_some, Bool.and_eq_true] at h
    cases h.2
    exact .noArmLeft h.1.1 h.1.2
  | handlerReturns n output =>
    rw [step, handlerReturns] at h
    split at h
    next r hr =>
      dsimp only at h
      split at h
      next hexited => cases h; exact .orphaned n output r hr hexited
      next hrun => cases h; exact .returned n output r hr (Bool.eq_false_iff.mpr hrun)
    next => cases h
  | handlerPanics n =>
    rw [step, handlerPanics] at h
    split at h
    next r hr => cases h; exact .panicked n r hr
    next => cases h
  | handlerOp n op =>
    rw [step, Option.ite_none_left_eq_some, Bool.not_eq_true] at h
    obtain ⟨hrun, h⟩ := h
    unfold handlerOp at h
    split at h
    next => cases h; exact .asked none { caller := none, op := op } hrun fun call hno => by cases hno
    next n =>
      split at h
      next r hr =>
        cases h
        refine .asked (some n) { caller := some r.call, op := op } hrun fun call hcall => ?_
        exact ⟨r, List.mem_of_getElem? hr, Option.some.inj hcall⟩
      next => cases h
  | stateUpdate changes =>
    rw [step, Option.ite_none_right_eq_some, Bool.and_eq_true, Bool.not_eq_true', decide_eq_true_eq] at h
    cases h.2
    exact .updated changes h.1.1 h.1.2
  | deliver events => cases h; exact .delivered events
  | peerSend item =>
    rw [step, Option.ite_none_left_eq_some, Bool.not_eq_true] at h
    cases h.2
    exact .arrived item h.1
  | peerEnd => cases h; exact .ended
  | peerRead =>
    rw [step] at h
    split at h
    next msg rest hq => cases h; exact .read msg rest hq
    next => cases h

end Conn

namespace ConnAct

/-- The messages the action handles are encoded, sent and decoded. -/
def succeeds : ConnAct → Bool
  | clientMessage decoded => decoded
  | sendDone ok => ok
  | _ => true

def panics : ConnAct → Bool
  | handlerPanics _ => true
  | _ => false

end ConnAct

end HardLight
