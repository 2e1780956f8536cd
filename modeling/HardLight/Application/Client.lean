import HardLight.Session.Handshake

/-!
# The generated client

What `#[rpc]` generates for the application: a struct with the senders of its connection, and the task that
each `connect` spawns around `Client::connect`, named by its place among those of the client. The tasks go on
by themselves; of a task the struct, or a `connect` that is still waiting, has the sender of the shutdown channel.

`connect`, `disconnect` and `drop` have the struct to themselves (`&mut self`), so no RPC call is in progress
then; calls share it (`&self`). Whatever holds a future may drop it.

* `Background` : a spawned task, with what has become of the sender of its shutdown channel; `step_cases` : what
  a step of it can do;
* `ApplicationClient.step` : the application's operations and the tasks' steps, in any order;
* `QuietStep`, `step_quiet` : what the tasks and the calls can do; `OperationStep`, `step_operation` : what the
  operations do;
* `Ownership` : who has which sender; only `connect`, `disconnect` and `drop` change it.
-/

namespace HardLight
open Lib

/-- The shutdown channel of a task: its sender is there, has been used, or was dropped. The receiver resolves
in the last two cases. -/
inductive Signal
  | held
  | fired
  | dropped
  deriving DecidableEq, Repr

/-- The task that `connect` spawns. -/
structure Background (S : StateStruct) where
  client : ClientTask S
  signal : Signal
  /-- The task panicked, or the runtime dropped it. -/
  died : Bool

namespace Background
variable {S : StateStruct}

def spawn (S : StateStruct) : Background S := { client := .init, signal := .held, died := false }

/-- The loop of `Client::connect`, entered once the control channels are sent. -/
def loop? (t : Background S) : Option (ClientLoop S) :=
  match t.client.phase with
  | .rpc loop => some loop
  | _ => none

/-- The task is over: it returned, failed or panicked. -/
def ended (t : Background S) : Bool :=
  t.died ||
    match t.client.phase with
    | .connecting => false
    | .rpc loop =>
      match loop.phase with
      | .exited => true
      | _ => false
    | .failed _ => true
    | .panicked => true

/-- What a completion sender of the loop was given. -/
def completion? (t : Background S) (call : Call) : Option Completion :=
  t.loop?.bind fun loop => (loop.completions.find? fun x => x.1 == call).map Prod.snd

/-- The steps that the task takes by itself; `listening` says that the `connect` that spawned it is waiting. -/
def allows (t : Background S) (listening : Bool) : ClientTaskAct → Bool
  | .connected _ l => l == listening
  | .loop (.call _) => false
  | .loop .shutdown => t.signal ≠ .held
  | _ => true

/-- `error_tx.send(e).unwrap()` -/
def report (client : ClientTask S) (listening : Bool) : ClientTask S :=
  match client.phase with
  | .failed _ => if listening then client else { client with phase := .panicked }
  | _ => client

def step (version : HeaderValue) (listening : Bool) (t : Background S) (a : ClientTaskAct) :
    Option (Background S) :=
  if t.ended || !t.allows listening a then none
  else (t.client.step version a).map fun client => { t with client := report client listening }

/-- The steps of the task, by what they do to its loop. -/
inductive TaskStep (t t' : Background S) : ClientTaskAct → Prop
  | entered (response : HttpResponse) (hphase : t.client.phase = .connecting)
      (hphase' : t'.client.phase = .rpc (.init S)) : TaskStep t t' (.connected response true)
  | failed (a : ClientTaskAct) (ha : ∀ b, a ≠ .loop b) (hphase : t.client.phase = .connecting)
      (hphase' : ∀ loop, t'.client.phase ≠ .rpc loop) : TaskStep t t' a
  | looped (a : ClientAct) (loop : ClientLoop S) (x : ClientLoop S × Option Request)
      (hphase : t.client.phase = .rpc loop) (hstep : loop.step a = some x)
      (hphase' : t'.client.phase = .rpc x.1) : TaskStep t t' (.loop a)
  | received (msg : Option ServerMessage) (loop loop' : ClientLoop S) (hphase : t.client.phase = .rpc loop)
      (hstep : loop.onServerMessage msg = some loop') (hphase' : t'.client.phase = .rpc loop') :
      TaskStep t t' (.receive msg)

theorem report_ne_rpc {client : ClientTask S} (h : ∀ loop, client.phase ≠ .rpc loop) (listening : Bool)
    (loop : ClientLoop S) : (report client listening).phase ≠ .rpc loop := by
  unfold report
  split
  · split
    · exact h loop
    · simp
  · exact h loop

theorem step_cases {version : HeaderValue} {listening : Bool} {t t' : Background S} {a : ClientTaskAct}
    (h : t.step version listening a = some t') :
    t.ended = false ∧ t'.signal = t.signal ∧ t'.died = t.died ∧ TaskStep t t' a := by
  rw [step, Option.ite_none_left_eq_some, Option.map_eq_some_iff, Bool.or_eq_true, not_or] at h
  obtain ⟨⟨hended, -⟩, client, hstep, rfl⟩ := h
  refine ⟨Bool.eq_false_iff.mpr hended, rfl, rfl, ?_⟩
  unfold ClientTask.step at hstep
  split at hstep
  next =>
    split at hstep
    next hphase =>
      cases hstep
      exact .failed _ (fun b => by simp) hphase (report_ne_rpc (fun loop => by simp) listening)
    next => cases hstep
  next response l =>
    split at hstep
    next hphase =>
      split at hstep
      next =>
        cases hstep
        cases l with
        | true => exact .entered _ hphase rfl
        | false => exact .failed _ (fun b => by simp) hphase (report_ne_rpc (fun loop => by simp) listening)
      next error =>
        cases hstep
        exact .failed _ (fun b => by simp) hphase (report_ne_rpc (fun loop => by simp) listening)
    next => cases hstep
  next a =>
    split at hstep
    next loop hphase =>
      obtain ⟨x, hx, rfl⟩ := Option.map_eq_some_iff.mp hstep
      exact .looped a loop x hphase hx rfl
    next => cases hstep
  next msg =>
    split at hstep
    next loop hphase =>
      obtain ⟨loop', hloop', rfl⟩ := Option.map_eq_some_iff.mp hstep
      exact .received msg loop loop' hphase hloop' rfl
    next => cases hstep

end Background

def Completion.result : Completion → HandlerResult Bytes
  | .failed error => .error error
  | .output o => o

/-- Where a call of `make_rpc_call` is. -/
inductive CallPhase
  /-- At `rpc_chan.send(..).await`. -/
  | sending (connection : Nat) (internal : Bytes)
  /-- At `rx.await`. -/
  | awaiting (connection : Nat) (call : Call)
  | returned (result : HandlerResult Bytes)
  | panicked
  | cancelled

namespace CallPhase

/-- The future is gone. -/
def finished : CallPhase → Bool
  | sending _ _ => false
  | awaiting _ _ => false
  | _ => true

end CallPhase

structure ApplicationClient (S : StateStruct) where
  shutdown : Option Nat
  rpcTx : Option Nat
  eventsTx : Option Nat
  state : Option Nat
  dropped : Bool
  /-- A `connect` is waiting for the task it spawned. -/
  attempt : Option Nat
  tasks : List (Background S)
  calls : List CallPhase
  /-- The task of the last `connect` that succeeded. -/
  last : Option Nat

/-- How a `connect` comes to its end without a connection. -/
inductive ConnectEnd
  /-- It returns the error of the task. -/
  | fails
  /-- `e.unwrap()` panics: the task is gone and has sent no error. -/
  | panics
  /-- Its future is dropped. -/
  | cancelled
  deriving DecidableEq, Repr

inductive ApplicationAct
  | connect
  /-- The control channels have come. -/
  | connected
  | connectEnds (how : ConnectEnd)
  | disconnect
  | drop
  /-- A task takes a step. -/
  | task (k : Nat) (a : ClientTaskAct)
  /-- A task panics or is dropped by the runtime. -/
  | die (k : Nat)
  /-- A call begins; `encoded` is what `to_bytes` makes of it. -/
  | makeRpcCall (encoded : Option Bytes)
  /-- The send of call `n` gets on. -/
  | sendCall (n : Nat)
  /-- Call `n` is polled at `rx.await`. -/
  | pollCall (n : Nat)
  | cancelCall (n : Nat)

namespace ApplicationClient
variable {S : StateStruct}

def init (S : StateStruct) : ApplicationClient S where
  shutdown := none
  rpcTx := none
  eventsTx := none
  state := none
  dropped := false
  attempt := none
  tasks := []
  calls := []
  last := none

/-- Nothing borrows the client exclusively. -/
def shared (s : ApplicationClient S) : Bool := s.attempt.isNone && !s.dropped

/-- Nothing borrows the client. -/
def exclusive (s : ApplicationClient S) : Bool := s.shared && s.calls.all CallPhase.finished

/-- The sender of a task's shutdown channel is used or dropped. -/
def signalTo (s : ApplicationClient S) (sender : Option Nat) (x : Signal) : ApplicationClient S :=
  match sender with
  | some k => { s with tasks := s.tasks.modify k fun t => { t with signal := x } }
  | none => s

/-- `connect`, up to its `select!`. -/
def connect (s : ApplicationClient S) : Option (ApplicationClient S) :=
  if s.exclusive then
    some { s with attempt := some s.tasks.length, tasks := s.tasks ++ [.spawn S] }
  else none

/-- The first arm of the `select!`. The assignment to `self.shutdown` drops the sender in it. -/
def connected (s : ApplicationClient S) : Option (ApplicationClient S) :=
  match s.attempt with
  | some k =>
    match s.tasks[k]?.bind Background.loop? with
    | some _ => some { s.signalTo s.shutdown .dropped with
        shutdown := some k, rpcTx := some k, eventsTx := some k, state := some k, attempt := none, last := some k }
    | none => none
  | none => none

/-- The `connect` may end so. -/
def endsBy (t : Background S) : ConnectEnd → Bool
  | .fails =>
    match t.client.phase with
    | .failed _ => true
    | _ => false
  | .panics => t.died
  | .cancelled => true

/-- The other ends of `connect`. What it has not moved into the struct is dropped. -/
def connectEnds (s : ApplicationClient S) (how : ConnectEnd) : Option (ApplicationClient S) :=
  match s.attempt with
  | some k =>
    if s.tasks[k]?.any fun t => endsBy t how then
      some ({ s with attempt := none }.signalTo (some k) .dropped)
    else none
  | none => none

/-- `self.shutdown.take()` and `shutdown.send(())` -/
def shutDown (s : ApplicationClient S) : ApplicationClient S :=
  { s.signalTo s.shutdown .fired with shutdown := none }

def disconnect (s : ApplicationClient S) : Option (ApplicationClient S) :=
  if s.exclusive then some s.shutDown else none

/-- `Drop::drop`, and the fields after it. -/
def drop (s : ApplicationClient S) : Option (ApplicationClient S) :=
  if s.exclusive then
    some { s.shutDown with rpcTx := none, eventsTx := none, state := none, dropped := true }
  else none

def task (version : HeaderValue) (s : ApplicationClient S) (k : Nat) (a : ClientTaskAct) :
    Option (ApplicationClient S) :=
  (s.tasks[k]?.bind fun t => t.step version (s.attempt == some k) a).map fun t =>
    { s with tasks := s.tasks.set k t }

def die (s : ApplicationClient S) (k : Nat) : Option (ApplicationClient S) :=
  match s.tasks[k]? with
  | some t => if t.ended then none else some { s with tasks := s.tasks.set k { t with died := true } }
  | none => none

/-- `make_rpc_call`, up to its first `await`. -/
def makeRpcCall (s : ApplicationClient S) (encoded : Option Bytes) : Option (ApplicationClient S) :=
  if s.shared then
    match s.rpcTx with
    | some k =>
      match encoded with
      | some internal => some { s with calls := s.calls ++ [.sending k internal] }
      | none => some { s with calls := s.calls ++ [.returned (.error .clientEncodeError)] }
    | none => some { s with calls := s.calls ++ [.returned (.error .clientNotConnected)] }
  else none

/-- `rpc_chan.send(..).await.unwrap()`: an error if the receiver is gone. -/
def sendCall (s : ApplicationClient S) (n : Nat) : Option (ApplicationClient S) :=
  match s.calls[n]? with
  | some (.sending k internal) =>
    match s.tasks[k]? with
    | some t =>
      if t.ended then some { s with calls := s.calls.set n .panicked }
      else
        match t.client.phase with
        | .rpc loop => (loop.call internal).map fun loop' => { s with
            tasks := s.tasks.set k { t with client := { t.client with phase := .rpc loop' } }
            calls := s.calls.set n (.awaiting k loop.issued.length) }
        | _ => none
    | none => none
  | _ => none

/-- `rx.await.unwrap()`: an error if the completion sender is gone and was not used. -/
def pollCall (s : ApplicationClient S) (n : Nat) : Option (ApplicationClient S) :=
  match s.calls[n]? with
  | some (.awaiting k call) =>
    match s.tasks[k]? with
    | some t =>
      match t.completion? call with
      | some completion => some { s with calls := s.calls.set n (.returned completion.result) }
      | none => if t.ended then some { s with calls := s.calls.set n .panicked } else none
    | none => none
  | _ => none

def cancelCall (s : ApplicationClient S) (n : Nat) : Option (ApplicationClient S) :=
  match s.calls[n]? with
  | some phase => if phase.finished then none else some { s with calls := s.calls.set n .cancelled }
  | none => none

def step (version : HeaderValue) (s : ApplicationClient S) : ApplicationAct → Option (ApplicationClient S)
  | .connect => s.connect
  | .connected => s.connected
  | .connectEnds how => s.connectEnds how
  | .disconnect => s.disconnect
  | .drop => s.drop
  | .task k a => s.task version k a
  | .die k => s.die k
  | .makeRpcCall encoded => s.makeRpcCall encoded
  | .sendCall n => s.sendCall n
  | .pollCall n => s.pollCall n
  | .cancelCall n => s.cancelCall n

/-! ## What a step can do -/

/-- The steps of the tasks and of the calls. -/
inductive QuietStep (version : HeaderValue) (s : ApplicationClient S) :
    ApplicationAct → ApplicationClient S → Prop
  | stepped (k : Nat) (a : ClientTaskAct) (t t' : Background S) (ht : s.tasks[k]? = some t)
      (hstep : t.step version (s.attempt == some k) a = some t') :
      QuietStep version s (.task k a) { s with tasks := s.tasks.set k t' }
  | died (k : Nat) (t : Background S) (ht : s.tasks[k]? = some t) (hended : t.ended = false) :
      QuietStep version s (.die k) { s with tasks := s.tasks.set k { t with died := true } }
  | notConnected (encoded : Option Bytes) (hrpc : s.rpcTx = none) :
      QuietStep version s (.makeRpcCall encoded)
        { s with calls := s.calls ++ [.returned (.error .clientNotConnected)] }
  | notEncoded (k : Nat) (hrpc : s.rpcTx = some k) :
      QuietStep version s (.makeRpcCall none)
        { s with calls := s.calls ++ [.returned (.error .clientEncodeError)] }
  | begun (k : Nat) (internal : Bytes) (hrpc : s.rpcTx = some k) :
      QuietStep version s (.makeRpcCall (some internal)) { s with calls := s.calls ++ [.sending k internal] }
  | refused (n : Nat) (k : Nat) (internal : Bytes) (t : Background S)
      (hcall : s.calls[n]? = some (.sending k internal)) (ht : s.tasks[k]? = some t) (hended : t.ended = true) :
      QuietStep version s (.sendCall n) { s with calls := s.calls.set n .panicked }
  | queued (n : Nat) (k : Nat) (internal : Bytes) (t : Background S) (loop loop' : ClientLoop S)
      (hcall : s.calls[n]? = some (.sending k internal)) (ht : s.tasks[k]? = some t) (hended : t.ended = false)
      (hphase : t.client.phase = .rpc loop) (hloop : loop.call internal = some loop') :
      QuietStep version s (.sendCall n) { s with
        tasks := s.tasks.set k { t with client := { t.client with phase := .rpc loop' } }
        calls := s.calls.set n (.awaiting k loop.issued.length) }
  | answered (n : Nat) (k : Nat) (call : Call) (t : Background S) (completion : Completion)
      (hcall : s.calls[n]? = some (.awaiting k call)) (ht : s.tasks[k]? = some t)
      (hcompletion : t.completion? call = some completion) :
      QuietStep version s (.pollCall n) { s with calls := s.calls.set n (.returned completion.result) }
  | lost (n : Nat) (k : Nat) (call : Call) (t : Background S)
      (hcall : s.calls[n]? = some (.awaiting k call)) (ht : s.tasks[k]? = some t)
      (hnone : t.completion? call = none) (hended : t.ended = true) :
      QuietStep version s (.pollCall n) { s with calls := s.calls.set n .panicked }
  | cancelled (n : Nat) (phase : CallPhase) (hcall : s.calls[n]? = some phase)
      (hfinished : phase.finished = false) :
      QuietStep version s (.cancelCall n) { s with calls := s.calls.set n .cancelled }

/-- The steps of the operations on the client itself. -/
inductive OperationStep (s : ApplicationClient S) : ApplicationAct → ApplicationClient S → Prop
  | connect (hexcl : s.exclusive = true) :
      OperationStep s .connect { s with attempt := some s.tasks.length, tasks := s.tasks ++ [.spawn S] }
  | connected (k : Nat) (t : Background S) (loop : ClientLoop S) (hattempt : s.attempt = some k)
      (ht : s.tasks[k]? = some t) (hloop : t.loop? = some loop) :
      OperationStep s .connected { s.signalTo s.shutdown .dropped with
        shutdown := some k, rpcTx := some k, eventsTx := some k, state := some k, attempt := none, last := some k }
  | connectEnds (how : ConnectEnd) (k : Nat) (hattempt : s.attempt = some k) :
      OperationStep s (.connectEnds how) ({ s with attempt := none }.signalTo (some k) .dropped)
  | disconnect (hexcl : s.exclusive = true) : OperationStep s .disconnect s.shutDown
  | drop (hexcl : s.exclusive = true) :
      OperationStep s .drop { s.shutDown with
        rpcTx := none, eventsTx := none, state := none, dropped := true }

/-- An operation on the client itself, or one of the quiet steps. -/
def quiet : ApplicationAct → Bool
  | .connect => false
  | .connected => false
  | .connectEnds _ => false
  | .disconnect => false
  | .drop => false
  | _ => true

theorem step_quiet {version : HeaderValue} {s s' : ApplicationClient S} {a : ApplicationAct}
    (ha : quiet a = true) (h : s.step version a = some s') : QuietStep version s a s' := by
  cases a with
  | task k a =>
    rw [step, task, Option.map_eq_some_iff] at h
    obtain ⟨t', h, rfl⟩ := h
    obtain ⟨t, ht, hstep⟩ := Option.bind_eq_some_iff.mp h
    exact .stepped k a t t' ht hstep
  | die k =>
    rw [step, die] at h
    split at h
    next t ht =>
      rw [Option.ite_none_left_eq_some] at h
      cases h.2
      exact .died k t ht (Bool.eq_false_iff.mpr h.1)
    next => cases h
  | makeRpcCall encoded =>
    rw [step, makeRpcCall, Option.ite_none_right_eq_some] at h
    obtain ⟨-, h⟩ := h
    split at h
    next k hrpc =>
      split at h
      next internal => cases h; exact .begun k internal hrpc
      next => cases h; exact .notEncoded k hrpc
    next hrpc => cases h; exact .notConnected encoded hrpc
  | sendCall n =>
    rw [step, sendCall] at h
    split at h
    next k internal hcall =>
      split at h
      next t ht =>
        split at h
        next hended => cases h; exact .refused n k internal t hcall ht hended
        next hended =>
          split at h
          next loop hphase =>
            obtain ⟨loop', hloop, rfl⟩ := Option.map_eq_some_iff.mp h
            exact .queued n k internal t loop loop' hcall ht (Bool.eq_false_iff.mpr hended) hphase hloop
          next => cases h
      next => cases h
    next => cases h
  | pollCall n =>
    rw [step, pollCall] at h
    split at h
    next k call hcall =>
      split at h
      next t ht =>
        split at h
        next completion hcompletion => cases h; exact .answered n k call t completion hcall ht hcompletion
        next hnone =>
          rw [Option.ite_none_right_eq_some] at h
          cases h.2
          exact .lost n k call t hcall ht hnone h.1
      next => cases h
    next => cases h
  | cancelCall n =>
    rw [step, cancelCall] at h
    split at h
    next phase hcall =>
      rw [Option.ite_none_left_eq_some] at h
      cases h.2
      exact .cancelled n phase hcall (Bool.eq_false_iff.mpr h.1)
    next => cases h
  | connect => cases ha
  | connected => cases ha
  | connectEnds how => cases ha
  | disconnect => cases ha
  | drop => cases ha

theorem step_operation {version : HeaderValue} {s s' : ApplicationClient S} {a : ApplicationAct}
    (ha : quiet a = false) (h : s.step version a = some s') : OperationStep s a s' := by
  cases a with
  | connect =>
    rw [step, connect, Option.ite_none_right_eq_some] at h
    cases h.2
    exact .connect h.1
  | connected =>
    rw [step] at h
    unfold connected at h
    split at h
    next k hattempt =>
      split at h
      next loop hloop =>
        cases h
        obtain ⟨t, ht, hloop⟩ := Option.bind_eq_some_iff.mp hloop
        exact .connected k t loop hattempt ht hloop
      next => cases h
    next => cases h
  | connectEnds how =>
    rw [step] at h
    unfold connectEnds at h
    split at h
    next k hattempt =>
      rw [Option.ite_none_right_eq_some] at h
      cases h.2
      exact .connectEnds how k hattempt
    next => cases h
  | disconnect =>
    rw [step, disconnect, Option.ite_none_right_eq_some] at h
    cases h.2
    exact .disconnect h.1
  | drop =>
    rw [step, drop, Option.ite_none_right_eq_some] at h
    cases h.2
    exact .drop h.1
  | _ => cases ha

/-! ## Who has which sender -/

/-- The senders of the connections: those in the struct, and those of the shutdown channels. -/
structure Ownership where
  shutdown : Option Nat
  rpcTx : Option Nat
  eventsTx : Option Nat
  state : Option Nat
  dropped : Bool
  attempt : Option Nat
  last : Option Nat
  signals : List Signal

def ownership (s : ApplicationClient S) : Ownership where
  shutdown := s.shutdown
  rpcTx := s.rpcTx
  eventsTx := s.eventsTx
  state := s.state
  dropped := s.dropped
  attempt := s.attempt
  last := s.last
  signals := s.tasks.map (·.signal)

theorem map_signal_set {tasks : List (Background S)} {k : Nat} {t t' : Background S}
    (ht : tasks[k]? = some t) (hsignal : t'.signal = t.signal) :
    (tasks.set k t').map (·.signal) = tasks.map (·.signal) := by
  obtain ⟨hk, rfl⟩ := List.getElem?_eq_some_iff.mp ht
  have hlt : k < (tasks.map (·.signal)).length := by rwa [List.length_map]
  have hget : t'.signal = (tasks.map (·.signal))[k] := by rw [hsignal, List.getElem_map]
  rw [List.map_set, hget, List.set_getElem_self]

/-- **The steps of the tasks and of the calls move no sender.** -/
theorem QuietStep.ownership {version : HeaderValue} {s s' : ApplicationClient S} {a : ApplicationAct}
    (h : QuietStep version s a s') : s'.ownership = s.ownership := by
  have hset {k : Nat} {t t' : Background S} (ht : s.tasks[k]? = some t) (hsignal : t'.signal = t.signal) :
      ({ s with tasks := s.tasks.set k t' } : ApplicationClient S).ownership = s.ownership := by
    simp only [ApplicationClient.ownership, map_signal_set ht hsignal]
  cases h with
  | stepped k a t t' ht hstep =>
    obtain ⟨-, hsignal, -, -⟩ := Background.step_cases hstep
    exact hset ht hsignal
  | died k t ht hended => exact hset ht rfl
  | queued n k internal t loop loop' hcall ht hended hphase hloop => exact hset ht rfl
  | _ => rfl

end ApplicationClient

end HardLight
