import HardLight.Remote.Service
import HardLight.Session.Grows
import HardLight.System.Basic
import HardLight.Lib.Linear

/-!
# A service and its clients

The server with its event switch and all its connections, the handler tasks at work on the state of the
application, which they share, and the applications at the generated clients. Peers that are no clients send what
they like. A method does its work in one step, as under the lock of that state; when it does, and when the task
then returns or panics, is open.

`history` is what the applications of the clients see, `order` the operations in the order in which the handlers
did their work; both are history variables. What a peer that is no client has done is in the history as a call
that is made when the work is done and never returns.

* `Remote.step` : an application calls a client method, a handler task does its work or comes to an end, or
  anything else happens in the system;
* `Remote.Step`, `Remote.step_cases` : what a step can do.
-/

namespace HardLight
open Lib

/-- A handler task: its request, and what `handle_rpc_call` came to, if its work is done. -/
structure Task where
  request : Request
  handled : Option (Option (HandlerResult Bytes))

namespace SessionAct

/-- An application call, or a handler task that returns: what the generated code has a part in. -/
def ofApplication : SessionAct → Bool
  | client (.call _) => true
  | conn (.handlerReturns _ _) => true
  | _ => false

end SessionAct

namespace SystemAct

def ofApplication : SystemAct → Bool
  | session _ a => a.ofApplication
  | _ => false

/-- The place of the handler task of connection `c` that ends. -/
def ends (c : ConnId) : SystemAct → Option Nat
  | session c' a => if c' = c then a.ends else none
  | _ => none

theorem ends_eq_none {c : ConnId} {a : SystemAct} (h : ∀ b, a ≠ .session c b) : a.ends c = none := by
  cases a with
  | session c' b =>
    refine if_neg fun he => h b ?_
    rw [he]
  | _ => rfl

end SystemAct

/-- The name of a call: the connection and the number of the call on it. -/
abbrev RemoteCall := ConnId × Call

section Remote
variable {τ : Type} {El : τ → Type} [DecidableEq τ] {σ : Type}

structure Remote (svc : Service τ El σ) (S : StateStruct) where
  object : σ
  system : System S
  tasks : ConnId → List Task
  /-- Call number `n` of connection `c` was made by entry `n`. -/
  made : ConnId → List (StubCall svc)
  history : List (Observation RemoteCall (ConnId × Invocation El) (Outcome El))
  order : List (RemoteCall × (ConnId × Invocation El) × Outcome El)

inductive RemoteAct (svc : Service τ El σ)
  /-- The application of the client at `c` calls a client method. -/
  | call (c : ConnId) (stub : StubCall svc)
  /-- The handler task at place `n` of connection `c` does its work. -/
  | execute (c : ConnId) (n : Nat)
  /-- It sends its response. -/
  | respond (c : ConnId) (n : Nat)
  | system (a : SystemAct)

/-- The tasks of a connection after a step that ends one of them, if any, and leaves the requests `now` running. -/
def followTasks (tasks : List Task) (ends : Option Nat) (now : List Request) : List Task :=
  match ends with
  | some n => tasks.eraseIdx n
  | none => tasks ++ (now.drop tasks.length).map fun r => { request := r, handled := none }

variable {svc : Service τ El σ} {S : StateStruct}

/-- What the application of the client at `c` sees of completions. -/
def observe (c : ConnId) (made : List (StubCall svc)) (completions : List (Call × Completion)) :
    List (Observation RemoteCall (ConnId × Invocation El) (Outcome El)) :=
  completions.filterMap fun x => (made[x.1]?).map fun stub =>
    match x.2 with
    | .output result => .returned (c, x.1) (stub.outcome result)
    | .failed _ => .failed (c, x.1)

namespace Remote

/-- `shipped c` says whether the peer of connection `c` is a generated client. -/
def init (svc : Service τ El σ) (S : StateStruct) (shipped : ConnId → Bool) (object : σ) : Remote svc S where
  object := object
  system := .init S shipped
  tasks _ := []
  made _ := []
  history := []
  order := []

/-- What the applications see of a step of the system. -/
def observed (r : Remote svc S) (a : SystemAct) (system : System S) :
    List (Observation RemoteCall (ConnId × Invocation El) (Outcome El)) :=
  match a with
  | .session c _ => observe c (r.made c)
      ((system.sessions c).client.completions.drop (r.system.sessions c).client.completions.length)
  | _ => []

/-- A step of the system that makes no call. -/
def advance (r : Remote svc S) (a : SystemAct) : Option (Remote svc S) :=
  (r.system.step a).map fun system => { r with
    system := system
    tasks := fun c => followTasks (r.tasks c) (a.ends c) (system.conn c).tasks
    history := r.history ++ r.observed a system }

/-- A client method hands its request to `make_rpc_call`. -/
def call (r : Remote svc S) (c : ConnId) (stub : StubCall svc) : Option (Remote svc S) :=
  match stub.request with
  | some (some bytes) => (r.system.step (.session c (.client (.call bytes)))).map fun system => { r with
      system := system
      made := Function.update r.made c (r.made c ++ [stub])
      history := r.history ++ [.called (c, (r.made c).length) (c, stub.invocation)] }
  | _ => none

/-- The name of a call whose work is being done. -/
def callOf (r : Remote svc S) (c : ConnId) (request : Request) : RemoteCall :=
  (c, if (r.system.sessions c).shipped then request.call else r.order.length)

/-- A handler task does its work. -/
def execute (r : Remote svc S) (c : ConnId) (n : Nat) : Option (Remote svc S) :=
  match (r.tasks c)[n]? with
  | some { request := request, handled := none } =>
    (svc.handle c request.internal r.object).map fun handled => { r with
      object := handled.state
      tasks := Function.update r.tasks c
        ((r.tasks c).set n { request := request, handled := some handled.result })
      history := r.history ++
        if (r.system.sessions c).shipped then []
        else handled.invocations.map fun invocation => .called (r.callOf c request) (c, invocation)
      order := r.order ++ handled.invocations.map fun invocation =>
        (r.callOf c request, (c, invocation), (svc.apply (c, invocation) r.object).1) }
  | _ => none

/-- A handler task that has done its work returns. -/
def respond (r : Remote svc S) (c : ConnId) (n : Nat) : Option (Remote svc S) :=
  match (r.tasks c)[n]? with
  | some { request := _, handled := some (some result) } =>
    r.advance (.session c (.conn (.handlerReturns n result)))
  | _ => none

def step (r : Remote svc S) : RemoteAct svc → Option (Remote svc S)
  | .call c stub => r.call c stub
  | .execute c n => r.execute c n
  | .respond c n => r.respond c n
  | .system a => if a.ofApplication then none else r.advance a

/-! ## What a step can do -/

/-- The steps of a service with its clients. -/
inductive Step (r : Remote svc S) : Remote svc S → Prop
  | called (c : ConnId) (stub : StubCall svc) (bytes : Bytes) (system : System S)
      (hrequest : stub.request = some (some bytes))
      (hs : r.system.step (.session c (.client (.call bytes))) = some system) :
      Step r { r with
        system := system
        made := Function.update r.made c (r.made c ++ [stub])
        history := r.history ++ [.called (c, (r.made c).length) (c, stub.invocation)] }
  | executed (c : ConnId) (n : Nat) (request : Request) (handled : Handled El σ)
      (htask : (r.tasks c)[n]? = some ⟨request, none⟩)
      (hhandled : svc.handle c request.internal r.object = some handled) :
      Step r { r with
        object := handled.state
        tasks := Function.update r.tasks c ((r.tasks c).set n ⟨request, some handled.result⟩)
        history := r.history ++
          if (r.system.sessions c).shipped then []
          else handled.invocations.map fun invocation => .called (r.callOf c request) (c, invocation)
        order := r.order ++ handled.invocations.map fun invocation =>
          (r.callOf c request, (c, invocation), (svc.apply (c, invocation) r.object).1) }
  | advanced (a : SystemAct) (system : System S) (hs : r.system.step a = some system)
      (hcall : ∀ c internal, a ≠ .session c (.client (.call internal)))
      (hreturn : ∀ c n result, a = .session c (.conn (.handlerReturns n result)) →
        ∃ request, (r.tasks c)[n]? = some ⟨request, some (some result)⟩) :
      Step r { r with
        system := system
        tasks := fun c => followTasks (r.tasks c) (a.ends c) (system.conn c).tasks
        history := r.history ++ r.observed a system }

/-- **What a step of a service with its clients can do.** -/
theorem step_cases {r r' : Remote svc S} {a : RemoteAct svc} (h : r.step a = some r') : Step r r' := by
  cases a with
  | call c stub =>
    rw [step, call] at h
    split at h
    next bytes hrequest =>
      obtain ⟨system, hs, rfl⟩ := Option.map_eq_some_iff.mp h
      exact .called c stub bytes system hrequest hs
    next => cases h
  | execute c n =>
    rw [step, execute] at h
    split at h
    next request htask =>
      obtain ⟨handled, hhandled, rfl⟩ := Option.map_eq_some_iff.mp h
      exact .executed c n request handled htask hhandled
    next => cases h
  | respond c n =>
    rw [step, respond] at h
    split at h
    next request result htask =>
      obtain ⟨system, hs, rfl⟩ := Option.map_eq_some_iff.mp h
      refine .advanced _ system hs (fun c' internal he => by cases he) fun c' n' result' he => ?_
      cases he
      exact ⟨request, htask⟩
    next => cases h
  | system a =>
    rw [step, Option.ite_none_left_eq_some] at h
    obtain ⟨hno, h⟩ := h
    obtain ⟨system, hs, rfl⟩ := Option.map_eq_some_iff.mp h
    refine .advanced a system hs (fun c internal he => ?_) fun c n result he => ?_
    · exact hno (he ▸ rfl)
    · exact absurd (he ▸ rfl) hno

end Remote

end Remote

end HardLight
